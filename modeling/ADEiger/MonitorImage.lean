import Mathlib.Data.Int.Basic
import Mathlib.Data.List.Basic
import Mathlib.Tactic.ByContra
import Mathlib.Tactic.SplitIfs

/-! The images of the monitor interface, which arrive as TIFF files.
parseTiffFile believes what the file says of itself up to the pixels, and has taken an array from
the pool and a number for it before it looks where these are. -/
namespace MonitorImage

/-- The memory from the start of a buffer on, of which `len` bytes belong to it. -/
structure Buffer where
  len : ℕ
  byte : ℕ → UInt8

/-- The bytes that were received, and what stands behind them. -/
def Buffer.ofBytes (bytes : List UInt8) (behind : UInt8) : Buffer :=
  ⟨bytes.length, fun pos => bytes.getD pos behind⟩

/-- An access to the buffer, for so many bytes. -/
structure Read where
  pos : ℕ
  size : ℕ
  deriving DecidableEq, Repr

def Read.Inside (r : Read) (b : Buffer) : Prop := r.pos + r.size ≤ b.len

section File

/-- A number of `size` bytes, on a host that puts the lowest first. -/
def Buffer.number (b : Buffer) (pos : ℕ) : ℕ → ℕ
  | 0 => 0
  | size + 1 => (b.byte pos).toNat + 256 * b.number (pos + 1) size

def TIFF_HEADER : ℕ := 0x0002A4949

/-- `tag_t` has a size of 12 bytes: id, type, count and offset. -/
structure Tags where
  width : ℕ := 0
  height : ℕ := 0
  depth : ℕ := 0
  dataLen : ℕ := 0
  stripOffset : ℕ := 0
  deriving DecidableEq, Repr

def knownTags : List ℕ := [256, 257, 258, 273, 279]

def Tags.set (tags : Tags) (id value : ℕ) : Tags :=
  match id with
  | 256 => { tags with width := value }
  | 257 => { tags with height := value }
  | 258 => { tags with depth := value }
  | 273 => { tags with stripOffset := value }
  | 279 => { tags with dataLen := value }
  | _ => tags

def Buffer.offset (b : Buffer) : ℕ := b.number 4 4

def Buffer.numEntries (b : Buffer) : ℕ := b.number b.offset 2

/-- Where the entry of this index stands. -/
def Buffer.entry (b : Buffer) (i : ℕ) : ℕ := b.offset + 2 + 12 * i

def Buffer.tagId (b : Buffer) (i : ℕ) : ℕ := b.number (b.entry i) 2

def Buffer.tagOffset (b : Buffer) (i : ℕ) : ℕ := b.number (b.entry i + 8) 4

/-- The tags after so many entries of the directory; a later entry counts. -/
def Buffer.tags (b : Buffer) : ℕ → Tags
  | 0 => {}
  | n + 1 => (b.tags n).set (b.tagId n) (b.tagOffset n)

/-- What is loaded for the entry; its value only if the tag is one that is looked for. -/
def Buffer.entryReads (b : Buffer) (i : ℕ) : List Read :=
  ⟨b.entry i, 2⟩ :: if b.tagId i ∈ knownTags then [⟨b.entry i + 8, 4⟩] else []

def Buffer.tagReads (b : Buffer) : ℕ → List Read
  | 0 => []
  | n + 1 => b.tagReads n ++ b.entryReads n

/-- The tags of the whole directory. -/
def Buffer.fileTags (b : Buffer) : Tags := b.tags b.numEntries

inductive DataType where
  | uint8 | uint16 | uint32
  deriving DecidableEq, Repr

def dataType : ℕ → Option DataType
  | 8 => some .uint8
  | 16 => some .uint16
  | 32 => some .uint32
  | _ => none

end File

section ParseTiffFile

inductive AsynStatus where
  | success | error
  deriving DecidableEq, Repr

/-- `uniqueId` is a static of parseTiffFile; arrays are counted as they are taken from the pool. -/
structure Monitor where
  uniqueId : ℤ
  taken : ℕ
  released : List ℕ
  deriving DecidableEq, Repr

/-- An array that is handed to the plugins, with the number of bytes copied into it. -/
structure Image where
  array : ℕ
  uniqueId : ℤ
  width : ℕ
  height : ℕ
  depth : ℕ
  dataType : DataType
  copied : ℕ
  deriving DecidableEq, Repr

structure Outcome where
  status : AsynStatus
  reads : List Read
  published : Option Image
  monitor : Monitor

/-- From the array on: it has been taken from the pool. -/
def storeImage (b : Buffer) (tags : Tags) (type : DataType) (reads : List Read) (m : Monitor) :
    Outcome :=
  let array := m.taken
  let uniqueId := m.uniqueId
  let m := { m with taken := m.taken + 1, uniqueId := m.uniqueId + 1 }
  if tags.stripOffset = 0 then ⟨.error, reads, none, m⟩
  else if b.len < tags.stripOffset + tags.dataLen then ⟨.error, reads, none, m⟩
  else ⟨.success, reads ++ [⟨tags.stripOffset, tags.dataLen⟩],
    some ⟨array, uniqueId, tags.width, tags.height, tags.depth, type, tags.dataLen⟩,
    { m with released := m.released ++ [array] }⟩

/-- `alloc` says whether the pool has an array. -/
def parseTiffFile (alloc : Bool) (b : Buffer) (m : Monitor) : Outcome :=
  if b.number 0 4 ≠ TIFF_HEADER then ⟨.error, [⟨0, 4⟩], none, m⟩
  else
    let tags := b.fileTags
    let reads := ⟨0, 4⟩ :: ⟨4, 4⟩ :: ⟨b.offset, 2⟩ :: b.tagReads b.numEntries
    if tags.width = 0 ∨ tags.height = 0 ∨ tags.depth = 0 ∨ tags.dataLen = 0 then
      ⟨.error, reads, none, m⟩
    else
      match dataType tags.depth with
      | none => ⟨.error, reads, none, m⟩
      | some type =>
        if alloc then storeImage b tags type reads m else ⟨.error, reads, none, m⟩

/-- The file passes the checks that come before the array. -/
structure Buffer.Typed (b : Buffer) : Prop where
  header : b.number 0 4 = TIFF_HEADER
  width : b.fileTags.width ≠ 0
  height : b.fileTags.height ≠ 0
  dataLen : b.fileTags.dataLen ≠ 0
  depth : b.fileTags.depth = 8 ∨ b.fileTags.depth = 16 ∨ b.fileTags.depth = 32

/-- The pixels are said to be inside the buffer. -/
structure Buffer.StripInside (b : Buffer) : Prop where
  present : b.fileTags.stripOffset ≠ 0
  bound : b.fileTags.stripOffset + b.fileTags.dataLen ≤ b.len

theorem dataType_isSome_iff (depth : ℕ) :
    (∃ type, dataType depth = some type) ↔ depth = 8 ∨ depth = 16 ∨ depth = 32 := by
  constructor
  · rintro ⟨type, h⟩
    unfold dataType at h
    split at h
    · exact Or.inl rfl
    · exact Or.inr (Or.inl rfl)
    · exact Or.inr (Or.inr rfl)
    · cases h
  · rintro (rfl | rfl | rfl) <;> exact ⟨_, rfl⟩

variable {b : Buffer} {m : Monitor} {alloc : Bool} {type : DataType} {reads : List Read}

/-- The loads up to the array. -/
def Buffer.scanReads (b : Buffer) : List Read :=
  if b.number 0 4 ≠ TIFF_HEADER then [⟨0, 4⟩]
  else ⟨0, 4⟩ :: ⟨4, 4⟩ :: ⟨b.offset, 2⟩ :: b.tagReads b.numEntries

/-- Either parseTiffFile comes to the array, or it leaves everything as it was. -/
theorem parseTiffFile_cases (alloc : Bool) (b : Buffer) (m : Monitor) :
    (alloc = true ∧ b.Typed ∧
      ∃ type, parseTiffFile alloc b m = storeImage b b.fileTags type b.scanReads m) ∨
    ¬ (alloc = true ∧ b.Typed) ∧ parseTiffFile alloc b m = ⟨.error, b.scanReads, none, m⟩ := by
  rw [parseTiffFile, Buffer.scanReads]
  by_cases hheader : b.number 0 4 = TIFF_HEADER
  · rw [if_neg (not_not.mpr hheader), if_neg (not_not.mpr hheader)]
    dsimp only
    by_cases hzero : b.fileTags.width = 0 ∨ b.fileTags.height = 0 ∨ b.fileTags.depth = 0 ∨
        b.fileTags.dataLen = 0
    · rw [if_pos hzero]
      refine Or.inr ⟨fun ⟨_, h⟩ => ?_, rfl⟩
      rcases hzero with hw | hh | hd | hl
      · exact h.width hw
      · exact h.height hh
      · have hdepth := h.depth
        omega
      · exact h.dataLen hl
    · rw [if_neg hzero]
      simp only [not_or] at hzero
      cases htype : dataType b.fileTags.depth with
      | none =>
        refine Or.inr ⟨fun ⟨_, h⟩ => ?_, rfl⟩
        obtain ⟨type, hsome⟩ := (dataType_isSome_iff _).mpr h.depth
        cases htype.symm.trans hsome
      | some type =>
        cases alloc with
        | false => exact Or.inr ⟨fun h => Bool.false_ne_true h.1, rfl⟩
        | true => exact Or.inl ⟨rfl, ⟨hheader, hzero.1, hzero.2.1, hzero.2.2.2,
            (dataType_isSome_iff _).mp ⟨type, htype⟩⟩, type, rfl⟩
  · rw [if_pos hheader, if_pos hheader]
    exact Or.inr ⟨fun ⟨_, h⟩ => hheader h.header, rfl⟩

theorem storeImage_inside (h : b.StripInside) : storeImage b b.fileTags type reads m =
    ⟨.success, reads ++ [⟨b.fileTags.stripOffset, b.fileTags.dataLen⟩],
      some ⟨m.taken, m.uniqueId, b.fileTags.width, b.fileTags.height, b.fileTags.depth, type,
        b.fileTags.dataLen⟩,
      ⟨m.uniqueId + 1, m.taken + 1, m.released ++ [m.taken]⟩⟩ := by
  rw [storeImage, if_neg h.present, if_neg (Nat.not_lt.mpr h.bound)]

theorem storeImage_outside (h : ¬ b.StripInside) : storeImage b b.fileTags type reads m =
    ⟨.error, reads, none, ⟨m.uniqueId + 1, m.taken + 1, m.released⟩⟩ := by
  rw [storeImage]
  split_ifs with hpresent hbound
  · rfl
  · rfl
  · exact absurd ⟨hpresent, Nat.le_of_not_lt hbound⟩ h

end ParseTiffFile

section Reads

variable {b : Buffer} {m : Monitor} {alloc : Bool}

/-- The directory is inside the buffer, and of its last entry what is looked at. -/
structure Buffer.DirectoryInside (b : Buffer) : Prop where
  offset : 8 ≤ b.len
  numEntries : b.offset + 2 ≤ b.len
  lastId : ∀ n, b.numEntries = n + 1 → b.entry n + 2 ≤ b.len
  lastValue : ∀ n, b.numEntries = n + 1 → b.tagId n ∈ knownTags → b.entry n + 12 ≤ b.len

theorem entryReads_inside_iff (i : ℕ) : (∀ r ∈ b.entryReads i, r.Inside b) ↔
    b.entry i + 2 ≤ b.len ∧ (b.tagId i ∈ knownTags → b.entry i + 12 ≤ b.len) := by
  rw [Buffer.entryReads, List.forall_mem_cons]
  refine and_congr Iff.rfl ?_
  split_ifs with hknown
  · simp [hknown, Read.Inside]
  · simp [hknown]

/-- With an entry that starts inside the buffer, all entries before it are in it. -/
theorem tagReads_inside {n : ℕ} (h : b.entry n ≤ b.len) : ∀ r ∈ b.tagReads n, r.Inside b := by
  induction n with
  | zero => exact List.forall_mem_nil _
  | succ n ih =>
    have hentry : b.entry (n + 1) = b.entry n + 12 := by
      rw [Buffer.entry, Buffer.entry]
      omega
    refine List.forall_mem_append.mpr ⟨ih (by omega), ?_⟩
    exact (entryReads_inside_iff n).mpr ⟨by omega, fun _ => by omega⟩

theorem tagReads_inside_iff (n : ℕ) :
    (∀ r ∈ b.tagReads n, r.Inside b) ↔ ∀ k, n = k + 1 →
      b.entry k + 2 ≤ b.len ∧ (b.tagId k ∈ knownTags → b.entry k + 12 ≤ b.len) := by
  cases n with
  | zero => exact iff_of_true (List.forall_mem_nil _) fun k hk => by omega
  | succ n =>
    rw [Buffer.tagReads, List.forall_mem_append, entryReads_inside_iff]
    constructor
    · rintro ⟨-, h⟩ k hk
      obtain rfl := Nat.succ.inj hk
      exact h
    · intro h
      have hlast := h n rfl
      exact ⟨tagReads_inside (Nat.le_trans (Nat.le_add_right _ 2) hlast.1), hlast⟩

theorem scanReads_inside_iff (b : Buffer) : (∀ r ∈ b.scanReads, r.Inside b) ↔
    4 ≤ b.len ∧ (b.number 0 4 = TIFF_HEADER → b.DirectoryInside) := by
  rw [Buffer.scanReads]
  by_cases hheader : b.number 0 4 = TIFF_HEADER
  · rw [if_neg (not_not.mpr hheader)]
    simp only [List.forall_mem_cons]
    constructor
    · rintro ⟨h, hoffset, hnum, htags⟩
      have hlast := (tagReads_inside_iff _).mp htags
      exact ⟨h, fun _ => ⟨hoffset, hnum, fun n hn => (hlast n hn).1, fun n hn => (hlast n hn).2⟩⟩
    · rintro ⟨h, hdir⟩
      have hdir := hdir hheader
      exact ⟨h, hdir.offset, hdir.numEntries, (tagReads_inside_iff _).mpr
        fun n hn => ⟨hdir.lastId n hn, hdir.lastValue n hn⟩⟩
  · rw [if_pos hheader, List.forall_mem_singleton]
    exact ⟨fun h => ⟨h, fun h => absurd h hheader⟩, fun h => h.1⟩

/-- All loads are from the buffer, and as much is copied as the array has room for. -/
structure Outcome.InBuffers (o : Outcome) (b : Buffer) : Prop where
  reads : ∀ r ∈ o.reads, r.Inside b
  copied : ∀ image, o.published = some image →
    image.copied = image.width * image.height * image.depth / 8

/-- The condition on the file: its directory is inside the buffer, and the strip that it names has
the size of the image. -/
structure Buffer.Consistent (b : Buffer) (alloc : Bool) : Prop where
  header : 4 ≤ b.len
  directory : b.number 0 4 = TIFF_HEADER → b.DirectoryInside
  strip : alloc = true → b.Typed → b.StripInside →
    b.fileTags.dataLen = b.fileTags.width * b.fileTags.height * b.fileTags.depth / 8

/-- For every buffer, whatever stands behind it. -/
theorem in_buffers_iff (alloc : Bool) (b : Buffer) (m : Monitor) :
    (parseTiffFile alloc b m).InBuffers b ↔ b.Consistent alloc := by
  obtain ⟨halloc, htyped, type, hparse⟩ | ⟨hnot, hparse⟩ := parseTiffFile_cases alloc b m
  · rw [hparse]
    by_cases hstrip : b.StripInside
    · rw [storeImage_inside hstrip]
      constructor
      · rintro ⟨hreads, hcopied⟩
        have hscan := (scanReads_inside_iff b).mp (List.forall_mem_append.mp hreads).1
        exact ⟨hscan.1, hscan.2, fun _ _ _ => hcopied _ rfl⟩
      · intro h
        refine ⟨List.forall_mem_append.mpr ⟨(scanReads_inside_iff b).mpr ⟨h.header, h.directory⟩,
          List.forall_mem_singleton.mpr hstrip.bound⟩, fun image himage => ?_⟩
        obtain rfl := Option.some.inj himage
        exact h.strip halloc htyped hstrip
    · rw [storeImage_outside hstrip]
      constructor
      · rintro ⟨hreads, -⟩
        have hscan := (scanReads_inside_iff b).mp hreads
        exact ⟨hscan.1, hscan.2, fun _ _ h => absurd h hstrip⟩
      · intro h
        exact ⟨(scanReads_inside_iff b).mpr ⟨h.header, h.directory⟩,
          fun _ himage => by cases himage⟩
  · rw [hparse]
    constructor
    · rintro ⟨hreads, -⟩
      have hscan := (scanReads_inside_iff b).mp hreads
      exact ⟨hscan.1, hscan.2, fun halloc htyped => absurd ⟨halloc, htyped⟩ hnot⟩
    · intro h
      exact ⟨(scanReads_inside_iff b).mpr ⟨h.header, h.directory⟩, fun _ himage => by cases himage⟩

/-- An entry of one number, of the type for 32 bits. -/
def tagEntry (id value : UInt8) : List UInt8 := [id, 1, 4, 0, 1, 0, 0, 0, value, 0, 0, 0]

def fileStart (entries : UInt8) : List UInt8 := [0x49, 0x49, 0x2A, 0, 8, 0, 0, 0, entries, 0]

/-- Two pixels by two of one byte, and a strip of five bytes. -/
def longStrip : Buffer := .ofBytes (fileStart 5 ++ tagEntry 0 2 ++ tagEntry 1 2 ++ tagEntry 2 8 ++
  tagEntry 17 70 ++ tagEntry 23 5 ++ [1, 2, 3, 4, 5]) 0

theorem strip_too_long : ¬ ∀ (alloc : Bool) (b : Buffer) (m : Monitor),
    (parseTiffFile alloc b m).InBuffers b := by
  intro h
  have hcopied := (h true longStrip ⟨1, 0, []⟩).copied ⟨0, 1, 2, 2, 8, .uint8, 5⟩
    (by decide +kernel)
  exact absurd hcopied (by decide)

end Reads

section Runs

/-- A buffer that parseTiffFile is called with, and whether the pool has an array then. -/
structure Call where
  buffer : Buffer
  alloc : Bool

def Call.outcome (c : Call) (m : Monitor) : Outcome := parseTiffFile c.alloc c.buffer m

/-- The numbers start from one. -/
def initial : Monitor := ⟨1, 0, []⟩

def run (m : Monitor) : List Call → Monitor
  | [] => m
  | c :: calls => run (c.outcome m).monitor calls

/-- All arrays taken so far are released once, and a call that fails has not numbered any. -/
structure NoTrace (m : Monitor) (o : Outcome) : Prop where
  released : ∀ array < o.monitor.taken, o.monitor.released.count array = 1
  rejected : o.status = .error → o.published = none ∧ o.monitor.uniqueId = m.uniqueId

/-- Each call of a sequence leaves no trace, from where the calls before it have left off. -/
def LeaveNoTrace (calls : List Call) : Prop :=
  ∀ before c after, calls = before ++ c :: after →
    NoTrace (run initial before) (c.outcome (run initial before))

/-- No array is taken for a file that does not say where its pixels are inside of the buffer. -/
def Call.ChecksBefore (c : Call) : Prop :=
  c.alloc = true → c.buffer.Typed → c.buffer.StripInside

/-- What is released is what was taken, and once. -/
def Balanced (m : Monitor) : Prop :=
  ∀ array, m.released.count array = if array < m.taken then 1 else 0

variable {c : Call} {m : Monitor}

theorem initial_balanced : Balanced initial := fun array => by simp [initial]

theorem Balanced.release (h : Balanced m) (uniqueId : ℤ) :
    Balanced ⟨uniqueId, m.taken + 1, m.released ++ [m.taken]⟩ := by
  intro array
  rw [List.count_append, List.count_singleton, h array]
  rcases Nat.lt_trichotomy array m.taken with hlt | rfl | hgt
  · simp [hlt, Nat.lt_succ_of_lt hlt, Nat.ne_of_gt hlt]
  · simp
  · simp [Nat.not_lt.mpr (Nat.le_of_lt hgt), Nat.not_lt.mpr hgt, Nat.ne_of_lt hgt]

theorem Call.outcome_balanced (h : c.ChecksBefore) (hm : Balanced m) :
    NoTrace m (c.outcome m) ∧ Balanced (c.outcome m).monitor := by
  rw [Call.outcome]
  obtain ⟨halloc, htyped, type, hparse⟩ | ⟨-, hparse⟩ := parseTiffFile_cases c.alloc c.buffer m
  · rw [hparse, storeImage_inside (h halloc htyped)]
    have hbalanced := hm.release (m.uniqueId + 1)
    refine ⟨⟨fun array hlt => ?_, fun herror => by cases herror⟩, hbalanced⟩
    rw [hbalanced array, if_pos hlt]
  · rw [hparse]
    refine ⟨⟨fun array hlt => ?_, fun _ => ⟨rfl, rfl⟩⟩, hm⟩
    rw [hm array, if_pos hlt]

/-- A call that does not has advanced the number and fails. -/
theorem Call.outcome_trace (h : ¬ c.ChecksBefore) : ¬ NoTrace m (c.outcome m) := by
  rw [Call.ChecksBefore] at h
  push Not at h
  obtain ⟨halloc, htyped, hstrip⟩ := h
  intro htrace
  rw [Call.outcome] at htrace
  obtain ⟨-, -, type, hparse⟩ | ⟨hnot, -⟩ := parseTiffFile_cases c.alloc c.buffer m
  · rw [hparse, storeImage_outside hstrip] at htrace
    have hid : m.uniqueId + 1 = m.uniqueId := (htrace.rejected rfl).2
    omega
  · exact hnot ⟨halloc, htyped⟩

theorem run_balanced {calls : List Call} (h : ∀ c ∈ calls, c.ChecksBefore) (hm : Balanced m) :
    Balanced (run m calls) := by
  induction calls generalizing m with
  | nil => exact hm
  | cons c calls ih =>
    obtain ⟨hc, hcalls⟩ := List.forall_mem_cons.mp h
    exact ih hcalls (Call.outcome_balanced hc hm).2

/-- For every sequence of buffers. -/
theorem leave_no_trace_iff (calls : List Call) :
    LeaveNoTrace calls ↔ ∀ c ∈ calls, c.ChecksBefore := by
  constructor
  · intro h c hc
    obtain ⟨before, after, hcalls⟩ := List.append_of_mem hc
    by_contra hnot
    exact Call.outcome_trace hnot (h before c after hcalls)
  · intro h before c after hcalls
    subst hcalls
    obtain ⟨hbefore, hc⟩ := List.forall_mem_append.mp h
    exact (Call.outcome_balanced (List.forall_mem_cons.mp hc).1
      (run_balanced hbefore initial_balanced)).1

/-- As `longStrip`, without the tag for the pixels. -/
def noStrip : Buffer := .ofBytes (fileStart 4 ++ tagEntry 0 2 ++ tagEntry 1 2 ++ tagEntry 2 8 ++
  tagEntry 23 4) 0

theorem array_kept : ¬ ∀ calls, LeaveNoTrace calls := by
  intro h
  have htrace := h [⟨noStrip, true⟩] [] ⟨noStrip, true⟩ [] rfl
  have hmonitor : ((Call.mk noStrip true).outcome initial).monitor = ⟨2, 1, []⟩ := by
    decide +kernel
  have hcount := htrace.released 0 (by rw [run, hmonitor]; exact Nat.one_pos)
  rw [run, hmonitor] at hcount
  exact absurd hcount (by decide)

end Runs

section MonitorTask

/-- One turn of monitorTask: whether the monitor is enabled, what getMonitorImage gives, and
whether the pool has an array. -/
structure Turn where
  enabled : Bool
  image : Option Buffer
  alloc : Bool

def monitorTask (m : Monitor) : List Turn → Monitor
  | [] => m
  | t :: turns =>
    match t.enabled, t.image with
    | true, some buffer => monitorTask (parseTiffFile t.alloc buffer m).monitor turns
    | _, _ => monitorTask m turns

/-- The call that a turn makes. -/
def Turn.call (t : Turn) : Option Call :=
  if t.enabled then t.image.map fun buffer => ⟨buffer, t.alloc⟩ else none

theorem monitorTask_eq_run (m : Monitor) (turns : List Turn) :
    monitorTask m turns = run m (turns.filterMap Turn.call) := by
  induction turns generalizing m with
  | nil => rfl
  | cons t turns ih =>
    obtain ⟨enabled, image, alloc⟩ := t
    cases enabled with
    | false => exact ih m
    | true =>
      cases image with
      | none => exact ih m
      | some buffer => exact ih _

/-- The pool gets every array back, however long the task runs. -/
theorem monitorTask_balanced {turns : List Turn}
    (h : ∀ t ∈ turns, ∀ c, t.call = some c → c.ChecksBefore) :
    Balanced (monitorTask initial turns) := by
  rw [monitorTask_eq_run]
  refine run_balanced (fun c hc => ?_) initial_balanced
  obtain ⟨t, ht, hcall⟩ := List.mem_filterMap.mp hc
  exact h t ht c hcall

end MonitorTask

end MonitorImage
