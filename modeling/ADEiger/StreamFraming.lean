import ADEiger.FrozenDocument
import ADEiger.StreamApi

/-! StreamAPI and the loop of streamTask on the bytes of one series.
The three functions of StreamAPI each take as many parts from the socket as they expect. -/
namespace StreamFraming

open CString (Text)
open Frozen (JsonToken findJsonToken parseJson)
open StreamApi (HeaderDetail Err)

/-- What the socket gives next: a part of a message, or a second without one. -/
inductive Item where
  | wait
  | part (bytes : Text)
  deriving DecidableEq

/-- A receive waits as long as it takes. -/
def recv : List Item → Option (Text × List Item)
  | [] => none
  | .wait :: s => recv s
  | .part bytes :: s => some (bytes, s)

/-- `poll` with a timeout of one second; `none` when nothing more arrives. -/
def poll : List Item → Option (Err × List Item)
  | [] => none
  | .wait :: s => some (.timeout, s)
  | .part bytes :: s => some (.success, .part bytes :: s)

section Tokens

def MAX_JSON_TOKENS : ℕ := 512

/-- `sscanf` with `%lu`. -/
def scanSize (text : Text) : Option ℕ :=
  (EigerParams.scanInt text).map fun v =>
    if v.natAbs < 2 ^ 64 then (v % 2 ^ 64).toNat else 2 ^ 64 - 1

def readSize (tokens : List JsonToken) (name : Text) : Option ℕ :=
  match findJsonToken tokens name with
  | some (t :: _) => scanSize t.text
  | _ => none

/-- `readToken` into a buffer of `size` characters. -/
def readChars (tokens : List JsonToken) (name : Text) (size : ℕ) : Option Text :=
  match findJsonToken tokens name with
  | some (t :: _) => if size < t.text.length then none else some t.text
  | _ => none

/-- `readToken` into an array of `size` numbers: the tokens inside that of the name. -/
def readSizes (tokens : List JsonToken) (name : Text) (size : ℕ) : Option (List ℕ) :=
  match findJsonToken tokens name with
  | some (t :: more) =>
    if size < t.numDesc then none else (more.take t.numDesc).mapM fun t => scanSize t.text
  | _ => none

def readString (tokens : List JsonToken) (name : Text) : Option Text :=
  match findJsonToken tokens name with
  | some (t :: _) => some t.text
  | _ => none

end Tokens

section Header

/-- What getHeader finds in a part: the series and how many parts it is to skip. -/
def readHeader (bytes : Text) : Except Err (ℕ × ℕ) :=
  match parseJson MAX_JSON_TOKENS bytes with
  | none => .error .error
  | some tokens =>
    match readString tokens "htype".toList with
    | none => .error .error
    | some htype =>
      if "dheader".toList.isPrefixOf htype then
        match readSize tokens "series".toList with
        | none => .error .error
        | some series =>
          match readString tokens "header_detail".toList with
          | none => .error .error
          | some headerDetail => .ok (series,
              if headerDetail = "basic".toList then 1
              else if headerDetail = "all".toList then 7 else 0)
      else .error .wrongHtype

/-- `getHeader(NULL, timeout)`. -/
def dropHeader (s : List Item) : List Item :=
  match poll s with
  | none => s
  | some (.success, s) =>
    match recv s with
    | none => s
    | some (_, s) => s
  | some (_, s) => s

/-- The loop over the parts to skip, whose status is dropped. -/
def skipParts : ℕ → List Item → List Item
  | 0, s => s
  | n + 1, s => skipParts n (dropHeader s)

def getHeader (s : List Item) : Option (Except Err ℕ × List Item) :=
  match poll s with
  | none => none
  | some (.success, s) =>
    match recv s with
    | none => none
    | some (bytes, s) =>
      match readHeader bytes with
      | .error err => some (.error err, s)
      | .ok (series, skip) => some (.ok series, skipParts skip s)
  | some (err, s) => some (.error err, s)

end Header

section Frame

inductive Waited where
  | seriesEnd
  | image (series frame : ℕ)
  | failed
  deriving DecidableEq, Repr

/-- What waitFrame finds in a part; `htype` has room for 64 characters. -/
def readImageHeader (bytes : Text) : Waited :=
  match parseJson MAX_JSON_TOKENS bytes with
  | none => .failed
  | some tokens =>
    let htype := readChars tokens "htype".toList 64
    if "dseries_end".toList.isPrefixOf (htype.getD []) then .seriesEnd
    else match htype, readSize tokens "series".toList, readSize tokens "frame".toList with
      | some _, some series, some frame => .image series frame
      | _, _, _ => .failed

def waitFrame (s : List Item) : Option (Waited × List Item) :=
  match recv s with
  | none => none
  | some (bytes, s) => some (readImageHeader bytes, s)

/-- `NDDataType_t`, as far as it occurs here. -/
inductive DataType where
  | int8 | uint8 | int16 | uint16 | int32 | uint32
  deriving DecidableEq, Repr

/-- The types of the stream, with their sizes. -/
def readDataType (dataType : Text) : Option (DataType × ℕ) :=
  if "uint32".toList.isPrefixOf dataType then some (.uint32, 4)
  else if "uint16".toList.isPrefixOf dataType then some (.uint16, 2)
  else if "uint8".toList.isPrefixOf dataType then some (.uint8, 1)
  else none

structure Shape where
  x : ℕ
  y : ℕ
  frameType : DataType
  elemSize : ℕ
  encoding : Text
  compressedSize : ℕ
  deriving DecidableEq

/-- What getFrame finds in a part. There is room for two dimensions: with fewer `frameShape` is
not set and a third is written behind it, so that nothing can be said of the array. -/
def readShape (bytes : Text) : Option Shape :=
  match parseJson MAX_JSON_TOKENS bytes with
  | none => none
  | some tokens =>
    match readSizes tokens "shape".toList 3, readChars tokens "type".toList 8,
      readChars tokens "encoding".toList 32, readSize tokens "size".toList with
    | some [x, y], some dataType, some encoding, some size =>
      (readDataType dataType).map fun t => ⟨x, y, t.1, t.2, encoding, size⟩
    | _, _, _, _ => none

/-- In `size_t`. -/
def Shape.uncompressedSize (shape : Shape) : ℕ := shape.x * shape.y * shape.elemSize % 2 ^ 64

inductive Codec where
  | none | lz4 | bslz4
  deriving DecidableEq, Repr

/-- `data` is `none` where nothing was written to `pData`. -/
structure NDArray where
  dims : ℕ × ℕ
  dataType : DataType
  codec : Codec
  compressedSize : Option ℕ
  data : Option Text
  deriving DecidableEq

/-- What the stream is read with: the settings at each frame, whether the pool has an array for
it, and the two libraries that uncompress, which can fail. -/
structure Env where
  decompress : ℕ → Bool
  signedData : ℕ → Bool
  alloc : ℕ → Shape → Bool
  lz4 : Text → ℕ → Option Text
  bshuf : Text → ℕ → ℕ → Option Text

def bslz4Encodings : List Text :=
  ["bs32-lz4<".toList, "bs16-lz4<".toList, "bs8-lz4<".toList]

def uncompress (env : Env) (input : Text) (shape : Shape) : Option Text :=
  if shape.encoding = "lz4<".toList then env.lz4 input shape.uncompressedSize
  else if shape.encoding ∈ bslz4Encodings then
    env.bshuf (input.drop 12) (shape.uncompressedSize / shape.elemSize) shape.elemSize
  else none

/-- The array that getFrame makes of a shape and the data after it. -/
def readData (env : Env) (k : ℕ) (shape : Shape) (data : Text) : NDArray :=
  let dims := (shape.x, shape.y)
  if shape.encoding = "<".toList then
    ⟨dims, shape.frameType, .none, none, some (data.take shape.uncompressedSize)⟩
  else
    let temp := data.take shape.compressedSize
    if env.decompress k then ⟨dims, shape.frameType, .none, none, uncompress env temp shape⟩
    else if shape.encoding = "lz4<".toList then
      ⟨dims, shape.frameType, .lz4, some shape.compressedSize, some temp⟩
    else if shape.encoding ∈ bslz4Encodings then
      ⟨dims, shape.frameType, .bslz4, some ((shape.compressedSize + (2 ^ 64 - 12)) % 2 ^ 64),
        some (temp.drop 12)⟩
    else ⟨dims, shape.frameType, .none, some shape.compressedSize, some temp⟩

/-- `none` in place of the array when getFrame fails, which streamTask does not look at; the
parts that come after the shape are then left in the socket. -/
def getFrame (env : Env) (k : ℕ) (s : List Item) : Option (Option NDArray × List Item) :=
  match recv s with
  | none => none
  | some (bytes, s) =>
    match readShape bytes with
    | none => some (none, s)
    | some shape =>
      if env.alloc k shape = false then some (none, s)
      else match recv s with
        | none => none
        | some (data, s) =>
          match recv s with
          | none => none
          | some (_, s) => some (some (readData env k shape data), s)

def DataType.signed : DataType → DataType
  | .uint8 => .int8
  | .uint16 => .int16
  | .uint32 => .int32
  | t => t

/-- The array as streamTask hands it on. -/
def NDArray.publish (env : Env) (k : ℕ) (a : NDArray) : NDArray :=
  if env.signedData k then { a with dataType := a.dataType.signed } else a

end Frame

section Receive

variable {s s' : List Item}

theorem recv_length {bytes : Text} (h : recv s = some (bytes, s')) : s'.length < s.length := by
  induction s with
  | nil => cases h
  | cons item s ih =>
    cases item with
    | wait => exact Nat.lt_succ_of_lt (ih h)
    | part bytes' =>
      obtain ⟨-, rfl⟩ := Prod.mk.inj (Option.some.inj h)
      exact Nat.lt_succ_self _

theorem dropHeader_eq (s : List Item) : dropHeader s = s.tail := by
  cases s with
  | nil => rfl
  | cons item s => cases item <;> rfl

theorem skipParts_eq (n : ℕ) (s : List Item) : skipParts n s = s.drop n := by
  induction n generalizing s with
  | zero => rfl
  | succ n ih => rw [skipParts, ih, dropHeader_eq, List.drop_tail]

theorem getHeader_length {r : Except Err ℕ} (h : getHeader s = some (r, s')) :
    s'.length < s.length := by
  cases s with
  | nil => cases h
  | cons item s =>
    rw [List.length_cons, Nat.lt_succ_iff]
    cases item with
    | wait =>
      obtain ⟨-, rfl⟩ := Prod.mk.inj (Option.some.inj h)
      exact le_rfl
    | part bytes =>
      simp only [getHeader, poll, recv] at h
      cases hr : readHeader bytes with
      | error err =>
        rw [hr] at h
        obtain ⟨-, rfl⟩ := Prod.mk.inj (Option.some.inj h)
        exact le_rfl
      | ok r =>
        rw [hr] at h
        obtain ⟨-, rfl⟩ := Prod.mk.inj (Option.some.inj h)
        rw [skipParts_eq, List.length_drop]
        exact Nat.sub_le _ _

theorem waitFrame_length {w : Waited} (h : waitFrame s = some (w, s')) : s'.length < s.length := by
  rw [waitFrame] at h
  cases hr : recv s with
  | none => simp [hr] at h
  | some r =>
    obtain ⟨bytes, t⟩ := r
    rw [hr] at h
    obtain ⟨-, rfl⟩ := Prod.mk.inj (Option.some.inj h)
    exact recv_length hr

theorem getFrame_length {env : Env} {k : ℕ} {a : Option NDArray}
    (h : getFrame env k s = some (a, s')) : s'.length < s.length := by
  rw [getFrame] at h
  rcases hshape : recv s with _ | ⟨bytes, t⟩ <;> rw [hshape] at h
  · cases h
  · have ht := recv_length hshape
    dsimp only at h
    cases hread : readShape bytes with
    | none =>
      rw [hread] at h
      obtain ⟨-, rfl⟩ := Prod.mk.inj (Option.some.inj h)
      exact ht
    | some shape =>
      rw [hread] at h
      dsimp only at h
      split_ifs at h
      · obtain ⟨-, rfl⟩ := Prod.mk.inj (Option.some.inj h)
        exact ht
      · rcases hdata : recv t with _ | ⟨data, u⟩ <;> rw [hdata] at h
        · cases h
        · have hu := recv_length hdata
          dsimp only at h
          rcases htimes : recv u with _ | ⟨times, v⟩ <;> rw [htimes] at h
          · cases h
          · obtain ⟨-, rfl⟩ := Prod.mk.inj (Option.some.inj h)
            have hv := recv_length htimes
            omega

end Receive

section Series

/-- How the loop ends: with the end of the series, at the label `end` after an error, or not,
because nothing more arrives. -/
inductive Outcome where
  | ended | failed | waiting
  deriving DecidableEq, Repr

structure Series where
  outcome : Outcome
  frames : List (Option NDArray)
  rest : List Item
  deriving DecidableEq

/-- streamTask until getHeader succeeds. -/
def headerLoop (s : List Item) : Option (Bool × List Item) :=
  match _h : getHeader s with
  | none => none
  | some (.ok _, s') => some (true, s')
  | some (.error .wrongHtype, s') => headerLoop s'
  | some (.error .timeout, s') => headerLoop s'
  | some (.error _, s') => some (false, s')
  termination_by s.length
  decreasing_by all_goals exact getHeader_length _h

/-- streamTask from waitFrame on; `k` counts the frames. -/
def frameLoop (env : Env) (k : ℕ) (s : List Item) : Series :=
  match _h : waitFrame s with
  | none => ⟨.waiting, [], []⟩
  | some (.failed, s') => ⟨.failed, [], s'⟩
  | some (.seriesEnd, s') => ⟨.ended, [], s'⟩
  | some (.image _ _, s') =>
    match _h' : getFrame env k s' with
    | none => ⟨.waiting, [], []⟩
    | some (a, s'') =>
      let series := frameLoop env (k + 1) s''
      { series with frames := a.map (·.publish env k) :: series.frames }
  termination_by s.length
  decreasing_by exact Nat.lt_trans (getFrame_length _h') (waitFrame_length _h)

theorem headerLoop_eq (s : List Item) : headerLoop s = match getHeader s with
    | none => none
    | some (.ok _, s') => some (true, s')
    | some (.error .wrongHtype, s') => headerLoop s'
    | some (.error .timeout, s') => headerLoop s'
    | some (.error _, s') => some (false, s') := by
  rw [headerLoop]
  split <;> simp_all

theorem frameLoop_eq (env : Env) (k : ℕ) (s : List Item) : frameLoop env k s =
    match waitFrame s with
    | none => ⟨.waiting, [], []⟩
    | some (.failed, s') => ⟨.failed, [], s'⟩
    | some (.seriesEnd, s') => ⟨.ended, [], s'⟩
    | some (.image _ _, s') =>
      match getFrame env k s' with
      | none => ⟨.waiting, [], []⟩
      | some (a, s'') => { frameLoop env (k + 1) s'' with
          frames := a.map (·.publish env k) :: (frameLoop env (k + 1) s'').frames } := by
  rw [frameLoop]
  split
  · simp_all
  · simp_all
  · simp_all
  · next heq =>
    rw [heq]
    dsimp only
    split <;> simp_all

/-- One series of streamTask. -/
def streamSeries (env : Env) (s : List Item) : Series :=
  match headerLoop s with
  | none => ⟨.waiting, [], []⟩
  | some (false, s) => ⟨.failed, [], s⟩
  | some (true, s) => frameLoop env 0 s

end Series

end StreamFraming
