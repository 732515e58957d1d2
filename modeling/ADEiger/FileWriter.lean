import ADEiger.TransitionSystem
import ADEiger.Channel
import ADEiger.RestNames
import Mathlib.Algebra.Group.Nat.Defs
import Mathlib.Logic.Function.Basic

/-! The FileWriter pipeline: pollTask, downloadTask, parseTask, saveTask and reapTask.
They share the file records and `mPendingFiles`, and hand file pointers around through
bounded message queues. Each access to shared data is a step of its own; a section under
the driver lock is one step. REST, HDF5 and file system outcomes belong to the event. -/
namespace FileWriter

open TransitionSystem RestNames

def MAX_BUF_SIZE : ℕ := 256
def DEFAULT_NR_START : ℕ := 1
def DEFAULT_QUEUE_CAPACITY : ℕ := 2
def MAX_RETRIES : ℕ := 2

/-- `acquisition_t`. -/
structure Acquisition where
  pattern : List Char
  sequenceId : ℤ
  nDataFiles : ℕ
  saveFiles : Bool
  parseFiles : Bool
  removeFiles : Bool
  filePerms : ℕ
  deriving DecidableEq, Repr

/-- `file_t`. A null `data` is `none`. -/
structure File where
  name : List Char
  data : Option (List UInt8)
  len : ℕ
  save : Bool
  parse : Bool
  remove : Bool
  refCount : ℕ
  uid : ℕ
  gid : ℕ
  perms : ℕ
  deriving DecidableEq, Repr

/-- An element of the array that the `block`-th `calloc` of pollTask returned. -/
structure FilePtr where
  block : ℕ
  idx : ℕ
  deriving DecidableEq, Repr

/-- One entry of the list pollTask generates; the master file comes first. The number of a data
file is passed as an `int`. -/
def buildFile (acq : Acquisition) (uid gid i : ℕ) : File :=
  let isMaster := i == 0
  let parse := if isMaster then false else acq.parseFiles
  { name :=
      if isMaster then buildMasterName acq.pattern acq.sequenceId MAX_BUF_SIZE
      else buildDataName (Int.bmod (i - 1 + DEFAULT_NR_START : ℕ) (2 ^ 32)) acq.pattern
        acq.sequenceId MAX_BUF_SIZE
    data := none
    len := 0
    save := acq.saveFiles
    parse := parse
    remove := acq.removeFiles
    refCount := acq.saveFiles.toNat + parse.toNat
    uid := uid
    gid := gid
    perms := acq.filePerms }

/-- `--file->refCount` on a `size_t`. -/
def decrement (n : ℕ) : ℕ := if n = 0 then 2 ^ 64 - 1 else n - 1

inductive PollPc where
  | receive | reset | polling | count | send | draining | free
  deriving DecidableEq, Repr

inductive DownloadPc where
  | receive
  | getFile (p : FilePtr)
  | testParse (p : FilePtr)
  | sendParse (p : FilePtr)
  | testSave (p : FilePtr)
  | sendSave (p : FilePtr)
  | sendFailed (p : FilePtr)
  deriving DecidableEq, Repr

inductive ParsePc where
  | receive
  | parseFile (p : FilePtr)
  | sendReap (p : FilePtr)
  deriving DecidableEq, Repr

inductive SavePc where
  | receive
  | openFile (p : FilePtr)
  | write (p : FilePtr) (total : ℕ)
  | sendReap (p : FilePtr)
  deriving DecidableEq, Repr

inductive ReapPc where
  | receive
  | release (p : FilePtr)
  | testRemove (p : FilePtr)
  | deleteFile (p : FilePtr)
  | freeData (p : FilePtr)
  | uncount (p : FilePtr)
  deriving DecidableEq, Repr

/-- The fields from `built` on are histories: no step reads them. -/
structure State where
  pollQueue : List Acquisition
  pollStop : Bool
  pollComplete : Bool
  pollDoneEvent : Bool
  pendingFiles : ℤ
  files : FilePtr → File
  downloadQueue : Channel FilePtr
  parseQueue : Channel FilePtr
  saveQueue : Channel FilePtr
  reapQueue : Channel FilePtr
  poll : PollPc
  block : ℕ
  totalFiles : ℕ
  i : ℕ
  retries : ℕ
  download : DownloadPc
  parse : ParsePc
  save : SavePc
  reap : ReapPc
  built : FilePtr → File
  bytes : FilePtr → List UInt8
  written : FilePtr → List UInt8
  counted : List FilePtr
  downloaded : List FilePtr
  failed : List FilePtr
  failedPosted : List FilePtr
  parsed : List FilePtr
  saved : List FilePtr
  saveErrors : List FilePtr
  released : List FilePtr
  deleted : List FilePtr
  freed : List FilePtr
  uncounted : List FilePtr
  dropped : List FilePtr

def initial : State where
  pollQueue := []
  pollStop := false
  pollComplete := false
  pollDoneEvent := false
  pendingFiles := 0
  files := fun _ => buildFile ⟨[], 0, 0, false, false, false, 0⟩ 0 0 0
  downloadQueue := .empty
  parseQueue := .empty
  saveQueue := .empty
  reapQueue := .empty
  poll := .receive
  block := 0
  totalFiles := 0
  i := 0
  retries := 0
  download := .receive
  parse := .receive
  save := .receive
  reap := .receive
  built := fun _ => buildFile ⟨[], 0, 0, false, false, false, 0⟩ 0 0 0
  bytes := fun _ => []
  written := fun _ => []
  counted := []
  downloaded := []
  failed := []
  failedPosted := []
  parsed := []
  saved := []
  saveErrors := []
  released := []
  deleted := []
  freed := []
  uncounted := []
  dropped := []

/-- The pointer refers to the array that pollTask has allocated and not yet freed. -/
def Live (s : State) (p : FilePtr) : Prop :=
  s.poll ≠ .receive ∧ p.block = s.block ∧ p.idx < s.totalFiles

instance (s : State) (p : FilePtr) : Decidable (Live s p) :=
  inferInstanceAs (Decidable (_ ∧ _ ∧ _))

/-- `submit` and `stop` are the requests of controlTask. `overwrite` is a later use of
memory that was freed: the contents of a freed array are indeterminate. -/
inductive Event where
  | submit (acq : Acquisition)
  | stop
  | overwrite (contents : FilePtr → File)
  | receiveAcquisition (acq : Acquisition) (uid gid : ℕ)
  | resetPending
  | waitFile (found : Bool)
  | leaveLoop
  | count
  | sendDownload
  | readPending
  | free
  | receiveDownload (p : FilePtr)
  | getFile (p : FilePtr) (result : Option (List UInt8))
  | testParse (p : FilePtr)
  | sendParse (p : FilePtr)
  | testSave (p : FilePtr)
  | sendSave (p : FilePtr)
  | sendFailed (p : FilePtr)
  | receiveParse (p : FilePtr)
  | parseFile (p : FilePtr)
  | sendParsed (p : FilePtr)
  | receiveSave (p : FilePtr)
  | openFile (p : FilePtr) (ok : Bool)
  | write (p : FilePtr) (total : ℕ) (result : Option ℕ)
  | closeFile (p : FilePtr) (total : ℕ)
  | sendSaved (p : FilePtr)
  | receiveReap (p : FilePtr)
  | release (p : FilePtr)
  | testRemove (p : FilePtr)
  | deleteFile (p : FilePtr)
  | freeData (p : FilePtr)
  | uncount (p : FilePtr)

def LoopGuard (s : State) : Prop := s.i < s.totalFiles ∧ s.retries ≤ MAX_RETRIES

/-- `&files[i]` of the current list. -/
def curFile (s : State) : FilePtr := ⟨s.block, s.i⟩

/-- A positive result of `write` is at most the number of bytes asked for. -/
def WriteResult (asked : ℕ) : Option ℕ → Prop
  | none => True
  | some n => 0 < n ∧ n ≤ asked

def Enabled (s : State) : Event → Prop
  | .submit _ => s.pollQueue.length < 1
  | .stop => True
  | .overwrite _ => True
  | .receiveAcquisition acq _ _ => s.poll = .receive ∧ s.pollQueue.head? = some acq
  | .resetPending => s.poll = .reset
  | .waitFile _ => s.poll = .polling ∧ LoopGuard s
  | .leaveLoop => s.poll = .polling ∧ ¬ LoopGuard s
  | .count => s.poll = .count
  | .sendDownload => s.poll = .send ∧ s.downloadQueue.queue.length < DEFAULT_QUEUE_CAPACITY
  | .readPending => s.poll = .draining
  | .free => s.poll = .free
  | .receiveDownload p => s.download = .receive ∧ s.downloadQueue.queue.head? = some p
  | .getFile p _ => s.download = .getFile p
  | .testParse p => s.download = .testParse p
  | .sendParse p =>
    s.download = .sendParse p ∧ s.parseQueue.queue.length < DEFAULT_QUEUE_CAPACITY
  | .testSave p => s.download = .testSave p
  | .sendSave p =>
    s.download = .sendSave p ∧ s.saveQueue.queue.length < DEFAULT_QUEUE_CAPACITY
  | .sendFailed p =>
    s.download = .sendFailed p ∧ s.reapQueue.queue.length < DEFAULT_QUEUE_CAPACITY * 2
  | .receiveParse p => s.parse = .receive ∧ s.parseQueue.queue.head? = some p
  | .parseFile p => s.parse = .parseFile p
  | .sendParsed p =>
    s.parse = .sendReap p ∧ s.reapQueue.queue.length < DEFAULT_QUEUE_CAPACITY * 2
  | .receiveSave p => s.save = .receive ∧ s.saveQueue.queue.head? = some p
  | .openFile p _ => s.save = .openFile p
  | .write p total result =>
    s.save = .write p total ∧ total < (s.files p).len ∧
      WriteResult ((s.files p).len - total) result
  | .closeFile p total => s.save = .write p total ∧ ¬ total < (s.files p).len
  | .sendSaved p =>
    s.save = .sendReap p ∧ s.reapQueue.queue.length < DEFAULT_QUEUE_CAPACITY * 2
  | .receiveReap p => s.reap = .receive ∧ s.reapQueue.queue.head? = some p
  | .release p => s.reap = .release p
  | .testRemove p => s.reap = .testRemove p
  | .deleteFile p => s.reap = .deleteFile p
  | .freeData p => s.reap = .freeData p
  | .uncount p => s.reap = .uncount p

instance (asked : ℕ) : (r : Option ℕ) → Decidable (WriteResult asked r) := by
  rintro ⟨⟩ <;> simp only [WriteResult] <;> infer_instance

instance (s : State) : Decidable (LoopGuard s) := inferInstanceAs (Decidable (_ ∧ _))

instance (s : State) : (e : Event) → Decidable (Enabled s e) := by
  rintro ⟨⟩ <;> simp only [Enabled] <;> infer_instance

/-- Write one file record through its pointer. -/
def setFile (s : State) (p : FilePtr) (f : File) : FilePtr → File :=
  Function.update s.files p f

def next (s : State) : Event → State
  | .submit acq =>
    { s with pollComplete := false, pollStop := false, pollQueue := s.pollQueue ++ [acq] }
  | .stop => { s with pollStop := true }
  | .overwrite contents =>
    { s with files := fun p => if Live s p then s.files p else contents p }
  | .receiveAcquisition acq uid gid =>
    { s with
      pollQueue := s.pollQueue.tail
      block := s.block + 1
      totalFiles := acq.nDataFiles + 1
      files := fun p =>
        if p.block = s.block + 1 then buildFile acq uid gid p.idx else s.files p
      built := fun p =>
        if p.block = s.block + 1 then buildFile acq uid gid p.idx else s.built p
      poll := .reset }
  | .resetPending => { s with pendingFiles := 0, i := 0, retries := 0, poll := .polling }
  | .waitFile found =>
    if found then
      if (s.files (curFile s)).save || (s.files (curFile s)).parse then
        { s with poll := .count }
      else if (s.files (curFile s)).remove then
        { s with dropped := s.dropped ++ [curFile s], i := s.i + 1 }
      else { s with i := s.i + 1 }
    else if s.pollStop then { s with retries := s.retries + 1 }
    else s
  | .leaveLoop => { s with poll := .draining }
  | .count =>
    { s with pendingFiles := s.pendingFiles + 1
             counted := s.counted ++ [curFile s]
             poll := .send }
  | .sendDownload =>
    { s with downloadQueue := s.downloadQueue.send (curFile s)
             i := s.i + 1
             poll := .polling }
  | .readPending => if s.pendingFiles = 0 then { s with poll := .free } else s
  | .free =>
    { s with pollComplete := s.i == s.totalFiles, pollDoneEvent := true, poll := .receive }
  | .receiveDownload p =>
    { s with downloadQueue := s.downloadQueue.receive, download := .getFile p }
  -- getBlob leaves a null buffer and length 0 behind when it fails
  | .getFile p none =>
    { s with files := setFile s p { s.files p with data := none, len := 0 }
             failed := s.failed ++ [p]
             download := .sendFailed p }
  | .getFile p (some data) =>
    { s with files := setFile s p { s.files p with data := some data, len := data.length }
             bytes := Function.update s.bytes p data
             downloaded := s.downloaded ++ [p]
             download := .testParse p }
  | .testParse p =>
    { s with download := if (s.files p).parse then .sendParse p else .testSave p }
  | .sendParse p =>
    { s with parseQueue := s.parseQueue.send p, download := .testSave p }
  | .testSave p =>
    { s with download := if (s.files p).save then .sendSave p else .receive }
  | .sendSave p => { s with saveQueue := s.saveQueue.send p, download := .receive }
  | .sendFailed p =>
    { s with reapQueue := s.reapQueue.send p
             failedPosted := s.failedPosted ++ [p]
             download := .receive }
  | .receiveParse p => { s with parseQueue := s.parseQueue.receive, parse := .parseFile p }
  -- a failed parse is only reported
  | .parseFile p => { s with parse := .sendReap p }
  | .sendParsed p =>
    { s with reapQueue := s.reapQueue.send p, parsed := s.parsed ++ [p], parse := .receive }
  | .receiveSave p => { s with saveQueue := s.saveQueue.receive, save := .openFile p }
  | .openFile p true => { s with save := .write p 0 }
  | .openFile p false =>
    { s with files := setFile s p { s.files p with remove := false }
             saveErrors := s.saveErrors ++ [p]
             save := .sendReap p }
  | .write p _ none =>
    { s with files := setFile s p { s.files p with remove := false }
             saveErrors := s.saveErrors ++ [p]
             save := .sendReap p }
  | .write p total (some n) =>
    { s with written := Function.update s.written p
               (s.written p ++ ((((s.files p).data.getD []).drop total).take n))
             save := .write p (total + n) }
  | .closeFile p _ => { s with save := .sendReap p }
  | .sendSaved p =>
    { s with reapQueue := s.reapQueue.send p, saved := s.saved ++ [p], save := .receive }
  | .receiveReap p => { s with reapQueue := s.reapQueue.receive, reap := .release p }
  | .release p =>
    { s with files := setFile s p
               { s.files p with refCount := decrement (s.files p).refCount }
             released := s.released ++ [p]
             reap := if decrement (s.files p).refCount = 0 then .testRemove p else .receive }
  | .testRemove p =>
    { s with reap := if (s.files p).remove then .deleteFile p else .freeData p }
  | .deleteFile p => { s with deleted := s.deleted ++ [p], reap := .freeData p }
  | .freeData p =>
    if (s.files p).data.isSome then
      { s with files := setFile s p { s.files p with data := none }
               freed := s.freed ++ [p]
               reap := .uncount p }
    else { s with reap := .uncount p }
  | .uncount p =>
    { s with pendingFiles := s.pendingFiles - 1
             uncounted := s.uncounted ++ [p]
             reap := .receive }

def system : System State Event where
  Start s := s = initial
  Enabled := Enabled
  next := next

instance (s : State) (e : Event) : Decidable (system.Enabled s e) :=
  inferInstanceAs (Decidable (Enabled s e))

end FileWriter
