import ADEiger.TransitionSystem
import Mathlib.Algebra.Group.Nat.Defs
import Mathlib.Algebra.Group.Int.Defs
import Mathlib.Data.Int.Notation
import Mathlib.Data.Nat.Notation

/-! controlTask, streamTask and the clients of the driver.
They share the parameter library under the driver lock, and binary events. A section under
the lock is one step, except where it makes a call of its own: a task whose program counter
is `locked` keeps the lock between two steps. REST and stream outcomes belong to the event. -/
namespace Driver

open TransitionSystem

inductive ADStatus where
  | idle | acquire | aborted | error
  deriving DecidableEq, Repr

inductive DataSource where
  | none | fileWriter | stream
  deriving DecidableEq, Repr

inductive TriggerMode where
  | ints | inte | exts | exte | continuous | extg
  deriving DecidableEq, Repr

def STREAM_VERSION_STREAM : ℤ := 0
def STREAM_VERSION_STREAM2 : ℤ := 1

/-- Parameters that clients write and controlTask only latches. `filePathExists` is what
checkPath finds. -/
structure Settings where
  fwEnable : Bool
  streamEnable : Bool
  saveFiles : Bool
  filePathExists : Bool
  manualTrigger : Bool
  triggerMode : TriggerMode
  numTriggers : ℤ
  deriving DecidableEq, Repr

/-- The locals of controlTask that it sets when an acquisition starts. -/
structure Latched where
  dataSource : DataSource
  fwEnable : Bool
  saveFiles : Bool
  manualTrigger : Bool
  triggerMode : TriggerMode
  numImages : ℤ
  savedNumImages : ℤ
  numTriggers : ℤ
  deriving DecidableEq, Repr

inductive ControlPc where
  | waiting | woken | arm | manualWait | testTrigger | trigger | fetchState | waitStop
  | relock | disarm | fetchFWState | waitPoll | waitStream | finish
  deriving DecidableEq, Repr

/-- `version` is streamTask's local `streamVersion`, `object` the receiver that a blocking
call was made on. -/
inductive StreamPc where
  | waiting
  | woken
  | getHeader (version : ℤ)
  | inGetHeader (version : ℤ) (object : Option ℕ)
  | waitFrame (version : ℤ)
  | inWaitFrame (version : ℤ) (object : Option ℕ)
  | getFrame (version : ℤ) (thresholds : ℕ)
  | finish
  deriving DecidableEq, Repr

/-- Receivers are numbered in the order of their creation. The fields from `deleted` on are
histories: no step reads them, but for `aborting`, the accepted stops on their way. -/
structure State where
  adStatus : ADStatus
  adAcquire : ℤ
  numImages : ℤ
  numImagesCounter : ℤ
  armed : Bool
  dataSource : DataSource
  streamVersion : ℤ
  settings : Settings
  startEvent : Bool
  stopEvent : Bool
  triggerEvent : Bool
  pollDoneEvent : Bool
  streamEvent : Bool
  streamDoneEvent : Bool
  pollPending : Bool
  pollStop : Bool
  streamComplete : Bool
  streamAPI : Option ℕ
  stream2API : Option ℕ
  nextReceiver : ℕ
  control : ControlPc
  latched : Latched
  triggers : ℤ
  state : String
  stream : StreamPc
  aborting : List ℕ
  deleted : List ℕ
  stops : ℕ
  stopped : Bool
  consumed : ℕ
  signalled : ℕ

def initial : State where
  adStatus := .idle
  adAcquire := 0
  numImages := 1
  numImagesCounter := 0
  armed := false
  dataSource := .none
  streamVersion := STREAM_VERSION_STREAM
  settings := ⟨false, false, false, false, false, .ints, 1⟩
  startEvent := false
  stopEvent := false
  triggerEvent := false
  pollDoneEvent := false
  streamEvent := false
  streamDoneEvent := false
  pollPending := false
  pollStop := false
  streamComplete := false
  streamAPI := none
  stream2API := none
  nextReceiver := 0
  control := .waiting
  latched := ⟨.none, false, false, false, .ints, 1, 1, 1⟩
  triggers := 0
  state := ""
  stream := .waiting
  aborting := []
  deleted := []
  stops := 0
  stopped := false
  consumed := 0
  signalled := 0

/-- What a call of `getHeader` or `waitFrame` returns; `success` carries the number of
thresholds of the frame, or nothing at the end of the series. -/
inductive FrameResult where
  | success (thresholds : Option ℕ)
  | timeout
  | error
  deriving DecidableEq, Repr

inductive HeaderResult where
  | success | wrongHtype | timeout | error
  deriving DecidableEq, Repr

/-- Steps of controlTask, of streamTask, of pollTask and parseTask as far as they matter
here, and of the clients. A `fired` wait found its event set; the others timed out. -/
inductive Event where
  | wake
  | start (putOk : Bool)
  | arm (ok : Bool)
  | manualWait (fired : Bool)
  | testTrigger
  | trigger
  | fetchState (reported : Option String)
  | waitStop (fired : Bool)
  | relock
  | disarm
  | fetchFWState (reported : String)
  | pollDoneWait
  | streamDoneWait
  | finish (putOk : Bool)
  | wakeStream
  | checkReceiver
  | callGetHeader (version : ℤ)
  | getHeader (version : ℤ) (object : Option ℕ) (result : HeaderResult)
  | callWaitFrame (version : ℤ)
  | waitFrame (version : ℤ) (object : Option ℕ) (result : FrameResult)
  | getFrame (version : ℤ) (thresholds : ℕ)
  | finishStream
  | pollDone
  | parsed (counter : ℤ)
  | writeAcquire (value : ℤ)
  | finishStop (k : ℕ)
  | writeTrigger
  | writeDataSource (value : DataSource) (enabled : Bool)
  | writeStreamVersion (value : ℤ) (enabled : Bool)
  | writeNumImages (value : ℤ)
  | writeSettings (value : Settings)

/-- controlTask keeps the driver lock while it fetches the detector state. -/
def ControlPc.locked : ControlPc → Bool
  | .fetchState => true
  | _ => false

/-- streamTask keeps the driver lock while it publishes, and from there to its end. -/
def StreamPc.locked : StreamPc → Bool
  | .getFrame _ _ | .finish => true
  | _ => false

/-- `mStreamAPI` or `mStream2API`, whichever streamTask takes for this version. -/
def State.receiver (s : State) (version : ℤ) : Option ℕ :=
  if version = STREAM_VERSION_STREAM then s.streamAPI else s.stream2API

/-- The check for a missing receiver at the start of a series. -/
def State.receiverMissing (s : State) : Prop :=
  (s.streamVersion = STREAM_VERSION_STREAM ∧ s.streamAPI = none) ∨
    (s.streamVersion = STREAM_VERSION_STREAM2 ∧ s.stream2API = none)

instance (s : State) : Decidable s.receiverMissing := inferInstanceAs (Decidable (_ ∨ _))

/-- The detector states in which the wait loop goes on. -/
def busyStates : List String := ["configure", "ready", "acquire"]

/-- A client may take the lock. -/
def State.free (s : State) : Prop := s.control.locked = false ∧ s.stream.locked = false

instance (s : State) : Decidable s.free := inferInstanceAs (Decidable (_ ∧ _))

def Enabled (s : State) : Event → Prop
  | .wake => s.control = .waiting ∧ s.startEvent = true
  | .start _ => s.control = .woken ∧ s.stream.locked = false
  | .arm _ => s.control = .arm ∧ s.stream.locked = false
  | .manualWait fired => s.control = .manualWait ∧ s.triggerEvent = fired
  | .testTrigger => s.control = .testTrigger ∧ s.stream.locked = false
  | .trigger => s.control = .trigger ∧ s.stream.locked = false
  | .fetchState _ => s.control = .fetchState
  | .waitStop fired => s.control = .waitStop ∧ s.stopEvent = fired
  | .relock => s.control = .relock ∧ s.stream.locked = false
  | .disarm => s.control = .disarm ∧ s.stream.locked = false
  | .fetchFWState _ => s.control = .fetchFWState ∧ s.stream.locked = false
  | .pollDoneWait => s.control = .waitPoll ∧ s.pollDoneEvent = true
  | .streamDoneWait => s.control = .waitStream ∧ s.streamDoneEvent = true
  | .finish _ => s.control = .finish ∧ s.stream.locked = false
  | .wakeStream => s.stream = .waiting ∧ s.streamEvent = true
  | .checkReceiver => s.stream = .woken ∧ s.control.locked = false
  | .callGetHeader v => s.stream = .getHeader v
  | .getHeader v o _ => s.stream = .inGetHeader v o ∧ s.control.locked = false
  | .callWaitFrame v => s.stream = .waitFrame v
  | .waitFrame v o _ => s.stream = .inWaitFrame v o ∧ s.control.locked = false
  | .getFrame v n => s.stream = .getFrame v (n + 1)
  | .finishStream => s.stream = .finish
  | .pollDone => s.pollPending = true
  | .parsed _ => True
  | .finishStop k => k ∈ s.aborting ∧ s.free
  | .writeAcquire _ | .writeTrigger | .writeDataSource _ _ | .writeStreamVersion _ _
  | .writeNumImages _ | .writeSettings _ => s.free

instance (s : State) : (e : Event) → Decidable (Enabled s e) := by
  rintro ⟨⟩ <;> simp only [Enabled] <;> infer_instance

/-- The settings that controlTask refuses to start with. -/
def State.settingsError (s : State) : Prop :=
  (s.dataSource = .fileWriter ∧ s.settings.fwEnable = false) ∨
    (s.dataSource = .stream ∧ s.settings.streamEnable = false) ∨
    (s.settings.fwEnable ∧ s.settings.saveFiles ∧ ¬ s.settings.filePathExists)

instance (s : State) : Decidable s.settingsError :=
  inferInstanceAs (Decidable (_ ∨ _ ∨ _ ∧ _ ∧ _))

/-- `triggerMode == TRIGGER_MODE_INTE || triggerMode == TRIGGER_MODE_EXTE`. -/
def TriggerMode.oneImage (m : TriggerMode) : Bool := m == .inte || m == .exte

/-- The modes in which controlTask sends the triggers. -/
def TriggerMode.internal (m : TriggerMode) : Bool := m == .ints || m == .inte || m == .continuous

def State.latch (s : State) : Latched where
  dataSource := s.dataSource
  fwEnable := s.settings.fwEnable
  saveFiles := s.settings.saveFiles
  manualTrigger := s.settings.manualTrigger
  triggerMode := s.settings.triggerMode
  numImages := if s.settings.triggerMode.oneImage then 1 else s.numImages
  savedNumImages := s.numImages
  numTriggers := s.settings.numTriggers

def Latched.waitPoll (l : Latched) : Prop :=
  l.dataSource = .fileWriter ∨ (l.fwEnable ∧ l.saveFiles)

def Latched.waitStream (l : Latched) : Prop := l.dataSource = .stream

instance (l : Latched) : Decidable l.waitPoll := inferInstanceAs (Decidable (_ ∨ _ ∧ _))

instance (l : Latched) : Decidable l.waitStream := inferInstanceAs (Decidable (_ = _))

/-- `int expectedImages = numImages * numTriggers;` -/
def Latched.expectedImages (l : Latched) : ℤ := Int.bmod (l.numImages * l.numTriggers) (2 ^ 32)

/-- The test of the trigger loop; behind the loop controlTask still holds the lock. -/
def State.testTrigger (s : State) : State :=
  if s.adStatus = .acquire ∧ s.triggers < s.latched.numTriggers then
    { s with control := if s.latched.manualTrigger then .manualWait else .trigger }
  else { s with state := "", control := .fetchState }

/-- Post the acquisition to pollTask and wake streamTask, as far as they are wanted. -/
def State.startTasks (s : State) : State :=
  { s with
    pollStop := if s.latched.waitPoll then false else s.pollStop
    pollPending := if s.latched.waitPoll then true else s.pollPending
    streamComplete := if s.latched.waitStream then false else s.streamComplete
    streamEvent := if s.latched.waitStream then true else s.streamEvent }

/-- Where controlTask goes once FileWriter is done. -/
def Latched.afterPoll (l : Latched) : ControlPc := if l.waitStream then .waitStream else .finish

/-- A client write of DataSource or StreamVersion creates or deletes receivers. -/
def State.switchReceivers (s : State) (enabled : Bool) : State :=
  if s.dataSource = .stream then
    let s := { s with settings := { s.settings with streamEnable := enabled } }
    if s.streamVersion = STREAM_VERSION_STREAM then
      if s.streamAPI = none then
        { s with streamAPI := some s.nextReceiver, nextReceiver := s.nextReceiver + 1 }
      else s
    else if s.stream2API = none then
      { s with stream2API := some s.nextReceiver, nextReceiver := s.nextReceiver + 1 }
    else s
  else
    { s with
      deleted := s.deleted ++ s.streamAPI.toList ++ s.stream2API.toList
      streamAPI := none
      stream2API := none }

def next (s : State) : Event → State
  | .wake => { s with startEvent := false, control := .woken }
  | .start putOk =>
    let s := { s with adStatus := .acquire, stopEvent := false, triggerEvent := false,
                      pollDoneEvent := false, streamEvent := false, latched := s.latch }
    if s.settingsError then { s with adAcquire := 0, adStatus := .error, control := .waiting }
    else if s.settings.triggerMode.oneImage && putOk then
      { s with numImages := 1, control := .arm }
    else { s with control := .arm }
  | .arm false => { s with adAcquire := 0, adStatus := .error, control := .waiting }
  | .arm true =>
    let s := { s with numImagesCounter := 0, armed := true, triggers := 0 }.startTasks
    if s.latched.triggerMode.internal then s.testTrigger
    else { s with state := "", control := .fetchState }
  | .manualWait fired =>
    if fired then { s with triggerEvent := false, control := .trigger }
    else { s with control := .testTrigger }
  | .testTrigger => s.testTrigger
  | .trigger => { s with triggers := s.triggers + 1 }.testTrigger
  | .fetchState reported =>
    let state := reported.getD s.state
    if s.latched.expectedImages ≤ s.numImagesCounter ∨ state ∉ busyStates then
      { s with state := state, control := .disarm }
    else { s with state := state, control := .waitStop }
  | .waitStop fired =>
    if fired then { s with stopEvent := false, control := .disarm }
    else { s with control := .relock }
  | .relock => { s with control := .fetchState }
  | .disarm =>
    { s with armed := false
             control := if s.latched.waitPoll then .fetchFWState else s.latched.afterPoll }
  | .fetchFWState reported =>
    if reported = "acquire" then s else { s with pollStop := true, control := .waitPoll }
  | .pollDoneWait => { s with pollDoneEvent := false, control := s.latched.afterPoll }
  | .streamDoneWait => { s with streamDoneEvent := false, control := .finish }
  | .finish putOk =>
    let s := { s with
      numImages :=
        if s.latched.savedNumImages ≠ s.latched.numImages ∧ putOk = true then
          s.latched.savedNumImages
        else s.numImages
      control := .waiting }
    match s.adStatus with
    | .acquire =>
      if s.latched.triggerMode = .continuous then { s with startEvent := true }
      else { s with adStatus := .idle, adAcquire := 0 }
    | .aborted => { s with adAcquire := 0 }
    | _ => s
  | .wakeStream => { s with streamEvent := false, consumed := s.consumed + 1, stream := .woken }
  | .checkReceiver =>
    { s with stream := if s.receiverMissing then .waiting else .getHeader s.streamVersion }
  | .callGetHeader v => { s with stream := .inGetHeader v (s.receiver v) }
  | .getHeader v _ result =>
    { s with stream :=
        match result with
        | .success => .waitFrame v
        | .wrongHtype | .timeout => .getHeader v
        | .error => .finish }
  | .callWaitFrame v => { s with stream := .inWaitFrame v (s.receiver v) }
  | .waitFrame v _ result =>
    match result with
    | .success (some n) => { s with stream := if n = 0 then .waitFrame v else .getFrame v n }
    | .success none => { s with streamComplete := true, stream := .finish }
    | .timeout => { s with stream := .waitFrame v }
    | .error => { s with stream := .finish }
  | .getFrame v n =>
    { s with numImagesCounter := Int.bmod (s.numImagesCounter + 1) (2 ^ 32)
             stream := if n = 0 then .waitFrame v else .getFrame v n }
  | .finishStream =>
    { s with streamDoneEvent := true, signalled := s.signalled + 1, stream := .waiting }
  | .pollDone => { s with pollDoneEvent := true, pollPending := false }
  | .parsed counter => { s with numImagesCounter := counter }
  | .writeAcquire value =>
    if value ≠ 0 ∧ s.adStatus ≠ .acquire then
      { s with adStatus := .acquire, startEvent := true, adAcquire := value, stopped := false }
    else if value = 0 ∧ s.adStatus = .acquire then
      { s with adStatus := .aborted, aborting := s.aborting ++ [s.stops + 1]
               stops := s.stops + 1, stopped := true }
    else { s with adAcquire := value }
  | .finishStop k => { s with stopEvent := true, adAcquire := 0, aborting := s.aborting.erase k }
  | .writeTrigger => { s with triggerEvent := true }
  | .writeDataSource value enabled => { s with dataSource := value }.switchReceivers enabled
  | .writeStreamVersion value enabled => { s with streamVersion := value }.switchReceivers enabled
  | .writeNumImages value => { s with numImages := value }
  | .writeSettings value => { s with settings := value }

def system : System State Event where
  Start s := s = initial
  Enabled := Enabled
  next := next

instance (s : State) (e : Event) : Decidable (system.Enabled s e) :=
  inferInstanceAs (Decidable (Enabled s e))

end Driver
