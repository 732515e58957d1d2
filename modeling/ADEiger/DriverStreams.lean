import ADEiger.Coupling
import ADEiger.DriverCommands
import ADEiger.DriverStream
import ADEiger.StreamSeries

/-! controlTask together with streamTask and its socket.
streamTask is in the model of the driver with what its calls return, and in that of the series with
the messages that it takes from the socket. Here it takes each of its steps in both, so that what
is assumed in one can be had from the other. -/
namespace DriverStreams

open TransitionSystem
open StreamApi (Version Part Err getHeader waitFrame skip)

/-- `STREAM_VERSION_STREAM` or `STREAM_VERSION_STREAM2`. -/
def number : Version → ℤ
  | .stream => Driver.STREAM_VERSION_STREAM
  | .stream2 => Driver.STREAM_VERSION_STREAM2

/-- controlTask arms the detector, which answers with a sequence id; another step of the driver; or
a step of streamTask and the detector, with the receiver that a call was made on. -/
inductive Event where
  | arm (sequenceId : ℕ)
  | driver (e : Driver.Event)
  | stream (e : StreamSeries.Event) (object : Option ℕ)

def headerResult : Err → Driver.HeaderResult
  | .success => .success
  | .wrongHtype => .wrongHtype
  | .timeout => .timeout
  | .error | .unknown => .error

/-- The thresholds of the image that waitFrame found, or the end of the series. -/
def thresholds (v : Version) (m : Part) : Option ℕ :=
  match v, m.kind with
  | _, .seriesEnd => none
  | .stream, _ => some 1
  | .stream2, .image n => some n
  | .stream2, _ => some 0

def frameResult (v : Version) (m : Part) : Driver.FrameResult :=
  match waitFrame v m with
  | .success => .success (thresholds v m)
  | .timeout => .timeout
  | .wrongHtype | .error | .unknown => .error

/-- A call returns with the last part that it reads. -/
def driverStep (v : Version) : Event → Option Driver.Event
  | .arm _ => some (.arm true)
  | .driver e => some e
  | .stream e o =>
    match e with
    | .headerTimeout => some (.getHeader (number v) o .timeout)
    | .headerFailed => some (.getHeader (number v) o .error)
    | .getHeader m =>
      if getHeader v m = .success ∧ skip v m.kind ≠ 0 then none
      else some (.getHeader (number v) o (headerResult (getHeader v m)))
    | .skip 0 _ => some (.getHeader (number v) o .success)
    | .waitFrame m => some (.waitFrame (number v) o (frameResult v m))
    | .getShape _ false | .getTimes _ _ _ => some (.getFrame (number v) 0)
    | .getThreshold _ n _ => some (.getFrame (number v) n)
    | .finish => some .finishStream
    | .arm _ | .send _ | .skip (_ + 1) _ | .getShape _ true | .getData _ _ => none

/-- streamTask has part in an acquisition whose data source is the stream. -/
def streamStep (d : Driver.State) : Event → Option StreamSeries.Event
  | .arm sequenceId => if d.latched.waitStream then some (.arm sequenceId) else none
  | .driver _ => none
  | .stream e _ => some e

/-- Neither side takes the steps of the other, and images are counted by parseTask only when they
come from FileWriter. -/
def Allowed (v : Version) (d : Driver.State) : Event → Prop
  | .driver (.arm ok) => ok = false
  | .driver (.getHeader _ _ _) | .driver (.waitFrame _ _ _) | .driver (.getFrame _ _)
  | .driver .finishStream => False
  | .driver (.parsed _) => d.latched.dataSource = .fileWriter
  | .stream (.arm _) _ => False
  | .stream (.getHeader _) o | .stream (.skip _ _) o => d.stream = .inGetHeader (number v) o
  | _ => True

instance (v : Version) (d : Driver.State) (a : Event) : Decidable (Allowed v d a) := by
  unfold Allowed
  split <;> infer_instance

def coupling (v : Version) :
    Coupling Driver.State StreamSeries.State Driver.Event StreamSeries.Event Event where
  left _ := driverStep v
  right x := streamStep x.1
  Allowed x := Allowed v x.1

def system (v : Version) : System (Driver.State × StreamSeries.State) Event :=
  Driver.system.coupled (StreamSeries.system v) (coupling v)

def initial : Driver.State × StreamSeries.State := (Driver.initial, StreamSeries.initial)

theorem start_initial (v : Version) : (system v).Start initial := ⟨rfl, rfl⟩

instance (v : Version) (x : Driver.State × StreamSeries.State) (a : Event) :
    Decidable ((coupling v).Allowed x a) :=
  inferInstanceAs (Decidable (Allowed v x.1 a))

instance (v : Version) (x : Driver.State × StreamSeries.State) (a : Event) :
    Decidable ((system v).Enabled x a) :=
  inferInstanceAs (Decidable ((Driver.system.coupled (StreamSeries.system v) (coupling v)).Enabled
    x a))

/-- The clients take images from the stream, in the one version, and do not go back. -/
def KeepsStream (v : Version) (x : Driver.State × StreamSeries.State) : Event → Prop
  | .driver (.writeDataSource value _) => value = .stream
  | .driver (.writeStreamVersion value _) => value = number v
  | .arm _ => x.1.latched.waitStream → x.1.streamVersion = number v
  | _ => True

instance (v : Version) (x : Driver.State × StreamSeries.State) (a : Event) :
    Decidable (KeepsStream v x a) := by
  unfold KeepsStream
  split <;> infer_instance

section Driver

open Driver (State Latched)

variable {v : Version} {d t : State} {e : Driver.Event}

/-- Where the images come from, and that there is a receiver for them. -/
structure Source (v : Version) (d : State) : Prop where
  never : d.dataSource ≠ .fileWriter
  latched : d.latched.dataSource ≠ .fileWriter
  kept : d.latched.waitStream → d.dataSource = .stream
  receiver : d.dataSource = .stream → d.receiver d.streamVersion ≠ none
  version : d.latched.waitStream → d.control.armed = true → d.streamVersion = number v

/-- The step leaves alone what the clients choose for the stream. -/
structure SameSource (d t : State) : Prop where
  dataSource : t.dataSource = d.dataSource
  streamVersion : t.streamVersion = d.streamVersion
  streamAPI : t.streamAPI = d.streamAPI
  stream2API : t.stream2API = d.stream2API
  latched : t.latched = d.latched
  armed : t.control.armed = true → d.control.armed = true

theorem SameSource.receiver (h : SameSource d t) (version : ℤ) :
    t.receiver version = d.receiver version := by
  rw [State.receiver, State.receiver, h.streamAPI, h.stream2API]

theorem Source.same (h : Source v d) (hs : SameSource d t) : Source v t := by
  refine ⟨hs.dataSource ▸ h.never, hs.latched ▸ h.latched, ?_, ?_, ?_⟩
  · rw [hs.latched, hs.dataSource]
    exact h.kept
  · rw [hs.dataSource, hs.streamVersion, hs.receiver]
    exact h.receiver
  · rw [hs.latched, hs.streamVersion]
    exact fun hw ha => h.version hw (hs.armed ha)

/-- The steps that begin an acquisition or choose the stream. -/
def Chooses : Driver.Event → Prop
  | .start _ | .arm true | .writeDataSource _ _ | .writeStreamVersion _ _ => True
  | _ => False

theorem testTrigger_source (d : State) : d.testTrigger.dataSource = d.dataSource ∧
    d.testTrigger.streamVersion = d.streamVersion ∧ d.testTrigger.streamAPI = d.streamAPI ∧
      d.testTrigger.stream2API = d.stream2API ∧ d.testTrigger.latched = d.latched := by
  rcases Driver.testTrigger_cases d with ht | ⟨-, ht | ht⟩ <;> rw [ht] <;>
    exact ⟨rfl, rfl, rfl, rfl, rfl⟩

theorem sameSource_next (he : Driver.Enabled d e) (hc : ¬ Chooses e) :
    SameSource d (Driver.next d e) := by
  cases e with
  | wake => exact ⟨rfl, rfl, rfl, rfl, rfl, fun h => by cases h⟩
  | start putOk => exact absurd trivial hc
  | arm ok =>
    cases ok with
    | false => exact ⟨rfl, rfl, rfl, rfl, rfl, fun h => by cases h⟩
    | true => exact absurd trivial hc
  | manualWait fired =>
    have ha : d.control.armed = true := by rw [he.1]; rfl
    cases fired <;> exact ⟨rfl, rfl, rfl, rfl, rfl, fun _ => ha⟩
  | testTrigger =>
    have ha : d.control.armed = true := by rw [he.1]; rfl
    obtain ⟨h₁, h₂, h₃, h₄, h₅⟩ := testTrigger_source d
    exact ⟨h₁, h₂, h₃, h₄, h₅, fun _ => ha⟩
  | trigger =>
    have ha : d.control.armed = true := by rw [he.1]; rfl
    obtain ⟨h₁, h₂, h₃, h₄, h₅⟩ := testTrigger_source { d with triggers := d.triggers + 1 }
    exact ⟨h₁, h₂, h₃, h₄, h₅, fun _ => ha⟩
  | fetchState reported =>
    have ha : d.control.armed = true := by rw [show d.control = _ from he]; rfl
    simp only [Driver.next]
    split_ifs <;> exact ⟨rfl, rfl, rfl, rfl, rfl, fun _ => ha⟩
  | waitStop fired =>
    have ha : d.control.armed = true := by rw [he.1]; rfl
    cases fired <;> exact ⟨rfl, rfl, rfl, rfl, rfl, fun _ => ha⟩
  | relock | disarm | pollDoneWait | streamDoneWait =>
    have ha : d.control.armed = true := by rw [he.1]; rfl
    exact ⟨rfl, rfl, rfl, rfl, rfl, fun _ => ha⟩
  | fetchFWState reported =>
    have ha : d.control.armed = true := by rw [he.1]; rfl
    simp only [Driver.next]
    split_ifs <;> exact ⟨rfl, rfl, rfl, rfl, rfl, fun _ => ha⟩
  | finish putOk =>
    simp only [Driver.next]
    cases d.adStatus with
    | acquire =>
      dsimp only
      split_ifs <;> exact ⟨rfl, rfl, rfl, rfl, rfl, fun h => by cases h⟩
    | aborted | idle | error => exact ⟨rfl, rfl, rfl, rfl, rfl, fun h => by cases h⟩
  | waitFrame version o result =>
    rcases result with (_ | n) | _ | _ <;> exact ⟨rfl, rfl, rfl, rfl, rfl, id⟩
  | writeAcquire value =>
    simp only [Driver.next]
    split_ifs <;> exact ⟨rfl, rfl, rfl, rfl, rfl, id⟩
  | writeDataSource value enabled => exact absurd trivial hc
  | writeStreamVersion value enabled => exact absurd trivial hc
  | _ => exact ⟨rfl, rfl, rfl, rfl, rfl, id⟩

/-- A client makes the stream the source, or takes its version. -/
theorem Source.choose (h : Source v d) (enabled : Bool) {source : Driver.DataSource} {version : ℤ}
    (hsource : source ≠ .fileWriter) (hkept : d.latched.waitStream → source = .stream)
    (hversion : d.latched.waitStream → d.control.armed = true → version = number v) :
    Source v (State.switchReceivers
      { d with dataSource := source, streamVersion := version } enabled) := by
  simp only [State.switchReceivers]
  split_ifs with hs hv h₁ h₂
  · exact ⟨hsource, h.latched, hkept, fun _ => by simp [State.receiver, hv], hversion⟩
  · exact ⟨hsource, h.latched, hkept, fun _ => by simpa [State.receiver, hv] using h₁, hversion⟩
  · exact ⟨hsource, h.latched, hkept, fun _ => by simp [State.receiver, hv], hversion⟩
  · exact ⟨hsource, h.latched, hkept, fun _ => by simpa [State.receiver, hv] using h₂, hversion⟩
  · exact ⟨hsource, h.latched, hkept, fun hd => absurd hd hs, hversion⟩

theorem source_initial : Source v Driver.initial := by
  constructor <;> simp [Driver.initial, Latched.waitStream]

theorem arm_source (h : Source v d) (hc : d.latched.waitStream → d.streamVersion = number v) :
    Source v (Driver.next d (.arm true)) := by
  have hstart : ∀ t : State, t.dataSource = d.dataSource → t.streamVersion = d.streamVersion →
      t.streamAPI = d.streamAPI → t.stream2API = d.stream2API → t.latched = d.latched →
        Source v t := by
    intro t hd hv h₁ h₂ hl
    refine ⟨hd ▸ h.never, hl ▸ h.latched, ?_, ?_, ?_⟩
    · rw [hl, hd]
      exact h.kept
    · rw [hd, hv, State.receiver, h₁, h₂]
      exact h.receiver
    · rw [hl, hv]
      exact fun hw _ => hc hw
  simp only [Driver.next]
  split_ifs
  · obtain ⟨h₁, h₂, h₃, h₄, h₅⟩ :=
      testTrigger_source ({ d with numImagesCounter := 0, armed := true, triggers := 0 }.startTasks)
    exact hstart _ h₁ h₂ h₃ h₄ h₅
  · exact hstart _ rfl rfl rfl rfl rfl

theorem start_source (h : Source v d) (putOk : Bool) : Source v (Driver.next d (.start putOk)) := by
  have hlatch : ∀ t : State, t.dataSource = d.dataSource → t.streamVersion = d.streamVersion →
      t.streamAPI = d.streamAPI → t.stream2API = d.stream2API →
        t.latched.dataSource = d.dataSource → t.control.armed = false → Source v t := by
    intro t hd hv h₁ h₂ hl hc
    refine ⟨hd ▸ h.never, hl ▸ h.never, fun hw => hd.trans (hl.symm.trans hw), ?_, ?_⟩
    · rw [hd, hv, State.receiver, h₁, h₂]
      exact h.receiver
    · rw [hc]
      exact fun _ ha => by cases ha
  simp only [Driver.next]
  split_ifs <;> exact hlatch _ rfl rfl rfl rfl rfl rfl

/-- The steps of the driver in which streamTask and what controlTask tells it have no part. -/
def Apart : Driver.Event → Prop
  | .start _ | .arm true | .wakeStream | .checkReceiver | .callGetHeader _ | .getHeader _ _ _
  | .callWaitFrame _ | .waitFrame _ _ _ | .getFrame _ _ | .finishStream | .parsed _ => False
  | _ => True

theorem testTrigger_apart (d : State) : d.testTrigger.stream = d.stream ∧
    d.testTrigger.streamEvent = d.streamEvent ∧
      d.testTrigger.numImagesCounter = d.numImagesCounter := by
  rcases Driver.testTrigger_cases d with ht | ⟨-, ht | ht⟩ <;> rw [ht] <;> exact ⟨rfl, rfl, rfl⟩

theorem switchReceivers_apart (d : State) (enabled : Bool) :
    (d.switchReceivers enabled).stream = d.stream ∧
      (d.switchReceivers enabled).streamEvent = d.streamEvent ∧
        (d.switchReceivers enabled).numImagesCounter = d.numImagesCounter ∧
          (d.switchReceivers enabled).control = d.control ∧
            (d.switchReceivers enabled).latched = d.latched := by
  simp only [State.switchReceivers]
  split_ifs <;> exact ⟨rfl, rfl, rfl, rfl, rfl⟩

theorem apart_next (ha : Apart e) : (Driver.next d e).stream = d.stream ∧
    (Driver.next d e).streamEvent = d.streamEvent ∧
      (Driver.next d e).numImagesCounter = d.numImagesCounter := by
  cases e with
  | arm ok =>
    cases ok with
    | false => exact ⟨rfl, rfl, rfl⟩
    | true => exact absurd ha id
  | manualWait fired => cases fired <;> exact ⟨rfl, rfl, rfl⟩
  | testTrigger => exact testTrigger_apart d
  | trigger => exact testTrigger_apart { d with triggers := d.triggers + 1 }
  | fetchState reported => simp only [Driver.next]; split_ifs <;> exact ⟨rfl, rfl, rfl⟩
  | waitStop fired => cases fired <;> exact ⟨rfl, rfl, rfl⟩
  | fetchFWState reported => simp only [Driver.next]; split_ifs <;> exact ⟨rfl, rfl, rfl⟩
  | finish putOk =>
    simp only [Driver.next]
    cases d.adStatus with
    | acquire => dsimp only; split_ifs <;> exact ⟨rfl, rfl, rfl⟩
    | aborted | idle | error => exact ⟨rfl, rfl, rfl⟩
  | writeAcquire value => simp only [Driver.next]; split_ifs <;> exact ⟨rfl, rfl, rfl⟩
  | writeDataSource value enabled =>
    obtain ⟨h₁, h₂, h₃, -, -⟩ := switchReceivers_apart { d with dataSource := value } enabled
    exact ⟨h₁, h₂, h₃⟩
  | writeStreamVersion value enabled =>
    obtain ⟨h₁, h₂, h₃, -, -⟩ := switchReceivers_apart { d with streamVersion := value } enabled
    exact ⟨h₁, h₂, h₃⟩
  | start putOk | wakeStream | checkReceiver | callGetHeader version | getHeader version o result
  | callWaitFrame version | waitFrame version o result | getFrame version n | finishStream
  | parsed counter => exact absurd ha id
  | _ => exact ⟨rfl, rfl, rfl⟩

theorem arm_next (d : State) : (Driver.next d (.arm true)).stream = d.stream ∧
    (d.latched.waitStream → (Driver.next d (.arm true)).streamEvent = true) ∧
    (¬ d.latched.waitStream → (Driver.next d (.arm true)).streamEvent = d.streamEvent) ∧
    (Driver.next d (.arm true)).numImagesCounter = 0 ∧
    (Driver.next d (.arm true)).latched = d.latched := by
  simp only [Driver.next]
  split_ifs
  · obtain ⟨h₁, h₂, h₃⟩ :=
      testTrigger_apart ({ d with numImagesCounter := 0, armed := true, triggers := 0 }.startTasks)
    obtain ⟨-, -, -, -, h₄⟩ :=
      testTrigger_source ({ d with numImagesCounter := 0, armed := true, triggers := 0 }.startTasks)
    exact ⟨h₁, fun hw => h₂.trans (if_pos hw), fun hw => h₂.trans (if_neg hw), h₃, h₄⟩
  · exact ⟨rfl, fun hw => if_pos hw, fun hw => if_neg hw, rfl, rfl⟩

theorem start_next (d : State) (putOk : Bool) : (Driver.next d (.start putOk)).stream = d.stream ∧
    (Driver.next d (.start putOk)).streamEvent = false ∧
      (Driver.next d (.start putOk)).control.armed = false := by
  simp only [Driver.next]
  split_ifs <;> exact ⟨rfl, rfl, rfl⟩

/-- streamTask is only at work, or about to be, in an acquisition from the stream. -/
theorem engaged (h : Driver.HandshakeLaw d) (hne : d.stream ≠ .waiting ∨ d.streamEvent = true) :
    d.control.armed = true ∧ d.latched.waitStream := by
  have htokens := h.tokens
  rw [State.series] at htokens
  by_contra hnot
  rw [if_neg hnot] at htokens
  simp only [State.tokens] at htokens
  rcases hne with hs | hev
  · rw [if_neg hs] at htokens
    omega
  · rw [hev] at htokens
    simp at htokens

theorem quiet (h : Driver.HandshakeLaw d) (hs : d.stream ≠ .waiting) :
    d.streamEvent = false ∧ d.streamDoneEvent = false := by
  have htokens := h.tokens
  have hle : d.series ≤ 1 := by
    rw [State.series]
    split_ifs <;> decide
  simp only [State.tokens, if_neg hs] at htokens
  rw [← Bool.toNat_eq_zero, ← Bool.toNat_eq_zero]
  omega

theorem Source.finds (h : Source v d) (hh : Driver.HandshakeLaw d) (hs : d.stream = .woken) :
    ¬ d.receiverMissing ∧ d.streamVersion = number v := by
  obtain ⟨harmed, hwait⟩ := engaged hh (.inl (by rw [hs]; exact fun hc => by cases hc))
  have hversion := h.version hwait harmed
  have hreceiver := h.receiver (h.kept hwait)
  refine ⟨?_, hversion⟩
  rintro (⟨hv, hnone⟩ | ⟨hv, hnone⟩)
  · rw [hv] at hreceiver
    exact hreceiver hnone
  · rw [hv] at hreceiver
    exact hreceiver hnone

end Driver

section Whole

variable {v : Version} {d d' : Driver.State} {s : StreamSeries.State} {a : Event}
  {x : Driver.State × StreamSeries.State} {pc : StreamSeries.StreamPc}

/-- Where streamTask is in the driver when it is at `pc` in the series. -/
def Together (v : Version) (d : Driver.State) : StreamSeries.StreamPc → Prop
  | .waiting => d.stream = .waiting ∧ d.streamEvent = false
  | .header => (d.stream = .waiting ∧ d.streamEvent = true) ∨ d.stream = .woken ∨
      d.stream = .getHeader (number v) ∨ ∃ o, d.stream = .inGetHeader (number v) o
  | .skip _ => ∃ o, d.stream = .inGetHeader (number v) o
  | .frame => d.stream = .waitFrame (number v) ∨ ∃ o, d.stream = .inWaitFrame (number v) o
  | .shape | .data _ | .times _ _ => d.stream = .getFrame (number v) 1
  | .threshold _ n => d.stream = .getFrame (number v) (n + 1)
  | .finish => d.stream = .finish
  | .undefined => d.stream = .waitFrame (number v) ∨ (∃ o, d.stream = .inWaitFrame (number v) o) ∨
      ∃ n, d.stream = .getFrame (number v) n

theorem Together.same (h : Together v d pc) (hstream : d'.stream = d.stream)
    (hevent : d'.streamEvent = d.streamEvent) : Together v d' pc := by
  cases pc <;> simp only [Together, hstream, hevent] at h ⊢ <;> exact h

theorem Together.waiting_iff (h : Together v d pc) :
    pc = .waiting ↔ d.stream = .waiting ∧ d.streamEvent = false := by
  cases pc <;> simp only [Together] at h <;> try simp [h]
  · rcases h with ⟨-, hev⟩ | hs | hs | ⟨o, hs⟩
    · simp [hev]
    · simp [hs]
    · simp [hs]
    · simp [hs]
  · obtain ⟨o, hs⟩ := h
    simp [hs]
  · rcases h with hs | ⟨o, hs⟩ <;> simp [hs]
  · rcases h with hs | ⟨o, hs⟩ | ⟨n, hs⟩ <;> simp [hs]

/-- The steps of the driver that streamTask does not take together with the series. -/
def Own (e : Driver.Event) : Prop :=
  Apart e ∨ e = .wakeStream ∨ e = .checkReceiver ∨ (∃ n, e = .callGetHeader n) ∨
    (∃ n, e = .callWaitFrame n) ∨ ∃ ok, e = .start ok

theorem Together.driver {e : Driver.Event} (h : Together v d pc) (hsource : Source v d)
    (hh : Driver.HandshakeLaw d) (he : Driver.Enabled d e) (hown : Own e) :
    Together v (Driver.next d e) pc := by
  rcases hown with ha | rfl | rfl | ⟨n, rfl⟩ | ⟨n, rfl⟩ | ⟨ok, rfl⟩
  · obtain ⟨hstream, hevent, -⟩ := apart_next (d := d) ha
    exact h.same hstream hevent
  · obtain ⟨hs, hev⟩ := he
    cases pc <;> simp [Together, hs, hev] at h
    exact .inr (.inl rfl)
  · have hs : d.stream = .woken := he.1
    obtain ⟨hfound, hversion⟩ := hsource.finds hh hs
    cases pc <;> simp [Together, hs] at h
    refine .inr (.inr (.inl ?_))
    simp only [Driver.next, if_neg hfound, hversion]
  · have hs : d.stream = .getHeader n := he
    cases pc <;> simp [Together, hs] at h
    subst h
    exact .inr (.inr (.inr ⟨_, rfl⟩))
  · have hs : d.stream = .waitFrame n := he
    cases pc with
    | frame =>
      simp [Together, hs] at h
      subst h
      exact .inr ⟨_, rfl⟩
    | undefined =>
      simp [Together, hs] at h
      subst h
      exact .inr (.inl ⟨_, rfl⟩)
    | _ => simp [Together, hs] at h
  · obtain ⟨hstream, hevent, -⟩ := start_next d ok
    have hidle := hh.idle (by rw [he.1]; rfl)
    exact h.same hstream (hevent.trans hidle.1.symm)

theorem together_skipLoop (n : ℕ) {o : Option ℕ} (hs : d.stream = .inGetHeader (number v) o) :
    Together v (if n = 0 then Driver.next d (.getHeader (number v) o .success) else d)
      (StreamSeries.skipLoop n) := by
  cases n with
  | zero => exact .inl rfl
  | succ n => exact ⟨o, hs⟩

theorem together_thresholdLoop (n : ℕ) {m : Part} {t : Driver.State}
    (ht : t.stream = if n = 0 then .waitFrame (number v) else .getFrame (number v) n) :
    Together v t (StreamSeries.thresholdLoop m n) := by
  cases n with
  | zero => exact .inl ht
  | succ n => exact ht

/-- streamTask finds the same in its header or its frame on both sides. -/
theorem Together.stream {e : StreamSeries.Event} {o : Option ℕ} (h : Together v d s.stream)
    (hh : Driver.HandshakeLaw d) (hs : StreamSeries.Enabled v s e)
    (hallowed : Allowed v d (.stream e o)) :
    Together v ((driverStep v (.stream e o)).elim d (Driver.next d))
      (StreamSeries.next v s e).stream := by
  cases e with
  | arm sequenceId => exact absurd hallowed id
  | send m => exact h
  | headerTimeout =>
    have hpc : s.stream = .header := hs.1
    simp only [driverStep, Option.elim_some, StreamSeries.next, hpc]
    exact .inr (.inr (.inl rfl))
  | headerFailed => exact rfl
  | getHeader m =>
    have hpc : s.stream = .header := hs.1
    simp only [driverStep, StreamSeries.next]
    cases hresult : getHeader v m with
    | success =>
      have hskip := together_skipLoop (v := v) (skip v m.kind) hallowed
      by_cases hzero : skip v m.kind = 0
      · rw [if_pos hzero] at hskip
        rw [if_neg (by simp [hzero])]
        exact hskip
      · rw [if_neg hzero] at hskip
        rw [if_pos ⟨rfl, hzero⟩]
        exact hskip
    | wrongHtype | timeout =>
      rw [if_neg (by simp)]
      simp only [StreamSeries.State.receive, hpc]
      exact .inr (.inr (.inl rfl))
    | error | unknown =>
      rw [if_neg (by simp)]
      exact rfl
  | skip n m =>
    have hskip := together_skipLoop (v := v) n hallowed
    have hnext : (StreamSeries.next v s (.skip n m)).stream = StreamSeries.skipLoop n := by
      cases m <;> rfl
    rw [hnext]
    cases n with
    | zero => exact hskip
    | succ n => exact hskip
  | waitFrame m =>
    simp only [driverStep, Option.elim_some, StreamSeries.next, frameResult]
    cases hresult : waitFrame v m with
    | success =>
      simp only [StreamSeries.State.goto, StreamSeries.afterWaitFrame, thresholds]
      cases v with
      | stream => cases hkind : m.kind <;> exact rfl
      | stream2 =>
        cases hkind : m.kind with
        | seriesEnd => exact rfl
        | image n => exact together_thresholdLoop n rfl
        | _ => exact .inl rfl
    | timeout =>
      have hpc : s.stream = .frame := hs.1
      simp only [StreamSeries.State.receive, hpc]
      exact .inl rfl
    | wrongHtype | error | unknown => exact rfl
  | getShape m ok =>
    have hpc : s.stream = .shape := hs.1
    rw [hpc] at h
    cases ok with
    | true => exact h
    | false => exact .inl rfl
  | getData shape m =>
    have hpc : s.stream = .data shape := hs.1
    rw [hpc] at h
    exact h
  | getTimes shape data m => exact .inl rfl
  | getThreshold image n ok =>
    cases ok with
    | true => exact together_thresholdLoop n rfl
    | false =>
      cases n with
      | zero => exact .inl rfl
      | succ n => exact .inr (.inr ⟨n + 1, rfl⟩)
  | finish =>
    have hpc : s.stream = .finish := hs
    rw [hpc] at h
    have hne : d.stream ≠ .waiting := by
      rw [show d.stream = .finish from h]
      exact fun hc => by cases hc
    exact ⟨rfl, (quiet hh hne).1⟩

/-- The counter goes on by `k`, in its `int`. -/
def Counts (d d' : Driver.State) (k : ℕ) : Prop :=
  ∀ n : ℕ, d.numImagesCounter = Int.bmod n (2 ^ 32) →
    d'.numImagesCounter = Int.bmod (n + k : ℕ) (2 ^ 32)

/-- An array is counted when it is published, and for the acquisition that was armed last. -/
theorem counts_stream {e : StreamSeries.Event} {o : Option ℕ}
    (hallowed : Allowed v d (.stream e o)) :
    (StreamSeries.next v s e).armed = s.armed ∧ ∃ frames,
      (StreamSeries.next v s e).published = s.published ++ frames ∧
        (∀ f ∈ frames, f.acquisition = s.armed) ∧
          Counts d ((driverStep v (.stream e o)).elim d (Driver.next d)) frames.length := by
  have hnone : ∀ {t : Driver.State} {u : StreamSeries.State}, u.armed = s.armed →
      u.published = s.published → t.numImagesCounter = d.numImagesCounter → u.armed = s.armed ∧
        ∃ frames, u.published = s.published ++ frames ∧ (∀ f ∈ frames, f.acquisition = s.armed) ∧
          Counts d t frames.length := by
    intro t u harmed hpublished hcounter
    refine ⟨harmed, [], ?_, fun f hf => (by cases hf), fun n hn => ?_⟩
    · rw [hpublished, List.append_nil]
    · exact hcounter.trans hn
  have hone : ∀ source, ∀ {t : Driver.State} {u : StreamSeries.State}, u.armed = s.armed →
      u.published = s.published ++ [⟨s.armed, s.header, source⟩] →
        t.numImagesCounter = Int.bmod (d.numImagesCounter + 1) (2 ^ 32) → u.armed = s.armed ∧
          ∃ frames, u.published = s.published ++ frames ∧ (∀ f ∈ frames, f.acquisition = s.armed) ∧
            Counts d t frames.length := by
    intro source t u harmed hpublished hcounter
    refine ⟨harmed, _, hpublished, fun f hf => ?_, fun n hn => ?_⟩
    · obtain rfl := List.mem_singleton.mp hf
      rfl
    · rw [hcounter, hn, Int.bmod_add_bmod]
      rfl
  cases e with
  | arm sequenceId => exact absurd hallowed id
  | getHeader m =>
    simp only [driverStep, StreamSeries.next]
    cases getHeader v m <;> split_ifs <;> exact hnone rfl rfl rfl
  | skip n m => cases n <;> cases m <;> exact hnone rfl rfl rfl
  | waitFrame m =>
    have hcounter : (Driver.next d (.waitFrame (number v) o (frameResult v m))).numImagesCounter =
        d.numImagesCounter := by
      rcases frameResult v m with (_ | n) | _ | _ <;> rfl
    simp only [StreamSeries.next]
    cases waitFrame v m <;> exact hnone rfl rfl hcounter
  | getShape m ok =>
    cases ok with
    | true => exact hnone rfl rfl rfl
    | false => exact hone [] rfl rfl rfl
  | getTimes shape data m => exact hone [shape, data] rfl rfl rfl
  | getThreshold image n ok => cases ok <;> exact hone _ rfl rfl rfl
  | send m | headerTimeout | headerFailed | getData shape m | finish => exact hnone rfl rfl rfl

/-- The arrays that were published for an acquisition. -/
def framesOf (s : StreamSeries.State) (acquisition : ℕ) : List StreamSeries.Frame :=
  s.published.filter (·.acquisition = acquisition)

/-- What holds of the driver and the series together. -/
structure Law (v : Version) (d : Driver.State) (s : StreamSeries.State) : Prop where
  source : Source v d
  handshake : Driver.HandshakeLaw d
  together : Together v d s.stream
  past : ∀ f ∈ s.published, f.acquisition ≤ s.armed
  counted : d.control.armed = true → d.latched.waitStream →
    d.numImagesCounter = Int.bmod (framesOf s s.armed).length (2 ^ 32)

theorem law_initial : Law v Driver.initial StreamSeries.initial where
  source := source_initial
  handshake := Driver.handshakeLaw_initial
  together := ⟨rfl, rfl⟩
  past _ hf := by cases hf
  counted h := by cases h

theorem next_eq {l : Option Driver.Event} {r : Option StreamSeries.Event}
    (hl : driverStep v a = l) (hr : streamStep d a = r) : (system v).next (d, s) a =
      (l.elim d (Driver.next d), r.elim s (StreamSeries.next v s)) :=
  System.coupled_next (S := Driver.system) (T := StreamSeries.system v) (K := coupling v)
    (x := (d, s)) hl hr

theorem Law.arm {sequenceId : ℕ} (h : Law v d s) (he : Driver.Enabled d (.arm true))
    (hs : d.latched.waitStream → s.armed < sequenceId)
    (hkeeps : d.latched.waitStream → d.streamVersion = number v) :
    Law v (Driver.next d (.arm true)) (if d.latched.waitStream then
      StreamSeries.next v s (.arm sequenceId) else s) := by
  obtain ⟨hstream, hposted, hleft, hcounter, hlatched⟩ := arm_next d
  have hidle := h.handshake.idle (by rw [he.1]; rfl)
  have hsource := arm_source h.source hkeeps
  have hhandshake := Driver.handshakeLaw_step h.handshake he trivial
  split_ifs with hwait
  · refine ⟨hsource, hhandshake, .inl ⟨hstream.trans hidle.2.1, hposted hwait⟩,
      fun f hf => (h.past f hf).trans (hs hwait).le, fun _ _ => ?_⟩
    have hnone : framesOf (StreamSeries.next v s (.arm sequenceId)) sequenceId = [] := by
      refine List.filter_eq_nil_iff.mpr fun f hf => ?_
      have hle := h.past f hf
      have hlt := hs hwait
      simp only [decide_eq_true_eq]
      omega
    change _ = Int.bmod (framesOf _ sequenceId).length (2 ^ 32)
    rw [hcounter, hnone]
    rfl
  · refine ⟨hsource, hhandshake, h.together.same hstream (hleft hwait), h.past, fun _ hw => ?_⟩
    exact absurd (hlatched ▸ hw) hwait

theorem Law.handshake_next {e : Driver.Event} (h : Law v d s) (he : Driver.Enabled d e) :
    Driver.HandshakeLaw (Driver.next d e) := by
  refine Driver.handshakeLaw_step h.handshake he ?_
  cases e with
  | checkReceiver => exact (h.source.finds h.handshake he.1).1
  | _ => trivial

theorem Law.source_next {e : Driver.Event} (h : Law v d s) (he : Driver.Enabled d e)
    (harm : e ≠ .arm true) (hkeeps : KeepsStream v (d, s) (.driver e)) :
    Source v (Driver.next d e) := by
  cases e with
  | start putOk => exact start_source h.source putOk
  | arm ok =>
    cases ok with
    | false => exact h.source.same (sameSource_next he id)
    | true => exact absurd rfl harm
  | writeDataSource value enabled =>
    obtain rfl : value = .stream := hkeeps
    exact h.source.choose enabled (fun hc => by cases hc) (fun _ => rfl) h.source.version
  | writeStreamVersion value enabled =>
    exact h.source.choose enabled h.source.never h.source.kept fun _ _ => hkeeps
  | _ => exact h.source.same (sameSource_next he id)

/-- The latched settings are from the start of the acquisition, also where it is armed. -/
theorem armed_next {e : Driver.Event} (he : Driver.Enabled d e) (harm : e ≠ .arm true)
    (ha : (Driver.next d e).control.armed = true) : d.control.armed = true ∧
      (Driver.next d e).latched = d.latched := by
  cases e with
  | start putOk =>
    obtain ⟨-, -, hc⟩ := start_next d putOk
    rw [hc] at ha
    cases ha
  | arm ok =>
    cases ok with
    | false => cases ha
    | true => exact absurd rfl harm
  | writeDataSource value enabled =>
    obtain ⟨-, -, -, hc, hl⟩ := switchReceivers_apart { d with dataSource := value } enabled
    exact ⟨(congrArg _ hc).symm.trans ha, hl⟩
  | writeStreamVersion value enabled =>
    obtain ⟨-, -, -, hc, hl⟩ := switchReceivers_apart { d with streamVersion := value } enabled
    exact ⟨(congrArg _ hc).symm.trans ha, hl⟩
  | _ =>
    have hsame := sameSource_next he id
    exact ⟨hsame.armed ha, hsame.latched⟩

theorem own_counter {e : Driver.Event} (hown : Own e)
    (harmed : (Driver.next d e).control.armed = true) :
    (Driver.next d e).numImagesCounter = d.numImagesCounter := by
  rcases hown with ha | rfl | rfl | ⟨n, rfl⟩ | ⟨n, rfl⟩ | ⟨ok, rfl⟩
  · exact (apart_next ha).2.2
  · rfl
  · rfl
  · rfl
  · rfl
  · obtain ⟨-, -, hc⟩ := start_next d ok
    rw [hc] at harmed
    cases harmed

theorem Law.driver {e : Driver.Event} (h : Law v d s) (he : Driver.Enabled d e) (hown : Own e)
    (hkeeps : KeepsStream v (d, s) (.driver e)) : Law v (Driver.next d e) s := by
  have harm : e ≠ .arm true := by
    rintro rfl
    rcases hown with ha | hc | hc | ⟨n, hc⟩ | ⟨n, hc⟩ | ⟨ok, hc⟩
    · exact ha
    all_goals cases hc
  refine ⟨h.source_next he harm hkeeps, h.handshake_next he,
    h.together.driver h.source h.handshake he hown, h.past, fun ha hw => ?_⟩
  obtain ⟨ha', hlatched⟩ := armed_next he harm ha
  rw [own_counter hown ha]
  exact h.counted ha' (hlatched ▸ hw)

theorem calls_not_chooses {e : StreamSeries.Event} {o : Option ℕ} {e' : Driver.Event}
    (h : driverStep v (.stream e o) = some e') : ¬ Chooses e' := by
  cases e with
  | getHeader m =>
    simp only [driverStep] at h
    split_ifs at h
    obtain rfl := Option.some.inj h
    exact id
  | skip n m => cases n <;> cases h; exact id
  | getShape m ok => cases ok <;> cases h; exact id
  | _ => cases h <;> exact id

theorem Law.stream {e : StreamSeries.Event} {o : Option ℕ} (h : Law v d s)
    (hs : StreamSeries.Enabled v s e) (hallowed : Allowed v d (.stream e o))
    (hd : ∀ e' ∈ driverStep v (.stream e o), Driver.Enabled d e') :
    Law v ((driverStep v (.stream e o)).elim d (Driver.next d)) (StreamSeries.next v s e) := by
  have htogether := h.together.stream h.handshake hs hallowed
  obtain ⟨harmed, frames, hpublished, hframes, hcounter⟩ := counts_stream (s := s) hallowed
  have hpast : ∀ f ∈ (StreamSeries.next v s e).published,
      f.acquisition ≤ (StreamSeries.next v s e).armed := by
    rw [hpublished, harmed]
    intro f hf
    rcases List.mem_append.mp hf with hf | hf
    · exact h.past f hf
    · exact (hframes f hf).le
  have hlength : (framesOf (StreamSeries.next v s e) (StreamSeries.next v s e).armed).length =
      (framesOf s s.armed).length + frames.length := by
    have hall : frames.filter (·.acquisition = s.armed) = frames :=
      List.filter_eq_self.mpr fun f hf => decide_eq_true (hframes f hf)
    rw [framesOf, framesOf, hpublished, harmed, List.filter_append, hall, List.length_append]
  cases hstep : driverStep v (.stream e o) with
  | none =>
    rw [hstep] at htogether hcounter
    refine ⟨h.source, h.handshake, htogether, hpast, fun ha hw => ?_⟩
    rw [hlength]
    exact hcounter _ (h.counted ha hw)
  | some e' =>
    rw [hstep] at htogether hcounter
    have he := hd e' hstep
    have hsame := sameSource_next he (calls_not_chooses hstep)
    refine ⟨h.source.same hsame, h.handshake_next he, htogether, hpast, fun ha hw => ?_⟩
    rw [hlength]
    exact hcounter _ (h.counted (hsame.armed ha) (hsame.latched ▸ hw))

theorem own_of_allowed {e : Driver.Event} (hsource : Source v d)
    (hallowed : Allowed v d (.driver e)) : Own e := by
  cases e with
  | arm ok =>
    obtain rfl : ok = false := hallowed
    exact .inl trivial
  | getHeader version o result => exact absurd hallowed id
  | waitFrame version o result => exact absurd hallowed id
  | getFrame version n => exact absurd hallowed id
  | finishStream => exact absurd hallowed id
  | parsed counter => exact absurd hallowed hsource.latched
  | wakeStream => exact .inr (.inl rfl)
  | checkReceiver => exact .inr (.inr (.inl rfl))
  | callGetHeader n => exact .inr (.inr (.inr (.inl ⟨n, rfl⟩)))
  | callWaitFrame n => exact .inr (.inr (.inr (.inr (.inl ⟨n, rfl⟩))))
  | start ok => exact .inr (.inr (.inr (.inr (.inr ⟨ok, rfl⟩))))
  | _ => exact .inl trivial

theorem law_step (h : Law v d s) (he : (system v).Enabled (d, s) a)
    (hkeeps : KeepsStream v (d, s) a) :
    Law v ((system v).next (d, s) a).1 ((system v).next (d, s) a).2 := by
  obtain ⟨hallowed, hleft, hright⟩ := he
  cases a with
  | arm sequenceId =>
    have hd : Driver.Enabled d (.arm true) := hleft _ rfl
    by_cases hwait : d.latched.waitStream
    · have hstep : streamStep d (.arm sequenceId) = some (.arm sequenceId) := if_pos hwait
      have hs : StreamSeries.Enabled v s (.arm sequenceId) := hright _ hstep
      have harm := h.arm hd (fun _ => hs.2) hkeeps
      rw [if_pos hwait] at harm
      rw [next_eq rfl hstep]
      exact harm
    · have hs : d.latched.waitStream → s.armed < sequenceId := fun hw => absurd hw hwait
      have harm := h.arm hd hs hkeeps
      rw [if_neg hwait] at harm
      have hstep : streamStep d (.arm sequenceId) = none := if_neg hwait
      rw [next_eq rfl hstep]
      exact harm
  | driver e =>
    rw [next_eq rfl rfl]
    exact h.driver (hleft e rfl) (own_of_allowed h.source hallowed) hkeeps
  | stream e o =>
    rw [next_eq rfl rfl]
    exact h.stream (hright e rfl) hallowed hleft

theorem reaches_law {C : Driver.State × StreamSeries.State → Event → Prop}
    (hkeeps : ∀ x a, C x a → KeepsStream v x a) (h : Reaches (system v) C x) : Law v x.1 x.2 := by
  refine h.invariant (I := fun x => Law v x.1 x.2) ?_
    fun y a hl he hc => law_step hl he (hkeeps y a hc)
  rintro ⟨d, s⟩ ⟨hd, hs⟩
  obtain rfl : d = Driver.initial := hd
  obtain rfl : s = StreamSeries.initial := hs
  exact law_initial

/-- The array was built from images of the series `n`. -/
def BuiltFrom (n : ℕ) (f : StreamSeries.Frame) : Prop :=
  f.source ≠ [] ∧ ∀ m ∈ f.source, m.kind.ofImage = true ∧ m.series = n

instance (n : ℕ) (f : StreamSeries.Frame) : Decidable (BuiltFrom n f) :=
  inferInstanceAs (Decidable (_ ∧ ∀ m ∈ f.source, _))

/-- controlTask and streamTask keep step. The detector is armed for the stream only when streamTask
waits for it; streamTask is at work only within an acquisition from the stream, and controlTask
can leave its wait for streamTask exactly when that waits for its event again. Until then
ADNumImagesCounter is the number of arrays built from images of the series that was armed, in its
`int`. -/
structure InSeries (v : Version) (d : Driver.State) (s : StreamSeries.State) : Prop where
  arming : d.control = .arm → d.latched.waitStream →
    ∀ n, s.armed < n → StreamSeries.Enabled v s (.arm n)
  engaged : s.stream ≠ .waiting → d.control.armed = true ∧ d.latched.waitStream
  counted : d.control.armed = true → d.latched.waitStream →
    d.numImagesCounter = Int.bmod (s.published.filter (BuiltFrom s.armed)).length (2 ^ 32)
  ending : d.control = .waitStream → (Driver.Enabled d .streamDoneWait ↔ s.stream = .waiting)

/-- The clients stay with the stream, and streamTask reads the series that was armed. -/
def KeepsSeries (v : Version) (x : Driver.State × StreamSeries.State) (a : Event) : Prop :=
  KeepsStream v x a ∧ ∀ e ∈ (coupling v).right x a, StreamSeries.TakesOwnHeader v x.2 e

instance (v : Version) (x : Driver.State × StreamSeries.State) (a : Event) :
    Decidable (KeepsSeries v x a) := inferInstanceAs (Decidable (_ ∧ _))

theorem Law.waiting_iff (h : Law v d s) :
    s.stream = .waiting ↔ d.stream = .waiting ∧ d.streamEvent = false :=
  h.together.waiting_iff

theorem Law.ending (h : Law v d s) (hc : d.control = .waitStream) :
    d.streamDoneEvent = true ↔ s.stream = .waiting := by
  have htokens := h.handshake.tokens_armed (by rw [hc]; rfl)
  rw [if_pos (h.handshake.waiting hc), Driver.State.tokens] at htokens
  rw [h.waiting_iff, ← Bool.toNat_eq_zero, ← Bool.toNat_eq_one]
  by_cases hs : d.stream = .waiting
  · rw [if_pos hs] at htokens
    simp only [hs, true_and]
    omega
  · rw [if_neg hs] at htokens
    simp only [hs, false_and, iff_false]
    omega

/-- The arrays of an acquisition are those that were built from its series. -/
theorem builtFrom_iff {f : StreamSeries.Frame} {n : ℕ} (hs : StreamSeries.Law v s)
    (ho : StreamSeries.OwnLaw s) (hf : f ∈ s.published) : BuiltFrom n f ↔ f.acquisition = n := by
  obtain ⟨hheader, hne⟩ := ho.published f hf
  have hseries : ∀ m ∈ f.source, m.kind.ofImage = true ∧ m.series = f.acquisition := by
    intro m hm
    obtain ⟨hkind, hlo, hhi⟩ := hs.published f hf m hm
    exact ⟨hkind, le_antisymm hhi (hheader ▸ hlo)⟩
  constructor
  · rintro ⟨-, hbuilt⟩
    obtain ⟨m, hm⟩ := List.exists_mem_of_ne_nil _ hne
    exact (hseries m hm).2.symm.trans (hbuilt m hm).2
  · rintro rfl
    exact ⟨hne, hseries⟩

theorem in_series (h : Reaches (system v) (KeepsSeries v) x) : InSeries v x.1 x.2 := by
  have hl := reaches_law (fun _ _ hc => hc.1) h
  have hown : Reaches (StreamSeries.system v) (StreamSeries.TakesOwnHeader v) x.2 :=
    h.right fun y a e hc he => hc.2 e he
  have hs := StreamSeries.reaches_law hown
  have ho := StreamSeries.reaches_ownLaw hown
  refine ⟨fun hc hw n hn => ⟨?_, hn⟩, fun hne => ?_, fun ha hw => ?_, fun hc => ?_⟩
  · obtain ⟨hevent, hstream, -⟩ := hl.handshake.idle (by rw [hc]; rfl)
    exact hl.waiting_iff.mpr ⟨hstream, hevent⟩
  · refine engaged hl.handshake ?_
    by_contra hnot
    simp only [not_or, not_not, Bool.not_eq_true] at hnot
    exact hne (hl.waiting_iff.mpr hnot)
  · rw [hl.counted ha hw, framesOf]
    congr 3
    exact List.filter_congr fun f hf => decide_eq_decide.mpr (builtFrom_iff hs ho hf).symm
  · rw [← hl.ending hc]
    exact ⟨And.right, fun hdone => ⟨hc, hdone⟩⟩

/-- A series of one image, which streamTask has published while controlTask looks for its end. -/
def traceFrame : List Event :=
  [.driver (.writeDataSource .stream true),
   .driver (.writeSettings ⟨false, true, false, false, false, .exts, 1⟩), .driver (.writeAcquire 1),
   .driver .wake, .driver (.start true), .arm 1, .driver (.fetchState (some "acquire")),
   .driver .wakeStream, .driver .checkReceiver, .driver (.callGetHeader 0)] ++
  (StreamSeries.sendSeries 1).map (.stream · none) ++
  [.stream (.getHeader ⟨1, .header .basic, 0⟩) (some 0),
   .stream (.skip 0 (some ⟨1, .headerPart 0, 1⟩)) (some 0), .driver (.callWaitFrame 0),
   .stream (.waitFrame ⟨1, .image 1, 0⟩) (some 0), .stream (.getShape ⟨1, .shape, 0⟩ true) none,
   .stream (.getData ⟨1, .shape, 0⟩ ⟨1, .data, 1⟩) none,
   .stream (.getTimes ⟨1, .shape, 0⟩ ⟨1, .data, 1⟩ ⟨1, .times, 0⟩) none]

theorem in_series_frame :
    (runTrace (system .stream) initial traceFrame).1.numImagesCounter = 1 ∧
      InSeries .stream (runTrace (system .stream) initial traceFrame).1
        (runTrace (system .stream) initial traceFrame).2 :=
  ⟨by decide +kernel,
    in_series (ValidTrace.reaches (by decide +kernel) (.start (start_initial .stream)))⟩

end Whole

end DriverStreams
