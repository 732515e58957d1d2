import ADEiger.TransitionSystem
import ADEiger.StreamApi
import Mathlib.Tactic.Linarith

/-! streamTask over consecutive acquisitions.
The socket is a queue between the detector and streamTask. Whatever streamTask leaves in it
at the end of an acquisition is there at the start of the next one. -/
namespace StreamSeries

open TransitionSystem StreamApi

/-- streamTask in the wait for its event, in getHeader and the parts it skips, in waitFrame,
in the three receives of StreamAPI::getFrame, in Stream2API::getFrame with the thresholds
that follow, and at the label `end`; `undefined` once it follows a pointer that a failed getFrame
did not set. -/
inductive StreamPc where
  | waiting
  | header
  | skip (left : ℕ)
  | frame
  | shape
  | data (shape : Part)
  | times (shape data : Part)
  | threshold (image : Part) (left : ℕ)
  | finish
  | undefined
  deriving DecidableEq, Repr

/-- A published array: the sequence id of its acquisition, the series of the header that
getHeader accepted, and the messages it was built from. -/
structure Frame where
  acquisition : ℕ
  header : ℕ
  source : List Part
  deriving DecidableEq, Repr

/-- `armed` is the last sequence id, `sent` and `received` the last part that the detector
sent and that streamTask took from the socket. -/
structure State where
  armed : ℕ
  sent : Part
  queue : List Part
  stream : StreamPc
  header : ℕ
  received : Part
  published : List Frame
  deriving DecidableEq, Repr

def initial : State := ⟨0, ⟨0, .seriesEnd, 0⟩, [], .waiting, 0, ⟨0, .seriesEnd, 0⟩, []⟩

/-- `headerFailed` is a failed zmq_poll. A part that getHeader skips is lost to a timeout
when it is `none`. `ok` says whether getFrame builds the array. -/
inductive Event where
  | arm (sequenceId : ℕ)
  | send (m : Part)
  | headerTimeout
  | headerFailed
  | getHeader (m : Part)
  | skip (left : ℕ) (m : Option Part)
  | waitFrame (m : Part)
  | getShape (m : Part) (ok : Bool)
  | getData (shape m : Part)
  | getTimes (shape data m : Part)
  | getThreshold (image : Part) (left : ℕ) (ok : Bool)
  | finish
  deriving DecidableEq, Repr

def Enabled (v : Version) (s : State) : Event → Prop
  | .arm sequenceId => s.stream = .waiting ∧ s.armed < sequenceId
  | .send m => Follows v s.sent m ∧ m.series ≤ s.armed
  | .headerTimeout => s.stream = .header ∧ s.queue = []
  | .headerFailed => s.stream = .header
  | .getHeader m => s.stream = .header ∧ s.queue.head? = some m
  | .skip n m => s.stream = .skip n ∧ (m = none ∨ s.queue.head? = m)
  | .waitFrame m => s.stream = .frame ∧ s.queue.head? = some m
  | .getShape m ok =>
    s.stream = .shape ∧ s.queue.head? = some m ∧ (ok → m.code = 0 ∧ m.kind = .shape)
  | .getData shape m => s.stream = .data shape ∧ s.queue.head? = some m
  | .getTimes shape data m => s.stream = .times shape data ∧ s.queue.head? = some m
  | .getThreshold image n _ => s.stream = .threshold image n
  | .finish => s.stream = .finish

instance (v : Version) (s : State) : (e : Event) → Decidable (Enabled v s e) := by
  rintro ⟨⟩ <;> simp only [Enabled] <;> infer_instance

def State.receive (s : State) (m : Part) : State :=
  { s with queue := s.queue.tail, received := m }

def State.publish (s : State) (source : List Part) : State :=
  { s with published := s.published ++ [⟨s.armed, s.header, source⟩] }

def State.goto (s : State) (pc : StreamPc) : State := { s with stream := pc }

/-- The head of getHeader's loop over the parts it skips. -/
def skipLoop : ℕ → StreamPc
  | 0 => .frame
  | n + 1 => .skip n

/-- The head of streamTask's loop over the thresholds of an image. -/
def thresholdLoop (image : Part) : ℕ → StreamPc
  | 0 => .frame
  | n + 1 => .threshold image n

/-- streamTask after waitFrame. Stream has one threshold, and its getFrame still has to
receive the image. -/
def afterWaitFrame (v : Version) (m : Part) : StreamPc :=
  match v, m.kind with
  | _, .seriesEnd => .finish
  | .stream, _ => .shape
  | .stream2, .image n => thresholdLoop m n
  | .stream2, _ => .frame

def next (v : Version) (s : State) : Event → State
  | .arm sequenceId => { s with armed := sequenceId, stream := .header }
  | .send m => { s with sent := m, queue := s.queue ++ [m] }
  | .headerTimeout => s
  | .headerFailed => s.goto .finish
  | .getHeader m =>
    match getHeader v m with
    | .success => { (s.receive m).goto (skipLoop (skip v m.kind)) with header := m.series }
    | .wrongHtype | .timeout => s.receive m
    | .error | .unknown => (s.receive m).goto .finish
  | .skip n none => s.goto (skipLoop n)
  | .skip n (some m) => (s.receive m).goto (skipLoop n)
  | .waitFrame m =>
    match waitFrame v m with
    | .success => (s.receive m).goto (afterWaitFrame v m)
    | .timeout => s.receive m
    | .wrongHtype | .error | .unknown => (s.receive m).goto .finish
  | .getShape m true => (s.receive m).goto (.data m)
  | .getShape m false => ((s.receive m).publish []).goto .undefined
  | .getData shape m => (s.receive m).goto (.times shape m)
  | .getTimes shape data m => ((s.receive m).publish [shape, data]).goto .frame
  | .getThreshold image n true => (s.publish [image]).goto (thresholdLoop image n)
  | .getThreshold _ _ false => (s.publish []).goto .undefined
  | .finish => s.goto .waiting

def system (v : Version) : System State Event where
  Start s := s = initial
  Enabled := Enabled v
  next := next v

instance (v : Version) (s : State) (e : Event) : Decidable ((system v).Enabled s e) :=
  inferInstanceAs (Decidable (Enabled v s e))

/-- Every array comes from image messages of the series that its acquisition armed. -/
def OwnFrames (s : State) : Prop :=
  ∀ f ∈ s.published, f.source ≠ [] ∧
    ∀ m ∈ f.source, m.kind.ofImage = true ∧ m.series = f.acquisition

instance (s : State) : Decidable (OwnFrames s) :=
  inferInstanceAs (Decidable (∀ f ∈ s.published, _ ∧ ∀ m ∈ f.source, _ ∧ _))

/-- A header that getHeader accepts is that of the series armed last, and getFrame builds
the array of every image. -/
def TakesOwnHeader (v : Version) (s : State) : Event → Prop
  | .getHeader m => getHeader v m = .success → m.series = s.armed
  | .getShape _ ok | .getThreshold _ _ ok => ok = true
  | _ => True

instance (v : Version) (s : State) : (e : Event) → Decidable (TakesOwnHeader v s e) := by
  rintro ⟨⟩ <;> simp only [TakesOwnHeader] <;> infer_instance

variable {v : Version} {s : State} {e : Event} {m : Part}

/-- streamTask has accepted a header. -/
def StreamPc.inSeries : StreamPc → Bool
  | .waiting | .header | .finish => false
  | _ => true

/-- The messages that the next array will be built from. -/
def StreamPc.held : StreamPc → List Part
  | .data p => [p]
  | .times p q => [p, q]
  | .threshold image _ => [image]
  | _ => []

/-- An image message between the header that was accepted and the end of what was armed. -/
def Between (lo hi : ℕ) (m : Part) : Prop :=
  m.kind.ofImage = true ∧ lo ≤ m.series ∧ m.series ≤ hi

/-- The socket holds what the detector sent, in order. The series that streamTask reads is
not before that of its header. -/
structure Law (v : Version) (s : State) : Prop where
  wire : Wire v s.received s.queue s.sent
  armed : s.sent.series ≤ s.armed
  reading : s.stream.inSeries = true → s.header ≤ s.received.series
  held : ∀ m ∈ s.stream.held, Between s.header s.armed m
  shapeRead : ∀ shape, s.stream = .data shape → s.received.kind = .shape
  published : ∀ f ∈ s.published, ∀ m ∈ f.source, Between f.header f.acquisition m

/-- A program counter outside of the frame that is being read. -/
def StreamPc.Apart (pc : StreamPc) : Prop := pc.held = [] ∧ ∀ shape, pc ≠ .data shape

theorem skipLoop_apart (n : ℕ) : (skipLoop n).Apart := by
  cases n <;> exact ⟨rfl, by simp [skipLoop]⟩

theorem thresholdLoop_held {image : Part} {n : ℕ} (h : m ∈ (thresholdLoop image n).held) :
    m = image := by
  cases n with
  | zero => cases h
  | succ n => simpa [thresholdLoop, StreamPc.held] using h

theorem thresholdLoop_ne_data (image : Part) (n : ℕ) (shape : Part) :
    thresholdLoop image n ≠ .data shape := by
  cases n <;> simp [thresholdLoop]

theorem afterWaitFrame_ne_data (shape : Part) : afterWaitFrame v m ≠ .data shape := by
  unfold afterWaitFrame
  split <;> simp [thresholdLoop_ne_data]

theorem afterWaitFrame_held {m' : Part} (h : m' ∈ (afterWaitFrame v m).held) :
    m' = m ∧ m.kind.ofImage = true := by
  unfold afterWaitFrame at h
  split at h
  · cases h
  · cases h
  · next n hk => exact ⟨thresholdLoop_held h, by rw [hk]; rfl⟩
  · cases h

theorem law_initial : Law v initial where
  wire := .empty _
  armed := le_rfl
  reading h := by cases h
  held m hm := by cases hm
  shapeRead _ h := by cases h
  published f hf := by cases hf

theorem Law.next_part (h : Law v s) (hq : s.queue.head? = some m) :
    Follows v s.received m ∧ Wire v m s.queue.tail s.sent ∧ m.series ≤ s.armed := by
  obtain ⟨hf, hw⟩ := h.wire.receive hq
  exact ⟨hf, hw, hw.series_le.trans h.armed⟩

theorem Law.goto (h : Law v s) {p : StreamPc} (hr : p.inSeries → s.stream.inSeries)
    (hh : ∀ m ∈ p.held, Between s.header s.armed m) (hd : ∀ shape, p ≠ .data shape) :
    Law v (s.goto p) :=
  { h with
    reading := fun hp => h.reading (hr hp)
    held := hh
    shapeRead := fun shape hs => absurd hs (hd shape) }

theorem Law.receive (h : Law v s) (hq : s.queue.head? = some m) {p : StreamPc}
    (hr : p.inSeries → s.stream.inSeries) (hh : ∀ m ∈ p.held, Between s.header s.armed m)
    (hd : ∀ shape, p = .data shape → m.kind = .shape) : Law v ((s.receive m).goto p) := by
  obtain ⟨hf, hw, -⟩ := h.next_part hq
  exact
    { h with
      wire := hw
      reading := fun hp => (h.reading (hr hp)).trans hf.series_le
      held := hh
      shapeRead := hd }

theorem Law.publish (h : Law v s) (source : List Part)
    (hs : ∀ m ∈ source, Between s.header s.armed m) : Law v (s.publish source) :=
  { h with
    published := fun f hf => by
      rcases List.mem_append.mp hf with hf | hf
      · exact h.published f hf
      · obtain rfl := List.mem_singleton.mp hf
        exact hs }

theorem Law.drop (h : Law v s) (hq : s.queue.head? = some m) {p : StreamPc}
    (hr : p.inSeries → s.stream.inSeries) (hp : p.Apart) :
    Law v ((s.receive m).goto p) :=
  h.receive hq hr (by simp [hp.1]) fun shape hs => absurd hs (hp.2 shape)

theorem Law.accept (h : Law v s) (hq : s.queue.head? = some m) {n : ℕ} :
    Law v { (s.receive m).goto (skipLoop n) with header := m.series } := by
  obtain ⟨-, hw, -⟩ := h.next_part hq
  have hl := skipLoop_apart n
  exact
    { h with
      wire := hw
      reading := fun _ => le_rfl
      held := fun m' (hm : m' ∈ (skipLoop n).held) => by
        rw [hl.1] at hm
        cases hm
      shapeRead := fun shape hd => absurd hd (hl.2 shape) }

theorem law_step (h : Law v s) (he : Enabled v s e) : Law v (next v s e) := by
  cases e with
  | arm sequenceId =>
    exact
      { h with
        armed := h.armed.trans he.2.le
        reading := fun hp => by cases hp
        held := fun m hm => by cases hm
        shapeRead := fun _ hd => by cases hd }
  | send m => exact { h with wire := h.wire.send he.1, armed := he.2 }
  | headerTimeout => exact h
  | headerFailed => exact h.goto (by simp [StreamPc.inSeries]) (by simp [StreamPc.held]) (by simp)
  | getHeader m =>
    obtain ⟨hs, hq⟩ := he
    have hp : StreamPc.header.Apart := ⟨rfl, by simp⟩
    have hwait : Law v (s.receive m) := by
      have hd := h.drop hq (p := .header) (by simp [StreamPc.inSeries]) hp
      rwa [← hs] at hd
    have hend : Law v ((s.receive m).goto .finish) :=
      h.drop hq (by simp [StreamPc.inSeries]) ⟨rfl, by simp⟩
    simp only [next]
    cases getHeader v m with
    | success => exact h.accept hq
    | wrongHtype | timeout => exact hwait
    | error | unknown => exact hend
  | skip n m =>
    obtain ⟨hs, hq⟩ := he
    have hl := skipLoop_apart n
    cases m with
    | none => exact h.goto (by simp [hs, StreamPc.inSeries]) (by simp [hl.1]) hl.2
    | some m =>
      exact h.drop (hq.resolve_left (by simp)) (by simp [hs, StreamPc.inSeries]) hl
  | waitFrame m =>
    obtain ⟨hs, hq⟩ := he
    obtain ⟨hf, -, ha⟩ := h.next_part hq
    have hi : s.stream.inSeries = true := by rw [hs]; rfl
    have hend : Law v ((s.receive m).goto .finish) :=
      h.drop hq (fun _ => hi) ⟨rfl, by simp⟩
    simp only [next]
    cases waitFrame v m with
    | success =>
      refine h.receive hq (fun _ => hi) ?_ fun shape hd => absurd hd (afterWaitFrame_ne_data shape)
      intro m' hm
      obtain ⟨rfl, hk⟩ := afterWaitFrame_held hm
      exact ⟨hk, (h.reading hi).trans hf.series_le, ha⟩
    | timeout =>
      have hd := h.drop hq (p := .frame) (fun _ => hi) ⟨rfl, by simp⟩
      rwa [← hs] at hd
    | wrongHtype | error | unknown => exact hend
  | getShape m ok =>
    obtain ⟨hs, hq, hok⟩ := he
    obtain ⟨hf, -, ha⟩ := h.next_part hq
    have hi : s.stream.inSeries = true := by rw [hs]; rfl
    cases ok with
    | true =>
      have hk := (hok rfl).2
      refine h.receive hq (fun _ => hi) ?_ fun _ _ => hk
      intro m' hm
      obtain rfl := List.mem_singleton.mp hm
      exact ⟨by rw [hk]; rfl, (h.reading hi).trans hf.series_le, ha⟩
    | false =>
      have hp := h.publish [] (by simp)
      exact hp.drop hq (fun _ => hi) ⟨rfl, by simp⟩
  | getData shape m =>
    obtain ⟨hs, hq⟩ := he
    obtain ⟨hf, -, ha⟩ := h.next_part hq
    have hi : s.stream.inSeries = true := by rw [hs]; rfl
    have hk : m.kind = .data := hf.data (h.shapeRead shape hs)
    refine h.receive hq (fun _ => hi) ?_ (by simp)
    intro m' hm
    rcases List.mem_cons.mp hm with rfl | hm
    · exact h.held m' (by simp [hs, StreamPc.held])
    · obtain rfl := List.mem_singleton.mp hm
      exact ⟨by rw [hk]; rfl, (h.reading hi).trans hf.series_le, ha⟩
  | getTimes shape data m =>
    obtain ⟨hs, hq⟩ := he
    have hi : s.stream.inSeries = true := by rw [hs]; rfl
    have hp := h.publish [shape, data] fun m' hm => h.held m' (by rw [hs]; exact hm)
    exact hp.drop hq (fun _ => hi) ⟨rfl, by simp⟩
  | getThreshold image n ok =>
    have hs : s.stream = .threshold image n := he
    have hi : s.stream.inSeries = true := by rw [hs]; rfl
    have hh : Between s.header s.armed image := h.held image (by simp [hs, StreamPc.held])
    cases ok with
    | true =>
      have hp := h.publish [image] (by simp [hh])
      refine hp.goto (fun _ => hi) ?_ fun shape => thresholdLoop_ne_data image n shape
      intro m' hm
      obtain rfl := thresholdLoop_held hm
      exact hh
    | false =>
      have hp := h.publish [] (by simp)
      exact hp.goto (fun _ => hi) (by simp [StreamPc.held]) (by simp)
  | finish => exact h.goto (by simp [StreamPc.inSeries]) (by simp [StreamPc.held]) (by simp)

theorem reaches_law {C : State → Event → Prop} (h : Reaches (system v) C s) : Law v s := by
  refine h.invariant (I := Law v) ?_ fun _ _ hl he _ => law_step hl he
  rintro _ rfl
  exact law_initial

/-- In any run an array comes from series between that of the header that getHeader accepted
and that of the acquisition. -/
theorem frames_between (h : Reachable (system v) s) :
    ∀ f ∈ s.published, ∀ m ∈ f.source, Between f.header f.acquisition m :=
  (reaches_law h).published

/-- The header of the series that streamTask reads is the one of the acquisition. -/
structure OwnLaw (s : State) : Prop where
  header : s.stream.inSeries = true → s.header = s.armed
  published : ∀ f ∈ s.published, f.header = f.acquisition ∧ f.source ≠ []

theorem ownLaw_initial : OwnLaw initial where
  header h := by cases h
  published f hf := by cases hf

theorem OwnLaw.publish (h : OwnLaw s) (hi : s.stream.inSeries = true) {source : List Part}
    (hs : source ≠ []) : OwnLaw (s.publish source) :=
  { h with
    published := fun f hf => by
      rcases List.mem_append.mp hf with hf | hf
      · exact h.published f hf
      · obtain rfl := List.mem_singleton.mp hf
        exact ⟨h.header hi, hs⟩ }

theorem OwnLaw.goto (h : OwnLaw s) {pc : StreamPc} (hr : pc.inSeries → s.stream.inSeries) :
    OwnLaw (s.goto pc) :=
  { h with header := fun hp => h.header (hr hp) }

theorem ownLaw_step (h : OwnLaw s) (he : Enabled v s e) (ht : TakesOwnHeader v s e) :
    OwnLaw (next v s e) := by
  cases e with
  | arm sequenceId => exact { h with header := fun hp => by cases hp }
  | send m | headerTimeout => exact { h with }
  | headerFailed | finish => exact h.goto (by simp [StreamPc.inSeries])
  | getHeader m =>
    have hr : OwnLaw (s.receive m) := { h with }
    simp only [next]
    cases hg : getHeader v m with
    | success => exact { h with header := fun _ => ht hg }
    | wrongHtype | timeout => exact hr
    | error | unknown => exact hr.goto (by simp [StreamPc.inSeries])
  | skip n m =>
    have hi : s.stream.inSeries = true := by rw [he.1]; rfl
    cases m with
    | none => exact h.goto fun _ => hi
    | some m => exact OwnLaw.goto (s := s.receive m) { h with } fun _ => hi
  | waitFrame m =>
    have hi : s.stream.inSeries = true := by rw [he.1]; rfl
    have hr : OwnLaw (s.receive m) := { h with }
    simp only [next]
    cases waitFrame v m with
    | success => exact hr.goto fun _ => hi
    | timeout => exact hr
    | wrongHtype | error | unknown => exact hr.goto fun _ => hi
  | getShape m ok =>
    have hi : s.stream.inSeries = true := by rw [he.1]; rfl
    obtain rfl : ok = true := ht
    exact OwnLaw.goto (s := s.receive m) { h with } fun _ => hi
  | getData shape m =>
    have hi : s.stream.inSeries = true := by rw [he.1]; rfl
    exact OwnLaw.goto (s := s.receive m) { h with } fun _ => hi
  | getTimes shape data m =>
    have hi : s.stream.inSeries = true := by rw [he.1]; rfl
    have hr : OwnLaw (s.receive m) := { h with }
    exact (hr.publish hi (by simp)).goto fun _ => hi
  | getThreshold image n ok =>
    have hi : s.stream.inSeries = true := by rw [show s.stream = _ from he]; rfl
    obtain rfl : ok = true := ht
    exact (h.publish hi (by simp)).goto fun _ => hi

theorem reaches_ownLaw (h : Reaches (system v) (TakesOwnHeader v) s) : OwnLaw s := by
  refine h.invariant (I := OwnLaw) ?_ fun _ _ hl he ht => ownLaw_step hl he ht
  rintro _ rfl
  exact ownLaw_initial

/-- As long as getHeader accepts no header of another series and getFrame does not fail,
the arrays of an acquisition come from the images of its series. -/
theorem own_frames (h : Reaches (system v) (TakesOwnHeader v) s) : OwnFrames s := by
  intro f hf
  obtain ⟨hh, hs⟩ := (reaches_ownLaw h).published f hf
  refine ⟨hs, fun m hm => ?_⟩
  obtain ⟨hk, hlo, hhi⟩ := (reaches_law h).published f hf m hm
  exact ⟨hk, le_antisymm hhi (hh ▸ hlo)⟩

/-- One image of series `n` on the Stream interface with header_detail basic. -/
def sendSeries (n : ℕ) : List Event :=
  [.send ⟨n, .header .basic, 0⟩, .send ⟨n, .headerPart 0, 1⟩, .send ⟨n, .image 1, 0⟩,
   .send ⟨n, .shape, 0⟩, .send ⟨n, .data, 1⟩, .send ⟨n, .times, 0⟩, .send ⟨n, .seriesEnd, 0⟩]

/-- streamTask reads these parts. -/
def readSeries (n : ℕ) : List Event :=
  [.getHeader ⟨n, .header .basic, 0⟩, .skip 0 (some ⟨n, .headerPart 0, 1⟩),
   .waitFrame ⟨n, .image 1, 0⟩, .getShape ⟨n, .shape, 0⟩ true,
   .getData ⟨n, .shape, 0⟩ ⟨n, .data, 1⟩,
   .getTimes ⟨n, .shape, 0⟩ ⟨n, .data, 1⟩ ⟨n, .times, 0⟩, .waitFrame ⟨n, .seriesEnd, 0⟩,
   .finish]

def traceTwoSeries : List Event :=
  .arm 1 :: sendSeries 1 ++ readSeries 1 ++ .arm 2 :: sendSeries 2 ++ readSeries 2

theorem own_frames_two_series :
    (runTrace (system .stream) initial traceTwoSeries).published.length = 2 ∧
      OwnFrames (runTrace (system .stream) initial traceTwoSeries) :=
  ⟨by decide +kernel, own_frames (ValidTrace.reaches (by decide +kernel) (.start rfl))⟩

/-- zmq_poll fails in the first acquisition. Its start message stays in the socket, and the
second acquisition publishes the image of the first. -/
theorem frames_of_earlier_series :
    ¬ ∀ v s, Reachable (system v) s → OwnFrames s := by
  intro h
  have ho := h .stream2 _ (reachable_trace rfl
    [.arm 1, .send ⟨1, .header .none, 0⟩, .headerFailed, .finish,
      .send ⟨1, .image 1, 0⟩, .send ⟨1, .seriesEnd, 0⟩, .arm 2, .getHeader ⟨1, .header .none, 0⟩,
      .waitFrame ⟨1, .image 1, 0⟩, .getThreshold ⟨1, .image 1, 0⟩ 0 true] (by decide +kernel))
  revert ho
  decide +kernel

end StreamSeries
