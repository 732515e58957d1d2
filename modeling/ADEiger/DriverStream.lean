import ADEiger.DriverStop
import Mathlib.Tactic.ByContra

/-! The handshake of controlTask and streamTask.
One token passes from `mStreamEvent` through streamTask to `mStreamDoneEvent`; streamTask
drops it when it finds no receiver. -/
namespace Driver

open TransitionSystem

variable {s : State} {e : Event}

/-- What the handshake promises: one done signal for each event consumed, before streamTask
waits again, and never both tasks waiting for each other. -/
structure HandshakeKept (s : State) : Prop where
  balanced : s.consumed = s.signalled + if s.stream = .waiting then 0 else 1
  no_deadlock : ¬ (s.control = .waitStream ∧ s.stream = .waiting ∧ s.streamEvent = false ∧
    s.streamDoneEvent = false)

/-- streamTask finds a receiver at the start of a series. -/
def FindsReceiver (s : State) : Event → Prop
  | .checkReceiver => ¬ s.receiverMissing
  | _ => True

instance (s : State) : (e : Event) → Decidable (FindsReceiver s e) := by
  rintro ⟨⟩ <;> simp only [FindsReceiver] <;> infer_instance

/-- controlTask has armed the detector and has not yet waited for streamTask. -/
def ControlPc.armed : ControlPc → Bool
  | .manualWait | .testTrigger | .trigger | .fetchState | .waitStop | .relock | .disarm
  | .fetchFWState | .waitPoll | .waitStream => true
  | _ => false

/-- The tokens of the handshake, and what controlTask makes of them. -/
def State.tokens (s : State) : ℕ :=
  s.streamEvent.toNat + (if s.stream = .waiting then 0 else 1) + s.streamDoneEvent.toNat

def State.series (s : State) : ℕ := if s.control.armed = true ∧ s.latched.waitStream then 1 else 0

structure HandshakeLaw (s : State) : Prop where
  tokens : s.tokens = s.series
  waiting : s.control = .waitStream → s.latched.waitStream
  balanced : s.consumed = s.signalled + if s.stream = .waiting then 0 else 1

theorem handshakeLaw_initial : HandshakeLaw initial := by
  constructor <;> simp [initial, State.tokens, State.series, ControlPc.armed]

theorem HandshakeLaw.move (h : HandshakeLaw s) {c : ControlPc}
    (hc : c.armed = s.control.armed ∨ ¬ s.latched.waitStream)
    (hw : c = .waitStream → s.latched.waitStream) : HandshakeLaw { s with control := c } where
  tokens := by
    rw [show State.tokens { s with control := c } = s.tokens from rfl, h.tokens]
    rcases hc with hc | hc
    · simp [State.series, hc]
    · simp [State.series, hc]
  waiting := hw
  balanced := h.balanced

/-- controlTask is in a series of its acquisition, at a point before the wait for its end. -/
theorem HandshakeLaw.enter (ht : s.tokens = if s.latched.waitStream then 1 else 0)
    (hb : s.consumed = s.signalled + if s.stream = .waiting then 0 else 1) {c : ControlPc}
    {state : String} (hc : c.armed = true) (hw : c ≠ .waitStream) :
    HandshakeLaw { s with control := c, state := state } where
  tokens := by
    rw [show State.tokens { s with control := c, state := state } = s.tokens from rfl, ht]
    simp [State.series, hc]
  waiting h := absurd h hw
  balanced := hb

theorem HandshakeLaw.testTrigger (ht : s.tokens = if s.latched.waitStream then 1 else 0)
    (hb : s.consumed = s.signalled + if s.stream = .waiting then 0 else 1) :
    HandshakeLaw s.testTrigger := by
  rcases testTrigger_cases s with h | ⟨-, h | h⟩
  all_goals
    rw [h]
    exact HandshakeLaw.enter ht hb rfl (by simp)

theorem HandshakeLaw.tokens_armed (h : HandshakeLaw s) (hc : s.control.armed = true) :
    s.tokens = if s.latched.waitStream then 1 else 0 := by
  rw [h.tokens]
  simp [State.series, hc]

theorem HandshakeLaw.idle (h : HandshakeLaw s) (hc : s.control.armed = false) :
    s.streamEvent = false ∧ s.stream = .waiting ∧ s.streamDoneEvent = false := by
  have ht := h.tokens
  simp only [State.series, hc, Bool.false_eq_true, false_and, if_false, State.tokens] at ht
  have hs : s.stream = .waiting := by
    by_contra hn
    simp [hn] at ht
  simpa [hs, Bool.toNat_eq_zero] using ht

theorem HandshakeLaw.idle_balanced (h : HandshakeLaw s) (hc : s.control.armed = false) :
    s.consumed = s.signalled := by
  obtain ⟨-, hs, -⟩ := h.idle hc
  simpa [hs] using h.balanced

theorem HandshakeLaw.switchReceivers (h : HandshakeLaw s) (enabled : Bool) :
    HandshakeLaw (s.switchReceivers enabled) := by
  simp only [State.switchReceivers]
  split_ifs <;> exact { h with }

theorem HandshakeLaw.stream (h : HandshakeLaw s) {p : StreamPc} (hs : s.stream ≠ .waiting)
    (hp : p ≠ .waiting) : HandshakeLaw { s with stream := p } where
  tokens := by
    have ht := h.tokens
    simp only [State.tokens, if_neg hs] at ht
    simp only [State.tokens, if_neg hp]
    exact ht
  waiting := h.waiting
  balanced := by simpa [hp, hs] using h.balanced

theorem HandshakeLaw.outside (hi : s.streamEvent = false ∧ s.stream = .waiting ∧
      s.streamDoneEvent = false) (hb : s.consumed = s.signalled)
    (hc : s.control.armed = false) (hw : s.control ≠ .waitStream) : HandshakeLaw s where
  tokens := by simp [State.tokens, State.series, hi, hc]
  waiting h := absurd h hw
  balanced := by simp [hi, hb]

theorem afterPoll_armed (l : Latched) :
    (l.afterPoll = .waitStream ∧ l.waitStream) ∨ (l.afterPoll = .finish ∧ ¬ l.waitStream) := by
  unfold Latched.afterPoll
  split_ifs with h
  · exact Or.inl ⟨rfl, h⟩
  · exact Or.inr ⟨rfl, h⟩

/-- FileWriter is done with, or was not wanted. -/
theorem HandshakeLaw.afterPoll (h : HandshakeLaw s) (hc : s.control.armed = true) :
    HandshakeLaw { s with control := s.latched.afterPoll } := by
  rcases afterPoll_armed s.latched with ⟨ha, hw⟩ | ⟨ha, hw⟩
  · exact h.move (Or.inl (by rw [ha, hc]; rfl)) fun _ => hw
  · exact h.move (Or.inr hw) (by simp [ha])

theorem handshakeLaw_step (h : HandshakeLaw s) (he : Enabled s e) (hf : FindsReceiver s e) :
    HandshakeLaw (next s e) := by
  cases e with
  | wake => exact { h.move (c := .woken) (Or.inl (by rw [he.1]; rfl)) (by simp) with }
  | start putOk =>
    have hc : s.control.armed = false := by rw [he.1]; rfl
    have hi := h.idle hc
    have hb := h.idle_balanced hc
    simp only [next]
    split_ifs
    all_goals exact .outside ⟨rfl, hi.2⟩ hb rfl (by simp)
  | arm ok =>
    have hc : s.control.armed = false := by rw [he.1]; rfl
    have hi := h.idle hc
    have hb := h.idle_balanced hc
    cases ok with
    | false => exact .outside hi hb rfl (by simp [next])
    | true =>
      have ht : ∀ t : State,
          t = { s with numImagesCounter := 0, armed := true, triggers := 0 }.startTasks →
            t.tokens = if t.latched.waitStream then 1 else 0 := by
        rintro t rfl
        simp only [State.tokens, State.startTasks, hi]
        split_ifs <;> simp
      have hb' : s.consumed = s.signalled + if s.stream = .waiting then 0 else 1 := h.balanced
      simp only [next]
      split_ifs
      · exact .testTrigger (ht _ rfl) hb'
      · exact .enter (ht _ rfl) hb' rfl (by simp)
  | manualWait fired =>
    have hc : s.control.armed = true := by rw [he.1]; rfl
    simp only [next]
    split_ifs
    · exact { h.move (c := .trigger) (Or.inl hc.symm) (by simp) with }
    · exact h.move (Or.inl hc.symm) (by simp)
  | testTrigger => exact .testTrigger (h.tokens_armed (by rw [he.1]; rfl)) h.balanced
  | trigger => exact .testTrigger (h.tokens_armed (by rw [he.1]; rfl)) h.balanced
  | fetchState reported =>
    have hc : s.control.armed = true := by rw [show s.control = _ from he]; rfl
    simp only [next]
    split_ifs
    all_goals exact .enter (h.tokens_armed hc) h.balanced rfl (by simp)
  | waitStop fired =>
    have hc : s.control.armed = true := by rw [he.1]; rfl
    simp only [next]
    split_ifs
    · exact { h.move (c := .disarm) (Or.inl hc.symm) (by simp) with }
    · exact h.move (Or.inl hc.symm) (by simp)
  | relock => exact h.move (Or.inl (by rw [he.1]; rfl)) (by simp)
  | disarm =>
    have hc : s.control.armed = true := by rw [he.1]; rfl
    simp only [next]
    split_ifs
    · exact { h.move (c := .fetchFWState) (Or.inl hc.symm) (by simp) with }
    · exact { h.afterPoll hc with }
  | fetchFWState reported =>
    have hc : s.control.armed = true := by rw [he.1]; rfl
    simp only [next]
    split_ifs
    · exact h
    · exact { h.move (c := .waitPoll) (Or.inl hc.symm) (by simp) with }
  | pollDoneWait => exact { h.afterPoll (by rw [he.1]; rfl) with }
  | streamDoneWait =>
    obtain ⟨he, hd⟩ := he
    have ht := h.tokens_armed (by rw [he]; rfl)
    rw [if_pos (h.waiting he), State.tokens, hd, Bool.toNat_true] at ht
    have hs : s.stream = .waiting := by
      by_contra hn
      simp [hn] at ht
    have hev : s.streamEvent = false := by simpa [hs, Bool.toNat_eq_zero] using ht
    have hb : s.consumed = s.signalled := by simpa [hs] using h.balanced
    exact .outside ⟨hev, hs, rfl⟩ hb rfl (by simp [next])
  | finish putOk =>
    have hc : s.control.armed = false := by rw [he.1]; rfl
    have hi := h.idle hc
    have hb := h.idle_balanced hc
    simp only [next]
    cases s.adStatus with
    | acquire =>
      dsimp only
      split_ifs
      all_goals exact .outside hi hb rfl (by simp)
    | aborted | idle | error => exact .outside hi hb rfl (by simp)
  | wakeStream =>
    obtain ⟨hs, hev⟩ := he
    have ht := h.tokens
    rw [State.tokens, hs, hev, if_pos rfl, Bool.toNat_true] at ht
    have hb : s.consumed = s.signalled := by simpa [hs] using h.balanced
    exact { tokens := by
              rw [← show s.series = (next s .wakeStream).series from rfl, ← ht]
              simp [next, State.tokens]
            waiting := h.waiting
            balanced := by simp [next, hb] }
  | checkReceiver =>
    simp only [next, if_neg hf]
    exact h.stream (by simp [he.1]) (by simp)
  | callGetHeader v =>
    have hp : s.stream = .getHeader v := he
    exact h.stream (by simp [hp]) (by simp)
  | getHeader v o result =>
    cases result <;> exact h.stream (by simp [he.1]) (by simp)
  | callWaitFrame v =>
    have hp : s.stream = .waitFrame v := he
    exact h.stream (by simp [hp]) (by simp)
  | waitFrame v o result =>
    have hs : s.stream ≠ .waiting := by simp [he.1]
    rcases result with (_ | n) | _ | _
    · exact { h.stream (p := .finish) hs (by simp) with }
    · exact h.stream hs (by split_ifs <;> simp)
    · exact h.stream hs (by simp)
    · exact h.stream hs (by simp)
  | getFrame v n =>
    have hs : s.stream ≠ .waiting := by simp [show s.stream = _ from he]
    exact { h.stream (p := if n = 0 then .waitFrame v else .getFrame v n) hs
      (by split_ifs <;> simp) with }
  | finishStream =>
    have hs : s.stream = .finish := he
    have ht := h.tokens
    have hle : s.series ≤ 1 := by unfold State.series; split_ifs <;> simp
    rw [State.tokens, hs, if_neg (by simp)] at ht
    have hd : s.streamDoneEvent.toNat = 0 := by omega
    have hb := h.balanced
    rw [hs, if_neg (by simp)] at hb
    exact { tokens := by
              rw [← show s.series = (next s .finishStream).series from rfl, ← ht, hd]
              rfl
            waiting := h.waiting
            balanced := by simpa [next] using hb }
  | writeAcquire value =>
    simp only [next]
    split_ifs <;> exact { h with }
  | writeDataSource value enabled =>
    have h' : HandshakeLaw { s with dataSource := value } := { h with }
    exact h'.switchReceivers enabled
  | writeStreamVersion value enabled =>
    have h' : HandshakeLaw { s with streamVersion := value } := { h with }
    exact h'.switchReceivers enabled
  | _ => exact { h with }

theorem reaches_handshakeLaw (h : Reaches system FindsReceiver s) : HandshakeLaw s := by
  refine h.invariant (I := HandshakeLaw) ?_ fun _ _ hl he hf => handshakeLaw_step hl he hf
  rintro _ rfl
  exact handshakeLaw_initial

/-- As long as streamTask finds a receiver, its handshake with controlTask is kept. -/
theorem handshake_kept (h : Reaches system FindsReceiver s) : HandshakeKept s where
  balanced := (reaches_handshakeLaw h).balanced
  no_deadlock := by
    rintro ⟨hc, hs, he, hd⟩
    have hl := reaches_handshakeLaw h
    have ht := hl.tokens_armed (by rw [hc]; rfl)
    rw [if_pos (hl.waiting hc), State.tokens, hs, he, hd] at ht
    simp at ht

/-- A client enables the stream and starts an acquisition with one external trigger. -/
def traceStreamArmed : List Event :=
  [.writeDataSource .stream true, .writeSettings ⟨false, true, false, false, false, .exts, 1⟩,
   .writeAcquire 1, .wake, .start true]

/-- streamTask receives the header and the end of the series. -/
def traceSeries : List Event :=
  [.wakeStream, .checkReceiver, .callGetHeader 0, .getHeader 0 (some 0) .success,
   .callWaitFrame 0, .waitFrame 0 (some 0) (.success none), .finishStream]

/-- controlTask waits for streamTask, which comes to the end of the series. -/
def traceHandshake : List Event :=
  traceStreamArmed ++ [.arm true, .fetchState (some "idle"), .disarm] ++ traceSeries

theorem handshake_kept_series :
    (runTrace system initial traceHandshake).signalled = 1 ∧
      HandshakeKept (runTrace system initial traceHandshake) :=
  ⟨by decide +kernel, handshake_kept (ValidTrace.reaches (by decide +kernel) (.start rfl))⟩

/-- DataSource is switched off while the detector is armed: streamTask finds no receiver
and goes back to waiting, and controlTask waits for it forever. -/
theorem handshake_deadlock : ¬ ∀ s, Reachable system s → HandshakeKept s := by
  intro h
  have ht := h _ (reachable_trace rfl
    (traceStreamArmed ++ [.writeDataSource .none true, .arm true, .wakeStream,
      .fetchState (some "idle"), .disarm, .checkReceiver]) (by decide +kernel))
  exact ht.no_deadlock (by decide +kernel)

end Driver
