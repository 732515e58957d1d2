import ADEiger.Driver
import Mathlib.Tactic.SplitIfs

/-! Stopping an acquisition.
A stop is carried by ADStatus and by `mStopEvent`; controlTask overwrites the one and clears
the other when it starts, so a stop survives unless a start is still on its way. -/
namespace Driver

open TransitionSystem

variable {s : State} {e : Event}

/-- The latest accepted stop is in force. -/
structure StopKept (s : State) : Prop where
  status : s.adStatus ≠ .acquire
  no_start : ∀ putOk, ¬ Enabled s (.start putOk)
  leaves_triggers : s.stops ∉ s.aborting →
    ∀ e ∈ [Event.arm true, .testTrigger, .trigger], Enabled s e →
      (next s e).control = .fetchState
  leaves_wait : s.stops ∉ s.aborting →
    ∀ fired, Enabled s (.waitStop fired) → (next s (.waitStop fired)).control = .disarm

/-- `stopped` holds from an accepted stop to the next accepted start. -/
def NeverLosesStop (s : State) : Prop := s.stopped = true → StopKept s

/-- No stop is accepted while a start is on its way to controlTask. -/
def StopsRunning (s : State) : Event → Prop
  | .writeAcquire value =>
    value = 0 → s.adStatus = .acquire → s.startEvent = false ∧ s.control ≠ .woken
  | _ => True

instance (s : State) : (e : Event) → Decidable (StopsRunning s e) := by
  rintro ⟨⟩ <;> simp only [StopsRunning] <;> infer_instance

/-- controlTask is between the start of an acquisition and the end of its wait loop. -/
def ControlPc.running : ControlPc → Bool
  | .arm | .manualWait | .testTrigger | .trigger | .fetchState | .waitStop | .relock => true
  | _ => false

structure StopLaw (s : State) : Prop where
  status : s.stopped = true → s.adStatus ≠ .acquire
  idle : s.stopped = true → s.startEvent = false ∧ s.control ≠ .woken
  event : s.stopped = true → s.stops ∉ s.aborting → s.control.running = true →
    s.stopEvent = true

theorem stopLaw_initial : StopLaw initial := by
  constructor <;> simp [initial]

/-- The trigger loop is entered only while ADStatus is Acquire. -/
theorem testTrigger_cases (s : State) :
    s.testTrigger = { s with state := "", control := .fetchState } ∨
    (s.adStatus = .acquire ∧ (s.testTrigger = { s with control := .manualWait } ∨
      s.testTrigger = { s with control := .trigger })) := by
  unfold State.testTrigger
  split_ifs with h hm
  · exact Or.inr ⟨h.1, Or.inl rfl⟩
  · exact Or.inr ⟨h.1, Or.inr rfl⟩
  · exact Or.inl rfl

theorem testTrigger_leaves (h : s.adStatus ≠ .acquire) : s.testTrigger.control = .fetchState := by
  rw [(testTrigger_cases s).resolve_right fun hc => h hc.1]

theorem StopLaw.testTrigger (h : StopLaw s) (hr : s.control.running = true) :
    StopLaw s.testTrigger := by
  rcases testTrigger_cases s with ht | ⟨-, ht | ht⟩
  all_goals
    rw [ht]
    exact { status := h.status
            idle := fun hs => ⟨(h.idle hs).1, by simp⟩
            event := fun hs ha _ => h.event hs ha hr }

theorem StopLaw.move (h : StopLaw s) {c : ControlPc} (hw : c ≠ .woken)
    (hr : c.running = true → s.control.running = true) : StopLaw { s with control := c } where
  status := h.status
  idle hs := ⟨(h.idle hs).1, hw⟩
  event hs ha hc := h.event hs ha (hr hc)

theorem StopLaw.switchReceivers (h : StopLaw s) (enabled : Bool) :
    StopLaw (s.switchReceivers enabled) := by
  simp only [State.switchReceivers]
  split_ifs <;> exact { h with }

theorem afterPoll_ne (l : Latched) : l.afterPoll ≠ .woken ∧ l.afterPoll.running = false := by
  unfold Latched.afterPoll
  split_ifs <;> simp [ControlPc.running]

theorem stopLaw_step (h : StopLaw s) (he : Enabled s e) (hc : StopsRunning s e) :
    StopLaw (next s e) := by
  cases e with
  | wake =>
    have hn : s.stopped ≠ true := fun hs => by
      have := (h.idle hs).1
      simp [he.2] at this
    constructor <;> simp [next, hn]
  | start putOk =>
    have hn : s.stopped ≠ true := fun hs => (h.idle hs).2 he.1
    simp only [next]
    split_ifs <;> constructor <;> simp [hn]
  | arm ok =>
    have hr : s.control.running = true := by rw [he.1]; rfl
    cases ok with
    | false =>
      exact {
        status := fun _ => by simp [next]
        idle := fun hs => ⟨(h.idle hs).1, by simp [next]⟩
        event := fun _ _ hc => by simp [next, ControlPc.running] at hc }
    | true =>
      simp only [next]
      split_ifs
      · exact StopLaw.testTrigger { h with } hr
      · exact { status := h.status
                idle := fun hs => ⟨(h.idle hs).1, by simp⟩
                event := fun hs ha _ => h.event hs ha hr }
  | manualWait fired =>
    simp only [next]
    split_ifs
    · exact { h.move (c := .trigger) (by simp) fun _ => by rw [he.1]; rfl with }
    · exact h.move (by simp) fun _ => by rw [he.1]; rfl
  | testTrigger => exact h.testTrigger (by rw [he.1]; rfl)
  | trigger => exact StopLaw.testTrigger { h with } (by rw [show s.control = _ from he.1]; rfl)
  | fetchState reported =>
    have hr : s.control.running = true := by rw [show s.control = _ from he]; rfl
    simp only [next]
    split_ifs
    · exact { h.move (c := .disarm) (by simp) fun _ => hr with }
    · exact { h.move (c := .waitStop) (by simp) fun _ => hr with }
  | waitStop fired =>
    simp only [next]
    split_ifs
    · exact {
        status := h.status
        idle := fun hs => ⟨(h.idle hs).1, by simp⟩
        event := fun _ _ hc => by simp [ControlPc.running] at hc }
    · exact h.move (by simp) fun _ => by rw [he.1]; rfl
  | relock => exact h.move (by simp) fun _ => by rw [he.1]; rfl
  | disarm =>
    simp only [next]
    split_ifs
    · exact { h.move (c := .fetchFWState) (by simp) nofun with }
    · exact { h.move (c := s.latched.afterPoll) (afterPoll_ne s.latched).1
        (by simp [(afterPoll_ne s.latched).2]) with }
  | fetchFWState reported =>
    simp only [next]
    split_ifs
    · exact h
    · exact { h.move (c := .waitPoll) (by simp) nofun with }
  | pollDoneWait =>
    exact { h.move (c := s.latched.afterPoll) (afterPoll_ne s.latched).1
      (by simp [(afterPoll_ne s.latched).2]) with }
  | streamDoneWait => exact { h.move (c := .finish) (by simp) nofun with }
  | finish putOk =>
    have hw : ControlPc.waiting ≠ .woken := by simp
    simp only [next]
    cases ha : s.adStatus with
    | acquire =>
      have hn : s.stopped ≠ true := fun hs => h.status hs ha
      dsimp only
      split_ifs <;> constructor <;> simp [hn]
    | aborted => exact { h.move hw nofun with status := fun _ => by simp }
    | idle => exact { h.move hw nofun with status := fun _ => by simp }
    | error => exact { h.move hw nofun with status := fun _ => by simp }
  | writeAcquire value =>
    simp only [next]
    split_ifs with hs ha
    · constructor <;> simp
    · exact { status := fun _ => by simp
              idle := fun _ => hc ha.1 ha.2
              event := by simp }
    · exact { h with }
  | finishStop k =>
    exact { status := h.status, idle := h.idle, event := fun _ _ _ => rfl }
  | writeDataSource value enabled =>
    have h' : StopLaw { s with dataSource := value } := { h with }
    exact h'.switchReceivers enabled
  | writeStreamVersion value enabled =>
    have h' : StopLaw { s with streamVersion := value } := { h with }
    exact h'.switchReceivers enabled
  | waitFrame v o result =>
    rcases result with (_ | n) | _ | _ <;> exact { h with }
  | _ => exact { h with }

theorem reaches_stopLaw (h : Reaches system StopsRunning s) : StopLaw s := by
  refine h.invariant (I := StopLaw) ?_ fun _ _ hl he hc => stopLaw_step hl he hc
  rintro _ rfl
  exact stopLaw_initial

theorem stopKept_of_law (h : StopLaw s) (hs : s.stopped = true) : StopKept s where
  status := h.status hs
  no_start _ he := (h.idle hs).2 he.1
  leaves_triggers _ e he hen := by
    have hst := h.status hs
    simp only [List.mem_cons, List.not_mem_nil, or_false] at he
    rcases he with rfl | rfl | rfl
    · simp only [next]
      split_ifs
      · exact testTrigger_leaves hst
      · rfl
    · exact testTrigger_leaves hst
    · exact testTrigger_leaves hst
  leaves_wait ha fired he := by
    have hr : s.control.running = true := by rw [he.1]; rfl
    have hf : true = fired := (h.event hs ha hr).symm.trans he.2
    subst hf
    rfl

/-- When every accepted stop finds no start on its way, no stop is lost. -/
theorem stop_never_lost (h : Reaches system StopsRunning s) : NeverLosesStop s :=
  stopKept_of_law (reaches_stopLaw h)

/-- A client starts an acquisition, and controlTask gets as far as arming the detector. -/
def traceArmed : List Event :=
  [.writeAcquire 1, .wake, .start true, .arm true]

/-- A client stops the acquisition; controlTask is in its wait loop by then. -/
def traceStopped : List Event :=
  traceArmed ++ [.trigger, .fetchState (some "acquire"), .writeAcquire 0, .finishStop 1]

theorem stop_never_lost_waiting :
    (runTrace system initial traceStopped).stopped = true ∧
      NeverLosesStop (runTrace system initial traceStopped) :=
  ⟨by decide +kernel, stop_never_lost (ValidTrace.reaches (by decide +kernel) (.start rfl))⟩

/-- The stop is accepted before controlTask has woken up, which then starts all the same. -/
theorem stop_lost_before_wake : ¬ ∀ s, Reachable system s → NeverLosesStop s := by
  intro h
  have ht := h _ (reachable_trace rfl [.writeAcquire 1, .writeAcquire 0, .wake, .start true]
    (by decide +kernel))
  exact (ht (by decide +kernel)).status (by decide +kernel)

end Driver
