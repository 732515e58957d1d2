import ADEiger.DriverStop

/-! Reporting a start.
ADAcquire and ADStatus say together that an acquisition runs; clients set both, and controlTask
resets them when it is done with an acquisition. -/
namespace Driver

open TransitionSystem

variable {s : State} {e : Event}

/-- `eigerStatus` returns at once while ADAcquire is set. -/
def State.polls (s : State) : Prop := s.adAcquire = 0

instance (s : State) : Decidable s.polls := inferInstanceAs (Decidable (_ = _))

/-- controlTask has a start, or is to take one. -/
def State.startTaken (s : State) : Prop := s.control ≠ .waiting ∨ s.startEvent = true

instance (s : State) : Decidable s.startTaken := inferInstanceAs (Decidable (_ ∨ _))

/-- `stopped` tells whether the last write that was accepted is a stop. -/
structure StartReported (s : State) : Prop where
  acquire : s.control ≠ .waiting → s.stopped = false → s.adAcquire ≠ 0 ∧ s.adStatus = .acquire
  unpolled : s.control ≠ .waiting → s.stopped = false → ¬ s.polls
  ready : s.control = .waiting → s.startEvent = false → s.adAcquire = 0

/-- ADAcquire is not reset while a start is in force that came later: by controlTask at the end of
an acquisition, or by the end of a stop. -/
def ResetsOwn (s : State) : Event → Prop
  | .start _ => s.settingsError → s.startEvent = true → s.stopped = true
  | .arm false => s.startEvent = true → s.stopped = true
  | .finish _ => s.adStatus = .acquire → s.latched.triggerMode ≠ .continuous →
      s.startEvent = true → s.stopped = true
  | .finishStop _ => s.startTaken → s.stopped = true
  | _ => True

instance (s : State) : (e : Event) → Decidable (ResetsOwn s e)
  | .start _ => inferInstanceAs (Decidable (_ → _ → _))
  | .arm false => inferInstanceAs (Decidable (_ → _))
  | .finish _ => inferInstanceAs (Decidable (_ → _ → _ → _))
  | .finishStop _ => inferInstanceAs (Decidable (_ → _))
  | .arm true => isTrue trivial
  | .wake | .manualWait _ | .testTrigger | .trigger | .fetchState _ | .waitStop _ | .relock
  | .disarm | .fetchFWState _ | .pollDoneWait | .streamDoneWait | .wakeStream | .checkReceiver
  | .callGetHeader _ | .getHeader _ _ _ | .callWaitFrame _ | .waitFrame _ _ _ | .getFrame _ _
  | .finishStream | .pollDone | .parsed _ | .writeAcquire _ | .writeTrigger
  | .writeDataSource _ _ | .writeStreamVersion _ _ | .writeNumImages _
  | .writeSettings _ => isTrue trivial

/-- What a state says about a start that is in force. -/
def InForce (s : State) : Prop :=
  s.startTaken → s.stopped = false → s.adAcquire ≠ 0 ∧ s.adStatus = .acquire

/-- controlTask is past the beginning of an acquisition. -/
def ControlPc.started : ControlPc → Bool
  | .waiting | .woken => false
  | _ => true

/-- What holds whether starts come at a bad moment or not. -/
structure Waits (s : State) : Prop where
  reset : s.control = .waiting → s.startEvent = false → s.adAcquire = 0 ∧ s.adStatus ≠ .acquire
  running : s.control.started = true → s.adStatus = .acquire ∨ s.adStatus = .aborted

/-- The fields that report an acquisition. -/
def State.report (s : State) : ADStatus × ℤ × Bool × Bool :=
  (s.adStatus, s.adAcquire, s.startEvent, s.stopped)

/-- A step reports nothing, and begins or ends no acquisition. -/
structure SameReport (s t : State) : Prop where
  report : t.report = s.report
  control : t.control = s.control ∨ s.control.started = true ∧ t.control.started = true

section Reports

variable {t : State}

theorem SameReport.fields (h : SameReport s t) : t.adStatus = s.adStatus ∧
    t.adAcquire = s.adAcquire ∧ t.startEvent = s.startEvent ∧ t.stopped = s.stopped := by
  obtain ⟨h₁, h₂⟩ := Prod.mk.inj h.report
  obtain ⟨h₂, h₃⟩ := Prod.mk.inj h₂
  obtain ⟨h₃, h₄⟩ := Prod.mk.inj h₃
  exact ⟨h₁, h₂, h₃, h₄⟩

theorem ne_of_started {c : ControlPc} (h : c.started = true) : c ≠ .waiting ∧ c ≠ .woken := by
  constructor <;> rintro rfl <;> cases h

theorem SameReport.startTaken (h : SameReport s t) : t.startTaken ↔ s.startTaken := by
  rw [State.startTaken, State.startTaken, h.fields.2.2.1]
  rcases h.control with hc | ⟨hs, ht⟩
  · rw [hc]
  · exact ⟨fun _ => .inl (ne_of_started hs).1, fun _ => .inl (ne_of_started ht).1⟩

theorem InForce.of_same (hf : InForce s) (h : SameReport s t) : InForce t := by
  obtain ⟨hstatus, hacquire, -, hstop⟩ := h.fields
  intro ht hstopped
  rw [hacquire, hstatus]
  exact hf (h.startTaken.mp ht) (hstop ▸ hstopped)

theorem Waits.of_same (hw : Waits s) (h : SameReport s t) : Waits t := by
  obtain ⟨hstatus, hacquire, hevent, -⟩ := h.fields
  constructor
  · intro ht he
    rw [hacquire, hstatus]
    rcases h.control with hc | ⟨-, hstarted⟩
    · exact hw.reset (hc ▸ ht) (hevent ▸ he)
    · exact absurd ht (ne_of_started hstarted).1
  · intro hstarted
    rw [hstatus]
    rcases h.control with hc | ⟨hs, -⟩
    · exact hw.running (hc ▸ hstarted)
    · exact hw.running hs

end Reports

theorem testTrigger_same (s : State) :
    s.testTrigger.report = s.report ∧ s.testTrigger.control.started = true := by
  rcases testTrigger_cases s with ht | ⟨-, ht | ht⟩ <;> rw [ht] <;> exact ⟨rfl, rfl⟩

theorem switchReceivers_same (s : State) (enabled : Bool) :
    SameReport s (s.switchReceivers enabled) := by
  simp only [State.switchReceivers]
  split_ifs <;> exact ⟨rfl, .inl rfl⟩

theorem afterPoll_started (l : Latched) : l.afterPoll.started = true := by
  unfold Latched.afterPoll
  split_ifs <;> rfl

/-- The steps that neither report anything nor begin or end an acquisition. -/
def Event.silent : Event → Bool
  | .wake | .start _ | .arm false | .finish _ | .writeAcquire _ | .finishStop _ => false
  | _ => true

theorem sameReport_next (he : Enabled s e) (hsilent : e.silent = true) :
    SameReport s (next s e) := by
  have started : ∀ {c}, s.control = c → c.started = true → s.control.started = true := by
    rintro _ rfl hc
    exact hc
  cases e with
  | wake => cases hsilent
  | start putOk => cases hsilent
  | finish putOk => cases hsilent
  | writeAcquire value => cases hsilent
  | finishStop k => cases hsilent
  | arm ok =>
    cases ok with
    | false => cases hsilent
    | true =>
      simp only [next]
      split_ifs
      · obtain ⟨hreport, hcontrol⟩ := testTrigger_same
          ({ s with numImagesCounter := 0, armed := true, triggers := 0 }).startTasks
        exact ⟨hreport, .inr ⟨started he.1 rfl, hcontrol⟩⟩
      · exact ⟨rfl, .inr ⟨started he.1 rfl, rfl⟩⟩
  | manualWait fired =>
    simp only [next]
    split_ifs <;> exact ⟨rfl, .inr ⟨started he.1 rfl, rfl⟩⟩
  | testTrigger =>
    obtain ⟨hreport, hcontrol⟩ := testTrigger_same s
    exact ⟨hreport, .inr ⟨started he.1 rfl, hcontrol⟩⟩
  | trigger =>
    obtain ⟨hreport, hcontrol⟩ := testTrigger_same { s with triggers := s.triggers + 1 }
    exact ⟨hreport, .inr ⟨started he.1 rfl, hcontrol⟩⟩
  | fetchState reported =>
    simp only [next]
    split_ifs <;> exact ⟨rfl, .inr ⟨started he rfl, rfl⟩⟩
  | waitStop fired =>
    simp only [next]
    split_ifs <;> exact ⟨rfl, .inr ⟨started he.1 rfl, rfl⟩⟩
  | relock => exact ⟨rfl, .inr ⟨started he.1 rfl, rfl⟩⟩
  | disarm =>
    simp only [next]
    split_ifs
    · exact ⟨rfl, .inr ⟨started he.1 rfl, rfl⟩⟩
    · exact ⟨rfl, .inr ⟨started he.1 rfl, afterPoll_started s.latched⟩⟩
  | fetchFWState reported =>
    simp only [next]
    split_ifs
    · exact ⟨rfl, .inl rfl⟩
    · exact ⟨rfl, .inr ⟨started he.1 rfl, rfl⟩⟩
  | pollDoneWait => exact ⟨rfl, .inr ⟨started he.1 rfl, afterPoll_started s.latched⟩⟩
  | streamDoneWait => exact ⟨rfl, .inr ⟨started he.1 rfl, rfl⟩⟩
  | writeDataSource value enabled =>
    exact { switchReceivers_same { s with dataSource := value } enabled with }
  | writeStreamVersion value enabled =>
    exact { switchReceivers_same { s with streamVersion := value } enabled with }
  | waitFrame v o result => rcases result with (_ | n) | _ | _ <;> exact ⟨rfl, .inl rfl⟩
  | _ => exact ⟨rfl, .inl rfl⟩

theorem waits_step (hw : Waits s) (he : Enabled s e) : Waits (next s e) := by
  cases hsilent : e.silent with
  | true => exact hw.of_same (sameReport_next he hsilent)
  | false =>
    cases e with
    | wake => exact ⟨by simp [next], by simp [next, ControlPc.started]⟩
    | start putOk =>
      simp only [next]
      split_ifs
      · exact ⟨by simp, by simp [ControlPc.started]⟩
      · exact ⟨by simp, by simp⟩
      · exact ⟨by simp, by simp⟩
    | arm ok =>
      cases ok with
      | true => cases hsilent
      | false => exact ⟨by simp [next], by simp [next, ControlPc.started]⟩
    | finish putOk =>
      have hstatus := hw.running (by rw [he.1]; rfl)
      simp only [next]
      rcases hstatus with ha | ha
      · simp only [ha]
        by_cases hmode : s.latched.triggerMode = .continuous
        · rw [if_pos hmode]
          exact ⟨by simp, by simp [ControlPc.started]⟩
        · rw [if_neg hmode]
          exact ⟨by simp, by simp [ControlPc.started]⟩
      · simp only [ha]
        exact ⟨by simp, by simp [ControlPc.started]⟩
    | writeAcquire value =>
      simp only [next]
      split_ifs with hstart hstop
      · exact ⟨by simp, by simp⟩
      · exact ⟨fun hc hevent => ⟨(hw.reset hc hevent).1, by simp⟩, by simp⟩
      · refine ⟨fun hc hevent => ?_, hw.running⟩
        have hstatus := (hw.reset hc hevent).2
        exact ⟨by_contra fun hne => hstart ⟨hne, hstatus⟩, hstatus⟩
    | finishStop k => exact ⟨fun hc hevent => ⟨rfl, (hw.reset hc hevent).2⟩, hw.running⟩
    | _ => cases hsilent

theorem inForce_step (hf : InForce s) (he : Enabled s e) (hr : ResetsOwn s e) :
    InForce (next s e) := by
  cases hsilent : e.silent with
  | true => exact hf.of_same (sameReport_next he hsilent)
  | false =>
    cases e with
    | wake => exact fun _ hstopped => hf (.inr he.2) hstopped
    | start putOk =>
      have htaken : s.startTaken := .inl (by rw [he.1]; simp)
      simp only [next]
      split_ifs with herror
      · rintro (hc | hevent) hstopped
        · exact absurd rfl hc
        · have hstop : s.stopped = true := hr herror hevent
          exact absurd (hstop.symm.trans hstopped) (by simp)
      · exact fun _ hstopped => ⟨(hf htaken hstopped).1, rfl⟩
      · exact fun _ hstopped => ⟨(hf htaken hstopped).1, rfl⟩
    | arm ok =>
      cases ok with
      | true => cases hsilent
      | false =>
        rintro (hc | hevent) hstopped
        · exact absurd rfl hc
        · have hstop : s.stopped = true := hr hevent
          exact absurd (hstop.symm.trans hstopped) (by simp)
    | finish putOk =>
      have htaken : s.startTaken := .inl (by rw [he.1]; simp)
      simp only [next]
      cases ha : s.adStatus with
      | acquire =>
        dsimp only
        by_cases hmode : s.latched.triggerMode = .continuous
        · rw [if_pos hmode]
          exact fun _ hstopped => ⟨(hf htaken hstopped).1, rfl⟩
        · rw [if_neg hmode]
          rintro (hc | hevent) hstopped
          · exact absurd rfl hc
          · have hstop : s.stopped = true := hr ha hmode hevent
            exact absurd (hstop.symm.trans hstopped) (by simp)
      | _ =>
        intro _ hstopped
        have hstatus := (hf htaken hstopped).2
        rw [ha] at hstatus
        cases hstatus
    | writeAcquire value =>
      simp only [next]
      split_ifs with hstart hstop
      · exact fun _ _ => ⟨hstart.1, rfl⟩
      · intro _ hstopped
        cases hstopped
      · intro htaken hstopped
        have hstatus := (hf htaken hstopped).2
        exact ⟨fun hzero => hstop ⟨hzero, hstatus⟩, hstatus⟩
    | finishStop k =>
      intro htaken hstopped
      have hstop : s.stopped = true := hr htaken
      exact absurd (hstop.symm.trans hstopped) (by simp)
    | _ => cases hsilent

theorem waits_reachable {C : State → Event → Prop} (h : Reaches system C s) : Waits s := by
  refine h.invariant (I := Waits) ?_ fun _ _ hw he _ => waits_step hw he
  rintro _ rfl
  exact ⟨by simp [initial], by simp [initial, ControlPc.started]⟩

theorem inForce_reachable (h : Reaches system ResetsOwn s) : InForce s := by
  refine h.invariant (I := InForce) ?_ fun _ _ hf he hr => inForce_step hf he hr
  rintro _ rfl
  exact fun htaken => absurd htaken (by decide)

/-- When nobody resets ADAcquire under a later start, a start is reported all the time. -/
theorem start_reported (h : Reaches system ResetsOwn s) : StartReported s where
  acquire hc hstopped := inForce_reachable h (.inl hc) hstopped
  unpolled hc hstopped := (inForce_reachable h (.inl hc) hstopped).1
  ready hc hevent := ((waits_reachable h).reset hc hevent).1

/-- An acquisition that was stopped, and a start when controlTask is through with it. -/
theorem start_reported_restart :
    (runTrace system initial (traceStopped ++ [.waitStop true, .disarm, .finish true,
        .writeAcquire 1, .wake])).control = .woken ∧
      StartReported (runTrace system initial (traceStopped ++ [.waitStop true, .disarm,
        .finish true, .writeAcquire 1, .wake])) :=
  ⟨by decide +kernel, start_reported (ValidTrace.reaches (by decide +kernel) (.start rfl))⟩

/-- The start comes while the stopped acquisition is still drained, and its end resets
ADAcquire. -/
theorem start_while_draining_lost : ¬ ∀ s, Reachable system s → StartReported s := by
  intro h
  have hs := h _ (reachable_trace rfl (traceStopped ++ [.waitStop true, .writeAcquire 1, .disarm,
    .finish true, .wake, .start true]) (by decide +kernel))
  exact (hs.acquire (by decide +kernel) (by decide +kernel)).1 (by decide +kernel)

end Driver
