import ADEiger.DriverStop
import ADEiger.Monitor

/-! The commands of an acquisition.
The detector is armed, triggered and disarmed by controlTask alone; what it is sent over a run is
watched by an automaton that says which commands may follow which. -/
namespace Driver

open TransitionSystem

variable {s : State} {e : Event}

section Protocol

/-- An acquisition that controlTask begins with what it has latched, the commands it sends, and the
stops that clients ask for and writeInt32 accepts. -/
inductive Command where
  | start (latched : Latched)
  | arm (ok : Bool)
  | trigger
  | disarm
  | stop
  deriving DecidableEq, Repr

/-- How far an acquisition is; `stopped` once a stop was accepted in it. -/
inductive Phase where
  | idle
  | starting (latched : Latched) (stopped : Bool)
  | armed (latched : Latched) (triggers : ℕ) (stopped : Bool)
  deriving DecidableEq, Repr

/-- The detector is armed once for an acquisition. It gets as many triggers as were asked for, or
fewer after a stop, and none where they come from outside; then it is disarmed. -/
def Phase.step : Phase → Command → Option Phase
  | .idle, .start l => some (.starting l false)
  | .idle, .stop => some .idle
  | .starting l _, .stop => some (.starting l true)
  | .starting _ _, .arm false => some .idle
  | .starting l stopped, .arm true => some (.armed l 0 stopped)
  | .armed l k _, .stop => some (.armed l k true)
  | .armed l k stopped, .trigger =>
    if l.triggerMode.internal ∧ (k : ℤ) < l.numTriggers then some (.armed l (k + 1) stopped)
    else none
  | .armed l k stopped, .disarm =>
    if l.triggerMode.internal ∧ (k : ℤ) < l.numTriggers ∧ stopped = false then none
    else some .idle
  | _, _ => none

def Phase.isArmed : Phase → Bool
  | .armed _ _ _ => true
  | _ => false

def session : Monitor Phase Command := ⟨.idle, Phase.step⟩

/-- What a step adds to the commands. -/
def commands (s : State) : Event → List Command
  | .start _ => if s.settingsError then [] else [.start s.latch]
  | .arm ok => [.arm ok]
  | .trigger => [.trigger]
  | .disarm => [.disarm]
  | .writeAcquire value => if value = 0 ∧ s.adStatus = .acquire then [.stop] else []
  | _ => []

end Protocol

section Simulation

inductive Stage where
  | outside | arming | triggering | ending
  deriving DecidableEq

/-- Where controlTask is: outside of an acquisition or behind the disarming of the detector, before
it is armed, in the loop that sends the triggers, or waiting for the detector to be done. -/
def ControlPc.stage : ControlPc → Stage
  | .waiting | .woken | .fetchFWState | .waitPoll | .waitStream | .finish => .outside
  | .arm => .arming
  | .manualWait | .testTrigger | .trigger => .triggering
  | .fetchState | .waitStop | .relock | .disarm => .ending

/-- A trigger that has passed the test is one of those asked for; the loop is left with all of them
sent or after a stop. -/
def Placed (s : State) (l : Latched) (k : ℕ) (stopped : Bool) : Prop :=
  (s.control.stage = .triggering ∧ l.triggerMode.internal = true ∧
    (s.control ≠ .testTrigger → (k : ℤ) < l.numTriggers)) ∨
  (s.control.stage = .ending ∧
    ¬ (l.triggerMode.internal = true ∧ (k : ℤ) < l.numTriggers ∧ stopped = false))

def Follows (s : State) : Phase → Prop
  | .idle => s.armed = false ∧ s.control.stage = .outside
  | .starting l stopped => s.armed = false ∧ s.control.stage = .arming ∧ s.latched = l ∧
      (stopped = false → s.adStatus = .acquire)
  | .armed l k stopped => s.armed = true ∧ s.latched = l ∧ s.triggers = k ∧
      (stopped = false → s.adStatus = .acquire) ∧ Placed s l k stopped

/-- A step of the others leaves controlTask where it is. -/
structure SameControl (s t : State) : Prop where
  control : t.control = s.control
  latched : t.latched = s.latched
  armed : t.armed = s.armed
  triggers : t.triggers = s.triggers

variable {t : State} {q : Phase} {l : Latched} {k : ℕ} {stopped : Bool}

theorem SameControl.placed (h : SameControl s t) (hp : Placed s l k stopped) :
    Placed t l k stopped := by
  rw [Placed, h.control]
  exact hp

theorem SameControl.follows (h : SameControl s t)
    (hstatus : s.adStatus = .acquire → t.adStatus = .acquire) (hq : Follows s q) :
    Follows t q := by
  cases q with
  | idle => exact ⟨h.armed.trans hq.1, h.control ▸ hq.2⟩
  | starting l stopped =>
    obtain ⟨harmed, hc, hl, ha⟩ := hq
    exact ⟨h.armed.trans harmed, h.control ▸ hc, h.latched.trans hl, fun hs => hstatus (ha hs)⟩
  | armed l k stopped =>
    obtain ⟨harmed, hl, hk, ha, hp⟩ := hq
    exact ⟨h.armed.trans harmed, h.latched.trans hl, h.triggers.trans hk,
      fun hs => hstatus (ha hs), h.placed hp⟩

theorem SameControl.stop (h : SameControl s t) (hq : Follows s q) :
    ∃ q', session.runFrom q [.stop] = some q' ∧ Follows t q' := by
  cases q with
  | idle => exact ⟨.idle, rfl, h.armed.trans hq.1, h.control ▸ hq.2⟩
  | starting l stopped =>
    obtain ⟨harmed, hc, hl, -⟩ := hq
    exact ⟨.starting l true, rfl, h.armed.trans harmed, h.control ▸ hc, h.latched.trans hl,
      fun hs => by cases hs⟩
  | armed l k stopped =>
    obtain ⟨harmed, hl, hk, -, hp⟩ := hq
    refine ⟨.armed l k true, rfl, h.armed.trans harmed, h.latched.trans hl, h.triggers.trans hk,
      fun hs => (by cases hs), h.placed ?_⟩
    rcases hp with hp | ⟨hc, -⟩
    · exact .inl hp
    · exact .inr ⟨hc, fun hn => by cases hn.2.2⟩

theorem Follows.idle (hq : Follows s q) (hc : s.control.stage = .outside) : q = .idle := by
  cases q with
  | idle => rfl
  | starting l stopped => cases hc.symm.trans hq.2.1
  | armed l k stopped =>
    obtain ⟨-, -, -, -, ⟨hstage, -⟩ | ⟨hstage, -⟩⟩ := hq <;> cases hc.symm.trans hstage

theorem Follows.starting (hq : Follows s q) (hc : s.control.stage = .arming) :
    ∃ stopped, q = .starting s.latched stopped ∧ (stopped = false → s.adStatus = .acquire) := by
  cases q with
  | idle => cases hc.symm.trans hq.2
  | starting l stopped =>
    obtain ⟨-, -, rfl, ha⟩ := hq
    exact ⟨stopped, rfl, ha⟩
  | armed l k stopped =>
    obtain ⟨-, -, -, -, ⟨hstage, -⟩ | ⟨hstage, -⟩⟩ := hq <;> cases hc.symm.trans hstage

theorem Follows.armed (hq : Follows s q)
    (hc : s.control.stage = .triggering ∨ s.control.stage = .ending) :
    ∃ k : ℕ, ∃ stopped, q = .armed s.latched k stopped ∧ s.armed = true ∧ s.triggers = k ∧
      (stopped = false → s.adStatus = .acquire) ∧ Placed s s.latched k stopped := by
  cases q with
  | idle => rcases hc with hc | hc <;> cases hc.symm.trans hq.2
  | starting l stopped => rcases hc with hc | hc <;> cases hc.symm.trans hq.2.1
  | armed l k stopped =>
    obtain ⟨harmed, rfl, hk, ha, hp⟩ := hq
    exact ⟨k, stopped, rfl, harmed, hk, ha, hp⟩

theorem Placed.triggering (hp : Placed s l k stopped) (hc : s.control.stage = .triggering) :
    l.triggerMode.internal = true ∧ (s.control ≠ .testTrigger → (k : ℤ) < l.numTriggers) := by
  rcases hp with ⟨-, hp⟩ | ⟨hstage, -⟩
  · exact hp
  · cases hc.symm.trans hstage

theorem Placed.ending (hp : Placed s l k stopped) (hc : s.control.stage = .ending) :
    ¬ (l.triggerMode.internal = true ∧ (k : ℤ) < l.numTriggers ∧ stopped = false) := by
  rcases hp with ⟨hstage, -⟩ | ⟨-, hp⟩
  · cases hc.symm.trans hstage
  · exact hp

/-- The test of the loop finds a trigger to send, or all of them sent, or a stop. -/
theorem testTrigger_follows (hinternal : s.latched.triggerMode.internal = true)
    (harmed : s.armed = true) (hk : s.triggers = k)
    (ha : stopped = false → s.adStatus = .acquire) :
    Follows s.testTrigger (.armed s.latched k stopped) := by
  rw [State.testTrigger]
  split_ifs with htest
  · exact ⟨harmed, rfl, hk, ha, .inl ⟨rfl, hinternal, fun _ => hk ▸ htest.2⟩⟩
  · exact ⟨harmed, rfl, hk, ha, .inl ⟨rfl, hinternal, fun _ => hk ▸ htest.2⟩⟩
  · refine ⟨harmed, rfl, hk, ha, .inr ⟨rfl, fun hmore => htest ⟨ha hmore.2.2, ?_⟩⟩⟩
    exact hk ▸ hmore.2.1

end Simulation

section Runs

variable {q : Phase}

theorem sameControl_switchReceivers (s : State) (enabled : Bool) :
    SameControl s (s.switchReceivers enabled) ∧
      (s.switchReceivers enabled).adStatus = s.adStatus := by
  simp only [State.switchReceivers]
  split_ifs <;> exact ⟨⟨rfl, rfl, rfl, rfl⟩, rfl⟩

/-- Where controlTask takes the step, if the step is one of controlTask. -/
def Event.control : Event → Option ControlPc
  | .wake => some .waiting
  | .start _ => some .woken
  | .arm _ => some .arm
  | .manualWait _ => some .manualWait
  | .testTrigger => some .testTrigger
  | .trigger => some .trigger
  | .fetchState _ => some .fetchState
  | .waitStop _ => some .waitStop
  | .relock => some .relock
  | .disarm => some .disarm
  | .fetchFWState _ => some .fetchFWState
  | .pollDoneWait => some .waitPoll
  | .streamDoneWait => some .waitStream
  | .finish _ => some .finish
  | _ => none

theorem control_of_enabled {c : ControlPc} (he : Enabled s e) (hc : e.control = some c) :
    s.control = c := by
  cases e with
  | fetchState reported =>
    obtain rfl := Option.some.inj hc
    exact he
  | wake | start putOk | arm ok | manualWait fired | testTrigger | trigger | waitStop fired
  | relock | disarm | fetchFWState reported | pollDoneWait | streamDoneWait | finish putOk =>
    obtain rfl := Option.some.inj hc
    exact he.1
  | _ => cases hc

/-- The other tasks and the clients leave controlTask where it is. -/
theorem control_stays (hc : e.control = none) : (next s e).control = s.control := by
  cases e with
  | waitFrame v o result => rcases result with (_ | n) | _ | _ <;> rfl
  | writeAcquire value =>
    simp only [next]
    split_ifs <;> rfl
  | writeDataSource value enabled =>
    simp only [next, State.switchReceivers]
    split_ifs <;> rfl
  | writeStreamVersion value enabled =>
    simp only [next, State.switchReceivers]
    split_ifs <;> rfl
  | wake | start putOk | arm ok | manualWait fired | testTrigger | trigger | fetchState reported
  | waitStop fired | relock | disarm | fetchFWState reported | pollDoneWait | streamDoneWait
  | finish putOk => cases hc
  | _ => rfl

/-- A step without commands that leaves the acquisition where it is. -/
theorem stays {t : State} (hq : Follows s q) (h : SameControl s t)
    (hstatus : t.adStatus = s.adStatus) :
    ∃ q', session.runFrom q [] = some q' ∧ Follows t q' :=
  ⟨q, rfl, h.follows (fun ha => hstatus.trans ha) hq⟩

theorem outside_next {t : State} (hq : Follows s q) (hc : s.control.stage = .outside)
    (harmed : t.armed = s.armed) (ht : t.control.stage = .outside) :
    ∃ q', session.runFrom q [] = some q' ∧ Follows t q' := by
  obtain rfl := hq.idle hc
  exact ⟨.idle, rfl, harmed.trans hq.1, ht⟩

theorem ending_next {t : State} (hq : Follows s q) (hc : s.control.stage = .ending)
    (harmed : t.armed = s.armed) (hlatched : t.latched = s.latched)
    (htriggers : t.triggers = s.triggers) (hstatus : t.adStatus = s.adStatus)
    (ht : t.control.stage = .ending) :
    ∃ q', session.runFrom q [] = some q' ∧ Follows t q' := by
  obtain ⟨k, stopped, rfl, harmed', hk, ha, hp⟩ := hq.armed (.inr hc)
  exact ⟨_, rfl, harmed.trans harmed', hlatched, htriggers.trans hk,
    fun hs => hstatus.trans (ha hs), .inr ⟨ht, hp.ending hc⟩⟩

theorem start_follows (hq : Follows s q) (hc : s.control = .woken) (putOk : Bool) :
    ∃ q', session.runFrom q (commands s (.start putOk)) = some q' ∧
      Follows (next s (.start putOk)) q' := by
  have hout : s.control.stage = .outside := by rw [hc]; rfl
  obtain rfl := hq.idle hout
  by_cases herr : s.settingsError
  · refine ⟨.idle, by rw [commands, if_pos herr]; rfl, ?_⟩
    simp only [next]
    split_ifs with h
    · exact ⟨hq.1, rfl⟩
    all_goals exact absurd herr h
  · refine ⟨.starting s.latch false, by rw [commands, if_neg herr]; rfl, ?_⟩
    simp only [next]
    split_ifs with h
    · exact absurd h herr
    all_goals exact ⟨hq.1, rfl, rfl, fun _ => rfl⟩

theorem arm_follows (hq : Follows s q) (hc : s.control = .arm) (ok : Bool) :
    ∃ q', session.runFrom q (commands s (.arm ok)) = some q' ∧ Follows (next s (.arm ok)) q' := by
  obtain ⟨stopped, rfl, ha⟩ := hq.starting (by rw [hc]; rfl)
  cases ok with
  | false => exact ⟨.idle, rfl, hq.1, rfl⟩
  | true =>
    refine ⟨.armed s.latched 0 stopped, rfl, ?_⟩
    simp only [next]
    split_ifs with hinternal
    · exact testTrigger_follows hinternal rfl rfl ha
    · exact ⟨rfl, rfl, rfl, ha, .inr ⟨rfl, fun hmore => hinternal hmore.1⟩⟩

theorem trigger_follows (hq : Follows s q) (hc : s.control = .trigger) :
    ∃ q', session.runFrom q [.trigger] = some q' ∧ Follows (next s .trigger) q' := by
  have hstage : s.control.stage = .triggering := by rw [hc]; rfl
  obtain ⟨k, stopped, rfl, harmed, hk, ha, hp⟩ := hq.armed (.inl hstage)
  obtain ⟨hinternal, hmore⟩ := hp.triggering hstage
  have hlt := hmore (by rw [hc]; exact fun h => by cases h)
  have hstep : session.step (.armed s.latched k stopped) .trigger =
      some (.armed s.latched (k + 1) stopped) := if_pos ⟨hinternal, hlt⟩
  refine ⟨.armed s.latched (k + 1) stopped, ?_, ?_⟩
  · rw [Monitor.runFrom, hstep]
    rfl
  · exact testTrigger_follows (s := { s with triggers := s.triggers + 1 }) hinternal harmed
      (by rw [hk]; rfl) ha

theorem disarm_follows (hq : Follows s q) (hc : s.control = .disarm) :
    ∃ q', session.runFrom q [.disarm] = some q' ∧ Follows (next s .disarm) q' := by
  have hstage : s.control.stage = .ending := by rw [hc]; rfl
  obtain ⟨k, stopped, rfl, -, -, -, hp⟩ := hq.armed (.inr hstage)
  have hstep : session.step (.armed s.latched k stopped) .disarm = some .idle :=
    if_neg (hp.ending hstage)
  refine ⟨.idle, ?_, rfl, ?_⟩
  · rw [Monitor.runFrom, hstep]
    rfl
  · simp only [next, Latched.afterPoll]
    split_ifs <;> rfl

theorem follows_next (hq : Follows s q) (he : Enabled s e) :
    ∃ q', session.runFrom q (commands s e) = some q' ∧ Follows (next s e) q' := by
  have hsame : ∀ {t : State}, t.control = s.control → t.latched = s.latched →
      t.armed = s.armed → t.triggers = s.triggers → t.adStatus = s.adStatus →
        ∃ q', session.runFrom q [] = some q' ∧ Follows t q' :=
    fun h₁ h₂ h₃ h₄ h₅ => stays hq ⟨h₁, h₂, h₃, h₄⟩ h₅
  cases e with
  | wake => exact outside_next hq (by rw [he.1]; rfl) rfl rfl
  | start putOk => exact start_follows hq he.1 putOk
  | arm ok => exact arm_follows hq he.1 ok
  | manualWait fired =>
    have hstage : s.control.stage = .triggering := by rw [he.1]; rfl
    obtain ⟨k, stopped, rfl, harmed, hk, ha, hp⟩ := hq.armed (.inl hstage)
    obtain ⟨hinternal, hmore⟩ := hp.triggering hstage
    have hlt := hmore (by rw [he.1]; exact fun h => by cases h)
    simp only [next]
    split_ifs
    · exact ⟨_, rfl, harmed, rfl, hk, ha, .inl ⟨rfl, hinternal, fun _ => hlt⟩⟩
    · exact ⟨_, rfl, harmed, rfl, hk, ha, .inl ⟨rfl, hinternal, fun h => absurd rfl h⟩⟩
  | testTrigger =>
    have hstage : s.control.stage = .triggering := by rw [he.1]; rfl
    obtain ⟨k, stopped, rfl, harmed, hk, ha, hp⟩ := hq.armed (.inl hstage)
    exact ⟨_, rfl, testTrigger_follows (hp.triggering hstage).1 harmed hk ha⟩
  | trigger => exact trigger_follows hq he.1
  | fetchState reported =>
    have hc : s.control = .fetchState := he
    have hstage : s.control.stage = .ending := by rw [hc]; rfl
    simp only [next]
    split_ifs <;> exact ending_next hq hstage rfl rfl rfl rfl rfl
  | waitStop fired =>
    have hstage : s.control.stage = .ending := by rw [he.1]; rfl
    cases fired <;> exact ending_next hq hstage rfl rfl rfl rfl rfl
  | relock => exact ending_next hq (by rw [he.1]; rfl) rfl rfl rfl rfl rfl
  | disarm => exact disarm_follows hq he.1
  | fetchFWState reported =>
    simp only [next]
    split_ifs
    · exact hsame rfl rfl rfl rfl rfl
    · exact outside_next hq (by rw [he.1]; rfl) rfl rfl
  | pollDoneWait =>
    refine outside_next hq (by rw [he.1]; rfl) rfl ?_
    simp only [next, Latched.afterPoll]
    split_ifs <;> rfl
  | streamDoneWait => exact outside_next hq (by rw [he.1]; rfl) rfl rfl
  | finish putOk =>
    have hstage : s.control.stage = .outside := by rw [he.1]; rfl
    simp only [next]
    split
    · split_ifs <;> exact outside_next hq hstage rfl rfl
    · exact outside_next hq hstage rfl rfl
    · exact outside_next hq hstage rfl rfl
  | writeAcquire value =>
    simp only [commands, next]
    split_ifs with hstop hstart hstart
    · exact absurd hstop.1 hstart.1
    · exact SameControl.stop (s := s) ⟨rfl, rfl, rfl, rfl⟩ hq
    · exact ⟨q, rfl, SameControl.follows (s := s) ⟨rfl, rfl, rfl, rfl⟩ (fun _ => rfl) hq⟩
    · exact hsame rfl rfl rfl rfl rfl
  | writeDataSource value enabled =>
    obtain ⟨h, hstatus⟩ := sameControl_switchReceivers { s with dataSource := value } enabled
    exact hsame h.control h.latched h.armed h.triggers hstatus
  | writeStreamVersion value enabled =>
    obtain ⟨h, hstatus⟩ := sameControl_switchReceivers { s with streamVersion := value } enabled
    exact hsame h.control h.latched h.armed h.triggers hstatus
  | waitFrame v o result =>
    simp only [next]
    split <;> exact hsame rfl rfl rfl rfl rfl
  | _ => exact hsame rfl rfl rfl rfl rfl

/-- In every run controlTask sends the detector what an acquisition needs and nothing else: it arms
it once, sends the triggers that were asked for unless it is stopped, and disarms it. -/
theorem commands_accepted {x : State × List Command}
    (h : Reachable (system.withOutput commands) x) : ∃ phase, session.run x.2 = some phase ∧
      (x.1.armed = phase.isArmed) ∧ (x.1.control = .waiting → phase = .idle) := by
  have hstart : ∀ s, system.Start s → Follows s session.start := by
    rintro _ rfl
    exact ⟨rfl, rfl⟩
  obtain ⟨phase, hrun, hfollows⟩ := h.watched session hstart fun _ _ _ => follows_next
  refine ⟨phase, hrun, ?_, fun hc => hfollows.idle (by rw [hc]; rfl)⟩
  cases phase <;> exact hfollows.1

/-- One acquisition with a trigger, and a second one that is stopped before its trigger. -/
def traceCommands : List Event :=
  [.writeAcquire 1, .wake, .start true, .arm true, .trigger, .fetchState (some "idle"), .disarm,
    .finish true, .writeSettings ⟨false, false, false, false, true, .ints, 1⟩, .writeAcquire 1,
    .wake, .start true, .arm true, .writeAcquire 0, .manualWait false, .testTrigger,
    .fetchState none, .disarm]

theorem commands_accepted_stopped : ∃ phase, session.run
    (runTrace (system.withOutput commands) (initial, []) traceCommands).2 = some phase ∧
      ((runTrace (system.withOutput commands) (initial, []) traceCommands).1.armed =
        phase.isArmed) ∧
      ((runTrace (system.withOutput commands) (initial, []) traceCommands).1.control = .waiting →
        phase = .idle) := by
  have hstart : (system.withOutput commands).Start (initial, []) := ⟨rfl, rfl⟩
  exact commands_accepted (reachable_trace hstart traceCommands (by decide +kernel))

end Runs

end Driver
