import ADEiger.Coupling
import ADEiger.DriverCommands
import ADEiger.FileWriterDrain

/-! controlTask together with pollTask and the workers.
They meet three times in an acquisition: controlTask posts it to pollTask, sets `mPollStop` when
the detector has written its files, and waits until pollTask tells that it is done. -/
namespace DriverFiles

open TransitionSystem
open FileWriter (Acquisition FilePtr)

/-- A step of the driver, with the acquisition that controlTask posts if it posts one; or a step of
the FileWriter tasks. -/
inductive Event where
  | driver (e : Driver.Event) (acq : Acquisition)
  | files (e : FileWriter.Event)

/-- pollTask ends its acquisition with the signal that controlTask waits for. -/
def driverStep : Event → Option Driver.Event
  | .driver e _ => some e
  | .files .free => some .pollDone
  | .files _ => none

/-- controlTask posts an acquisition when the detector is armed, and asks pollTask to stop. -/
def filesStep (d : Driver.State) : Event → Option FileWriter.Event
  | .driver (.arm true) acq => if d.latched.waitPoll then some (.submit acq) else none
  | .driver (.fetchFWState reported) _ => if reported = "acquire" then none else some .stop
  | .driver _ _ => none
  | .files e => some e

/-- What controlTask posts has the flags that it latched; and neither side takes the steps of the
other. -/
def Allowed (d : Driver.State) : Event → Prop
  | .driver .pollDone _ => False
  | .driver (.arm true) acq => acq.saveFiles = d.latched.saveFiles ∧
      acq.parseFiles = (d.latched.dataSource == .fileWriter)
  | .driver _ _ => True
  | .files (.submit _) | .files .stop => False
  | .files _ => True

instance (d : Driver.State) (a : Event) : Decidable (Allowed d a) := by
  unfold Allowed
  split <;> infer_instance

def coupling : Coupling Driver.State FileWriter.State Driver.Event FileWriter.Event Event where
  left _ := driverStep
  right x := filesStep x.1
  Allowed x := Allowed x.1

def system : System (Driver.State × FileWriter.State) Event :=
  Driver.system.coupled FileWriter.system coupling

def initial : Driver.State × FileWriter.State := (Driver.initial, FileWriter.initial)

theorem start_initial : system.Start initial := ⟨rfl, rfl⟩

instance (x : Driver.State × FileWriter.State) (a : Event) : Decidable (coupling.Allowed x a) :=
  inferInstanceAs (Decidable (Allowed x.1 a))

instance (x : Driver.State × FileWriter.State) (a : Event) : Decidable (system.Enabled x a) :=
  inferInstanceAs (Decidable ((Driver.system.coupled FileWriter.system coupling).Enabled x a))

section Driver

open Driver (State Latched ControlPc)

variable {d t : State} {e : Driver.Event}

/-- controlTask has armed the detector and not yet disarmed it. -/
def acquiring : ControlPc → Bool
  | .manualWait | .testTrigger | .trigger | .fetchState | .waitStop | .relock | .disarm => true
  | _ => false

/-- It has not come to the end of its wait for pollTask. -/
def polling : ControlPc → Bool
  | .fetchFWState | .waitPoll => true
  | c => acquiring c

/-- An acquisition is with pollTask only while controlTask is in it, and afterwards the signal is
there until controlTask takes it. -/
structure PollLaw (d : State) : Prop where
  pending : d.pollPending = true → polling d.control = true ∧ d.latched.waitPoll
  fresh : d.control = .arm → d.pollDoneEvent = false
  signalled : polling d.control = true → d.latched.waitPoll → d.pollDoneEvent = !d.pollPending
  wait : d.control = .fetchFWState ∨ d.control = .waitPoll → d.latched.waitPoll
  stopping : d.control = .waitPoll → d.pollStop = true
  patient : d.pollPending = true → d.pollStop = true → d.control = .waitPoll

/-- The step leaves alone what controlTask and pollTask share. -/
structure Untouched (d t : State) : Prop where
  latched : t.latched = d.latched
  pending : t.pollPending = d.pollPending
  signal : t.pollDoneEvent = d.pollDoneEvent
  stop : t.pollStop = d.pollStop

theorem PollLaw.same (h : PollLaw d) (hu : Untouched d t) (hcontrol : t.control = d.control) :
    PollLaw t := by
  obtain ⟨hlatched, hpending, hsignal, hstop⟩ := hu
  constructor
  · rw [hcontrol, hlatched, hpending]
    exact h.pending
  · rw [hcontrol, hsignal]
    exact h.fresh
  · rw [hcontrol, hlatched, hpending, hsignal]
    exact h.signalled
  · rw [hcontrol, hlatched]
    exact h.wait
  · rw [hcontrol, hstop]
    exact h.stopping
  · rw [hcontrol, hpending, hstop]
    exact h.patient

theorem polling_of_acquiring {c : ControlPc} (h : acquiring c = true) : polling c = true ∧
    c ≠ .arm ∧ c ≠ .fetchFWState ∧ c ≠ .waitPoll := by
  cases c <;> first | exact absurd h (by decide) | decide

theorem PollLaw.acquiring (ht : acquiring t.control = true)
    (hpending : t.pollPending = true → t.latched.waitPoll ∧ t.pollStop = false)
    (hsignal : t.latched.waitPoll → t.pollDoneEvent = !t.pollPending) : PollLaw t := by
  obtain ⟨hpolling, harm, hfetch, hwait⟩ := polling_of_acquiring ht
  refine ⟨fun hp => ⟨hpolling, (hpending hp).1⟩, fun hc => absurd hc harm, fun _ => hsignal, ?_,
    fun hc => absurd hc hwait, fun hp hstop => ?_⟩
  rotate_left
  · rw [(hpending hp).2] at hstop
    cases hstop
  rintro (hc | hc)
  · exact absurd hc hfetch
  · exact absurd hc hwait

theorem PollLaw.inside (h : PollLaw d) (hu : Untouched d t)
    (hd : DriverFiles.acquiring d.control = true) (ht : DriverFiles.acquiring t.control = true) :
    PollLaw t := by
  obtain ⟨hpolling, -, -, hwait⟩ := polling_of_acquiring hd
  refine .acquiring ht ?_ ?_
  · rw [hu.pending, hu.latched, hu.stop]
    intro hp
    refine ⟨(h.pending hp).2, ?_⟩
    by_contra hstop
    exact hwait (h.patient hp (by simpa using hstop))
  · rw [hu.pending, hu.latched, hu.signal]
    exact h.signalled hpolling

theorem PollLaw.outside (hpending : t.pollPending = false) (ht : polling t.control = false)
    (hsignal : t.control = .arm → t.pollDoneEvent = false) : PollLaw t := by
  refine ⟨fun hp => ?_, hsignal, fun hc => ?_, ?_, fun hc => ?_, fun hp => ?_⟩
  · rw [hpending] at hp
    cases hp
  · rw [ht] at hc
    cases hc
  · rintro (hc | hc) <;> rw [hc] at ht <;> cases ht
  · rw [hc] at ht
    cases ht
  · rw [hpending] at hp
    cases hp

theorem PollLaw.idle (h : PollLaw d) (hc : polling d.control = false) : d.pollPending = false := by
  by_contra hp
  have hpolling := (h.pending (by simpa using hp)).1
  rw [hc] at hpolling
  cases hpolling

theorem testTrigger_acquiring (d : State) : Untouched d d.testTrigger ∧
    acquiring d.testTrigger.control = true := by
  rw [State.testTrigger]
  split_ifs <;> exact ⟨⟨rfl, rfl, rfl, rfl⟩, rfl⟩

theorem afterPoll_outside (l : Latched) : polling l.afterPoll = false ∧ l.afterPoll ≠ .arm := by
  rw [Latched.afterPoll]
  split_ifs <;> decide

theorem switchReceivers_untouched (d : State) (enabled : Bool) :
    Untouched d (d.switchReceivers enabled) ∧
      (d.switchReceivers enabled).control = d.control := by
  simp only [State.switchReceivers]
  split_ifs <;> exact ⟨⟨rfl, rfl, rfl, rfl⟩, rfl⟩

theorem PollLaw.arm (h : PollLaw d) (hc : d.control = .arm) :
    PollLaw (Driver.next d (.arm true)) := by
  have hfresh := h.fresh hc
  have hidle := h.idle (by rw [hc]; rfl)
  have hposted : ∀ {t : State}, t.latched = d.latched → t.pollDoneEvent = d.pollDoneEvent →
      t.pollPending = (if d.latched.waitPoll then true else d.pollPending) →
        t.pollStop = (if d.latched.waitPoll then false else d.pollStop) →
          DriverFiles.acquiring t.control = true → PollLaw t := by
    intro t hlatched hsignal hpending hstop ht
    refine .acquiring ht ?_ ?_
    · rw [hpending, hlatched, hstop]
      split_ifs with hwait
      · exact fun _ => ⟨hwait, rfl⟩
      · rw [hidle]
        exact fun hp => by cases hp
    · rw [hlatched, hpending, hsignal, hfresh]
      intro hwait
      rw [if_pos hwait]
      rfl
  simp only [Driver.next]
  split_ifs
  · obtain ⟨hu, ht⟩ := testTrigger_acquiring
      ({ d with numImagesCounter := 0, armed := true, triggers := 0 }.startTasks)
    exact hposted hu.latched hu.signal hu.pending hu.stop ht
  · exact hposted rfl rfl rfl rfl rfl

theorem pollLaw_step (h : PollLaw d) (he : Driver.Enabled d e) : PollLaw (Driver.next d e) := by
  have hsame : ∀ {t : State}, t.latched = d.latched → t.pollPending = d.pollPending →
      t.pollDoneEvent = d.pollDoneEvent → t.pollStop = d.pollStop → t.control = d.control →
        PollLaw t := fun h₁ h₂ h₃ h₄ hc => h.same ⟨h₁, h₂, h₃, h₄⟩ hc
  cases e with
  | wake =>
    exact .outside (h.idle (by rw [he.1]; rfl)) rfl fun hc => by cases hc
  | start putOk =>
    have hidle := h.idle (by rw [he.1]; rfl)
    simp only [Driver.next]
    split_ifs
    · exact .outside hidle rfl fun hc => by cases hc
    · exact .outside hidle rfl fun _ => rfl
    · exact .outside hidle rfl fun _ => rfl
  | arm ok =>
    cases ok with
    | false => exact .outside (h.idle (by rw [he.1]; rfl)) rfl fun hc => by cases hc
    | true => exact h.arm he.1
  | manualWait fired =>
    simp only [Driver.next]
    split_ifs <;> exact h.inside ⟨rfl, rfl, rfl, rfl⟩ (by rw [he.1]; rfl) rfl
  | testTrigger =>
    obtain ⟨hu, ht⟩ := testTrigger_acquiring d
    exact h.inside hu (by rw [he.1]; rfl) ht
  | trigger =>
    obtain ⟨hu, ht⟩ := testTrigger_acquiring { d with triggers := d.triggers + 1 }
    exact h.inside ⟨hu.latched, hu.pending, hu.signal, hu.stop⟩ (by rw [he.1]; rfl) ht
  | fetchState reported =>
    have hc : d.control = .fetchState := he
    simp only [Driver.next]
    split_ifs <;> exact h.inside ⟨rfl, rfl, rfl, rfl⟩ (by rw [hc]; rfl) rfl
  | waitStop fired =>
    cases fired <;> exact h.inside ⟨rfl, rfl, rfl, rfl⟩ (by rw [he.1]; rfl) rfl
  | relock => exact h.inside ⟨rfl, rfl, rfl, rfl⟩ (by rw [he.1]; rfl) rfl
  | disarm =>
    have hpolling : polling d.control = true := by rw [he.1]; rfl
    by_cases hwait : d.latched.waitPoll
    · simp only [Driver.next, if_pos hwait]
      refine ⟨fun _ => ⟨rfl, hwait⟩, fun hc => (by cases hc), fun _ => h.signalled hpolling,
        fun _ => hwait, fun hc => (by cases hc), fun hp hstop => ?_⟩
      have hc := h.patient hp hstop
      rw [he.1] at hc
      cases hc
    · simp only [Driver.next, if_neg hwait]
      obtain ⟨hout, hne⟩ := afterPoll_outside d.latched
      refine .outside ?_ hout fun hc => absurd hc hne
      by_contra hp
      exact hwait (h.pending (by simpa using hp)).2
  | fetchFWState reported =>
    have hpolling : polling d.control = true := by rw [he.1]; rfl
    have hwait := h.wait (.inl he.1)
    simp only [Driver.next]
    split_ifs
    · exact hsame rfl rfl rfl rfl rfl
    · exact ⟨fun _ => ⟨rfl, hwait⟩, fun hc => (by cases hc), fun _ => h.signalled hpolling,
        fun _ => hwait, fun _ => rfl, fun _ _ => rfl⟩
  | pollDoneWait =>
    have hpolling : polling d.control = true := by rw [he.1]; rfl
    obtain ⟨hout, hne⟩ := afterPoll_outside d.latched
    refine .outside ?_ hout fun hc => absurd hc hne
    have hsignal := h.signalled hpolling (h.wait (.inr he.1))
    have hp : d.pollPending = false := by
      rw [he.2] at hsignal
      simpa using hsignal
    exact hp
  | streamDoneWait =>
    exact .outside (h.idle (by rw [he.1]; rfl)) rfl fun hc => by cases hc
  | finish putOk =>
    have hidle := h.idle (by rw [he.1]; rfl)
    simp only [Driver.next]
    split
    · split_ifs <;> exact .outside hidle rfl fun hc => by cases hc
    · exact .outside hidle rfl fun hc => by cases hc
    · exact .outside hidle rfl fun hc => by cases hc
  | pollDone =>
    obtain ⟨hpolling, hwait⟩ := h.pending he
    refine ⟨fun hp => (by cases hp), fun hc => ?_, fun _ _ => rfl, h.wait, h.stopping,
      fun hp => by cases hp⟩
    have hc' : d.control = .arm := hc
    rw [hc'] at hpolling
    cases hpolling
  | writeAcquire value =>
    simp only [Driver.next]
    split_ifs <;> exact hsame rfl rfl rfl rfl rfl
  | writeDataSource value enabled =>
    obtain ⟨hu, hc⟩ := switchReceivers_untouched { d with dataSource := value } enabled
    exact hsame hu.latched hu.pending hu.signal hu.stop hc
  | writeStreamVersion value enabled =>
    obtain ⟨hu, hc⟩ := switchReceivers_untouched { d with streamVersion := value } enabled
    exact hsame hu.latched hu.pending hu.signal hu.stop hc
  | waitFrame v o result =>
    simp only [Driver.next]
    split <;> exact hsame rfl rfl rfl rfl rfl
  | _ => exact hsame rfl rfl rfl rfl rfl

theorem pollLaw_initial : PollLaw Driver.initial :=
  .outside rfl rfl fun hc => by cases hc

theorem reachable_pollLaw (h : Reachable Driver.system d) : PollLaw d :=
  h.invariant (I := PollLaw) (by rintro _ rfl; exact pollLaw_initial)
    fun _ _ hd he _ => pollLaw_step hd he

/-- The steps of the driver in which FileWriter has no part. -/
structure Alone (d : State) (e : Driver.Event) : Prop where
  done : e ≠ .pollDone
  arm : e = .arm true → ¬ d.latched.waitPoll
  fetch : ∀ reported, e = .fetchFWState reported → reported = "acquire"

theorem Alone.next (h : Alone d e) : (Driver.next d e).pollStop = d.pollStop ∧
    (Driver.next d e).pollPending = d.pollPending := by
  cases e with
  | start putOk => simp only [Driver.next]; split_ifs <;> exact ⟨rfl, rfl⟩
  | arm ok =>
    cases ok with
    | false => exact ⟨rfl, rfl⟩
    | true =>
      have hstart : ∀ t : State, t.latched = d.latched → t.startTasks.pollStop = t.pollStop ∧
          t.startTasks.pollPending = t.pollPending := by
        intro t ht
        have hwait := h.arm rfl
        rw [← ht] at hwait
        exact ⟨if_neg hwait, if_neg hwait⟩
      have hstart := hstart { d with numImagesCounter := 0, armed := true, triggers := 0 } rfl
      simp only [Driver.next]
      split_ifs
      · obtain ⟨hu, -⟩ := testTrigger_acquiring
          ({ d with numImagesCounter := 0, armed := true, triggers := 0 }.startTasks)
        exact ⟨hu.stop.trans hstart.1, hu.pending.trans hstart.2⟩
      · exact hstart
  | manualWait fired => simp only [Driver.next]; split_ifs <;> exact ⟨rfl, rfl⟩
  | testTrigger =>
    obtain ⟨hu, -⟩ := testTrigger_acquiring d
    exact ⟨hu.stop, hu.pending⟩
  | trigger =>
    obtain ⟨hu, -⟩ := testTrigger_acquiring { d with triggers := d.triggers + 1 }
    exact ⟨hu.stop, hu.pending⟩
  | fetchState reported => simp only [Driver.next]; split_ifs <;> exact ⟨rfl, rfl⟩
  | waitStop fired => cases fired <;> exact ⟨rfl, rfl⟩
  | fetchFWState reported =>
    simp only [Driver.next, if_pos (h.fetch reported rfl), and_self]
  | finish putOk =>
    simp only [Driver.next]
    split
    · split_ifs <;> exact ⟨rfl, rfl⟩
    · exact ⟨rfl, rfl⟩
    · exact ⟨rfl, rfl⟩
  | pollDone => exact absurd rfl h.done
  | writeAcquire value => simp only [Driver.next]; split_ifs <;> exact ⟨rfl, rfl⟩
  | writeDataSource value enabled =>
    obtain ⟨hu, -⟩ := switchReceivers_untouched { d with dataSource := value } enabled
    exact ⟨hu.stop, hu.pending⟩
  | writeStreamVersion value enabled =>
    obtain ⟨hu, -⟩ := switchReceivers_untouched { d with streamVersion := value } enabled
    exact ⟨hu.stop, hu.pending⟩
  | waitFrame v o result => simp only [Driver.next]; split <;> exact ⟨rfl, rfl⟩
  | _ => exact ⟨rfl, rfl⟩

theorem arm_posts (hwait : d.latched.waitPoll) : (Driver.next d (.arm true)).pollStop = false ∧
    (Driver.next d (.arm true)).pollPending = true := by
  have hstart : ∀ t : State, t.latched = d.latched → t.startTasks.pollStop = false ∧
      t.startTasks.pollPending = true := by
    intro t ht
    rw [← ht] at hwait
    exact ⟨if_pos hwait, if_pos hwait⟩
  have hstart := hstart { d with numImagesCounter := 0, armed := true, triggers := 0 } rfl
  simp only [Driver.next]
  split_ifs
  · obtain ⟨hu, -⟩ := testTrigger_acquiring
      ({ d with numImagesCounter := 0, armed := true, triggers := 0 }.startTasks)
    exact ⟨hu.stop.trans hstart.1, hu.pending.trans hstart.2⟩
  · exact hstart

end Driver

section Whole

variable {d : Driver.State} {s : FileWriter.State} {x : Driver.State × FileWriter.State}
  {a : Event}

/-- The steps of the tasks that they take without controlTask. -/
structure Inner (e : FileWriter.Event) : Prop where
  submit : ∀ acq, e ≠ .submit acq
  stop : e ≠ .stop
  free : e ≠ .free

/-- What a step of the whole is on either side. -/
inductive Step (d : Driver.State) (s : FileWriter.State) :
    Event → Driver.State × FileWriter.State → Prop where
  | post {acq} (he : Driver.Enabled d (.arm true)) (hs : FileWriter.Enabled s (.submit acq))
      (hwait : d.latched.waitPoll) :
      Step d s (.driver (.arm true) acq)
        (Driver.next d (.arm true), FileWriter.next s (.submit acq))
  | stop {reported acq} (he : Driver.Enabled d (.fetchFWState reported))
      (hr : reported ≠ "acquire") :
      Step d s (.driver (.fetchFWState reported) acq)
        (Driver.next d (.fetchFWState reported), FileWriter.next s .stop)
  | driver {e acq} (he : Driver.Enabled d e) (hd : Alone d e) :
      Step d s (.driver e acq) (Driver.next d e, s)
  | done (he : Driver.Enabled d .pollDone) (hs : FileWriter.Enabled s .free) :
      Step d s (.files .free) (Driver.next d .pollDone, FileWriter.next s .free)
  | files {e} (hs : FileWriter.Enabled s e) (hi : Inner e) :
      Step d s (.files e) (d, FileWriter.next s e)

theorem next_eq {l : Option Driver.Event} {r : Option FileWriter.Event}
    (hl : driverStep a = l) (hr : filesStep d a = r) :
    system.next (d, s) a = (l.elim d (Driver.next d), r.elim s (FileWriter.next s)) :=
  System.coupled_next (S := Driver.system) (T := FileWriter.system) (K := coupling)
    (x := (d, s)) hl hr

theorem step_driver {e : Driver.Event} {acq : Acquisition} (hd : Alone d e)
    (he : Driver.Enabled d e) : Step d s (.driver e acq) (system.next (d, s) (.driver e acq)) := by
  have hnone : filesStep d (.driver e acq) = none := by
    rw [filesStep.eq_def]
    split
    · rename_i h
      obtain ⟨rfl, -⟩ := Event.driver.inj h
      exact if_neg (hd.arm rfl)
    · rename_i h
      obtain ⟨rfl, -⟩ := Event.driver.inj h
      exact if_pos (hd.fetch _ rfl)
    · rfl
    · rename_i h
      cases h
  have hnext : system.next (d, s) (.driver e acq) = (Driver.next d e, s) :=
    next_eq rfl hnone
  rw [hnext]
  exact .driver he hd

theorem step_of_enabled (he : system.Enabled (d, s) a) : Step d s a (system.next (d, s) a) := by
  obtain ⟨hallowed, hleft, hright⟩ := he
  cases a with
  | driver e acq =>
    have hd : Driver.Enabled d e := hleft e rfl
    by_cases harm : e = .arm true ∧ d.latched.waitPoll
    · obtain ⟨rfl, hwait⟩ := harm
      have hpost : filesStep d (.driver (.arm true) acq) = some (.submit acq) := if_pos hwait
      have hs : FileWriter.Enabled s (.submit acq) := hright _ hpost
      have hnext : system.next (d, s) (.driver (.arm true) acq) =
          (Driver.next d (.arm true), FileWriter.next s (.submit acq)) :=
        next_eq rfl hpost
      rw [hnext]
      exact .post hd hs hwait
    by_cases hfetch : ∃ reported, e = .fetchFWState reported ∧ reported ≠ "acquire"
    · obtain ⟨reported, rfl, hr⟩ := hfetch
      have hstop : filesStep d (.driver (.fetchFWState reported) acq) = some .stop := if_neg hr
      have hnext : system.next (d, s) (.driver (.fetchFWState reported) acq) =
          (Driver.next d (.fetchFWState reported), FileWriter.next s .stop) :=
        next_eq rfl hstop
      rw [hnext]
      exact .stop hd hr
    refine step_driver ⟨?_, fun h hwait => harm ⟨h, hwait⟩, fun reported h => ?_⟩ hd
    · rintro rfl
      exact hallowed
    · by_contra hr
      exact hfetch ⟨reported, h, hr⟩
  | files e =>
    have hs : FileWriter.Enabled s e := hright e rfl
    by_cases hfree : e = .free
    · subst hfree
      exact .done (hleft _ rfl) hs
    have hinner : Inner e := by
      refine ⟨?_, ?_, hfree⟩
      · rintro acq rfl
        exact hallowed
      · rintro rfl
        exact hallowed
    have hnone : driverStep (.files e) = none := by
      cases e <;> first | rfl | exact absurd rfl hfree
    have hnext : system.next (d, s) (.files e) = (d, FileWriter.next s e) :=
      next_eq hnone rfl
    rw [hnext]
    exact .files hs hinner

/-- pollTask has no acquisition, neither in its queue nor in its hands. -/
def Rests (s : FileWriter.State) : Prop := s.pollQueue = [] ∧ s.poll = .receive

/-- What is shared by both sides, as either sees it. -/
structure Linked (d : Driver.State) (s : FileWriter.State) : Prop where
  stop : s.pollStop = d.pollStop
  pending : d.pollPending = false ↔ Rests s
  waiting : s.pollQueue ≠ [] → s.poll = .receive
  one : s.pollQueue.length ≤ 1

/-- Between its beginning and its end an acquisition stays with pollTask. -/
theorem Inner.next {e : FileWriter.Event} (hi : Inner e)
    (hreceive : ∀ acq uid gid, e ≠ .receiveAcquisition acq uid gid)
    (he : FileWriter.Enabled s e) : (FileWriter.next s e).pollStop = s.pollStop ∧
    (FileWriter.next s e).pollQueue = s.pollQueue ∧
      ((FileWriter.next s e).poll = .receive ↔ s.poll = .receive) := by
  have hpoll : ∀ {c : FileWriter.PollPc}, s.poll = c → c ≠ .receive → ∀ t : FileWriter.PollPc,
      t ≠ .receive → (t = .receive ↔ s.poll = .receive) := by
    intro c hc hne t ht
    rw [hc]
    exact ⟨fun h => absurd h ht, fun h => absurd h hne⟩
  cases e with
  | submit acq => exact absurd rfl (hi.submit acq)
  | stop => exact absurd rfl hi.stop
  | free => exact absurd rfl hi.free
  | receiveAcquisition acq uid gid => exact absurd rfl (hreceive acq uid gid)
  | resetPending => exact ⟨rfl, rfl, hpoll he (by decide) .polling (by decide)⟩
  | waitFile found =>
    have hpc : s.poll = .polling := he.1
    simp only [FileWriter.next]
    split_ifs <;> simp [hpc]
  | leaveLoop => exact ⟨rfl, rfl, hpoll he.1 (by decide) .draining (by decide)⟩
  | count => exact ⟨rfl, rfl, hpoll he (by decide) .send (by decide)⟩
  | sendDownload => exact ⟨rfl, rfl, hpoll he.1 (by decide) .polling (by decide)⟩
  | readPending =>
    have hpc : s.poll = .draining := he
    simp only [FileWriter.next]
    split_ifs <;> simp [hpc]
  | getFile p result => cases result <;> exact ⟨rfl, rfl, Iff.rfl⟩
  | openFile p ok => cases ok <;> exact ⟨rfl, rfl, Iff.rfl⟩
  | write p total result => cases result <;> exact ⟨rfl, rfl, Iff.rfl⟩
  | freeData p => simp only [FileWriter.next]; split_ifs <;> exact ⟨rfl, rfl, Iff.rfl⟩
  | _ => exact ⟨rfl, rfl, Iff.rfl⟩

theorem Linked.post {acq : Acquisition} (h : Linked d s) (hd : PollLaw d) (hc : d.control = .arm)
    (hwait : d.latched.waitPoll) :
    Linked (Driver.next d (.arm true)) (FileWriter.next s (.submit acq)) := by
  obtain ⟨hstop, hpending⟩ := arm_posts hwait
  obtain ⟨hqueue, hpoll⟩ := h.pending.mp (hd.idle (by rw [hc]; rfl))
  have hnext : (FileWriter.next s (.submit acq)).pollQueue = [acq] := by
    change s.pollQueue ++ [acq] = [acq]
    rw [hqueue, List.nil_append]
  refine ⟨hstop.symm, ?_, fun _ => hpoll, by rw [hnext]; rfl⟩
  rw [hpending, Rests, hnext]
  exact ⟨fun hp => (by cases hp), fun hp => by cases hp.1⟩

theorem Linked.receive {acq : Acquisition} {uid gid : ℕ} (h : Linked d s)
    (he : FileWriter.Enabled s (.receiveAcquisition acq uid gid)) :
    Linked d (FileWriter.next s (.receiveAcquisition acq uid gid)) := by
  have hne : s.pollQueue ≠ [] := by
    intro hq
    have hhead := he.2
    rw [hq] at hhead
    cases hhead
  have htail : s.pollQueue.tail = [] := by
    refine List.eq_nil_of_length_eq_zero ?_
    have hone := h.one
    rw [List.length_tail]
    omega
  refine ⟨h.stop, ?_, fun hq => absurd htail hq, ?_⟩
  · refine ⟨fun hp => absurd (h.pending.mp hp).1 hne, fun hr => ?_⟩
    cases hr.2
  · change s.pollQueue.tail.length ≤ 1
    rw [htail]
    exact Nat.zero_le 1

theorem linked_step (h : Linked d s) (hd : PollLaw d) (he : system.Enabled (d, s) a) :
    Linked (system.next (d, s) a).1 (system.next (d, s) a).2 := by
  have hstep := step_of_enabled he
  generalize system.next (d, s) a = y at hstep ⊢
  cases hstep with
  | post hd' hs hwait => exact h.post hd hd'.1 hwait
  | @stop reported _ hd' hr =>
    have hstop : (Driver.next d (.fetchFWState reported)).pollStop = true := by
      simp only [Driver.next, if_neg hr]
    have hpending : (Driver.next d (.fetchFWState reported)).pollPending = d.pollPending := by
      simp only [Driver.next, if_neg hr]
    exact ⟨hstop.symm, hpending ▸ h.pending, h.waiting, h.one⟩
  | driver hd' hal =>
    obtain ⟨hstop, hpending⟩ := hal.next
    exact ⟨h.stop.trans hstop.symm, hpending ▸ h.pending, h.waiting, h.one⟩
  | done hd' hs =>
    have hempty : s.pollQueue = [] := by
      by_contra hq
      have hpoll := h.waiting hq
      rw [show s.poll = .free from hs] at hpoll
      cases hpoll
    exact ⟨h.stop, ⟨fun _ => ⟨hempty, rfl⟩, fun _ => rfl⟩, fun _ => rfl, h.one⟩
  | @files e hs hi =>
    by_cases hreceive : ∃ acq uid gid, e = .receiveAcquisition acq uid gid
    · obtain ⟨acq, uid, gid, rfl⟩ := hreceive
      exact h.receive hs
    · obtain ⟨hstop, hqueue, hpoll⟩ :=
        hi.next (fun acq uid gid heq => hreceive ⟨acq, uid, gid, heq⟩) hs
      refine ⟨hstop.trans h.stop, ?_, ?_, hqueue ▸ h.one⟩
      · rw [h.pending, Rests, Rests, hqueue, hpoll]
      · rw [hqueue, hpoll]
        exact h.waiting

theorem driver_reachable (h : Reachable system x) : Reachable Driver.system x.1 :=
  Reaches.left h fun _ _ _ _ _ => trivial

theorem files_reachable (h : Reachable system x) : Reachable FileWriter.system x.2 :=
  Reaches.right h fun _ _ _ _ _ => trivial

theorem reachable_linked (h : Reachable system x) : Linked x.1 x.2 := by
  refine h.invariant_of (J := fun x => PollLaw x.1) (I := fun x => Linked x.1 x.2)
    (fun x hx => reachable_pollLaw (driver_reachable hx)) ?_
    fun x a hd hl he _ => linked_step hl hd he
  rintro ⟨d, s⟩ ⟨hd, hs⟩
  obtain rfl : d = Driver.initial := hd
  obtain rfl : s = FileWriter.initial := hs
  exact ⟨rfl, ⟨fun _ => ⟨rfl, rfl⟩, fun _ => rfl⟩, fun _ => rfl, Nat.zero_le 1⟩

/-- controlTask and pollTask keep step. An acquisition is posted only to a pollTask that rests, so
that controlTask, which has the driver lock, does not have to wait; it is with pollTask only until
controlTask has waited for it. Files are given up on only once the detector was disarmed and
FileWriter has written its files; and the wait ends with this acquisition, not with an earlier
one. -/
structure InStep (d : Driver.State) (s : FileWriter.State) : Prop where
  posting : d.control = .arm → ∀ acq, FileWriter.Enabled s (.submit acq)
  apart : polling d.control = false → Rests s
  patient : ¬ Rests s → s.pollStop = true → d.control = .waitPoll
  stopping : d.control = .waitPoll → s.pollStop = true
  ending : s.poll = .free → Driver.Enabled d .pollDone
  waiting : d.control = .waitPoll → (Driver.Enabled d .pollDoneWait ↔ Rests s)

theorem in_step (h : Reachable system x) : InStep x.1 x.2 := by
  have hl := reachable_linked h
  have hd := reachable_pollLaw (driver_reachable h)
  have hpending : ∀ {P : Prop}, (¬ Rests x.2) → (x.1.pollPending = true → P) → P := by
    intro P hr hp
    refine hp ?_
    by_contra hfalse
    exact hr (hl.pending.mp (by simpa using hfalse))
  have hapart : polling x.1.control = false → Rests x.2 := fun hc => hl.pending.mp (hd.idle hc)
  refine ⟨fun hc acq => ?_, hapart, fun hr hstop => ?_, fun hc => ?_, fun hfree => ?_,
    fun hc => ?_⟩
  · have hqueue := (hapart (by rw [hc]; rfl)).1
    change x.2.pollQueue.length < 1
    rw [hqueue]
    exact Nat.zero_lt_one
  · exact hpending hr fun hp => hd.patient hp (hl.stop ▸ hstop)
  · exact hl.stop.trans (hd.stopping hc)
  · refine hpending (fun hr => ?_) id
    have hpoll := hr.2
    rw [hfree] at hpoll
    cases hpoll
  · have hsignal := hd.signalled (by rw [hc]; rfl) (hd.wait (.inr hc))
    change _ ∧ x.1.pollDoneEvent = true ↔ _
    rw [hsignal, ← hl.pending]
    simp [hc]

/-- A single image is parsed. Its file is queued for the download when the detector and FileWriter
are done, and controlTask waits. -/
def traceWaiting : List Event :=
  [.driver (.writeSettings ⟨true, false, false, false, false, .ints, 1⟩) FileWriter.parseOnly,
   .driver (.writeDataSource .fileWriter false) FileWriter.parseOnly,
   .driver (.writeAcquire 1) FileWriter.parseOnly, .driver .wake FileWriter.parseOnly,
   .driver (.start true) FileWriter.parseOnly, .driver (.arm true) FileWriter.parseOnly,
   .files (.receiveAcquisition FileWriter.parseOnly 0 0), .files .resetPending,
   .files (.waitFile true), .files (.waitFile true), .files .count, .files .sendDownload,
   .driver .trigger FileWriter.parseOnly, .driver (.fetchState (some "idle")) FileWriter.parseOnly,
   .driver .disarm FileWriter.parseOnly, .driver (.fetchFWState "ready") FileWriter.parseOnly]

theorem in_step_waiting : InStep (runTrace system initial traceWaiting).1
    (runTrace system initial traceWaiting).2 :=
  in_step (reachable_trace start_initial traceWaiting (by decide +kernel))

end Whole

section Wait

open FileWriter (KeepsTokens HoldsLive Finishing Undisturbed Less)

variable {d : Driver.State} {s : FileWriter.State} {x : Driver.State × FileWriter.State}
  {a : Event} {e : FileWriter.Event}

/-- pollTask and the workers go on with the acquisition, or controlTask hears of its end. -/
def Advances (x : Driver.State × FileWriter.State) : Event → Prop
  | .files (.receiveAcquisition _ _ _) => True
  | .files e => Undisturbed x.2 e
  | .driver .pollDoneWait _ => True
  | .driver _ _ => False

/-- What streamTask and the clients do meanwhile. -/
def Elsewhere (_ : Driver.State × FileWriter.State) : Event → Prop
  | .driver .pollDoneWait _ => False
  | .driver _ _ => True
  | .files _ => False

/-- The condition on the files under which none is left behind. -/
def Careful (x : Driver.State × FileWriter.State) : Event → Prop
  | .driver _ _ => True
  | .files e => KeepsTokens x.2 e

instance (x : Driver.State × FileWriter.State) : (a : Event) → Decidable (Careful x a) := by
  rintro ⟨⟩ <;> simp only [Careful] <;> infer_instance

structure Waiting (x : Driver.State × FileWriter.State) : Prop where
  reachable : Reachable system x
  control : x.1.control = .waitPoll
  files : Rests x.2 ∨ Reaches FileWriter.system KeepsTokens x.2 ∧ HoldsLive x.2

/-- First pollTask takes the acquisition from its queue, then there is less and less to do. -/
def work (x : Driver.State × FileWriter.State) : ℕ × ℕ × ℕ := (x.2.pollQueue.length, x.2.work)

theorem files_enabled (he : FileWriter.Enabled s e) (hsubmit : ∀ acq, e ≠ .submit acq)
    (hstop : e ≠ .stop) (hfree : e = .free → Driver.Enabled d .pollDone) :
    system.Enabled (d, s) (.files e) := by
  refine ⟨?_, fun e' h => ?_, fun e' h => ?_⟩
  · change Allowed d (.files e)
    cases e with
    | submit acq => exact absurd rfl (hsubmit acq)
    | stop => exact absurd rfl hstop
    | _ => trivial
  · have hdone : driverStep (.files e) = some e' := h
    by_cases hf : e = .free
    · have hd := hfree hf
      subst hf
      cases hdone
      exact hd
    · cases e <;> first | exact absurd rfl hf | cases hdone
  · cases h
    exact he

theorem control_next {e : Driver.Event} (hc : d.control = .waitPoll) (he : Driver.Enabled d e)
    (hne : e ≠ .pollDoneWait) : (Driver.next d e).control = .waitPoll := by
  cases hcontrol : e.control with
  | none => exact (Driver.control_stays hcontrol).trans hc
  | some c =>
    obtain rfl : c = .waitPoll := (Driver.control_of_enabled he hcontrol).symm.trans hc
    cases e <;> first | exact absurd rfl hne | cases hcontrol

theorem Waiting.between (h : Waiting x) (he : system.Enabled x a) (hn : Elsewhere x a) :
    Waiting (system.next x a) ∧ work (system.next x a) = work x := by
  obtain ⟨d, s⟩ := x
  have hreach : Reachable system (system.next (d, s) a) := .step h.reachable he trivial
  have hstep := step_of_enabled he
  generalize system.next (d, s) a = y at hstep hreach ⊢
  have hc : d.control = .waitPoll := h.control
  cases hstep with
  | post hd hs hwait =>
    have harm := hd.1
    rw [hc] at harm
    cases harm
  | stop hd hr =>
    have hfetch := hd.1
    rw [hc] at hfetch
    cases hfetch
  | driver hd hal =>
    refine ⟨⟨hreach, control_next hc hd ?_, h.files⟩, rfl⟩
    rintro rfl
    exact hn
  | done hd hs => exact absurd hn id
  | files hs hi => exact absurd hn id

theorem Waiting.progress (h : Waiting x) : ∃ a, system.Enabled x a ∧ Advances x a := by
  obtain ⟨d, s⟩ := x
  have hin := in_step h.reachable
  by_cases hrests : Rests s
  · have hd : Driver.Enabled d .pollDoneWait := (hin.waiting h.control).mpr hrests
    refine ⟨.driver .pollDoneWait ⟨[], 0, 0, false, false, false, 0⟩, ⟨trivial, ?_, ?_⟩, trivial⟩
    · intro e he
      cases he
      exact hd
    · intro e he
      cases he
  obtain ⟨hreach, hlive⟩ := h.files.resolve_left hrests
  by_cases hpoll : s.poll = .receive
  · obtain ⟨acq, tail, hqueue⟩ := List.exists_cons_of_ne_nil fun hq => hrests ⟨hq, hpoll⟩
    refine ⟨.files (.receiveAcquisition acq 0 0), ?_, trivial⟩
    refine files_enabled ⟨hpoll, by rw [hqueue]; rfl⟩ ?_ ?_ ?_
    · exact fun _ h => by cases h
    · exact fun h => by cases h
    · exact fun h => by cases h
  · have hfinish : Finishing s := ⟨hreach, hin.stopping h.control, hpoll, hlive⟩
    obtain ⟨e, he, hu⟩ := hfinish.ready
    have htask := hu.1
    refine ⟨.files e, files_enabled he ?_ ?_ ?_, ?_⟩
    · rintro acq rfl
      exact htask
    · rintro rfl
      exact htask
    · rintro rfl
      exact hin.ending he
    · cases e with
      | receiveAcquisition acq uid gid => trivial
      | _ => exact hu

/-- A step of the tasks other than that which takes the acquisition from the queue. -/
theorem Waiting.inner (h : Waiting (d, s)) (hs : FileWriter.Enabled s e) (hu : Undisturbed s e)
    (hi : Inner e) (hreceive : ∀ acq uid gid, e ≠ .receiveAcquisition acq uid gid) :
    (Rests (FileWriter.next s e) ∨
      Reaches FileWriter.system KeepsTokens (FileWriter.next s e) ∧
        HoldsLive (FileWriter.next s e)) ∧
    (FileWriter.next s e).pollQueue = s.pollQueue := by
  obtain ⟨-, hqueue, hpoll⟩ := hi.next hreceive hs
  refine ⟨?_, hqueue⟩
  rcases h.files with ⟨hnil, hreceive⟩ | ⟨hreach, hlive⟩
  · exact .inl ⟨hqueue.trans hnil, hpoll.mpr hreceive⟩
  · obtain ⟨hblock, htotal, -⟩ := FileWriter.list_next hu.1
    refine .inr ⟨.step hreach hs (hlive.keepsTokens hs hu), fun p hp => ?_⟩
    obtain ⟨hne, hp', hidx⟩ := hlive.next hreach hs hp
    exact ⟨fun hr => hne (hpoll.mp hr), hp'.trans hblock.symm, htotal ▸ hidx⟩

/-- pollTask is asked to stop while controlTask waits, so that it does not look for a file for
ever. -/
theorem Waiting.less (h : Waiting (d, s)) (hs : FileWriter.Enabled s e) (hu : Undisturbed s e) :
    Less (FileWriter.next s e).work s.work := by
  refine FileWriter.work_next ?_ (fun _ => (in_step h.reachable).stopping h.control) hs hu.1
  rintro rfl
  have hreach : Reachable FileWriter.system s := files_reachable h.reachable
  exact (FileWriter.reaches_ordered hreach).guard (.inr hs.1)

theorem Waiting.receive {acq : Acquisition} {uid gid : ℕ} (h : Waiting (d, s))
    (hs : FileWriter.Enabled s (.receiveAcquisition acq uid gid)) :
    Reaches FileWriter.system KeepsTokens (FileWriter.next s (.receiveAcquisition acq uid gid)) ∧
      HoldsLive (FileWriter.next s (.receiveAcquisition acq uid gid)) ∧
      (FileWriter.next s (.receiveAcquisition acq uid gid)).pollQueue.length <
        s.pollQueue.length := by
  have hne : s.pollQueue ≠ [] := by
    intro hq
    have hhead := hs.2
    rw [hq] at hhead
    cases hhead
  obtain ⟨hreach, hlive⟩ := h.files.resolve_left fun hr => hne hr.1
  have hkeeps : KeepsTokens s (.receiveAcquisition acq uid gid) := trivial
  have hnext : Reaches FileWriter.system KeepsTokens
      (FileWriter.system.next s (.receiveAcquisition acq uid gid)) := .step hreach hs hkeeps
  refine ⟨hnext, fun p hp => absurd hs.1 (hlive p hp).1, ?_⟩
  change s.pollQueue.tail.length < s.pollQueue.length
  have hpos := List.length_pos_iff.mpr hne
  rw [List.length_tail]
  omega

theorem Waiting.step (h : Waiting x) (he : system.Enabled x a) (ha : Advances x a) :
    (system.next x a).1.control ≠ .waitPoll ∨ Waiting (system.next x a) ∧
      Prod.Lex (· < ·) Less (work (system.next x a)) (work x) := by
  obtain ⟨d, s⟩ := x
  have hreach : Reachable system (system.next (d, s) a) := .step h.reachable he trivial
  have hstep := step_of_enabled he
  generalize system.next (d, s) a = y at hstep hreach ⊢
  have hc : d.control = .waitPoll := h.control
  cases hstep with
  | post hd hs hwait => exact absurd ha id
  | stop hd hr => exact absurd ha id
  | @driver e acq hd hal =>
    left
    have hdone : e = .pollDoneWait := by
      cases e <;> first | rfl | exact absurd ha id
    subst hdone
    have hafter : d.latched.afterPoll ≠ .waitPoll := by
      rw [Driver.Latched.afterPoll]
      split_ifs <;> decide
    exact hafter
  | done hd hs =>
    right
    have hqueue : s.pollQueue = [] := by
      by_contra hq
      have hpoll := (reachable_linked h.reachable).waiting hq
      rw [show s.poll = .free from hs] at hpoll
      cases hpoll
    exact ⟨⟨hreach, hc, .inl ⟨hqueue, rfl⟩⟩, .right _ (h.less hs ha)⟩
  | @files e hs hi =>
    right
    by_cases hreceive : ∃ acq uid gid, e = .receiveAcquisition acq uid gid
    · obtain ⟨acq, uid, gid, rfl⟩ := hreceive
      obtain ⟨hreach', hlive, hlt⟩ := h.receive hs
      exact ⟨⟨hreach, hc, .inr ⟨hreach', hlive⟩⟩, .left _ _ hlt⟩
    · have hne : ∀ acq uid gid, e ≠ .receiveAcquisition acq uid gid :=
        fun acq uid gid heq => hreceive ⟨acq, uid, gid, heq⟩
      have hu : Undisturbed s e := by
        cases e with
        | receiveAcquisition acq uid gid => exact absurd rfl (hne acq uid gid)
        | _ => exact ha
      obtain ⟨hfiles, hqueue⟩ := h.inner hs hu hi hne
      refine ⟨⟨hreach, hc, hfiles⟩, ?_⟩
      rw [work, work, hqueue]
      exact .right _ (h.less hs hu)

theorem filesStep_driver {e' : Driver.Event} {acq : Acquisition}
    (h : filesStep d (.driver e' acq) = some e) : e = .submit acq ∨ e = .stop := by
  rw [filesStep.eq_def] at h
  split at h
  · rename_i heq
    obtain ⟨-, rfl⟩ := Event.driver.inj heq
    split_ifs at h
    exact .inl (Option.some.inj h).symm
  · split_ifs at h
    exact .inr (Option.some.inj h).symm
  · cases h
  · rename_i heq
    cases heq

/-- Whatever streamTask and the clients do meanwhile, and in whatever order pollTask and the
workers run, controlTask comes to the end of its wait for pollTask. -/
theorem poll_wait_ends (h : Reaches system Careful x) (hwait : x.1.control = .waitPoll)
    (hlive : HoldsLive x.2) :
    InevitableAmid system Elsewhere Advances (fun x => x.1.control ≠ .waitPoll) x := by
  have hfiles : Reaches FileWriter.system KeepsTokens x.2 := by
    refine Reaches.right h fun y a e hcareful heq => ?_
    cases a with
    | files e' =>
      cases heq
      exact hcareful
    | driver e' acq =>
      rcases filesStep_driver heq with rfl | rfl <;> trivial
  have hreach : Reachable system x := h.mono fun _ _ _ => trivial
  have hless : WellFounded (Prod.Lex (· < ·) Less) :=
    WellFounded.prod_lex Nat.lt_wfRel.wf FileWriter.less_wellFounded
  refine InevitableAmid.of_variant (I := Waiting) hless work (fun x a hx hp he hn => ?_)
    (fun x hx _ => hx.progress) (fun x a hx _ he ha => hx.step he ha)
    ⟨hreach, hwait, .inr ⟨hfiles, hlive⟩⟩
  obtain ⟨hx', hwork⟩ := hx.between he hn
  exact ⟨hx', not_not.mpr hx'.control, hwork⟩

theorem poll_wait_ends_waiting : InevitableAmid system Elsewhere Advances
    (fun x => x.1.control ≠ .waitPoll) (runTrace system initial traceWaiting) := by
  have hpc : (runTrace system initial traceWaiting).2.download = .receive := by decide +kernel
  refine poll_wait_ends (ValidTrace.reaches (by decide +kernel) (.start start_initial))
    (by decide +kernel) fun p hp => ?_
  rw [hpc] at hp
  cases hp

end Wait

end DriverFiles
