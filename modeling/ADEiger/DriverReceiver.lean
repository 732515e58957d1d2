import ADEiger.DriverStream

/-! The receivers that clients create and delete while streamTask uses them.
streamTask checks once that its receiver exists; from then on only clients that keep out of
its series keep it alive. -/
namespace Driver

open TransitionSystem

variable {s : State} {e : Event}

/-- streamTask has not checked for a receiver yet, or will not use it any more. -/
def StreamPc.outside : StreamPc → Bool
  | .waiting | .woken | .finish => true
  | _ => false

/-- Whatever streamTask is about to use, or is using, exists. -/
def ReceiverAlive (s : State) : Prop :=
  match s.stream with
  | .getHeader v | .waitFrame v | .getFrame v _ => ∃ x ∈ s.receiver v, x ∉ s.deleted
  | .inGetHeader _ o | .inWaitFrame _ o => ∃ x ∈ o, x ∉ s.deleted
  | _ => True

/-- A client that leaves the stream as data source does so outside of a series, and the
check at the start of a series does not pass over a missing receiver. -/
def KeepsReceiver (s : State) : Event → Prop
  | .writeDataSource value _ => value ≠ .stream → s.stream.outside = true
  | .writeStreamVersion _ _ => s.dataSource ≠ .stream → s.stream.outside = true
  | .checkReceiver => s.receiverMissing ∨ s.receiver s.streamVersion ≠ none
  | _ => True

instance (s : State) : (e : Event) → Decidable (KeepsReceiver s e) := by
  rintro ⟨⟩ <;> simp only [KeepsReceiver] <;> infer_instance

/-- The version of the series that streamTask is in. -/
def StreamPc.version : StreamPc → Option ℤ
  | .getHeader v | .inGetHeader v _ | .waitFrame v | .inWaitFrame v _ | .getFrame v _ => some v
  | _ => none

def StreamPc.object : StreamPc → Option (ℤ × Option ℕ)
  | .inGetHeader v o | .inWaitFrame v o => some (v, o)
  | _ => none

structure ReceiverLaw (s : State) : Prop where
  fresh : ∀ x ∈ s.deleted, x < s.nextReceiver
  alive : ∀ v, ∀ x ∈ s.receiver v, x < s.nextReceiver ∧ x ∉ s.deleted
  present : ∀ v ∈ s.stream.version, s.receiver v ≠ none
  object : ∀ v o, s.stream.object = some (v, o) → o = s.receiver v

theorem receiverLaw_initial : ReceiverLaw initial := by
  constructor <;> simp [initial, State.receiver, StreamPc.version, StreamPc.object]

/-- A step that leaves the receivers alone and keeps streamTask in its series. -/
theorem ReceiverLaw.stream (h : ReceiverLaw s) {p : StreamPc}
    (hv : ∀ v ∈ p.version, v ∈ s.stream.version)
    (ho : ∀ v o, p.object = some (v, o) → o = s.receiver v) :
    ReceiverLaw { s with stream := p } :=
  { h with present := fun v hm => h.present v (hv v hm), object := ho }

theorem ReceiverLaw.testTrigger (h : ReceiverLaw s) : ReceiverLaw s.testTrigger := by
  rcases testTrigger_cases s with ht | ⟨-, ht | ht⟩
  all_goals
    rw [ht]
    exact { h with }

theorem outside_version {pc : StreamPc} (h : pc.outside = true) :
    pc.version = none ∧ pc.object = none := by
  cases pc <;> simp [StreamPc.outside, StreamPc.version, StreamPc.object] at h ⊢

theorem version_of_object {pc : StreamPc} {v : ℤ} {o : Option ℕ}
    (h : pc.object = some (v, o)) : v ∈ pc.version := by
  cases pc <;> simp [StreamPc.object, StreamPc.version] at h ⊢
  all_goals exact h.1

theorem ReceiverLaw.create (h : ReceiverLaw s) {t : State}
    (hn : t.nextReceiver = s.nextReceiver + 1) (hd : t.deleted = s.deleted)
    (hst : t.stream = s.stream)
    (hr : ∀ v, t.receiver v = s.receiver v ∨
      (s.receiver v = none ∧ t.receiver v = some s.nextReceiver)) : ReceiverLaw t where
  fresh x hx := by
    have := h.fresh x (hd ▸ hx)
    omega
  alive v x hx := by
    rw [hd, hn]
    rcases hr v with hr | ⟨-, hr⟩
    · have := h.alive v x (hr ▸ hx)
      exact ⟨by omega, this.2⟩
    · rw [hr] at hx
      obtain rfl := Option.some.inj hx
      exact ⟨by omega, fun hx => absurd (h.fresh _ hx) (Nat.lt_irrefl _)⟩
  present v hv := by
    rcases hr v with hr | ⟨-, hr⟩
    · rw [hr]
      exact h.present v (hst ▸ hv)
    · simp [hr]
  object v o ho := by
    have ho : s.stream.object = some (v, o) := hst ▸ ho
    rcases hr v with hr | ⟨hnone, -⟩
    · rw [hr]
      exact h.object v o ho
    · exact absurd hnone (h.present v (version_of_object ho))

theorem ReceiverLaw.switchReceivers (h : ReceiverLaw s) (enabled : Bool)
    (hs : s.dataSource ≠ .stream → s.stream.outside = true) :
    ReceiverLaw (s.switchReceivers enabled) := by
  simp only [State.switchReceivers]
  split_ifs with hd hv ha ha
  · refine h.create rfl rfl rfl fun v => ?_
    unfold State.receiver
    split_ifs with hv'
    · exact Or.inr ⟨ha, rfl⟩
    · exact Or.inl rfl
  · exact { h with }
  · refine h.create rfl rfl rfl fun v => ?_
    unfold State.receiver
    split_ifs with hv'
    · exact Or.inl rfl
    · exact Or.inr ⟨ha, rfl⟩
  · exact { h with }
  · obtain ⟨hver, hobj⟩ := outside_version (hs hd)
    have h₁ := h.alive STREAM_VERSION_STREAM
    have h₂ := h.alive STREAM_VERSION_STREAM2
    exact {
      fresh := by
        intro x hx
        simp only [List.mem_append, Option.mem_toList] at hx
        rcases hx with (hx | hx) | hx
        · exact h.fresh x hx
        · exact (h₁ x hx).1
        · exact (h₂ x hx).1
      alive := by simp [State.receiver]
      present := by simp [hver]
      object := by simp [hobj] }

theorem receiverLaw_step (h : ReceiverLaw s) (he : Enabled s e) (hk : KeepsReceiver s e) :
    ReceiverLaw (next s e) := by
  cases e with
  | start putOk => simp only [next]; split_ifs <;> exact { h with }
  | arm ok =>
    cases ok with
    | false => exact { h with }
    | true =>
      have h' : ReceiverLaw
          { s with numImagesCounter := 0, armed := true, triggers := 0 }.startTasks := { h with }
      simp only [next]
      split_ifs
      · exact h'.testTrigger
      · exact { h' with }
  | manualWait fired => simp only [next]; split_ifs <;> exact { h with }
  | testTrigger => exact h.testTrigger
  | trigger =>
    have h' : ReceiverLaw { s with triggers := s.triggers + 1 } := { h with }
    exact h'.testTrigger
  | fetchState reported => simp only [next]; split_ifs <;> exact { h with }
  | waitStop fired => simp only [next]; split_ifs <;> exact { h with }
  | fetchFWState reported => simp only [next]; split_ifs <;> exact { h with }
  | finish putOk =>
    simp only [next]
    cases s.adStatus with
    | acquire => dsimp only; split_ifs <;> exact { h with }
    | aborted | idle | error => exact { h with }
  | wakeStream =>
    exact { h.stream (p := .woken) (by simp [StreamPc.version])
      (by simp [StreamPc.object]) with }
  | checkReceiver =>
    simp only [next]
    split_ifs with hm
    · exact h.stream (by simp [StreamPc.version]) (by simp [StreamPc.object])
    · have hr := hk.resolve_left hm
      exact { h with
        present := fun v hv => Option.some.inj hv ▸ hr
        object := by simp [StreamPc.object] }
  | callGetHeader v =>
    have hp : s.stream = .getHeader v := he
    exact h.stream (by simp [StreamPc.version, hp]) (by simp [StreamPc.object])
  | getHeader v o result =>
    cases result <;>
      exact h.stream (by simp [StreamPc.version, he.1]) (by simp [StreamPc.object])
  | callWaitFrame v =>
    have hp : s.stream = .waitFrame v := he
    exact h.stream (by simp [StreamPc.version, hp]) (by simp [StreamPc.object])
  | waitFrame v o result =>
    rcases result with (_ | n) | _ | _
    · exact { h.stream (p := .finish) (by simp [StreamPc.version])
        (by simp [StreamPc.object]) with }
    · simp only [next]
      split_ifs
      all_goals exact h.stream (by simp [StreamPc.version, he.1]) (by simp [StreamPc.object])
    · exact h.stream (by simp [StreamPc.version, he.1]) (by simp [StreamPc.object])
    · exact h.stream (by simp [StreamPc.version]) (by simp [StreamPc.object])
  | getFrame v n =>
    have hp : s.stream = .getFrame v (n + 1) := he
    have h' : ReceiverLaw
        { s with numImagesCounter := Int.bmod (s.numImagesCounter + 1) (2 ^ 32) } := { h with }
    simp only [next]
    split_ifs
    all_goals exact h'.stream (by simp [StreamPc.version, hp]) (by simp [StreamPc.object])
  | finishStream =>
    exact { h.stream (p := .waiting) (by simp [StreamPc.version])
      (by simp [StreamPc.object]) with }
  | writeAcquire value => simp only [next]; split_ifs <;> exact { h with }
  | writeDataSource value enabled =>
    have h' : ReceiverLaw { s with dataSource := value } := { h with }
    exact h'.switchReceivers enabled hk
  | writeStreamVersion value enabled =>
    have h' : ReceiverLaw { s with streamVersion := value } := { h with }
    exact h'.switchReceivers enabled hk
  | _ => exact { h with }

theorem reaches_receiverLaw (h : Reaches system KeepsReceiver s) : ReceiverLaw s := by
  refine h.invariant (I := ReceiverLaw) ?_ fun _ _ hl he hk => receiverLaw_step hl he hk
  rintro _ rfl
  exact receiverLaw_initial

theorem ReceiverLaw.present_alive (h : ReceiverLaw s) {v : ℤ} (hv : v ∈ s.stream.version) :
    ∃ x ∈ s.receiver v, x ∉ s.deleted := by
  obtain ⟨x, hx⟩ := Option.ne_none_iff_exists'.mp (h.present v hv)
  exact ⟨x, hx, (h.alive v x hx).2⟩

/-- While no client deletes the receivers in the middle of a series, streamTask only uses a
receiver that exists. -/
theorem receiver_alive (h : Reaches system KeepsReceiver s) : ReceiverAlive s := by
  have hl := reaches_receiverLaw h
  unfold ReceiverAlive
  split
  · next v hs => exact hl.present_alive (by simp [hs, StreamPc.version])
  · next v hs => exact hl.present_alive (by simp [hs, StreamPc.version])
  · next v n hs => exact hl.present_alive (by simp [hs, StreamPc.version])
  · next v o hs =>
    rw [hl.object v o (by simp [hs, StreamPc.object])]
    exact hl.present_alive (by simp [hs, StreamPc.version])
  · next v o hs =>
    rw [hl.object v o (by simp [hs, StreamPc.object])]
    exact hl.present_alive (by simp [hs, StreamPc.version])
  · trivial

/-- streamTask is in the call of getHeader. -/
def traceInCall : List Event :=
  traceStreamArmed ++ [.arm true, .fetchState (some "acquire"), .wakeStream, .checkReceiver,
    .callGetHeader 0]

theorem receiver_alive_in_call :
    (runTrace system initial traceInCall).stream = .inGetHeader 0 (some 0) ∧
      ReceiverAlive (runTrace system initial traceInCall) :=
  ⟨by decide +kernel, receiver_alive (ValidTrace.reaches (by decide +kernel) (.start rfl))⟩

/-- A client switches DataSource off while streamTask waits for the header. -/
theorem receiver_deleted_in_call : ¬ ∀ s, Reachable system s → ReceiverAlive s := by
  intro h
  have ht := h _ (reachable_trace rfl (traceInCall ++ [.writeDataSource .none true])
    (by decide +kernel))
  obtain ⟨x, hx, hn⟩ := (ht : ∃ x ∈ some 0, x ∉ [0])
  exact hn (List.mem_singleton.mpr (Option.some.inj hx).symm)

end Driver
