import ADEiger.RestOwnership

/-! Descriptors of the pool.
A socket's `closed` is updated apart from its descriptor; every call that leaves a socket
has to leave the two in step. -/
namespace RestSocketPool

open TransitionSystem

variable {s t : State} {e : Event} {c i mNumSockets : ℕ}

/-- A descriptor that was created and not closed since. -/
structure Open (s : State) (fd : ℤ) : Prop where
  nonneg : 0 ≤ fd
  created : fd < s.nextFd
  kept : fd ∉ s.closes

/-- `closed` of a socket that no call holds says whether its descriptor is open, nothing is
closed twice, `connect` overwrites no open descriptor and none is lost. -/
structure ClosedFlags (s : State) : Prop where
  truth : ∀ i, (s.sockets i).owner = none →
    ((s.sockets i).closed = false ↔ Open s (s.sockets i).fd)
  once : s.closes.Nodup
  overwrites : ∀ c i, s.pc c = .connect i → ¬ Open s (s.sockets i).fd
  noLeak : ∀ fd, Open s fd → ∃ i, (s.sockets i).closed = false ∧ (s.sockets i).fd = fd

/-- The send of doRequest does not fail on a socket whose retries are used up. -/
def LastSendSucceeds (s : State) : Event → Prop
  | .send c i ok =>
    ok = false → s.kind c = .doRequest → (s.sockets i).retries < MAX_HTTP_RETRIES
  | _ => True

instance (s : State) : (e : Event) → Decidable (LastSendSucceeds s e) := by
  rintro ⟨⟩ <;> simp only [LastSendSucceeds] <;> infer_instance

/-- The state of the socket's descriptor that each point of a call relies on. -/
def FlagRelies (s : State) : Pc → Prop
  | .connect i => (s.sockets i).closed = true
  | .send i | .select i | .recv i | .parseHeader i _ | .malloc i _ _ | .recvBody i _ _ _ _
  | .reconnect i _ | .retry i => (s.sockets i).closed = false
  | _ => True

structure Descriptors (s : State) : Prop where
  relies : ∀ c, FlagRelies s (s.pc c)
  opened : ∀ i, (s.sockets i).closed = false → Open s (s.sockets i).fd
  distinct : ∀ i j, i ≠ j → (s.sockets i).fd = (s.sockets j).fd →
    (s.sockets i).fd = INVALID_SOCKET
  tracked : ∀ fd, Open s fd → ∃ i, (s.sockets i).closed = false ∧ (s.sockets i).fd = fd
  once : s.closes.Nodup
  allocated : ∀ i, (s.sockets i).fd < s.nextFd
  closedCreated : ∀ fd ∈ s.closes, fd < s.nextFd
  nonneg : 0 ≤ s.nextFd

theorem descriptors_initial : Descriptors initial where
  relies c := trivial
  opened i hi := by simp [initial] at hi
  distinct i j _ _ := rfl
  tracked fd h := absurd h.created (by simpa [initial] using h.nonneg)
  once := List.nodup_nil
  allocated i := by simp [initial, INVALID_SOCKET]
  closedCreated := by simp [initial]
  nonneg := Int.le_refl _

theorem Open.frame {fd : ℤ} (h : Open s fd) (hc : t.closes = s.closes)
    (hn : s.nextFd ≤ t.nextFd) : Open t fd :=
  ⟨h.nonneg, Int.lt_of_lt_of_le h.created hn, hc ▸ h.kept⟩

theorem Descriptors.closed (h : Descriptors s) (hi : (s.sockets i).closed = true) :
    ¬ Open s (s.sockets i).fd := by
  intro ho
  obtain ⟨j, hj, hfd⟩ := h.tracked _ ho
  by_cases hji : j = i
  · simp [hji, hi] at hj
  · have hinv := h.distinct i j (Ne.symm hji) hfd.symm
    have hnonneg := ho.nonneg
    rw [hinv] at hnonneg
    exact absurd hnonneg (by decide)

theorem FlagRelies.frame {pc : Pc} (h : FlagRelies s pc)
    (hi : ∀ i, pc.holds = some i → (t.sockets i).closed = (s.sockets i).closed) :
    FlagRelies t pc := by
  cases pc <;> first | trivial | exact (hi _ rfl).trans h

theorem Descriptors.frame (h : Descriptors s) (hpc : ∀ d, d ≠ c → t.pc d = s.pc d)
    (hfd : ∀ i, (t.sockets i).fd = (s.sockets i).fd)
    (hflag : ∀ i, (t.sockets i).closed = (s.sockets i).closed)
    (hc : t.closes = s.closes) (hn : t.nextFd = s.nextFd) (hrel : FlagRelies s (t.pc c)) :
    Descriptors t where
  relies d := by
    by_cases hd : d = c
    · rw [hd]
      exact hrel.frame fun i _ => hflag i
    · rw [hpc d hd]
      exact (h.relies d).frame fun i _ => hflag i
  opened i hi := by
    rw [hfd i]
    rw [hflag i] at hi
    exact (h.opened i hi).frame hc (Int.le_of_eq hn.symm)
  distinct i j hij hf := by
    rw [hfd i] at hf ⊢
    rw [hfd j] at hf
    exact h.distinct i j hij hf
  tracked fd ho := by
    obtain ⟨i, hi, hf⟩ := h.tracked fd (ho.frame hc.symm (Int.le_of_eq hn))
    exact ⟨i, (hflag i).trans hi, (hfd i).trans hf⟩
  once := hc ▸ h.once
  allocated i := by
    rw [hfd i, hn]
    exact h.allocated i
  closedCreated := by
    rw [hc, hn]
    exact h.closedCreated
  nonneg := hn ▸ h.nonneg

theorem Descriptors.goto (h : Descriptors s) {p : Pc} (hrel : FlagRelies s p) :
    Descriptors (s.goto c p) := by
  refine h.frame (fun d hd => Function.update_of_ne hd _ _) (fun _ => rfl) (fun _ => rfl) rfl rfl
    (c := c) ?_
  have hp : (s.goto c p).pc c = p := Function.update_self ..
  rwa [hp]

theorem Descriptors.setSocket (h : Descriptors s) {k : Socket} {p : Pc}
    (hfd : k.fd = (s.sockets i).fd) (hflag : k.closed = (s.sockets i).closed)
    (hrel : FlagRelies s p) : Descriptors ((s.setSocket i k).goto c p) := by
  refine h.frame (c := c) (fun d hd => Function.update_of_ne hd _ _)
    (setSocket_keeps Socket.fd · hfd) (setSocket_keeps Socket.closed · hflag) rfl rfl ?_
  have hp : ((s.setSocket i k).goto c p).pc c = p := Function.update_self ..
  rwa [hp]

/-- Call `c` closes the open descriptor of its socket and marks the socket closed. -/
theorem Descriptors.close (h : Descriptors s) (howned : Owned s)
    (hc : (s.pc c).holds = some i) (hi : (s.sockets i).closed = false)
    (hpc : ∀ d, d ≠ c → t.pc d = s.pc d)
    (hself : (t.sockets i).fd = (s.sockets i).fd ∧ (t.sockets i).closed = true)
    (hother : ∀ j, j ≠ i → t.sockets j = s.sockets j)
    (hcl : t.closes = s.closes ++ [(s.sockets i).fd]) (hn : t.nextFd = s.nextFd)
    (hrel : FlagRelies t (t.pc c)) : Descriptors t := by
  have hopen := h.opened i hi
  have hfd : ∀ j, (t.sockets j).fd = (s.sockets j).fd := by
    intro j
    by_cases hj : j = i
    · rw [hj, hself.1]
    · rw [hother j hj]
  exact {
    relies := by
      intro d
      by_cases hd : d = c
      · rwa [hd]
      · rw [hpc d hd]
        refine (h.relies d).frame fun j hj => ?_
        rw [hother j (howned.ne_of_holds hc hd hj)]
    opened := by
      intro j hj
      have hji : j ≠ i := by
        rintro rfl
        rw [hself.2] at hj
        cases hj
      rw [hother j hji] at hj ⊢
      have ho := h.opened j hj
      refine ⟨ho.nonneg, hn ▸ ho.created, ?_⟩
      rw [hcl, List.mem_append, List.mem_singleton]
      rintro (hm | heq)
      · exact ho.kept hm
      · have hinv := h.distinct j i hji heq
        have hnonneg := ho.nonneg
        rw [hinv] at hnonneg
        exact absurd hnonneg (by decide)
    distinct := by
      intro j k hjk hf
      rw [hfd j] at hf ⊢
      rw [hfd k] at hf
      exact h.distinct j k hjk hf
    tracked := by
      intro fd ho
      have hkept := ho.kept
      rw [hcl, List.mem_append, List.mem_singleton, not_or] at hkept
      obtain ⟨j, hj, hf⟩ := h.tracked fd ⟨ho.nonneg, hn ▸ ho.created, hkept.1⟩
      have hji : j ≠ i := by
        rintro rfl
        exact hkept.2 hf.symm
      exact ⟨j, by rwa [hother j hji], by rwa [hother j hji]⟩
    once := by
      rw [hcl, List.nodup_append]
      refine ⟨h.once, by simp, ?_⟩
      intro a ha b hb hab
      rw [List.mem_singleton.mp hb] at hab
      exact hopen.kept (hab ▸ ha)
    allocated := by
      intro j
      rw [hfd j, hn]
      exact h.allocated j
    closedCreated := by
      rw [hcl, hn]
      intro fd hm
      rcases List.mem_append.mp hm with hm | hm
      · exact h.closedCreated fd hm
      · rw [List.mem_singleton.mp hm]
        exact hopen.created
    nonneg := hn ▸ h.nonneg }

theorem Descriptors.failed (h : Descriptors s) (hi : (s.sockets i).closed = false)
    {markClosed : Bool}
    (hm : markClosed = true → (s.sockets i).retries < MAX_HTTP_RETRIES) :
    Descriptors (s.failed c i markClosed) := by
  simp only [State.failed]
  split_ifs with hr
  · exact h.setSocket rfl rfl hi
  · cases markClosed with
    | false => exact h.setSocket rfl (Bool.or_false _) trivial
    | true => exact absurd (hm rfl) hr

/-- Call `c` replaces the descriptor of its closed socket, by none or by a new one. -/
theorem Descriptors.replace (h : Descriptors s) (howned : Owned s)
    (hp : s.pc c = .connect i) (hpc : ∀ d, d ≠ c → t.pc d = s.pc d)
    (hother : ∀ j, j ≠ i → t.sockets j = s.sockets j)
    (hfd : (t.sockets i).fd = INVALID_SOCKET ∨ (t.sockets i).fd = s.nextFd)
    (hopen : ∀ fd, Open t fd ↔
      Open s fd ∨ (t.sockets i).closed = false ∧ fd = (t.sockets i).fd)
    (hn : s.nextFd ≤ t.nextFd) (hlt : (t.sockets i).fd < t.nextFd) (honce : t.closes.Nodup)
    (hcreated : ∀ fd ∈ t.closes, fd < t.nextFd) (hrel : FlagRelies t (t.pc c)) :
    Descriptors t where
  relies d := by
    by_cases hd : d = c
    · rwa [hd]
    · rw [hpc d hd]
      refine (h.relies d).frame fun j hj => ?_
      rw [hother j (howned.ne_of_holds (c := c) (by simp [hp]) hd hj)]
  opened j hj := by
    by_cases hji : j = i
    · subst hji
      exact (hopen _).mpr (.inr ⟨hj, rfl⟩)
    · rw [hother j hji] at hj ⊢
      exact (hopen _).mpr (.inl (h.opened j hj))
  distinct j k hjk hf := by
    by_cases hji : j = i
    · subst hji
      rcases hfd with hfd | hfd
      · exact hfd
      · rw [hfd, hother k (Ne.symm hjk)] at hf
        exact absurd hf (Int.ne_of_gt (h.allocated k))
    · by_cases hki : k = i
      · subst hki
        rcases hfd with hfd | hfd
        · exact hf.trans hfd
        · rw [hfd, hother j hji] at hf
          exact absurd hf (Int.ne_of_lt (h.allocated j))
      · rw [hother j hji] at hf ⊢
        rw [hother k hki] at hf
        exact h.distinct j k hjk hf
  tracked fd ho := by
    rcases (hopen fd).mp ho with ho | ⟨hi, rfl⟩
    · obtain ⟨j, hj, hf⟩ := h.tracked fd ho
      have hji : j ≠ i := by
        rintro rfl
        have hclosed := h.relies c
        rw [hp] at hclosed
        exact absurd (hj.symm.trans hclosed) (by decide)
      exact ⟨j, by rwa [hother j hji], by rwa [hother j hji]⟩
    · exact ⟨i, hi, rfl⟩
  once := honce
  allocated j := by
    by_cases hji : j = i
    · rwa [hji]
    · rw [hother j hji]
      exact Int.lt_of_lt_of_le (h.allocated j) hn
  closedCreated := hcreated
  nonneg := Int.le_trans h.nonneg hn

theorem descriptors_connect (h : Descriptors s) (howned : Owned s) (hp : s.pc c = .connect i)
    (result : ConnectResult) : Descriptors (next s (.connect c i result)) := by
  have hclosed : (s.sockets i).closed = true := by simpa [hp, FlagRelies] using h.relies c
  have hsucc : s.nextFd < s.nextFd + 1 := Int.lt_succ _
  have hnew : s.nextFd ∉ s.closes := fun hm => absurd (h.closedCreated _ hm) (Int.lt_irrefl _)
  have hpc : ∀ d, d ≠ c → (next s (.connect c i result)).pc d = s.pc d := by
    intro d hd
    apply next_pc_of_ne
    rintro c' hc' rfl
    exact hd (Option.some.inj hc').symm
  have hother : ∀ j, j ≠ i → (next s (.connect c i result)).sockets j = s.sockets j := by
    intro j hj
    cases result <;> exact Function.update_of_ne hj _ _
  cases result with
  | noSocket =>
    apply h.replace howned hp hpc hother
    · exact .inl (by simp [next, State.goto, State.setSocket])
    · intro fd
      constructor
      · exact fun ho => .inl (ho.frame rfl (Int.le_refl _))
      · rintro (ho | ⟨hi, -⟩)
        · exact ho.frame rfl (Int.le_refl _)
        · simp [next, State.goto, State.setSocket, hclosed] at hi
    · exact Int.le_refl _
    · have hlt : INVALID_SOCKET < s.nextFd := Int.lt_of_lt_of_le (by decide) h.nonneg
      simpa [next, State.goto, State.setSocket] using hlt
    · exact h.once
    · exact h.closedCreated
    · simp [next, State.goto, FlagRelies]
  | failed =>
    apply h.replace howned hp hpc hother
    · exact .inr (by simp [next, State.goto, State.setSocket])
    · intro fd
      constructor
      · intro ho
        have hkept : fd ∉ s.closes ++ [s.nextFd] := ho.kept
        rw [List.mem_append, List.mem_singleton, not_or] at hkept
        have hlt : fd < s.nextFd + 1 := ho.created
        exact .inl ⟨ho.nonneg, Int.lt_iff_le_and_ne.mpr ⟨Int.le_of_lt_add_one hlt, hkept.2⟩,
          hkept.1⟩
      · rintro (ho | ⟨hi, -⟩)
        · refine ⟨ho.nonneg, Int.lt_trans ho.created hsucc, ?_⟩
          change fd ∉ s.closes ++ [s.nextFd]
          rw [List.mem_append, List.mem_singleton, not_or]
          exact ⟨ho.kept, Int.ne_of_lt ho.created⟩
        · simp [next, State.goto, State.setSocket, hclosed] at hi
    · exact Int.le_of_lt hsucc
    · simp [next, State.goto, State.setSocket, hsucc]
    · change (s.closes ++ [s.nextFd]).Nodup
      rw [List.nodup_append]
      refine ⟨h.once, by simp, ?_⟩
      intro a ha b hb hab
      rw [List.mem_singleton.mp hb] at hab
      exact hnew (hab ▸ ha)
    · intro fd hm
      rcases List.mem_append.mp hm with hm | hm
      · exact Int.lt_trans (h.closedCreated fd hm) hsucc
      · rw [List.mem_singleton.mp hm]
        exact hsucc
    · simp [next, State.goto, FlagRelies]
  | connected =>
    have hself : (next s (.connect c i .connected)).sockets i =
        { s.sockets i with fd := s.nextFd, closed := false } := Function.update_self ..
    apply h.replace howned hp hpc hother
    · exact .inr (by rw [hself])
    · intro fd
      rw [hself]
      constructor
      · intro ho
        have hlt : fd < s.nextFd + 1 := ho.created
        by_cases hfd : fd = s.nextFd
        · exact .inr ⟨rfl, hfd⟩
        · exact .inl ⟨ho.nonneg, Int.lt_iff_le_and_ne.mpr ⟨Int.le_of_lt_add_one hlt, hfd⟩,
            ho.kept⟩
      · rintro (ho | ⟨-, rfl⟩)
        · exact ho.frame rfl (Int.le_of_lt hsucc)
        · exact ⟨h.nonneg, hsucc, hnew⟩
    · exact Int.le_of_lt hsucc
    · rw [hself]
      exact hsucc
    · exact h.once
    · exact fun fd hm => Int.lt_trans (h.closedCreated fd hm) hsucc
    · simp [next, State.goto, State.setSocket, State.setConnection, FlagRelies]

/-- The invariant is about the pool and the calls, not about connections and histories. -/
theorem Descriptors.histories (h : Descriptors s) (hs : t.sockets = s.sockets)
    (hp : t.pc = s.pc) (hc : t.closes = s.closes) (hn : t.nextFd = s.nextFd) :
    Descriptors t := by
  refine h.frame (c := 0) (fun d _ => by rw [hp]) (fun i => by rw [hs]) (fun i => by rw [hs])
    hc hn ?_
  rw [hp]
  exact h.relies 0

theorem descriptors_step (h : Descriptors s) (howned : Owned s) (he : Enabled mNumSockets s e)
    (hl : LastSendSucceeds s e) : Descriptors (next s e) := by
  cases e with
  | start c k => exact (h.goto (c := c) (p := .tryLock 0) trivial).histories rfl rfl rfl rfl
  | tryLock c i =>
    simp only [next]
    split_ifs
    · exact h.setSocket rfl rfl trivial
    · exact h.goto trivial
  | noSocket c i => exact h.goto trivial
  | testClosed c i =>
    simp only [next]
    split_ifs with hi
    · exact h.goto hi
    · have ho : (s.sockets i).closed = false := by simpa using hi
      exact h.goto ho
  | connect c i result => exact descriptors_connect h howned he result
  | send c i ok =>
    have hi := h.relies c
    rw [show s.pc c = .send i from he] at hi
    cases ok with
    | false => exact h.failed hi fun hm => hl rfl (by simpa using hm)
    | true =>
      simp only [next]
      split_ifs
      · exact (h.goto (c := c) (p := .select i) hi).histories rfl rfl rfl rfl
      · exact (h.goto (c := c) (p := .recv i) hi).histories rfl rfl rfl rfl
  | select c i ready =>
    have hi := h.relies c
    rw [show s.pc c = .select i from he] at hi
    cases ready with
    | false => exact h.goto trivial
    | true => exact h.goto hi
  | recv c i result =>
    have hi := h.relies c
    rw [he.1] at hi
    cases result with
    | none => exact h.failed hi (by simp)
    | some n => exact (h.goto (c := c) (p := .parseHeader i _) hi).histories rfl rfl rfl rfl
  | parseHeader c i data result =>
    have hi := h.relies c
    rw [show s.pc c = .parseHeader i data from he] at hi
    cases result with
    | none => exact h.goto trivial
    | some header =>
      simp only [next]
      split_ifs
      · exact h.goto hi
      · exact h.goto trivial
      · exact h.goto hi
  | malloc c i data header ok =>
    have hi := h.relies c
    rw [show s.pc c = .malloc i data header from he] at hi
    cases ok with
    | false => exact h.goto trivial
    | true =>
      simp only [next, receiveRest]
      split_ifs
      · exact h.goto hi
      · exact h.goto hi
  | recvBody c i data header body remaining result =>
    have hi := h.relies c
    rw [he.1] at hi
    cases result with
    | none => exact h.failed hi (by simp)
    | some n =>
      simp only [next, receiveRest]
      split_ifs
      · exact (h.goto (c := c) (p := .reconnect i _) hi).histories rfl rfl rfl rfl
      · have ho : (s.sockets i).closed = false := hi
        exact (h.goto (c := c) (p := .recvBody i data header _ _) ho).histories rfl rfl rfl rfl
  | reconnect c i response =>
    have hi := h.relies c
    have hp : s.pc c = .reconnect i response := he
    rw [hp] at hi
    simp only [next]
    split_ifs
    · refine h.close howned (by simp [hp]) hi (fun d hd => Function.update_of_ne hd _ _) ?_
        (fun j hj => Function.update_of_ne hj _ _) rfl rfl ?_
      · simp [State.goto, State.setSocket]
      · simp [State.goto, FlagRelies]
    · exact h.goto trivial
  | leave c i response =>
    have hleft := h.setSocket (c := c) (i := i)
      (k := { s.sockets i with retries := 0, owner := none }) (p := .returned) rfl rfl trivial
    exact hleft.histories rfl rfl rfl rfl
  | leaveUnlocked c i => exact h.setSocket rfl rfl trivial
  | retry c i =>
    have hi := h.relies c
    have hp : s.pc c = .retry i := he
    rw [hp] at hi
    refine h.close howned (by simp [hp]) hi (fun d hd => Function.update_of_ne hd _ _) ?_
      (fun j hj => Function.update_of_ne hj _ _) rfl rfl ?_
    · simp [next, State.goto, State.setSocket]
    · simp [next, State.goto, FlagRelies]
  | answer fd byte last => exact h.histories rfl rfl rfl rfl
  | shut fd => exact h.histories rfl rfl rfl rfl

theorem reaches_descriptors (h : Reaches (system mNumSockets) LastSendSucceeds s) :
    Descriptors s := by
  refine h.invariant_of (J := Owned) (I := Descriptors) (fun _ hr => reaches_owned hr) ?_
    fun _ _ howned hd he hl => descriptors_step hd howned he hl
  rintro _ rfl
  exact descriptors_initial

/-- While the send of doRequest does not fail for the last time, the flags of the pool tell
the truth and no descriptor is lost. -/
theorem closed_flags (h : Reaches (system mNumSockets) LastSendSucceeds s) : ClosedFlags s where
  truth i _ := by
    have hd := reaches_descriptors h
    constructor
    · exact hd.opened i
    · intro ho
      cases hc : (s.sockets i).closed with
      | false => rfl
      | true => exact absurd ho (hd.closed hc)
  once := (reaches_descriptors h).once
  overwrites c i hp := by
    have hd := reaches_descriptors h
    have hc := hd.relies c
    rw [hp] at hc
    exact hd.closed hc
  noLeak := (reaches_descriptors h).tracked

/-- A call that connects socket 0 and gives up after a timeout. -/
def traceTimeout (c : ℕ) : List Event :=
  traceConnect c ++ [.select c 0 false, .leave c 0 none]

theorem closed_flags_timeout :
    ClosedFlags (runTrace (system 5) initial (traceTimeout 1)) :=
  closed_flags (ValidTrace.reaches (by decide +kernel) (.start rfl))

/-- A call whose send fails twice: the second time its socket is marked closed, and
descriptor 1 stays open. -/
def traceSendFails (c : ℕ) : List Event :=
  [.start c .doRequest, .tryLock c 0, .testClosed c 0, .connect c 0 .connected, .send c 0 false,
   .retry c 0, .tryLock c 0, .testClosed c 0, .connect c 0 .connected, .send c 0 false,
   .leave c 0 none]

theorem closed_flag_of_open_descriptor :
    ¬ ∀ mNumSockets s, Reachable (system mNumSockets) s → ClosedFlags s := by
  intro h
  have ht := h 5 _ (reachable_trace rfl (traceSendFails 1) (by decide +kernel))
  have hopen : Open (runTrace (system 5) initial (traceSendFails 1)) 1 :=
    ⟨by decide +kernel, by decide +kernel, by decide +kernel⟩
  have hclosed := (ht.truth 0 (by decide +kernel)).mpr hopen
  exact absurd hclosed (by decide +kernel)

end RestSocketPool
