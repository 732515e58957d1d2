import ADEiger.RestOwnership

/-! How often a call sends its request.
The counter of retries lies in the socket and the mutex is given back before a retry, so the
bound depends on what the other calls do meanwhile. -/
namespace RestSocketPool

open TransitionSystem

variable {s t : State} {e : Event} {c i mNumSockets : ℕ}

/-- How often each call has retried, and the socket that a call gave up for a retry for
which it has no socket yet. -/
structure Resends where
  count : ℕ → ℕ
  pending : List (ℕ × ℕ)

def noResends : Resends := ⟨fun _ => 0, []⟩

def record (s : State) (e : Event) (r : Resends) : Resends :=
  match e with
  | .tryLock c i =>
    if (s.sockets i).owner = none then { r with pending := r.pending.filter (·.1 ≠ c) } else r
  | .retry c i =>
    { count := Function.update r.count c (r.count c + 1), pending := r.pending ++ [(c, i)] }
  | _ => r

def countedSystem (mNumSockets : ℕ) : System (State × Resends) Event :=
  (system mNumSockets).withHistory noResends record

/-- The socket of a call whose next system call may make it retry. -/
def Pc.mayRetry : Pc → Option ℕ
  | .send i | .recv i | .recvBody i _ _ _ _ => some i
  | _ => none

/-- A call transmits its request at most once more than it may retry; it starts on a counter
of zero and each of its first `MAX_HTTP_RETRIES` failures passes the test of the counter. -/
structure BoundedResending (x : State × Resends) : Prop where
  bounded : ∀ c, x.1.transmitted.count c ≤ 1 + MAX_HTTP_RETRIES
  fresh : ∀ c i, x.1.pc c = .testClosed i → x.2.count c = 0 → (x.1.sockets i).retries = 0
  allowance : ∀ c i, (x.1.pc c).mayRetry = some i → x.2.count c < MAX_HTTP_RETRIES →
    (x.1.sockets i).retries < MAX_HTTP_RETRIES

/-- A call that retries gets the socket it gave up, no other call gets that socket before,
and a call that found no socket resets no counter. -/
def RetriesUndisturbed (x : State × Resends) : Event → Prop
  | .tryLock c i => (x.1.sockets i).owner = none → ∀ p ∈ x.2.pending, p.1 = c ↔ p.2 = i
  | .leaveUnlocked _ i => (x.1.sockets i).retries = 0
  | _ => True

instance (x : State × Resends) : (e : Event) → Decidable (RetriesUndisturbed x e) := by
  rintro ⟨⟩ <;> simp only [RetriesUndisturbed] <;> infer_instance

/-- The counter of a call's socket and the number of its transmissions, at each point. -/
def ResendRelies (x : State × Resends) (c : ℕ) : Pc → Prop
  | .idle => x.2.count c = 0 ∧ x.1.transmitted.count c ≤ x.2.count c
  | .tryLock _ => ((∀ p ∈ x.2.pending, p.1 ≠ c) → x.2.count c = 0) ∧
      x.1.transmitted.count c ≤ x.2.count c
  | .testClosed i | .connect i | .send i => (x.1.sockets i).retries = x.2.count c ∧
      x.1.transmitted.count c ≤ x.2.count c
  | .select i | .recv i | .parseHeader i _ | .malloc i _ _ | .recvBody i _ _ _ _
  | .reconnect i _ => (x.1.sockets i).retries = x.2.count c ∧
      x.1.transmitted.count c ≤ x.2.count c + 1
  | .retry i => (x.1.sockets i).retries = x.2.count c + 1 ∧ x.2.count c < MAX_HTTP_RETRIES ∧
      x.1.transmitted.count c ≤ x.2.count c + 1
  | .leave _ _ | .leaveUnlocked _ | .returned => x.1.transmitted.count c ≤ x.2.count c + 1

structure Resending (x : State × Resends) : Prop where
  relies : ∀ c, ResendRelies x c (x.1.pc c)
  count : ∀ c, x.2.count c ≤ MAX_HTTP_RETRIES
  free : ∀ i, (x.1.sockets i).owner = none → (∀ p ∈ x.2.pending, p.2 ≠ i) →
    (x.1.sockets i).retries = 0
  pending : ∀ p ∈ x.2.pending, (x.1.sockets p.2).owner = none ∧
    (x.1.sockets p.2).retries = x.2.count p.1 ∧ (x.1.pc p.1).holds = none

theorem resending_initial : Resending (initial, noResends) where
  relies c := ⟨rfl, Nat.le_refl _⟩
  count c := Nat.zero_le _
  free i _ _ := rfl
  pending := by simp [noResends]

theorem ne_of_holds_none {d : ℕ} (hd : (s.pc d).holds = none) (hc : (s.pc c).holds = some i) :
    d ≠ c := by
  rintro rfl
  exact nomatch hd.symm.trans hc

theorem ResendRelies.frame {r : Resends} {pc : Pc} (h : ResendRelies (s, r) c pc)
    (hi : ∀ i, pc.holds = some i → (t.sockets i).retries = (s.sockets i).retries)
    (ht : t.transmitted.count c = s.transmitted.count c) : ResendRelies (t, r) c pc := by
  cases pc <;> simp only [ResendRelies, ht] at h ⊢ <;>
    first | exact h | exact ⟨(hi _ rfl).trans h.1, h.2⟩

theorem Resending.onSocket {r : Resends} (h : Resending (s, r)) (howned : Owned s)
    (hc : (s.pc c).holds = some i) (hpc : ∀ d, d ≠ c → t.pc d = s.pc d)
    (howner : ∀ j, (t.sockets j).owner = (s.sockets j).owner)
    (hretries : ∀ j, j ≠ i → (t.sockets j).retries = (s.sockets j).retries)
    (ht : ∀ d, d ≠ c → t.transmitted.count d = s.transmitted.count d)
    (hrel : ResendRelies (t, r) c (t.pc c)) : Resending (t, r) where
  relies d := by
    by_cases hd : d = c
    · rwa [hd]
    · change ResendRelies (t, r) d (t.pc d)
      rw [hpc d hd]
      exact (h.relies d).frame (fun j hj => hretries j (howned.ne_of_holds hc hd hj)) (ht d hd)
  count := h.count
  free j hj hp := by
    have hown : (s.sockets j).owner = none := (howner j).symm.trans hj
    exact (hretries j (howned.ne_of_free hc hown)).trans (h.free j hown hp)
  pending p hp := by
    obtain ⟨hown, hr, hn⟩ := h.pending p hp
    have hpi : p.2 ≠ i := howned.ne_of_free hc hown
    have hpc' : p.1 ≠ c := ne_of_holds_none hn hc
    exact ⟨(howner _).trans hown, (hretries _ hpi).trans hr, (hpc _ hpc').symm ▸ hn⟩

theorem Resending.search {r : Resends} (h : Resending (s, r))
    (hc : (t.pc c).holds = none) (hpc : ∀ d, d ≠ c → t.pc d = s.pc d)
    (howner : ∀ j, (t.sockets j).owner = (s.sockets j).owner)
    (hretries : ∀ j, (t.sockets j).retries = (s.sockets j).retries)
    (ht : t.transmitted = s.transmitted)
    (hrel : ResendRelies (s, r) c (t.pc c)) : Resending (t, r) where
  relies d := by
    by_cases hd : d = c
    · rw [hd]
      exact hrel.frame (fun j _ => hretries j) (by rw [ht])
    · change ResendRelies (t, r) d (t.pc d)
      rw [hpc d hd]
      exact (h.relies d).frame (fun j _ => hretries j) (by rw [ht])
  count := h.count
  free j hj hp := (hretries j).trans (h.free j ((howner j).symm.trans hj) hp)
  pending p hp := by
    obtain ⟨hown, hr, hn⟩ := h.pending p hp
    refine ⟨(howner _).trans hown, (hretries _).trans hr, ?_⟩
    by_cases hpc' : p.1 = c
    · rwa [hpc']
    · rwa [hpc _ hpc']

theorem Resending.relies_of {r : Resends} (h : Resending (s, r)) {p : Pc} (hp : s.pc c = p) :
    ResendRelies (s, r) c p := hp ▸ h.relies c

theorem Resending.goto {r : Resends} (h : Resending (s, r)) (howned : Owned s)
    (hc : (s.pc c).holds = some i) {p : Pc} (hrel : ResendRelies (s, r) c p) :
    Resending (s.goto c p, r) := by
  refine h.onSocket howned hc (fun d hd => Function.update_of_ne hd _ _) (fun _ => rfl)
    (fun _ _ => rfl) (fun _ _ => rfl) ?_
  have hp : (s.goto c p).pc c = p := Function.update_self ..
  rw [hp]
  exact hrel.frame (fun _ _ => rfl) rfl

/-- The invariant is about the pool, the calls and what they transmitted. -/
theorem Resending.histories {r : Resends} (h : Resending (s, r)) (hs : t.sockets = s.sockets)
    (hp : t.pc = s.pc) (ht : t.transmitted = s.transmitted) : Resending (t, r) where
  relies d := by
    change ResendRelies (t, r) d (t.pc d)
    rw [hp]
    exact (h.relies d).frame (fun _ _ => by rw [hs]) (by rw [ht])
  count := h.count
  free := by
    change ∀ i, (t.sockets i).owner = none → (∀ p ∈ r.pending, p.2 ≠ i) → (t.sockets i).retries = 0
    rw [hs]
    exact h.free
  pending := by
    change ∀ p ∈ r.pending, (t.sockets p.2).owner = none ∧
      (t.sockets p.2).retries = r.count p.1 ∧ (t.pc p.1).holds = none
    rw [hs, hp]
    exact h.pending

theorem Resending.failed {r : Resends} (h : Resending (s, r)) (howned : Owned s)
    (hc : (s.pc c).holds = some i) (hr : (s.sockets i).retries = r.count c)
    (ht : s.transmitted.count c ≤ r.count c + 1) (markClosed : Bool) :
    Resending (s.failed c i markClosed, r) := by
  refine h.onSocket howned hc (fun d hd => failed_pc_of_ne _ hd) (failed_owner _)
    (fun j hj => by rw [failed_sockets_of_ne _ hj]) ?_ ?_
  · intro d _
    simp only [State.failed]
    split_ifs <;> rfl
  · simp only [State.failed]
    split_ifs with hlt
    · simpa [State.goto, State.setSocket, ResendRelies, hr, ht] using hr ▸ hlt
    · simpa [State.goto, State.setSocket, ResendRelies] using ht

/-- The search of call `c` ends on the socket that its pending retry gave up, or on one that
no pending retry gave up. -/
theorem Resending.acquire {r : Resends} (h : Resending (s, r)) (hp : s.pc c = .tryLock i)
    (hown : (s.sockets i).owner = none) (hu : ∀ p ∈ r.pending, p.1 = c ↔ p.2 = i) :
    Resending ((s.setSocket i { s.sockets i with owner := some c }).goto c (.testClosed i),
      { r with pending := r.pending.filter (·.1 ≠ c) }) := by
  have hret : ∀ j, (((s.setSocket i { s.sockets i with owner := some c }).goto c
      (.testClosed i)).sockets j).retries = (s.sockets j).retries :=
    (setSocket_keeps Socket.retries · rfl)
  have hrc := h.relies_of hp
  obtain ⟨hzero, ht⟩ := hrc
  have hcount : (s.sockets i).retries = r.count c := by
    by_cases hex : ∃ p ∈ r.pending, p.1 = c
    · obtain ⟨p, hm, hpc⟩ := hex
      rw [← (hu p hm).mp hpc, ← hpc]
      exact (h.pending p hm).2.1
    · have hnone : ∀ p ∈ r.pending, p.1 ≠ c := fun p hm hpc => hex ⟨p, hm, hpc⟩
      have hr : r.count c = 0 := hzero hnone
      rw [hr]
      exact h.free i hown fun p hm hpi => hnone p hm ((hu p hm).mpr hpi)
  exact {
    relies := by
      intro d
      by_cases hd : d = c
      · subst hd
        simpa [ResendRelies, State.goto, State.setSocket] using ⟨hcount, ht⟩
      · have hpd : ((s.setSocket i { s.sockets i with owner := some c }).goto c
            (.testClosed i)).pc d = s.pc d := Function.update_of_ne hd _ _
        change ResendRelies _ d (((s.setSocket i { s.sockets i with owner := some c }).goto c
            (.testClosed i)).pc d)
        rw [hpd]
        have hrd := (h.relies d).frame (t := (s.setSocket i
          { s.sockets i with owner := some c }).goto c (.testClosed i)) (fun j _ => hret j) rfl
        generalize s.pc d = pc at hrd ⊢
        cases pc with
        | tryLock j =>
          refine ⟨fun hn => hrd.1 fun p hm hpd => ?_, hrd.2⟩
          refine hn p (List.mem_filter.mpr ⟨hm, ?_⟩) hpd
          simpa [hpd] using hd
        | _ => exact hrd
    count := h.count
    free := by
      intro j hj hn
      have hji : j ≠ i := by
        rintro rfl
        simp [State.goto, State.setSocket] at hj
      refine (hret j).trans (h.free j ?_ fun p hm hpj => ?_)
      · simpa [State.goto, State.setSocket, hji] using hj
      · refine hn p (List.mem_filter.mpr ⟨hm, ?_⟩) hpj
        have hpc : p.1 ≠ c := fun hpc => hji (hpj.symm.trans ((hu p hm).mp hpc))
        simpa using hpc
    pending := by
      intro p hm
      obtain ⟨hm, hpc⟩ := List.mem_filter.mp hm
      have hpc : p.1 ≠ c := by simpa using hpc
      have hpi : p.2 ≠ i := fun hpi => hpc ((hu p hm).mpr hpi)
      obtain ⟨ho, hr, hn⟩ := h.pending p hm
      refine ⟨?_, (hret _).trans hr, ?_⟩
      · simpa [State.goto, State.setSocket, hpi] using ho
      · simpa [State.goto, State.setSocket, hpc] using hn }

theorem Resending.leave {r : Resends} (h : Resending (s, r)) (howned : Owned s)
    {response : Option Response} (hp : s.pc c = .leave i response) :
    Resending (next s (.leave c i response), r) := by
  have hc : (s.pc c).holds = some i := by simp [hp]
  have hrel := h.relies_of hp
  have hother : ∀ j, j ≠ i → (next s (.leave c i response)).sockets j = s.sockets j :=
    fun j hj => Function.update_of_ne hj _ _
  have hpc : ∀ d, d ≠ c → (next s (.leave c i response)).pc d = s.pc d :=
    fun d hd => Function.update_of_ne hd _ _
  exact {
    relies := by
      intro d
      by_cases hd : d = c
      · subst hd
        simpa [next, State.goto, State.setSocket, ResendRelies] using hrel
      · change ResendRelies _ d ((next s (.leave c i response)).pc d)
        rw [hpc d hd]
        refine (h.relies d).frame (fun j hj => ?_) rfl
        rw [hother j (howned.ne_of_holds hc hd hj)]
    count := h.count
    free := by
      intro j hj hn
      by_cases hji : j = i
      · subst hji
        simp [next, State.goto, State.setSocket]
      · change ((next s (.leave c i response)).sockets j).owner = none at hj
        change ((next s (.leave c i response)).sockets j).retries = 0
        rw [hother j hji] at hj ⊢
        exact h.free j hj hn
    pending := by
      intro p hm
      obtain ⟨ho, hr, hn⟩ := h.pending p hm
      have hpi : p.2 ≠ i := howned.ne_of_free hc ho
      have hne : p.1 ≠ c := ne_of_holds_none hn hc
      change ((next s (.leave c i response)).sockets p.2).owner = none ∧
        ((next s (.leave c i response)).sockets p.2).retries = r.count p.1 ∧
        ((next s (.leave c i response)).pc p.1).holds = none
      rw [hother _ hpi, hpc _ hne]
      exact ⟨ho, hr, hn⟩ }

theorem Resending.retry {r : Resends} (h : Resending (s, r)) (howned : Owned s)
    (hp : s.pc c = .retry i) :
    Resending (next s (.retry c i), record s (.retry c i) r) := by
  have hc : (s.pc c).holds = some i := by simp [hp]
  have hrel := h.relies_of hp
  obtain ⟨hret, hlt, ht⟩ := hrel
  have hother : ∀ j, j ≠ i → (next s (.retry c i)).sockets j = s.sockets j :=
    fun j hj => Function.update_of_ne hj _ _
  have hpc : ∀ d, d ≠ c → (next s (.retry c i)).pc d = s.pc d :=
    fun d hd => Function.update_of_ne hd _ _
  have hcount : ∀ d, d ≠ c → (record s (.retry c i) r).count d = r.count d :=
    fun d hd => Function.update_of_ne hd _ _
  have hself : (record s (.retry c i) r).count c = r.count c + 1 := Function.update_self ..
  exact {
    relies := by
      intro d
      by_cases hd : d = c
      · subst hd
        have hpd : (next s (.retry d i)).pc d = .tryLock 0 := Function.update_self ..
        change ResendRelies _ d ((next s (.retry d i)).pc d)
        rw [hpd]
        refine ⟨fun hn => absurd rfl (hn (d, i) (List.mem_append_right _ (by simp))), ?_⟩
        change s.transmitted.count d ≤ (record s (.retry d i) r).count d
        rw [hself]
        exact ht
      · change ResendRelies _ d ((next s (.retry c i)).pc d)
        rw [hpc d hd]
        have hrd : ResendRelies (next s (.retry c i), r) d (s.pc d) := by
          refine (h.relies d).frame (fun j hj => ?_) rfl
          rw [hother j (howned.ne_of_holds hc hd hj)]
        generalize s.pc d = pc at hrd ⊢
        cases pc with
        | tryLock j =>
          refine ⟨fun hn => ?_, ?_⟩
          · change (record s (.retry c i) r).count d = 0
            rw [hcount d hd]
            exact hrd.1 fun p hm => hn p (List.mem_append_left _ hm)
          · change _ ≤ (record s (.retry c i) r).count d
            rw [hcount d hd]
            exact hrd.2
        | _ => simpa only [ResendRelies, hcount d hd] using hrd
    count := by
      intro d
      by_cases hd : d = c
      · subst hd
        change (record s (.retry d i) r).count d ≤ _
        rw [hself]
        exact hlt
      · change (record s (.retry c i) r).count d ≤ _
        rw [hcount d hd]
        exact h.count d
    free := by
      intro j hj hn
      have hji : j ≠ i := fun hji =>
        hn (c, i) (List.mem_append_right _ (by simp)) hji.symm
      change ((next s (.retry c i)).sockets j).owner = none at hj
      change ((next s (.retry c i)).sockets j).retries = 0
      rw [hother j hji] at hj ⊢
      exact h.free j hj fun p hm => hn p (List.mem_append_left _ hm)
    pending := by
      intro p hm
      rcases List.mem_append.mp hm with hm | hm
      · obtain ⟨ho, hr, hn⟩ := h.pending p hm
        have hpi : p.2 ≠ i := howned.ne_of_free hc ho
        have hne : p.1 ≠ c := ne_of_holds_none hn hc
        change ((next s (.retry c i)).sockets p.2).owner = none ∧
          ((next s (.retry c i)).sockets p.2).retries = (record s (.retry c i) r).count p.1 ∧
          ((next s (.retry c i)).pc p.1).holds = none
        rw [hother _ hpi, hpc _ hne, hcount _ hne]
        exact ⟨ho, hr, hn⟩
      · rw [List.mem_singleton.mp hm]
        refine ⟨?_, ?_, ?_⟩
        · simp [next, State.goto, State.setSocket]
        · change ((next s (.retry c i)).sockets i).retries = (record s (.retry c i) r).count c
          rw [hself]
          simpa [next, State.goto, State.setSocket] using hret
        · simp [next, State.goto] }

theorem resending_step {r : Resends} (h : Resending (s, r)) (howned : Owned s)
    (he : Enabled mNumSockets s e) (hu : RetriesUndisturbed (s, r) e) :
    Resending (next s e, record s e r) := by
  cases e with
  | start c k =>
    have hrel := h.relies_of he
    refine h.search (c := c) (by simp [next, State.goto])
      (fun d hd => Function.update_of_ne hd _ _) (fun _ => rfl) (fun _ => rfl) rfl ?_
    simpa [next, State.goto, ResendRelies] using ⟨fun _ => hrel.1, hrel.2⟩
  | tryLock c i =>
    have hp : s.pc c = .tryLock i := he.1
    by_cases hown : (s.sockets i).owner = none
    · simpa [next, record, hown] using h.acquire hp hown (hu hown)
    · have hrel := h.relies_of hp
      simp only [next, record, hown, if_false]
      refine h.search (c := c) (by simp [State.goto])
        (fun d hd => Function.update_of_ne hd _ _) (fun _ => rfl) (fun _ => rfl) rfl ?_
      simpa [State.goto, ResendRelies] using hrel
  | noSocket c i =>
    have hrel := h.relies_of he.1
    refine h.search (c := c) (by simp [next, State.goto])
      (fun d hd => Function.update_of_ne hd _ _) (fun _ => rfl) (fun _ => rfl) rfl ?_
    simpa [next, State.goto, ResendRelies] using Nat.le_succ_of_le hrel.2
  | testClosed c i =>
    have hp : s.pc c = .testClosed i := he
    have hrel := h.relies_of hp
    simp only [next]
    split_ifs
    · exact h.goto howned (i := i) (by simp [hp]) hrel
    · exact h.goto howned (i := i) (by simp [hp]) hrel
  | connect c i result =>
    have hp : s.pc c = .connect i := he
    have hrel := h.relies_of hp
    apply h.onSocket howned (c := c) (i := i) (by simp [hp])
    · intro d hd
      cases result <;> exact Function.update_of_ne hd _ _
    · intro j
      cases result <;> exact setSocket_keeps Socket.owner j rfl
    · intro j _
      cases result <;> exact setSocket_keeps Socket.retries j rfl
    · intro d _
      cases result <;> rfl
    · cases result with
      | noSocket =>
        simpa [next, State.goto, State.setSocket, ResendRelies] using Nat.le_succ_of_le hrel.2
      | failed =>
        simpa [next, State.goto, State.setSocket, ResendRelies] using Nat.le_succ_of_le hrel.2
      | connected =>
        simpa [next, State.goto, State.setSocket, State.setConnection, ResendRelies] using hrel
  | send c i ok =>
    have hp : s.pc c = .send i := he
    have hc : (s.pc c).holds = some i := by simp [hp]
    have hrel := h.relies_of hp
    cases ok with
    | false => exact h.failed howned hc hrel.1 (Nat.le_succ_of_le hrel.2) _
    | true =>
      refine h.onSocket howned hc (fun d hd => Function.update_of_ne hd _ _) (fun _ => rfl)
        (fun _ _ => rfl) ?_ ?_
      · intro d hd
        change (s.transmitted ++ [c]).count d = _
        rw [List.count_append]
        simp [Ne.symm hd]
      · simp only [next]
        split_ifs
        · simpa [State.goto, State.setConnection, ResendRelies] using hrel
        · simpa [State.goto, State.setConnection, ResendRelies] using hrel
  | select c i ready =>
    have hp : s.pc c = .select i := he
    have hc : (s.pc c).holds = some i := by simp [hp]
    have hrel := h.relies_of hp
    cases ready with
    | false => exact h.goto howned hc hrel.2
    | true => exact h.goto howned hc hrel
  | recv c i result =>
    have hp : s.pc c = .recv i := he.1
    have hc : (s.pc c).holds = some i := by simp [hp]
    have hrel := h.relies_of hp
    cases result with
    | none => exact h.failed howned hc hrel.1 hrel.2 _
    | some n =>
      exact (h.goto howned hc (p := .parseHeader i _) hrel).histories rfl rfl rfl
  | parseHeader c i data result =>
    have hp : s.pc c = .parseHeader i data := he
    have hc : (s.pc c).holds = some i := by simp [hp]
    have hrel := h.relies_of hp
    cases result with
    | none => exact h.goto howned hc hrel.2
    | some header =>
      simp only [next]
      split_ifs
      · exact h.goto howned hc hrel
      · exact h.goto howned hc hrel.2
      · exact h.goto howned hc hrel
  | malloc c i data header ok =>
    have hp : s.pc c = .malloc i data header := he
    have hc : (s.pc c).holds = some i := by simp [hp]
    have hrel := h.relies_of hp
    cases ok with
    | false => exact h.goto howned hc hrel.2
    | true =>
      simp only [next, receiveRest]
      split_ifs
      · exact h.goto howned hc hrel
      · exact h.goto howned hc hrel
  | recvBody c i data header body remaining result =>
    have hp : s.pc c = .recvBody i data header body remaining := he.1
    have hc : (s.pc c).holds = some i := by simp [hp]
    have hrel := h.relies_of hp
    cases result with
    | none => exact h.failed howned hc hrel.1 hrel.2 _
    | some n =>
      have hrel' : (s.sockets i).retries = r.count c ∧
          s.transmitted.count c ≤ r.count c + 1 := hrel
      simp only [next, receiveRest]
      split_ifs
      · exact (h.goto howned hc (p := .reconnect i _) hrel').histories rfl rfl rfl
      · exact (h.goto howned hc (p := .recvBody i data header _ _) hrel').histories rfl rfl rfl
  | reconnect c i response =>
    have hp : s.pc c = .reconnect i response := he
    have hc : (s.pc c).holds = some i := by simp [hp]
    have hrel := h.relies_of hp
    have hleave : s.transmitted.count c ≤ r.count c + 1 := hrel.2
    simp only [next]
    split_ifs
    · refine h.onSocket howned hc (fun d hd => Function.update_of_ne hd _ _)
        (setSocket_keeps Socket.owner · rfl) (fun j _ => setSocket_keeps Socket.retries j rfl)
        (fun _ _ => rfl) ?_
      simpa [State.goto, State.setSocket, ResendRelies] using hleave
    · exact h.goto howned hc hleave
  | leave c i response => exact h.leave howned he
  | leaveUnlocked c i =>
    have hrel := h.relies_of he
    have hzero : (s.sockets i).retries = 0 := hu
    refine h.search (c := c) (by simp [next, State.goto])
      (fun d hd => Function.update_of_ne hd _ _) (setSocket_keeps Socket.owner · rfl)
      (setSocket_keeps Socket.retries · hzero.symm) rfl ?_
    simpa [next, State.goto, ResendRelies] using hrel
  | retry c i => exact h.retry howned he
  | answer fd byte last => exact h.histories rfl rfl rfl
  | shut fd => exact h.histories rfl rfl rfl

theorem reaches_resending {x : State × Resends}
    (h : Reaches (countedSystem mNumSockets) RetriesUndisturbed x) : Resending x := by
  refine h.invariant_of (J := fun x => Owned x.1) (I := Resending)
    (fun _ hr => reaches_owned hr.forget) ?_
    fun _ _ howned hr he hu => resending_step hr howned he hu
  rintro ⟨s, r⟩ ⟨hs, hr⟩
  obtain rfl : s = initial := hs
  obtain rfl : r = noResends := hr
  exact resending_initial

theorem ResendRelies.transmitted {x : State × Resends} {pc : Pc} (h : ResendRelies x c pc) :
    x.1.transmitted.count c ≤ x.2.count c + 1 := by
  cases pc with
  | idle => exact Nat.le_succ_of_le h.2
  | tryLock j => exact Nat.le_succ_of_le h.2
  | testClosed j => exact Nat.le_succ_of_le h.2
  | connect j => exact Nat.le_succ_of_le h.2
  | send j => exact Nat.le_succ_of_le h.2
  | retry j => exact h.2.2
  | leave j response => exact h
  | leaveUnlocked j => exact h
  | returned => exact h
  | _ => exact h.2

/-- While every retry gets its socket back undisturbed, no request is sent too often and no
call is short of retries. -/
theorem bounded_resending {x : State × Resends}
    (h : Reaches (countedSystem mNumSockets) RetriesUndisturbed x) : BoundedResending x := by
  have hr := reaches_resending h
  constructor
  · intro c
    calc x.1.transmitted.count c ≤ x.2.count c + 1 := (hr.relies c).transmitted
      _ ≤ MAX_HTTP_RETRIES + 1 := Nat.succ_le_succ (hr.count c)
      _ = 1 + MAX_HTTP_RETRIES := Nat.add_comm ..
  · intro c i hp hz
    have hrel := hr.relies c
    rw [hp] at hrel
    exact hrel.1.trans hz
  · intro c i hp hlt
    have hrel := hr.relies c
    have heq : (x.1.sockets i).retries = x.2.count c := by
      generalize x.1.pc c = pc at hp hrel
      cases pc with
      | send j => exact Option.some.inj hp ▸ hrel.1
      | recv j => exact Option.some.inj hp ▸ hrel.1
      | recvBody j data header body remaining => exact Option.some.inj hp ▸ hrel.1
      | _ => cases hp
    rwa [heq]

/-- Call `c` has socket 0, connects it and transmits, and its recv fails. -/
def traceAttempt (c : ℕ) : List Event :=
  [.tryLock c 0, .testClosed c 0, .connect c 0 .connected, .send c 0 true, .select c 0 true,
   .recv c 0 none]

instance (x : State × Resends) (e : Event) : Decidable ((countedSystem mNumSockets).Enabled x e) :=
  inferInstanceAs (Decidable (Enabled mNumSockets x.1 e))

/-- Both attempts of a call fail. -/
def traceTwoAttempts : List Event :=
  .start 1 .doRequest :: traceAttempt 1 ++ .retry 1 0 :: traceAttempt 1 ++ [.leave 1 0 none]

theorem bounded_resending_two_attempts :
    BoundedResending (runTrace (countedSystem 5) (initial, noResends) traceTwoAttempts) :=
  bounded_resending (ValidTrace.reaches (by decide +kernel) (.start ⟨rfl, rfl⟩))

/-- Call 2 uses socket 0 between an attempt of call 1 and its retry. -/
def traceIntruder : List Event :=
  [.start 2 .doRequest, .tryLock 2 0, .testClosed 2 0, .connect 2 0 .noSocket, .leave 2 0 none]

/-- The request of call 1 is transmitted three times, and it may go on so. -/
theorem request_sent_three_times :
    ¬ ∀ mNumSockets x, Reachable (countedSystem mNumSockets) x → BoundedResending x := by
  intro h
  have hs : (countedSystem 5).Start (initial, noResends) := ⟨rfl, rfl⟩
  have ht := h 5 _ (reachable_trace hs
    (.start 1 .doRequest :: traceAttempt 1 ++ .retry 1 0 :: traceIntruder ++ traceAttempt 1 ++
      .retry 1 0 :: traceAttempt 1) (by decide +kernel))
  exact absurd (ht.bounded 1) (by decide +kernel)

end RestSocketPool
