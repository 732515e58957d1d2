import ADEiger.RestOwnResponse

/-! Which sockets a call touches.
The search of the pool only tries mutexes; every later step of the call uses the socket that
the search ended on, whether or not the call got its mutex. -/
namespace RestSocketPool

open TransitionSystem

variable {s : State} {e : Event} {c d i mNumSockets : ℕ}

/-- The call that takes the step. -/
def Event.caller : Event → Option ℕ
  | .start c _ | .tryLock c _ | .noSocket c _ | .testClosed c _ | .connect c _ _ | .send c _ _
  | .select c _ _ | .recv c _ _ | .parseHeader c _ _ _ | .malloc c _ _ _ _
  | .recvBody c _ _ _ _ _ _ | .reconnect c _ _ | .leave c _ _ | .leaveUnlocked c _
  | .retry c _ => some c
  | .answer _ _ _ | .shut _ => none

/-- The socket whose descriptor, fields or mutex the step uses as that of the call. -/
def Event.touches : Event → Option ℕ
  | .testClosed _ i | .connect _ i _ | .send _ i _ | .select _ i _ | .recv _ i _
  | .parseHeader _ i _ _ | .malloc _ i _ _ _ | .recvBody _ i _ _ _ _ _ | .reconnect _ i _
  | .leave _ i _ | .leaveUnlocked _ i | .retry _ i => some i
  | _ => none

/-- The socket that `s` points to once the search is over. -/
def Pc.uses : Pc → Option ℕ
  | .leaveUnlocked i => some i
  | pc => pc.holds

/-- A socket has one user, a call uses and releases only a socket whose mutex it has, and
the record of a socket changes only by its user or when the search takes its free mutex. -/
structure OnlyOwnSockets (mNumSockets : ℕ) (s : State) : Prop where
  exclusive : ∀ c d i, (s.pc c).uses = some i → (s.pc d).uses = some i → c = d
  owned : ∀ e c i, Enabled mNumSockets s e → e.caller = some c → e.touches = some i →
    (s.sockets i).owner = some c
  untouched : ∀ e i, e.touches ≠ some i → (next s e).sockets i = s.sockets i ∨
    ∃ c, e = .tryLock c i ∧ (s.sockets i).owner = none ∧
      (next s e).sockets i = { s.sockets i with owner := some c }

/-- A call starts only when there is a pool, and the last socket it tries is free. -/
def SearchSucceeds (mNumSockets : ℕ) (s : State) : Event → Prop
  | .start _ _ => 0 < mNumSockets
  | .tryLock _ i => i + 1 < mNumSockets ∨ (s.sockets i).owner = none
  | _ => True

instance (s : State) : (e : Event) → Decidable (SearchSucceeds mNumSockets s e) := by
  rintro ⟨⟩ <;> simp only [SearchSucceeds] <;> infer_instance

theorem failed_pc_holds (markClosed : Bool) :
    ((s.failed c i markClosed).pc c).holds = some i := by
  simp only [State.failed]
  split_ifs <;> simp [State.goto]

theorem failed_sockets_of_ne (markClosed : Bool) {j : ℕ} (hj : j ≠ i) :
    (s.failed c i markClosed).sockets j = s.sockets j := by
  simp only [State.failed]
  split_ifs <;> exact Function.update_of_ne hj _ _

theorem failed_owner (markClosed : Bool) (j : ℕ) :
    ((s.failed c i markClosed).sockets j).owner = (s.sockets j).owner := by
  simp only [State.failed]
  split_ifs <;> exact setSocket_keeps Socket.owner j rfl

theorem failed_pc_of_ne (markClosed : Bool) (hd : d ≠ c) :
    (s.failed c i markClosed).pc d = s.pc d := by
  simp only [State.failed]
  split_ifs <;> exact Function.update_of_ne hd _ _

theorem next_pc_of_ne (hd : ∀ c, e.caller = some c → d ≠ c) : (next s e).pc d = s.pc d := by
  cases e with
  | tryLock c i =>
    have hc := hd c rfl
    simp only [next]
    split_ifs <;> exact Function.update_of_ne hc _ _
  | connect c i result =>
    have hc := hd c rfl
    cases result <;> exact Function.update_of_ne hc _ _
  | send c i ok =>
    have hc := hd c rfl
    cases ok with
    | false => exact failed_pc_of_ne _ hc
    | true => exact Function.update_of_ne hc _ _
  | recv c i result =>
    have hc := hd c rfl
    cases result with
    | none => exact failed_pc_of_ne _ hc
    | some n => exact Function.update_of_ne hc _ _
  | parseHeader c i data result =>
    have hc := hd c rfl
    cases result <;> exact Function.update_of_ne hc _ _
  | malloc c i data header ok =>
    have hc := hd c rfl
    cases ok <;> exact Function.update_of_ne hc _ _
  | recvBody c i data header body remaining result =>
    have hc := hd c rfl
    cases result with
    | none => exact failed_pc_of_ne _ hc
    | some n => exact Function.update_of_ne hc _ _
  | reconnect c i response =>
    have hc := hd c rfl
    simp only [next]
    split_ifs <;> exact Function.update_of_ne hc _ _
  | answer fd byte last => rfl
  | shut fd => rfl
  | _ => exact Function.update_of_ne (hd _ rfl) _ _

/-- Outside the socket it touches, a step changes no record but that of a mutex it takes. -/
theorem next_sockets_of_ne (hi : ∀ j, e.touches = some j → i ≠ j) :
    (next s e).sockets i = s.sockets i ∨
      ∃ c, e = .tryLock c i ∧ (s.sockets i).owner = none ∧
        (next s e).sockets i = { s.sockets i with owner := some c } := by
  cases e with
  | tryLock c j =>
    simp only [next]
    split_ifs with ho
    · by_cases hj : i = j
      · subst hj
        exact .inr ⟨c, rfl, ho, Function.update_self ..⟩
      · exact .inl (Function.update_of_ne hj _ _)
    · exact .inl rfl
  | connect c j result =>
    have hj := hi j rfl
    cases result <;> exact .inl (Function.update_of_ne hj _ _)
  | send c j ok =>
    have hj := hi j rfl
    cases ok with
    | false => exact .inl (failed_sockets_of_ne _ hj)
    | true => exact .inl rfl
  | recv c j result =>
    have hj := hi j rfl
    cases result with
    | none => exact .inl (failed_sockets_of_ne _ hj)
    | some n => exact .inl rfl
  | parseHeader c j data result => cases result <;> exact .inl rfl
  | malloc c j data header ok => cases ok <;> exact .inl rfl
  | recvBody c j data header body remaining result =>
    have hj := hi j rfl
    cases result with
    | none => exact .inl (failed_sockets_of_ne _ hj)
    | some n => exact .inl rfl
  | reconnect c j response =>
    have hj := hi j rfl
    simp only [next]
    split_ifs
    · exact .inl (Function.update_of_ne hj _ _)
    · exact .inl rfl
  | leave c j response => exact .inl (Function.update_of_ne (hi j rfl) _ _)
  | leaveUnlocked c j => exact .inl (Function.update_of_ne (hi j rfl) _ _)
  | retry c j => exact .inl (Function.update_of_ne (hi j rfl) _ _)
  | _ => exact .inl rfl

/-- What a step of call `c` does to the mutexes: it leaves them as they are, or takes a free
one, or gives its own back. -/
theorem step_owner (he : Enabled mNumSockets s e) (hc : e.caller = some c) :
    (((next s e).pc c).holds = (s.pc c).holds ∧
        ∀ j, ((next s e).sockets j).owner = (s.sockets j).owner) ∨
      (∃ i, e = .tryLock c i ∧ (s.sockets i).owner = none ∧
        next s e = (s.setSocket i { s.sockets i with owner := some c }).goto c (.testClosed i)) ∨
      ∃ i, (s.pc c).holds = some i ∧
        ((next s e).pc c = .returned ∨ (next s e).pc c = .tryLock 0) ∧
        ∀ j, ((next s e).sockets j).owner = if j = i then none else (s.sockets j).owner := by
  cases e with
  | start c' k =>
    obtain rfl := Option.some.inj hc
    have hp : s.pc c' = .idle := he
    exact .inl ⟨by simp [next, State.goto, hp], fun _ => rfl⟩
  | tryLock c' i =>
    obtain rfl := Option.some.inj hc
    have hp : s.pc c' = .tryLock i := he.1
    by_cases ho : (s.sockets i).owner = none
    · exact .inr (.inl ⟨i, rfl, ho, by simp [next, ho]⟩)
    · exact .inl ⟨by simp [next, State.goto, ho, hp], fun _ => by simp [next, State.goto, ho]⟩
  | noSocket c' i =>
    obtain rfl := Option.some.inj hc
    have hp : s.pc c' = .tryLock (i + 1) := he.1
    exact .inl ⟨by simp [next, State.goto, hp], fun _ => rfl⟩
  | testClosed c' i =>
    obtain rfl := Option.some.inj hc
    have hp : s.pc c' = .testClosed i := he
    refine .inl ⟨?_, fun _ => rfl⟩
    simp only [next, State.goto, Function.update_self, hp]
    split_ifs <;> rfl
  | connect c' i result =>
    obtain rfl := Option.some.inj hc
    have hp : s.pc c' = .connect i := he
    refine .inl ⟨by cases result <;> simp [next, State.goto, hp], fun j => ?_⟩
    cases result <;> exact setSocket_keeps Socket.owner j rfl
  | send c' i ok =>
    obtain rfl := Option.some.inj hc
    have hp : s.pc c' = .send i := he
    cases ok with
    | false => exact .inl ⟨(failed_pc_holds _).trans (by simp [hp]), failed_owner _⟩
    | true =>
      refine .inl ⟨?_, fun _ => rfl⟩
      simp only [next, State.goto, State.setConnection, Function.update_self, hp]
      split_ifs <;> rfl
  | select c' i ready =>
    obtain rfl := Option.some.inj hc
    have hp : s.pc c' = .select i := he
    exact .inl ⟨by cases ready <;> simp [next, State.goto, hp], fun _ => rfl⟩
  | recv c' i result =>
    obtain rfl := Option.some.inj hc
    have hp : s.pc c' = .recv i := he.1
    cases result with
    | none => exact .inl ⟨(failed_pc_holds _).trans (by simp [hp]), failed_owner _⟩
    | some n => exact .inl ⟨by simp [next, State.goto, State.setConnection, hp], fun _ => rfl⟩
  | parseHeader c' i data result =>
    obtain rfl := Option.some.inj hc
    have hp : s.pc c' = .parseHeader i data := he
    cases result with
    | none => exact .inl ⟨by simp [next, State.goto, hp], fun _ => rfl⟩
    | some h =>
      refine .inl ⟨?_, fun _ => rfl⟩
      simp only [next, State.goto, Function.update_self, hp]
      split_ifs <;> rfl
  | malloc c' i data header ok =>
    obtain rfl := Option.some.inj hc
    have hp : s.pc c' = .malloc i data header := he
    cases ok with
    | false => exact .inl ⟨by simp [next, State.goto, hp], fun _ => rfl⟩
    | true =>
      refine .inl ⟨?_, fun _ => rfl⟩
      simp only [next, State.goto, Function.update_self, hp, receiveRest]
      split_ifs <;> rfl
  | recvBody c' i data header body remaining result =>
    obtain rfl := Option.some.inj hc
    have hp : s.pc c' = .recvBody i data header body remaining := he.1
    cases result with
    | none => exact .inl ⟨(failed_pc_holds _).trans (by simp [hp]), failed_owner _⟩
    | some n =>
      refine .inl ⟨?_, fun _ => rfl⟩
      simp only [next, State.goto, State.setConnection, Function.update_self, hp, receiveRest]
      split_ifs <;> rfl
  | reconnect c' i response =>
    obtain rfl := Option.some.inj hc
    have hp : s.pc c' = .reconnect i response := he
    refine .inl ⟨?_, fun j => ?_⟩
    · simp only [next]
      split_ifs <;> simp [State.goto, hp]
    · simp only [next]
      split_ifs
      · exact setSocket_keeps Socket.owner j rfl
      · rfl
  | leave c' i response =>
    obtain rfl := Option.some.inj hc
    have hp : s.pc c' = .leave i response := he
    exact .inr (.inr ⟨i, by simp [hp], by simp [next, State.goto], (setSocket_release · rfl)⟩)
  | leaveUnlocked c' i =>
    obtain rfl := Option.some.inj hc
    have hp : s.pc c' = .leaveUnlocked i := he
    exact .inl ⟨by simp [next, State.goto, hp], (setSocket_keeps Socket.owner · rfl)⟩
  | retry c' i =>
    obtain rfl := Option.some.inj hc
    have hp : s.pc c' = .retry i := he
    exact .inr (.inr ⟨i, by simp [hp], by simp [next, State.goto], (setSocket_release · rfl)⟩)
  | answer fd byte last => cases hc
  | shut fd => cases hc

/-- A call between its search and its return holds the mutex of the socket it works on. -/
def Owned (s : State) : Prop := ∀ c i, (s.pc c).holds = some i → (s.sockets i).owner = some c

theorem Owned.ne_of_holds {j : ℕ} (h : Owned s) (hc : (s.pc c).holds = some i) (hdc : d ≠ c)
    (hd : (s.pc d).holds = some j) : j ≠ i := by
  rintro rfl
  exact hdc (Option.some.inj ((h d j hd).symm.trans (h c j hc)))

theorem Owned.ne_of_free {j : ℕ} (h : Owned s) (hc : (s.pc c).holds = some i)
    (hj : (s.sockets j).owner = none) : j ≠ i := by
  rintro rfl
  rw [h c j hc] at hj
  cases hj

theorem owned_step (h : Owned s) (he : Enabled mNumSockets s e) : Owned (next s e) := by
  intro d j hd
  cases hc : e.caller with
  | none =>
    have hp : (next s e).pc d = s.pc d := next_pc_of_ne (by simp [hc])
    rw [hp] at hd
    cases e with
    | answer fd byte last => exact h d j hd
    | shut fd => exact h d j hd
    | _ => cases hc
  | some c =>
    have hother : d ≠ c → (s.pc d).holds = some j := fun hdc => by
      rwa [next_pc_of_ne (fun c' hc' => Option.some.inj (hc.symm.trans hc') ▸ hdc)] at hd
    rcases step_owner he hc with ⟨hp, ho⟩ | ⟨i, rfl, ho, hn⟩ | ⟨i, hp, hn, ho⟩
    · rw [ho j]
      by_cases hdc : d = c
      · subst hdc
        exact h d j (hp ▸ hd)
      · exact h d j (hother hdc)
    · by_cases hdc : d = c
      · subst hdc
        have hj : i = j := by simpa [hn, State.goto] using hd
        subst hj
        simp [hn, State.goto, State.setSocket]
      · have hown := h d j (hother hdc)
        have hj : j ≠ i := fun hj => by simp [← hj, hown] at ho
        simpa [hn, State.goto, State.setSocket, hj] using hown
    · by_cases hdc : d = c
      · subst hdc
        rcases hn with hn | hn <;> simp [hn] at hd
      · have hown := h d j (hother hdc)
        have hj : j ≠ i := fun hj =>
          hdc (Option.some.inj (hown.symm.trans (hj ▸ h c i hp)))
        simpa [ho, hj] using hown

theorem reaches_owned {C : State → Event → Prop} (h : Reaches (system mNumSockets) C s) :
    Owned s := by
  refine h.invariant (I := Owned) ?_ fun _ _ ho he _ => owned_step ho he
  rintro _ rfl c i hc
  simp [initial] at hc

theorem enabled_uses (he : Enabled mNumSockets s e) (hc : e.caller = some c)
    (hi : e.touches = some i) : (s.pc c).uses = some i := by
  cases e with
  | recv c' j result =>
    obtain rfl := Option.some.inj hc
    obtain rfl := Option.some.inj hi
    rw [he.1]
    rfl
  | recvBody c' j data header body remaining result =>
    obtain rfl := Option.some.inj hc
    obtain rfl := Option.some.inj hi
    rw [he.1]
    rfl
  | start c' k => cases hi
  | tryLock c' j => cases hi
  | noSocket c' j => cases hi
  | answer fd byte last => cases hc
  | shut fd => cases hc
  | _ =>
    obtain rfl := Option.some.inj hc
    obtain rfl := Option.some.inj hi
    have hp : s.pc _ = _ := he
    rw [hp]
    rfl

/-- A call that has started has a pool to search, and its search has not failed. -/
def Searches (mNumSockets : ℕ) : Pc → Prop
  | .idle => True
  | .tryLock i => i < mNumSockets
  | .leaveUnlocked _ => False
  | _ => 0 < mNumSockets

theorem searches_of_holds {pc : Pc} (h : pc.holds = some i) :
    Searches mNumSockets pc ↔ 0 < mNumSockets := by
  cases pc <;> simp [Searches] at h ⊢

theorem Searches.holds {pc : Pc} (h : Searches mNumSockets pc) : pc.uses = pc.holds := by
  cases pc with
  | leaveUnlocked i => exact h.elim
  | _ => rfl

theorem searches_step (h : ∀ c, Searches mNumSockets (s.pc c)) (he : Enabled mNumSockets s e)
    (hs : SearchSucceeds mNumSockets s e) (c : ℕ) :
    Searches mNumSockets ((next s e).pc c) := by
  by_cases hc : e.caller = some c
  · cases hi : e.touches with
    | some i =>
      have hu := (h c).holds.symm.trans (enabled_uses he hc hi)
      have hpos := (searches_of_holds hu).mp (h c)
      rcases step_owner he hc with ⟨hp, -⟩ | ⟨j, rfl, -, -⟩ | ⟨j, -, hp | hp, -⟩
      · exact (searches_of_holds (hp.trans hu)).mpr hpos
      · cases hi
      · rw [hp]
        exact hpos
      · rw [hp]
        exact hpos
    | none =>
      cases e with
      | start c' k =>
        obtain rfl := Option.some.inj hc
        have hpos : 0 < mNumSockets := hs
        simpa [next, State.goto, Searches] using hpos
      | tryLock c' j =>
        obtain rfl := Option.some.inj hc
        simp only [next]
        split_ifs with ho
        · simpa [State.goto, Searches] using Nat.zero_lt_of_lt he.2
        · simpa [State.goto, Searches] using hs.resolve_right ho
      | noSocket c' j =>
        obtain rfl := Option.some.inj hc
        have hlt := h c'
        rw [he.1] at hlt
        exact absurd hlt he.2
      | answer fd byte last => cases hc
      | shut fd => cases hc
      | _ => cases hi
  · have hne : ∀ c', e.caller = some c' → c ≠ c' := by
      rintro c' hc' rfl
      exact hc hc'
    rw [next_pc_of_ne hne]
    exact h c

theorem reaches_searches (h : Reaches (system mNumSockets) (SearchSucceeds mNumSockets) s) :
    ∀ c, Searches mNumSockets (s.pc c) := by
  refine h.invariant (I := fun s => ∀ c, Searches mNumSockets (s.pc c)) ?_
    fun _ _ ho he hs => searches_step ho he hs
  rintro _ rfl c
  trivial

/-- While no call searches the pool in vain, no call touches a socket of another. -/
theorem only_own_sockets
    (h : Reaches (system mNumSockets) (SearchSucceeds mNumSockets) s) :
    OnlyOwnSockets mNumSockets s where
  exclusive := by
    intro c d i hc hd
    rw [(reaches_searches h c).holds] at hc
    rw [(reaches_searches h d).holds] at hd
    have hown := reaches_owned h
    exact Option.some.inj ((hown c i hc).symm.trans (hown d i hd))
  owned := by
    intro e c i he hc hi
    have hu := enabled_uses he hc hi
    rw [(reaches_searches h c).holds] at hu
    exact reaches_owned h c i hu
  untouched := by
    intro e i hi
    apply next_sockets_of_ne
    rintro j hj rfl
    exact hi hj

/-- Calls 0 to 4 take the five sockets, each after trying those of the calls before it. -/
def traceAllTaken : List Event :=
  (List.range 5).flatMap fun c =>
    .start c .doRequest :: (List.range (c + 1)).map (.tryLock c)

theorem only_own_sockets_all_taken :
    OnlyOwnSockets 5 (runTrace (system 5) initial traceAllTaken) :=
  only_own_sockets (ValidTrace.reaches (by decide +kernel) (.start rfl))

/-- A sixth call finds all five sockets locked. It resets the retries of the last one and
unlocks its mutex, which call 4 has. -/
theorem touches_socket_of_other :
    ¬ ∀ mNumSockets s, Reachable (system mNumSockets) s → OnlyOwnSockets mNumSockets s := by
  intro h
  have ht := h 5 _ (reachable_trace rfl
    (traceAllTaken ++ .start 5 .doRequest :: (List.range 5).map (.tryLock 5) ++ [.noSocket 5 4])
    (by decide +kernel))
  have hown := ht.owned (.leaveUnlocked 5 4) 5 4 (by decide +kernel) rfl rfl
  exact absurd hown (by decide +kernel)

end RestSocketPool
