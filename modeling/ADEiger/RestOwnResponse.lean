import ADEiger.RestSocketPool

/-! Whose answer a call returns.
Connections are kept alive, so a call gets its own answer only when the calls before it on
the same connection left nothing behind. -/
namespace RestSocketPool

open TransitionSystem

variable {s t : State} {e : Event} {c i mNumSockets : ℕ}

/-- A response consists of bytes that answer the request of the call. -/
def Response.Own (r : Response) : Prop := ∀ b ∈ r.data ++ r.body, b.1 = r.call

def OwnResponses (s : State) : Prop := ∀ r ∈ s.responses, r.Own

instance (r : Response) : Decidable r.Own := inferInstanceAs (Decidable (∀ b ∈ _, _))

/-- The socket is closed, or nothing of an earlier answer is left to read on it. -/
def Clean (s : State) (i : ℕ) : Prop := (s.sockets i).closed = false → (s.connection i).Drained

instance (s : State) (i : ℕ) : Decidable (Clean s i) := inferInstanceAs (Decidable (_ → _))

/-- A call that gives its socket back open leaves no part of its answer behind. -/
def LeavesDrained (s : State) : Event → Prop
  | .leave _ i _ => Clean s i
  | _ => True

instance (s : State) : (e : Event) → Decidable (LeavesDrained s e) := by
  rintro ⟨⟩ <;> simp only [LeavesDrained] <;> infer_instance

/-- The socket whose mutex the call holds. -/
@[simp] def Pc.holds : Pc → Option ℕ
  | .testClosed i | .connect i | .send i | .select i | .recv i | .parseHeader i _
  | .malloc i _ _ | .recvBody i _ _ _ _ | .reconnect i _ | .leave i _ | .retry i => some i
  | _ => none

/-- The socket is connected and only answers of call `c` can be read from it. -/
structure Serving (s : State) (c i : ℕ) : Prop where
  opened : (s.sockets i).closed = false
  serves : (s.connection i).Serves c

/-- What a call may rely on at each point. -/
def Relies (s : State) (c : ℕ) : Pc → Prop
  | .testClosed i => Clean s i
  | .connect i => (s.sockets i).closed = true
  | .send i => (s.sockets i).closed = false ∧ (s.connection i).Drained
  | .select i | .recv i => Serving s c i
  | .parseHeader i data | .malloc i data _ => Serving s c i ∧ ∀ b ∈ data, b.1 = c
  | .recvBody i data _ body _ => Serving s c i ∧ ∀ b ∈ data ++ body, b.1 = c
  | .reconnect _ r => r.call = c ∧ r.Own
  | .leave _ r => ∀ x ∈ r, x.call = c ∧ x.Own
  | _ => True

structure Provenance (s : State) : Prop where
  owned : ∀ c i, (s.pc c).holds = some i → (s.sockets i).owner = some c
  relies : ∀ c, Relies s c (s.pc c)
  idle : ∀ i, (s.sockets i).owner = none → Clean s i
  distinct : ∀ i j, i ≠ j → (s.sockets i).closed = false → (s.sockets j).closed = false →
    (s.sockets i).fd ≠ (s.sockets j).fd
  allocated : ∀ i, (s.sockets i).fd < s.nextFd
  nonneg : 0 ≤ s.nextFd
  responses : OwnResponses s

theorem provenance_initial : Provenance initial where
  owned := by simp [initial]
  relies c := trivial
  idle i _ := by simp [Clean, initial]
  distinct := by simp [initial]
  allocated i := by simp [initial, INVALID_SOCKET]
  nonneg := Int.le_refl _
  responses := by simp [OwnResponses, initial]

/-- As far as the provenance of bytes goes, socket `i` is no worse in `t` than in `s`. -/
structure SocketKept (s t : State) (i : ℕ) : Prop where
  fd : (t.sockets i).fd = (s.sockets i).fd
  owner : (t.sockets i).owner = (s.sockets i).owner
  closed : (t.sockets i).closed = (s.sockets i).closed
  connection : (s.sockets i).closed = false → (s.connection i).Keeps (t.connection i)

theorem SocketKept.clean (h : SocketKept s t i) (hc : Clean s i) : Clean t i := fun ho =>
  have ho := h.closed ▸ ho
  (h.connection ho).drained (hc ho)

theorem SocketKept.serving (h : SocketKept s t i) (hs : Serving s c i) : Serving t c i :=
  ⟨h.closed.trans hs.opened, (h.connection hs.opened).serves c hs.serves⟩

theorem Relies.frame {pc : Pc} (h : Relies s c pc)
    (hk : ∀ i, pc.holds = some i → SocketKept s t i) : Relies t c pc := by
  cases pc with
  | testClosed i => exact (hk i rfl).clean h
  | connect i => exact (hk i rfl).closed.trans h
  | send i =>
    have hk := hk i rfl
    exact ⟨hk.closed.trans h.1, (hk.connection h.1).drained h.2⟩
  | select i => exact (hk i rfl).serving h
  | recv i => exact (hk i rfl).serving h
  | parseHeader i data => exact ⟨(hk i rfl).serving h.1, h.2⟩
  | malloc i data header => exact ⟨(hk i rfl).serving h.1, h.2⟩
  | recvBody i data header body remaining => exact ⟨(hk i rfl).serving h.1, h.2⟩
  | _ => exact h

/-- A step that changes no socket in a way that matters and moves at most call `c`. -/
theorem Provenance.frame (h : Provenance s) (hk : ∀ i, SocketKept s t i)
    (hpc : ∀ d, d ≠ c → t.pc d = s.pc d) (hfd : t.nextFd = s.nextFd)
    (howned : ∀ i, (t.pc c).holds = some i → (s.pc c).holds = some i)
    (hrelies : Relies t c (t.pc c)) (hr : t.responses = s.responses) : Provenance t where
  owned d i hd := by
    rw [(hk i).owner]
    by_cases hdc : d = c
    · subst hdc
      exact h.owned d i (howned i hd)
    · exact h.owned d i (hpc d hdc ▸ hd)
  relies d := by
    by_cases hdc : d = c
    · rwa [hdc]
    · rw [hpc d hdc]
      exact (h.relies d).frame fun i _ => hk i
  idle i hi := (hk i).clean (h.idle i ((hk i).owner ▸ hi))
  distinct i j hij hi hj := by
    rw [(hk i).fd, (hk j).fd]
    exact h.distinct i j hij ((hk i).closed ▸ hi) ((hk j).closed ▸ hj)
  allocated i := by
    rw [(hk i).fd, hfd]
    exact h.allocated i
  nonneg := hfd ▸ h.nonneg
  responses := by
    unfold OwnResponses
    rw [hr]
    exact h.responses

theorem Provenance.onSocket (h : Provenance s) (hfree : ∀ d, d ≠ c → (s.pc d).holds ≠ some i)
    (hpc : ∀ d, d ≠ c → t.pc d = s.pc d)
    (hsockets : ∀ j, j ≠ i → t.sockets j = s.sockets j)
    (hconns : ∀ fd, ((t.sockets i).closed = false → fd ≠ (t.sockets i).fd) →
      t.connections fd = s.connections fd)
    (hfds : ∀ j, j ≠ i → (t.sockets i).closed = false → (s.sockets j).closed = false →
      (t.sockets i).fd ≠ (s.sockets j).fd)
    (hnext : s.nextFd ≤ t.nextFd) (hallocated : (t.sockets i).fd < t.nextFd)
    (howned : ∀ j, (t.pc c).holds = some j → j = i ∧ (t.sockets i).owner = some c)
    (hrelies : Relies t c (t.pc c)) (hidle : (t.sockets i).owner = none → Clean t i)
    (hr : OwnResponses t) : Provenance t := by
  have hk : ∀ j, j ≠ i → SocketKept s t j := by
    intro j hj
    have hs := hsockets j hj
    refine ⟨by rw [hs], by rw [hs], by rw [hs], fun ho => ?_⟩
    have : t.connection j = s.connection j := by
      unfold State.connection
      rw [hs]
      exact hconns _ fun hi => (hfds j hj hi ho).symm
    rw [this]
    exact .refl _
  exact {
    owned := by
      intro d j hd
      by_cases hdc : d = c
      · subst hdc
        obtain ⟨rfl, ho⟩ := howned j hd
        exact ho
      · have hd : (s.pc d).holds = some j := hpc d hdc ▸ hd
        have hj : j ≠ i := fun hji => hfree d hdc (hji ▸ hd)
        rw [(hk j hj).owner]
        exact h.owned d j hd
    relies := by
      intro d
      by_cases hdc : d = c
      · rwa [hdc]
      · rw [hpc d hdc]
        exact (h.relies d).frame fun j hj => hk j fun hji => hfree d hdc (hji ▸ hj)
    idle := by
      intro j hj
      by_cases hji : j = i
      · subst hji
        exact hidle hj
      · exact (hk j hji).clean (h.idle j ((hk j hji).owner ▸ hj))
    distinct := by
      intro j k hjk hj hk'
      by_cases hji : j = i
      · subst hji
        have hs := hsockets k hjk.symm
        rw [hs] at hk' ⊢
        exact hfds k hjk.symm hj hk'
      · have hs := hsockets j hji
        rw [hs] at hj ⊢
        by_cases hki : k = i
        · subst hki
          exact (hfds j hji hk' hj).symm
        · have hs := hsockets k hki
          rw [hs] at hk' ⊢
          exact h.distinct j k hjk hj hk'
    allocated := by
      intro j
      by_cases hji : j = i
      · rwa [hji]
      · rw [hsockets j hji]
        exact Int.lt_of_lt_of_le (h.allocated j) hnext
    nonneg := Int.le_trans h.nonneg hnext
    responses := hr }

/-- The invariant is about the pool and the calls, not about the histories kept with them. -/
theorem Provenance.histories (h : Provenance s) (hs : t.sockets = s.sockets) (hp : t.pc = s.pc)
    (hc : t.connections = s.connections) (hn : t.nextFd = s.nextFd) (hr : OwnResponses t) :
    Provenance t := by
  have hk : ∀ i, SocketKept s t i := by
    intro i
    have : t.connection i = s.connection i := by rw [State.connection, hs, hc, State.connection]
    exact ⟨by rw [hs], by rw [hs], by rw [hs], fun _ => this ▸ .refl _⟩
  exact {
    owned := by rw [hs, hp]; exact h.owned
    relies := fun c => hp ▸ (h.relies c).frame fun i _ => hk i
    idle := fun i hi => (hk i).clean (h.idle i ((hk i).owner ▸ hi))
    distinct := by rw [hs]; exact h.distinct
    allocated := by rw [hs, hn]; exact h.allocated
    nonneg := hn ▸ h.nonneg
    responses := hr }

theorem Provenance.goto (h : Provenance s) {p : Pc}
    (howned : ∀ i, p.holds = some i → (s.pc c).holds = some i) (hrelies : Relies s c p) :
    Provenance (s.goto c p) := by
  have hk : ∀ i, SocketKept s (s.goto c p) i := fun i => ⟨rfl, rfl, rfl, fun _ => .refl _⟩
  have hpc : (s.goto c p).pc c = p := Function.update_self ..
  refine h.frame hk (fun d hd => Function.update_of_ne hd _ _) rfl ?_ ?_ rfl
  · rwa [hpc]
  · rw [hpc]
    exact hrelies.frame fun i _ => hk i

/-- Nobody but its owner works on a socket. -/
theorem Provenance.free (h : Provenance s) (hc : (s.pc c).holds = some i) :
    ∀ d, d ≠ c → (s.pc d).holds ≠ some i := fun d hdc hd =>
  hdc (Option.some.inj ((h.owned d i hd).symm.trans (h.owned c i hc)))

theorem Provenance.setSocket (h : Provenance s)
    (hfree : ∀ d, d ≠ c → (s.pc d).holds ≠ some i) {k : Socket} {p : Pc}
    (hopen : k.closed = false → k.fd = (s.sockets i).fd ∧ (s.sockets i).closed = false)
    (hallocated : k.fd < s.nextFd)
    (howned : ∀ j, p.holds = some j → j = i ∧ k.owner = some c)
    (hrelies : Relies ((s.setSocket i k).goto c p) c p)
    (hidle : k.owner = none → k.closed = false → (s.connection i).Drained) :
    Provenance ((s.setSocket i k).goto c p) := by
  have hself : ((s.setSocket i k).goto c p).sockets i = k := Function.update_self ..
  have hother : ∀ j, j ≠ i → ((s.setSocket i k).goto c p).sockets j = s.sockets j :=
    fun j hj => Function.update_of_ne hj _ _
  have hpc : ((s.setSocket i k).goto c p).pc c = p := Function.update_self ..
  refine h.onSocket hfree (fun d hd => Function.update_of_ne hd _ _) hother (fun _ _ => rfl)
    ?_ (Int.le_refl _) ?_ ?_ ?_ ?_ h.responses
  · intro j hj hi
    rw [hself] at hi ⊢
    rw [(hopen hi).1]
    exact h.distinct i j hj.symm (hopen hi).2
  · rwa [hself]
  · rwa [hself, hpc]
  · rwa [hpc]
  · intro ho hc
    rw [hself] at ho hc
    unfold State.connection
    rw [hself, (hopen hc).1]
    exact hidle ho hc

theorem Provenance.setConnection (h : Provenance s) (hc : (s.pc c).holds = some i)
    (ho : (s.sockets i).closed = false) {x : Connection ℕ UInt8} {p : Pc}
    (howned : ∀ j, p.holds = some j → j = i)
    (hrelies : Relies ((s.setConnection (s.sockets i).fd x).goto c p) c p) :
    Provenance ((s.setConnection (s.sockets i).fd x).goto c p) := by
  have hpc : ((s.setConnection (s.sockets i).fd x).goto c p).pc c = p :=
    Function.update_self ..
  refine h.onSocket (h.free hc) (fun d hd => Function.update_of_ne hd _ _) (fun _ _ => rfl)
    ?_ ?_ (Int.le_refl _) (h.allocated i) ?_ ?_ ?_ h.responses
  · exact fun fd hfd => Function.update_of_ne (hfd ho) _ _
  · exact fun j hj hi hj' => h.distinct i j hj.symm hi hj'
  · rw [hpc]
    exact fun j hj => ⟨howned j hj, h.owned c i hc⟩
  · rwa [hpc]
  · intro hn
    have hown : (s.sockets i).owner = none := hn
    rw [h.owned c i hc] at hown
    cases hown

theorem serving_setConnection (ho : (s.sockets i).closed = false) {x : Connection ℕ UInt8}
    {pc : Pc} (hx : x.Serves c) :
    Serving ((s.setConnection (s.sockets i).fd x).goto c pc) c i :=
  ⟨ho, by
    have : ((s.setConnection (s.sockets i).fd x).goto c pc).connection i = x :=
      Function.update_self ..
    rwa [this]⟩

theorem Provenance.failed (h : Provenance s) (hc : (s.pc c).holds = some i) (mark : Bool) :
    Provenance (s.failed c i mark) := by
  have hown := h.owned c i hc
  simp only [State.failed]
  split_ifs
  · refine h.setSocket (h.free hc) (fun ho => ⟨rfl, ho⟩) (h.allocated i) ?_ trivial ?_
    · exact fun j hj => ⟨(Option.some.inj hj).symm, hown⟩
    · simp [hown]
  · refine h.setSocket (h.free hc) (fun ho => ⟨rfl, ?_⟩) (h.allocated i) ?_ (by simp [Relies]) ?_
    · exact (Bool.or_eq_false_iff.mp ho).1
    · exact fun j hj => ⟨(Option.some.inj hj).symm, hown⟩
    · simp [hown]

theorem Provenance.server (h : Provenance s) (fd : ℤ) {x : Connection ℕ UInt8}
    (hx : (s.connections fd).Keeps x) : Provenance (s.setConnection fd x) := by
  have hk : ∀ i, SocketKept s (s.setConnection fd x) i := by
    refine fun i => ⟨rfl, rfl, rfl, fun _ => ?_⟩
    change (s.connections (s.sockets i).fd).Keeps
      (Function.update s.connections fd x (s.sockets i).fd)
    by_cases hi : (s.sockets i).fd = fd
    · rw [hi, Function.update_self]
      exact hx
    · rw [Function.update_of_ne hi]
      exact .refl _
  exact h.frame (c := 0) hk (fun _ _ => rfl) rfl (fun _ => id) ((h.relies 0).frame fun i _ => hk i)
    rfl

theorem provenance_connect (h : Provenance s) (hp : s.pc c = .connect i)
    (result : ConnectResult) : Provenance (next s (.connect c i result)) := by
  have hc : (s.pc c).holds = some i := by simp [hp]
  have hown := h.owned c i hc
  have hclosed : (s.sockets i).closed = true := by simpa [hp, Relies] using h.relies c
  have hnew : ∀ j, (s.sockets j).fd ≠ s.nextFd := fun j => Int.ne_of_lt (h.allocated j)
  have hsucc : s.nextFd < s.nextFd + 1 := Int.lt_succ _
  cases result with
  | noSocket =>
    have hinvalid : INVALID_SOCKET < s.nextFd := Int.lt_of_lt_of_le (by decide) h.nonneg
    exact h.setSocket (h.free hc) (by simp [hclosed]) hinvalid
      (fun j hj => ⟨(Option.some.inj hj).symm, hown⟩) (by simp [Relies]) (by simp [hown])
  | failed =>
    refine h.onSocket (h.free hc) (fun d hd => Function.update_of_ne hd _ _)
      (fun j hj => Function.update_of_ne hj _ _) (fun _ _ => rfl) ?_ ?_ ?_ ?_ ?_ ?_ h.responses
    all_goals simp [next, State.goto, State.setSocket, hclosed, hown, Relies, hsucc,
      Int.le_of_lt hsucc]
  | connected =>
    refine h.onSocket (h.free hc) (fun d hd => Function.update_of_ne hd _ _)
      (fun j hj => Function.update_of_ne hj _ _) ?_ ?_ ?_ ?_ ?_ ?_ ?_ h.responses
    · intro fd hfd
      simp only [next, State.goto, State.setSocket, State.setConnection, Function.update_self,
        forall_const] at hfd ⊢
      exact Function.update_of_ne hfd _ _
    · intro j hj _ _
      simpa [next, State.goto, State.setSocket, State.setConnection] using (hnew j).symm
    · exact Int.le_of_lt hsucc
    · simp [next, State.goto, State.setSocket, State.setConnection, hsucc]
    · simp [next, State.goto, State.setSocket, State.setConnection, hown]
    · simp [next, State.goto, State.setSocket, State.setConnection, Relies, State.connection,
        Connection.drained_fresh]
    · simp [next, State.goto, State.setSocket, State.setConnection, hown]

theorem provenance_step (h : Provenance s) (he : Enabled mNumSockets s e)
    (hd : LeavesDrained s e) : Provenance (next s e) := by
  cases e with
  | start c k =>
    have h' := h.goto (c := c) (p := .tryLock 0) (by simp) trivial
    exact h'.histories rfl rfl rfl rfl h.responses
  | tryLock c i =>
    simp only [next]
    split_ifs with hown
    · refine h.setSocket ?_ (fun ho => ⟨rfl, ho⟩) (h.allocated i) ?_ ?_ (by simp)
      · intro d _ hd
        simp [h.owned d i hd] at hown
      · exact fun j hj => ⟨(Option.some.inj hj).symm, rfl⟩
      · simpa [Relies, Clean, State.goto, State.setSocket, State.connection]
          using h.idle i hown
    · exact h.goto (by simp) trivial
  | noSocket c i => exact h.goto (by simp) trivial
  | testClosed c i =>
    have hp : s.pc c = .testClosed i := he
    have hclean : Clean s i := by simpa [hp, Relies] using h.relies c
    simp only [next]
    split_ifs with hc
    · exact h.goto (by simp [hp]) hc
    · exact h.goto (by simp [hp]) ⟨by simpa using hc, hclean (by simpa using hc)⟩
  | connect c i result => exact provenance_connect h he result
  | send c i ok =>
    have hp : s.pc c = .send i := he
    have hc : (s.pc c).holds = some i := by simp [hp]
    cases ok with
    | false => exact h.failed hc _
    | true =>
      have hr := h.relies c
      rw [hp] at hr
      obtain ⟨ho, hdr⟩ := hr
      have hs := hdr.transmit c
      simp only [next]
      split_ifs
      · have h' := h.setConnection hc ho (p := .select i) (by simp) (serving_setConnection ho hs)
        exact h'.histories rfl rfl rfl rfl h.responses
      · have h' := h.setConnection hc ho (p := .recv i) (by simp) (serving_setConnection ho hs)
        exact h'.histories rfl rfl rfl rfl h.responses
  | select c i ready =>
    have hp : s.pc c = .select i := he
    have hr := h.relies c
    rw [hp] at hr
    cases ready with
    | false => exact h.goto (by simp [hp]) (by simp [Relies])
    | true => exact h.goto (by simp [hp]) hr
  | recv c i result =>
    have hp := he.1
    have hc : (s.pc c).holds = some i := by simp [hp]
    cases result with
    | none => exact h.failed hc _
    | some n =>
      have hr := h.relies c
      rw [hp] at hr
      exact h.setConnection hc hr.opened (by simp)
        ⟨serving_setConnection hr.opened (hr.serves.read n), hr.serves.taken n⟩
  | parseHeader c i data result =>
    have hp : s.pc c = .parseHeader i data := he
    have hr := h.relies c
    rw [hp] at hr
    cases result with
    | none => exact h.goto (by simp [hp]) (by simp [Relies])
    | some header =>
      simp only [next]
      split_ifs
      · exact h.goto (by simp [hp]) ⟨rfl, by simpa [Response.Own] using hr.2⟩
      · exact h.goto (by simp [hp]) (by simp [Relies])
      · exact h.goto (by simp [hp]) hr
  | malloc c i data header ok =>
    have hp : s.pc c = .malloc i data header := he
    have hr := h.relies c
    rw [hp] at hr
    cases ok with
    | false => exact h.goto (by simp [hp]) (by simp [Relies])
    | true =>
      simp only [next, receiveRest]
      split_ifs
      · exact h.goto (by simp [hp]) ⟨rfl, by simpa [Response.Own] using hr.2⟩
      · exact h.goto (by simp [hp]) ⟨hr.1, by simpa using hr.2⟩
  | recvBody c i data header body remaining result =>
    have hp := he.1
    have hc : (s.pc c).holds = some i := by simp [hp]
    cases result with
    | none => exact h.failed hc _
    | some n =>
      have hr := h.relies c
      rw [hp] at hr
      obtain ⟨hr, hb⟩ := hr
      have hb' : ∀ b ∈ data ++ (body ++ (s.connection i).unread.take n), b.1 = c := by
        intro b hm
        rw [← List.append_assoc] at hm
        rcases List.mem_append.mp hm with hm | hm
        · exact hb b hm
        · exact hr.serves.taken n b hm
      simp only [next, receiveRest]
      split_ifs
      · exact h.setConnection hc hr.opened (by simp) ⟨rfl, hb'⟩
      · exact h.setConnection hc hr.opened (by simp)
          ⟨serving_setConnection hr.opened (hr.serves.read n), hb'⟩
  | reconnect c i response =>
    have hp : s.pc c = .reconnect i response := he
    have hc : (s.pc c).holds = some i := by simp [hp]
    have hr := h.relies c
    rw [hp] at hr
    have hrel : ∀ x ∈ some response, x.call = c ∧ x.Own := by
      intro x hx
      rwa [← Option.some.inj hx]
    simp only [next]
    split_ifs
    · have h' := h.setSocket (h.free hc) (k := { s.sockets i with closed := true })
        (p := .leave i (some response)) (by simp) (h.allocated i)
        (fun j hj => ⟨(Option.some.inj hj).symm, h.owned c i hc⟩) hrel (by simp)
      exact h'.histories rfl rfl rfl rfl h.responses
    · exact h.goto (by simp [hp]) hrel
  | leave c i response =>
    have hp : s.pc c = .leave i response := he
    have hc : (s.pc c).holds = some i := by simp [hp]
    have hr := h.relies c
    rw [hp] at hr
    have h' := h.setSocket (h.free hc) (k := { s.sockets i with retries := 0, owner := none })
      (p := .returned) (fun ho => ⟨rfl, ho⟩) (h.allocated i) (by simp) trivial
      (fun _ ho => hd ho)
    refine h'.histories rfl rfl rfl rfl fun r hm => ?_
    rcases List.mem_append.mp hm with hm | hm
    · exact h.responses r hm
    · exact (hr r (by simpa using hm)).2
  | leaveUnlocked c i =>
    have hp : s.pc c = .leaveUnlocked i := he
    have hk : ∀ j, SocketKept s (next s (.leaveUnlocked c i)) j := by
      intro j
      by_cases hj : j = i
      · subst hj
        constructor <;>
          simp [next, State.goto, State.setSocket, State.connection, Connection.Keeps.refl]
      · constructor <;>
          simp [next, State.goto, State.setSocket, State.connection, Connection.Keeps.refl, hj]
    have hpc : (next s (.leaveUnlocked c i)).pc c = .returned := Function.update_self ..
    exact h.frame hk (fun d hd => Function.update_of_ne hd _ _) rfl (by simp [hpc])
      (by rw [hpc]; trivial) rfl
  | retry c i =>
    have hp : s.pc c = .retry i := he
    have hc : (s.pc c).holds = some i := by simp [hp]
    have h' := h.setSocket (h.free hc) (k := { s.sockets i with closed := true, owner := none })
      (p := .tryLock 0) (by simp) (h.allocated i) (by simp) trivial (by simp)
    exact h'.histories rfl rfl rfl rfl h.responses
  | answer fd byte last => exact h.server fd (Connection.keeps_answer _ byte last)
  | shut fd => exact h.server fd (Connection.keeps_shut _)

theorem reaches_provenance (h : Reaches (system mNumSockets) LeavesDrained s) : Provenance s := by
  refine h.invariant (I := Provenance) ?_ fun _ _ hp he hd => provenance_step hp he hd
  rintro _ rfl
  exact provenance_initial

/-- While every call that keeps its connection open has read all of its answer, every call
returns the answer to its own request. -/
theorem own_responses (h : Reaches (system mNumSockets) LeavesDrained s) : OwnResponses s :=
  (reaches_provenance h).responses

/-- The answer to a HEAD request for a file that exists. -/
def headAnswer : List UInt8 :=
  "HTTP/1.1 200 OK\r\n\r\n".toList.map fun c => UInt8.ofNat c.toNat

def headHeader : Header := ⟨200, 0, headAnswer.length, false⟩

/-- The server sends all of `headAnswer`. -/
def traceAnswer (fd : ℤ) : List Event :=
  headAnswer.dropLast.map (.answer fd · false) ++ [.answer fd 10 true]

/-- Call `c` takes the open socket 0 and transmits its request. -/
def traceRequest (c : ℕ) : List Event :=
  [.start c .doRequest, .tryLock c 0, .testClosed c 0, .send c 0 true]

/-- Call `c` receives and returns an answer that request `q` caused. -/
def traceReturn (c q : ℕ) : List Event :=
  let data := headAnswer.map fun b => (q, b)
  [.select c 0 true, .recv c 0 (some headAnswer.length),
   .parseHeader c 0 data (some headHeader), .reconnect c 0 ⟨c, headHeader, data, []⟩,
   .leave c 0 (some ⟨c, headHeader, data, []⟩)]

/-- As `traceRequest`, for a socket that is to be connected first. -/
def traceConnect (c : ℕ) : List Event :=
  [.start c .doRequest, .tryLock c 0, .testClosed c 0, .connect c 0 .connected, .send c 0 true]

/-- Two calls, one after the other on the same connection. -/
def traceTwoCalls : List Event :=
  traceConnect 1 ++ traceAnswer 0 ++ traceReturn 1 1 ++ traceRequest 2 ++ traceAnswer 0 ++
    traceReturn 2 2

theorem own_responses_two_calls :
    (runTrace (system 5) initial traceTwoCalls).responses.length = 2 ∧
      OwnResponses (runTrace (system 5) initial traceTwoCalls) :=
  ⟨by decide +kernel, own_responses (ValidTrace.reaches (by decide +kernel) (.start rfl))⟩

/-- The first call times out in `select` and leaves its connection open; the second call
returns the late answer to the first. -/
theorem response_to_earlier_request :
    ¬ ∀ mNumSockets s, Reachable (system mNumSockets) s → OwnResponses s := by
  intro h
  have ht := h 5 _ (reachable_trace rfl
    (traceConnect 1 ++ [.select 1 0 false, .leave 1 0 none] ++ traceAnswer 0 ++
      traceRequest 2 ++ traceReturn 2 1) (by decide +kernel))
  let r : Response := ⟨2, headHeader, headAnswer.map fun b => (1, b), []⟩
  exact absurd (ht r (by decide +kernel)) (by decide +kernel)

end RestSocketPool
