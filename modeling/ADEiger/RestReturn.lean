import ADEiger.RestOwnership
import ADEiger.Inevitable
import Mathlib.Algebra.BigOperators.Group.Finset.Basic
import Mathlib.Algebra.BigOperators.Group.Finset.Piecewise
import Mathlib.Algebra.Order.BigOperators.Group.Finset
import Mathlib.Data.Prod.Lex

/-! That the calls of the socket pool come to an end.
No call waits for another, since the search only tries the mutexes; and a call is made again only
while its socket has retries left, which no call but one that ends gives back. -/
namespace RestSocketPool

open TransitionSystem

variable {s : State} {e : Event} {c i mNumSockets calls : ℕ}

section Work

def Pc.running : Pc → ℕ
  | .idle | .returned => 0
  | _ => 1

/-- The steps of a call as long as it is not made again and receives no more content. -/
def Pc.steps (mNumSockets : ℕ) : Pc → ℕ
  | .idle | .returned => 0
  | .leave _ _ | .leaveUnlocked _ => 1
  | .reconnect _ _ => 2
  | .recvBody _ _ _ _ _ => 3
  | .malloc _ _ _ => 4
  | .parseHeader _ _ => 5
  | .recv _ => 6
  | .select _ => 7
  | .send _ => 8
  | .connect _ => 9
  | .testClosed _ => 10
  | .tryLock i => 11 + (mNumSockets - i)
  | .retry _ => 12 + mNumSockets

def Pc.remaining : Pc → ℕ
  | .recvBody _ _ _ _ remaining => remaining
  | _ => 0

/-- The sum over the calls that were ever made. -/
def State.total (s : State) (calls : ℕ) (f : Pc → ℕ) : ℕ :=
  ∑ c ∈ Finset.range calls, f (s.pc c)

def Socket.left (k : Socket) : ℕ := MAX_HTTP_RETRIES - k.retries

def State.retriesLeft (s : State) (mNumSockets : ℕ) : ℕ :=
  ∑ i ∈ Finset.range mNumSockets, (s.sockets i).left

def State.work (s : State) (mNumSockets calls : ℕ) : ℕ × ℕ × ℕ × ℕ :=
  (s.total calls Pc.running, s.retriesLeft mNumSockets,
    s.total calls (Pc.steps mNumSockets), s.total calls Pc.remaining)

def Less : ℕ × ℕ × ℕ × ℕ → ℕ × ℕ × ℕ × ℕ → Prop :=
  Prod.Lex (· < ·) (Prod.Lex (· < ·) (Prod.Lex (· < ·) (· < ·)))

theorem less_wellFounded : WellFounded Less :=
  have wf : WellFounded (fun a b : ℕ => a < b) := Nat.lt_wfRel.wf
  wf.prod_lex (wf.prod_lex (wf.prod_lex wf))

theorem less_iff {a b : ℕ × ℕ × ℕ × ℕ} : Less a b ↔
    a.1 < b.1 ∨ a.1 = b.1 ∧ (a.2.1 < b.2.1 ∨ a.2.1 = b.2.1 ∧
      (a.2.2.1 < b.2.2.1 ∨ a.2.2.1 = b.2.2.1 ∧ a.2.2.2 < b.2.2.2)) := by
  simp only [Less, Prod.lex_def]

end Work

section Steps

/-- The socket that a call is at; in its search it may be behind the last. -/
def Pc.Within (mNumSockets : ℕ) : Pc → Prop
  | .tryLock i => i ≤ mNumSockets
  | pc => ∀ i, pc.uses = some i → i < mNumSockets

/-- Only calls up to a bound were made, and they are on sockets of the pool. -/
structure Bounded (mNumSockets calls : ℕ) (s : State) : Prop where
  idle : ∀ c, calls ≤ c → s.pc c = .idle
  within : ∀ c, (s.pc c).Within mNumSockets

/-- A step of a call that was made already. -/
def CallStep (_ : State) (e : Event) : Prop :=
  (∃ c, e.caller = some c) ∧ ∀ c k, e ≠ .start c k

/-- A step of the server. -/
def ServerStep (_ : State) (e : Event) : Prop := e.caller = none

def Pc.work (mNumSockets retries : ℕ) (p : Pc) : ℕ × ℕ × ℕ × ℕ :=
  (p.running, retries, p.steps mNumSockets, p.remaining)

/-- A step brings call `c` forward: the call ends, or it is made again at the cost of a retry of
its socket, or it comes nearer to its end, or content comes in. -/
def Forward (mNumSockets : ℕ) (s s' : State) (c : ℕ) : Prop :=
  ∃ p : Pc, s'.pc = Function.update s.pc c p ∧ p.Within mNumSockets ∧
    Less (p.work mNumSockets (s'.retriesLeft mNumSockets))
      ((s.pc c).work mNumSockets (s.retriesLeft mNumSockets))

variable {s' : State} {p : Pc}

theorem Forward.ends (hpc : s'.pc = Function.update s.pc c .returned)
    (hrun : (s.pc c).running = 1) : Forward mNumSockets s s' c := by
  refine ⟨.returned, hpc, by simp [Pc.Within, Pc.uses], less_iff.mpr (.inl ?_)⟩
  change 0 < (s.pc c).running
  omega

theorem Forward.nearer {q : Pc} (hq : s.pc c = q) (hpc : s'.pc = Function.update s.pc c p)
    (hretries : s'.retriesLeft mNumSockets = s.retriesLeft mNumSockets)
    (hin : p.Within mNumSockets) (hrun : p.running = q.running)
    (hsteps : p.steps mNumSockets < q.steps mNumSockets) : Forward mNumSockets s s' c := by
  subst hq
  exact ⟨p, hpc, hin, less_iff.mpr (.inr ⟨hrun, .inr ⟨hretries, .inl hsteps⟩⟩)⟩

/-- A call behind its search is within the pool where its socket is. -/
theorem on_socket (hi : i < mNumSockets) : ∀ j, some i = some j → j < mNumSockets := by
  rintro j ⟨⟩
  exact hi

theorem retriesLeft_setSocket {k : Socket} (hk : k.retries = (s.sockets i).retries) :
    (s.setSocket i k).retriesLeft mNumSockets = s.retriesLeft mNumSockets := by
  refine Finset.sum_congr rfl fun j _ => setSocket_keeps Socket.left j ?_
  rw [Socket.left, hk, Socket.left]

theorem forward_failed (hi : i < mNumSockets) (hrun : (s.pc c).running = 1)
    (hsteps : 1 < (s.pc c).steps mNumSockets) (markClosed : Bool) :
    Forward mNumSockets s (s.failed c i markClosed) c := by
  by_cases hleft : (s.sockets i).retries < MAX_HTTP_RETRIES
  · rw [State.failed, if_pos hleft]
    refine ⟨.retry i, rfl, on_socket hi, less_iff.mpr (.inr ⟨hrun.symm, .inl ?_⟩)⟩
    refine Finset.sum_lt_sum (fun j _ => ?_) ⟨i, Finset.mem_range.mpr hi, ?_⟩
    · by_cases hj : j = i
      · simp [State.goto, State.setSocket, hj, Socket.left]
        omega
      · simp [State.goto, State.setSocket, hj]
    · simp [State.goto, State.setSocket, Socket.left]
      omega
  · rw [State.failed, if_neg hleft]
    refine .nearer rfl rfl ?_ (on_socket hi) hrun.symm hsteps
    refine Finset.sum_congr rfl fun j _ => setSocket_keeps Socket.left j ?_
    simp only [Socket.left]
    omega

/-- A call that goes on receiving, or has received everything, is on its socket. -/
theorem receiveRest_within {data body : List Byte} {header : Header} {remaining : ℕ}
    (hi : i < mNumSockets) : (receiveRest c i data header body remaining).Within mNumSockets := by
  rw [receiveRest]
  split_ifs <;> exact on_socket hi

theorem forward_next (hin : (s.pc c).Within mNumSockets) (he : Enabled mNumSockets s e)
    (hcaller : e.caller = some c) (hstart : ∀ k, e ≠ .start c k) :
    Forward mNumSockets s (next s e) c := by
  cases e with
  | start c' k =>
    obtain rfl := Option.some.inj hcaller
    exact absurd rfl (hstart k)
  | tryLock c' i =>
    obtain rfl := Option.some.inj hcaller
    obtain ⟨hpc, hi⟩ := he
    by_cases ho : (s.sockets i).owner = none
    · simp only [next, if_pos ho]
      refine .nearer hpc rfl (retriesLeft_setSocket rfl) (on_socket hi) rfl ?_
      simp only [Pc.steps]
      omega
    · simp only [next, if_neg ho]
      refine .nearer hpc rfl rfl hi rfl ?_
      simp only [Pc.steps]
      omega
  | noSocket c' i =>
    obtain rfl := Option.some.inj hcaller
    obtain ⟨hpc, -⟩ := he
    rw [hpc] at hin
    refine .nearer hpc rfl rfl (on_socket hin) rfl ?_
    simp only [Pc.steps]
    omega
  | testClosed c' i =>
    obtain rfl := Option.some.inj hcaller
    have hpc : s.pc c' = .testClosed i := he
    have hi : i < mNumSockets := by
      rw [hpc] at hin
      exact hin i rfl
    simp only [next]
    split_ifs <;> exact .nearer hpc rfl rfl (on_socket hi) rfl (by simp [Pc.steps])
  | connect c' i result =>
    obtain rfl := Option.some.inj hcaller
    have hpc : s.pc c' = .connect i := he
    have hi : i < mNumSockets := by
      rw [hpc] at hin
      exact hin i rfl
    cases result <;>
      exact .nearer hpc rfl (retriesLeft_setSocket rfl) (on_socket hi) rfl (by simp [Pc.steps])
  | send c' i ok =>
    obtain rfl := Option.some.inj hcaller
    have hpc : s.pc c' = .send i := he
    have hi : i < mNumSockets := by
      rw [hpc] at hin
      exact hin i rfl
    cases ok with
    | false => exact forward_failed hi (by rw [hpc]; rfl) (by rw [hpc]; simp [Pc.steps]) _
    | true =>
      simp only [next]
      split_ifs <;> exact .nearer hpc rfl rfl (on_socket hi) rfl (by simp [Pc.steps])
  | select c' i ready =>
    obtain rfl := Option.some.inj hcaller
    have hpc : s.pc c' = .select i := he
    have hi : i < mNumSockets := by
      rw [hpc] at hin
      exact hin i rfl
    cases ready <;> exact .nearer hpc rfl rfl (on_socket hi) rfl (by simp [Pc.steps])
  | recv c' i result =>
    obtain rfl := Option.some.inj hcaller
    obtain ⟨hpc, -⟩ := he
    have hi : i < mNumSockets := by
      rw [hpc] at hin
      exact hin i rfl
    cases result with
    | none => exact forward_failed hi (by rw [hpc]; rfl) (by rw [hpc]; simp [Pc.steps]) _
    | some n => exact .nearer hpc rfl rfl (on_socket hi) rfl (by simp [Pc.steps])
  | parseHeader c' i data result =>
    obtain rfl := Option.some.inj hcaller
    have hpc : s.pc c' = .parseHeader i data := he
    have hi : i < mNumSockets := by
      rw [hpc] at hin
      exact hin i rfl
    cases result with
    | none => exact .nearer hpc rfl rfl (on_socket hi) rfl (by simp [Pc.steps])
    | some header =>
      simp only [next]
      split_ifs <;> exact .nearer hpc rfl rfl (on_socket hi) rfl (by simp [Pc.steps])
  | malloc c' i data header ok =>
    obtain rfl := Option.some.inj hcaller
    have hpc : s.pc c' = .malloc i data header := he
    have hi : i < mNumSockets := by
      rw [hpc] at hin
      exact hin i rfl
    cases ok with
    | false => exact .nearer hpc rfl rfl (on_socket hi) rfl (by simp [Pc.steps])
    | true =>
      refine .nearer hpc rfl rfl (receiveRest_within hi) ?_ ?_
      · rw [receiveRest]
        split_ifs <;> rfl
      · rw [receiveRest]
        split_ifs <;> simp [Pc.steps]
  | recvBody c' i data header body remaining result =>
    obtain rfl := Option.some.inj hcaller
    obtain ⟨hpc, hresult⟩ := he
    have hi : i < mNumSockets := by
      rw [hpc] at hin
      exact hin i rfl
    cases result with
    | none => exact forward_failed hi (by rw [hpc]; rfl) (by rw [hpc]; simp [Pc.steps]) _
    | some n =>
      obtain ⟨hpos, hle, -⟩ := hresult
      by_cases hrest : remaining - n = 0
      · refine .nearer hpc rfl rfl (receiveRest_within hi) ?_ ?_
        · rw [receiveRest, if_pos hrest]
          rfl
        · rw [receiveRest, if_pos hrest]
          simp [Pc.steps]
      · -- only here the call is no nearer to its end than by the content it received
        refine ⟨_, rfl, receiveRest_within hi, ?_⟩
        rw [hpc, receiveRest, if_neg hrest]
        refine less_iff.mpr (.inr ⟨rfl, .inr ⟨rfl, .inr ⟨rfl, ?_⟩⟩⟩)
        simp only [Pc.work, Pc.remaining]
        omega
  | reconnect c' i response =>
    obtain rfl := Option.some.inj hcaller
    have hpc : s.pc c' = .reconnect i response := he
    have hi : i < mNumSockets := by
      rw [hpc] at hin
      exact hin i rfl
    simp only [next]
    split_ifs
    · exact .nearer hpc rfl (retriesLeft_setSocket rfl) (on_socket hi) rfl (by simp [Pc.steps])
    · exact .nearer hpc rfl rfl (on_socket hi) rfl (by simp [Pc.steps])
  | leave c' i response =>
    obtain rfl := Option.some.inj hcaller
    have hpc : s.pc c' = .leave i response := he
    exact .ends rfl (by rw [hpc]; rfl)
  | leaveUnlocked c' i =>
    obtain rfl := Option.some.inj hcaller
    have hpc : s.pc c' = .leaveUnlocked i := he
    exact .ends rfl (by rw [hpc]; rfl)
  | retry c' i =>
    obtain rfl := Option.some.inj hcaller
    have hpc : s.pc c' = .retry i := he
    refine .nearer hpc rfl (retriesLeft_setSocket rfl) (Nat.zero_le _) rfl ?_
    simp only [Pc.steps]
    omega
  | answer fd byte last => cases hcaller
  | shut fd => cases hcaller

end Steps

section Calls

variable {s' : State} {p : Pc}

theorem total_update (f : Pc → ℕ) (hc : c < calls) (hpc : s'.pc = Function.update s.pc c p) :
    s'.total calls f + f (s.pc c) = s.total calls f + f p := by
  have hmem := Finset.mem_range.mpr hc
  have hrest : ∑ d ∈ (Finset.range calls).erase c, f (s'.pc d) =
      ∑ d ∈ (Finset.range calls).erase c, f (s.pc d) := by
    refine Finset.sum_congr rfl fun d hd => ?_
    rw [hpc, Function.update_of_ne (Finset.ne_of_mem_erase hd)]
  have hnew := Finset.add_sum_erase _ (fun d => f (s'.pc d)) hmem
  have hold := Finset.add_sum_erase _ (fun d => f (s.pc d)) hmem
  simp only [hpc, Function.update_self] at hnew hrest
  simp only [State.total, hpc]
  omega

/-- What brings one call forward leaves less to be done by all. -/
theorem Forward.less (h : Forward mNumSockets s s' c) (hc : c < calls) :
    Less (s'.work mNumSockets calls) (s.work mNumSockets calls) := by
  obtain ⟨p, hpc, -, hless⟩ := h
  have hrunning := total_update Pc.running hc hpc
  have hsteps := total_update (Pc.steps mNumSockets) hc hpc
  have hremaining := total_update Pc.remaining hc hpc
  rw [less_iff] at hless ⊢
  simp only [Pc.work, State.work] at hless ⊢
  omega

theorem running_of_enabled (he : Enabled mNumSockets s e) (hcaller : e.caller = some c)
    (hstart : ∀ k, e ≠ .start c k) : s.pc c ≠ .idle := by
  intro hidle
  cases e <;> cases hcaller
  case start k => exact hstart k rfl
  all_goals simp [Enabled, hidle] at he

theorem bounded_initial : Bounded mNumSockets 0 initial :=
  ⟨fun _ _ => rfl, fun _ _ h => by cases h⟩

theorem Bounded.lt (h : Bounded mNumSockets calls s) (hc : s.pc c ≠ .idle) : c < calls :=
  Nat.lt_of_not_le fun hle => hc (h.idle c hle)

theorem Bounded.update (h : Bounded mNumSockets calls s)
    (hpc : s'.pc = Function.update s.pc c p) (hp : p.Within mNumSockets) (hc : c < calls) :
    Bounded mNumSockets calls s' := by
  constructor
  · intro d hd
    rw [hpc, Function.update_of_ne (by omega), h.idle d hd]
  · intro d
    by_cases hdc : d = c
    · rw [hpc, hdc, Function.update_self]
      exact hp
    · rw [hpc, Function.update_of_ne hdc]
      exact h.within d

theorem Bounded.mono {calls' : ℕ} (h : Bounded mNumSockets calls s) (hle : calls ≤ calls') :
    Bounded mNumSockets calls' s :=
  ⟨fun c hc => h.idle c (hle.trans hc), h.within⟩

theorem Bounded.callStep (h : Bounded mNumSockets calls s) (he : Enabled mNumSockets s e)
    (hcall : CallStep s e) : Bounded mNumSockets calls (next s e) ∧
      Less ((next s e).work mNumSockets calls) (s.work mNumSockets calls) := by
  obtain ⟨⟨c, hcaller⟩, hstart⟩ := hcall
  have hc := h.lt (running_of_enabled he hcaller (hstart c))
  have hforward := forward_next (h.within c) he hcaller (hstart c)
  refine ⟨?_, hforward.less hc⟩
  obtain ⟨p, hpc, hp, -⟩ := hforward
  exact h.update hpc hp hc

theorem serverStep_keeps (hserver : ServerStep s e) :
    (next s e).pc = s.pc ∧ (next s e).sockets = s.sockets := by
  cases e with
  | answer fd byte last => exact ⟨rfl, rfl⟩
  | shut fd => exact ⟨rfl, rfl⟩
  | _ => cases hserver

theorem Bounded.serverStep (h : Bounded mNumSockets calls s) (hserver : ServerStep s e) :
    Bounded mNumSockets calls (next s e) := by
  obtain ⟨hpc, -⟩ := serverStep_keeps hserver
  exact ⟨fun c hc => by rw [hpc, h.idle c hc], fun c => hpc ▸ h.within c⟩

theorem work_serverStep (hserver : ServerStep s e) :
    (next s e).work mNumSockets calls = s.work mNumSockets calls := by
  obtain ⟨hpc, hsockets⟩ := serverStep_keeps hserver
  simp only [State.work, State.total, State.retriesLeft, hpc, hsockets]

theorem reachable_bounded (h : Reachable (system mNumSockets) s) :
    ∃ calls, Bounded mNumSockets calls s := by
  refine h.invariant (I := fun s => ∃ calls, Bounded mNumSockets calls s) ?_ ?_
  · rintro s rfl
    exact ⟨0, bounded_initial⟩
  · rintro s e ⟨calls, hs⟩ he -
    by_cases hserver : e.caller = none
    · exact ⟨calls, hs.serverStep hserver⟩
    · by_cases hstart : ∃ c k, e = .start c k
      · obtain ⟨c, k, rfl⟩ := hstart
        exact ⟨calls + c + 1, (hs.mono (by omega)).update rfl (Nat.zero_le _) (by omega)⟩
      · refine ⟨calls, (hs.callStep he ⟨?_, fun c k heq => hstart ⟨c, k, heq⟩⟩).1⟩
        exact Option.ne_none_iff_exists'.mp hserver

/-- A call that has begun can go on at once: its search does not wait for a mutex, and a system
call comes back, if only with a failure. -/
theorem call_ready (hpool : 0 < mNumSockets) (h : Bounded mNumSockets calls s)
    (hidle : s.pc c ≠ .idle) (hreturned : s.pc c ≠ .returned) :
    ∃ e, Enabled mNumSockets s e ∧ e.caller = some c ∧ ∀ k, e ≠ .start c k := by
  have hin := h.within c
  cases hpc : s.pc c with
  | idle => exact absurd hpc hidle
  | returned => exact absurd hpc hreturned
  | tryLock i =>
    rw [hpc] at hin
    rcases Nat.lt_or_eq_of_le hin with hi | rfl
    · exact ⟨.tryLock c i, ⟨hpc, hi⟩, rfl, by rintro k ⟨⟩⟩
    · obtain ⟨j, rfl⟩ := Nat.exists_eq_succ_of_ne_zero hpool.ne'
      exact ⟨.noSocket c j, ⟨hpc, Nat.lt_irrefl _⟩, rfl, by rintro k ⟨⟩⟩
  | testClosed i => exact ⟨.testClosed c i, hpc, rfl, by rintro k ⟨⟩⟩
  | connect i => exact ⟨.connect c i .failed, hpc, rfl, by rintro k ⟨⟩⟩
  | send i => exact ⟨.send c i false, hpc, rfl, by rintro k ⟨⟩⟩
  | select i => exact ⟨.select c i false, hpc, rfl, by rintro k ⟨⟩⟩
  | recv i => exact ⟨.recv c i none, ⟨hpc, trivial⟩, rfl, by rintro k ⟨⟩⟩
  | parseHeader i data => exact ⟨.parseHeader c i data none, hpc, rfl, by rintro k ⟨⟩⟩
  | malloc i data header => exact ⟨.malloc c i data header false, hpc, rfl, by rintro k ⟨⟩⟩
  | recvBody i data header body remaining =>
    exact ⟨.recvBody c i data header body remaining none, ⟨hpc, trivial⟩, rfl, by rintro k ⟨⟩⟩
  | reconnect i response => exact ⟨.reconnect c i response, hpc, rfl, by rintro k ⟨⟩⟩
  | leave i response => exact ⟨.leave c i response, hpc, rfl, by rintro k ⟨⟩⟩
  | leaveUnlocked i => exact ⟨.leaveUnlocked c i, hpc, rfl, by rintro k ⟨⟩⟩
  | retry i => exact ⟨.retry c i, hpc, rfl, by rintro k ⟨⟩⟩

end Calls

/-- No call is on its way. -/
def AllReturned (s : State) : Prop := ∀ c, s.pc c = .idle ∨ s.pc c = .returned

/-- From every reachable state, when no further call is made, all calls return, in whatever order
they take their steps, whatever each system call gives, and whatever the server sends meanwhile. -/
theorem calls_return (hpool : 0 < mNumSockets) (h : Reachable (system mNumSockets) s) :
    InevitableAmid (system mNumSockets) ServerStep CallStep AllReturned s := by
  obtain ⟨calls, hbounded⟩ := reachable_bounded h
  refine .of_variant (I := Bounded mNumSockets calls) less_wellFounded
    (fun s => s.work mNumSockets calls) ?_ ?_ ?_ hbounded
  · intro s e hs hgoal _ hserver
    refine ⟨hs.serverStep hserver, ?_, work_serverStep hserver⟩
    rw [AllReturned]
    exact (serverStep_keeps hserver).1 ▸ hgoal
  · intro s hs hgoal
    obtain ⟨c, hc⟩ := not_forall.mp hgoal
    obtain ⟨hidle, hreturned⟩ := not_or.mp hc
    obtain ⟨e, he, hcaller, hstart⟩ := call_ready hpool hs hidle hreturned
    refine ⟨e, he, ⟨c, hcaller⟩, ?_⟩
    rintro d k rfl
    obtain rfl := Option.some.inj hcaller
    exact hstart k rfl
  · intro s e hs _ he hcall
    exact .inr (hs.callStep he hcall)

/-- Two calls that share one socket: one has sent its request, the other finds no socket. -/
theorem calls_return_one_socket :
    InevitableAmid (system 1) ServerStep CallStep AllReturned
      (runTrace (system 1) initial [.start 0 .getBlob, .start 1 .doRequest, .tryLock 0 0,
        .tryLock 1 0, .testClosed 0 0, .connect 0 0 .connected, .send 0 0 true]) :=
  calls_return (by decide) (reachable_trace rfl _ (by decide))

end RestSocketPool
