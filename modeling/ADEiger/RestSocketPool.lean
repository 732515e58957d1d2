import ADEiger.TransitionSystem
import ADEiger.Connection
import Mathlib.Algebra.Group.Nat.Defs
import Mathlib.Data.Int.Notation
import Mathlib.Logic.Function.Basic

/-! The socket pool of the REST client: any number of calls of doRequest and getBlob over
`mNumSockets` kept-alive connections to one server. A call owns a socket through its
mutex; a step is one access to a shared socket or one system call, and a system call's
outcome belongs to the event. A descriptor number is never used again, so that two
connections are never confused. -/
namespace RestSocketPool

open TransitionSystem

def MAX_HTTP_RETRIES : ℕ := 1
def MAX_MESSAGE_SIZE : ℕ := 512
def INVALID_SOCKET : ℤ := -1

/-- `socket_t`; `owner` is the call that holds `mutex`. -/
structure Socket where
  fd : ℤ
  owner : Option ℕ
  closed : Bool
  retries : ℕ
  deriving DecidableEq, Repr

/-- The fields of `response_t` that parseHeader fills in. -/
structure Header where
  code : ℤ
  contentLength : ℕ
  headerLen : ℕ
  reconnect : Bool
  deriving DecidableEq, Repr

/-- A received byte with the call whose request the server answered by it. -/
abbrev Byte := ℕ × UInt8

/-- What a successful call hands to its caller: the bytes of the first `recv`, which
`content` points into, and for getBlob the bytes received after them. -/
structure Response where
  call : ℕ
  header : Header
  data : List Byte
  body : List Byte
  deriving DecidableEq, Repr

inductive Kind where
  | doRequest | getBlob
  deriving DecidableEq, Repr

inductive ConnectResult where
  | noSocket | failed | connected
  deriving DecidableEq, Repr

/-- Where a call stands; `i` is the socket it works on. -/
inductive Pc where
  | idle
  | tryLock (i : ℕ)
  | testClosed (i : ℕ)
  | connect (i : ℕ)
  | send (i : ℕ)
  | select (i : ℕ)
  | recv (i : ℕ)
  | parseHeader (i : ℕ) (data : List Byte)
  | malloc (i : ℕ) (data : List Byte) (header : Header)
  | recvBody (i : ℕ) (data : List Byte) (header : Header) (body : List Byte) (remaining : ℕ)
  | reconnect (i : ℕ) (response : Response)
  | leave (i : ℕ) (response : Option Response)
  | leaveUnlocked (i : ℕ)
  | retry (i : ℕ)
  | returned
  deriving DecidableEq, Repr

/-- The fields from `closes` on are histories: no step reads them. -/
structure State where
  sockets : ℕ → Socket
  kind : ℕ → Kind
  pc : ℕ → Pc
  connections : ℤ → Connection ℕ UInt8
  nextFd : ℤ
  closes : List ℤ
  transmitted : List ℕ
  responses : List Response

def initial : State where
  sockets := fun _ => ⟨INVALID_SOCKET, none, true, 0⟩
  kind := fun _ => .doRequest
  pc := fun _ => .idle
  connections := fun _ => .fresh
  nextFd := 0
  closes := []
  transmitted := []
  responses := []

/-- `answer` and `shut` are the server's steps; the others are steps of call `c`. -/
inductive Event where
  | start (c : ℕ) (k : Kind)
  | tryLock (c i : ℕ)
  | noSocket (c i : ℕ)
  | testClosed (c i : ℕ)
  | connect (c i : ℕ) (result : ConnectResult)
  | send (c i : ℕ) (ok : Bool)
  | select (c i : ℕ) (ready : Bool)
  | recv (c i : ℕ) (result : Option ℕ)
  | parseHeader (c i : ℕ) (data : List Byte) (result : Option Header)
  | malloc (c i : ℕ) (data : List Byte) (header : Header) (ok : Bool)
  | recvBody (c i : ℕ) (data : List Byte) (header : Header) (body : List Byte)
      (remaining : ℕ) (result : Option ℕ)
  | reconnect (c i : ℕ) (response : Response)
  | leave (c i : ℕ) (response : Option Response)
  | leaveUnlocked (c i : ℕ)
  | retry (c i : ℕ)
  | answer (fd : ℤ) (byte : UInt8) (last : Bool)
  | shut (fd : ℤ)

/-- The connection behind the descriptor of a socket. -/
def State.connection (s : State) (i : ℕ) : Connection ℕ UInt8 :=
  s.connections (s.sockets i).fd

/-- A positive result of `recv` is at most what is there and what was asked for. -/
def RecvResult (s : State) (i asked : ℕ) : Option ℕ → Prop
  | none => True
  | some n => 0 < n ∧ n ≤ asked ∧ n ≤ (s.connection i).unread.length

instance (s : State) (i asked : ℕ) : (r : Option ℕ) → Decidable (RecvResult s i asked r) := by
  rintro ⟨⟩ <;> simp only [RecvResult] <;> infer_instance

def Enabled (mNumSockets : ℕ) (s : State) : Event → Prop
  | .start c _ => s.pc c = .idle
  | .tryLock c i => s.pc c = .tryLock i ∧ i < mNumSockets
  | .noSocket c i => s.pc c = .tryLock (i + 1) ∧ ¬ i + 1 < mNumSockets
  | .testClosed c i => s.pc c = .testClosed i
  | .connect c i _ => s.pc c = .connect i
  | .send c i _ => s.pc c = .send i
  | .select c i _ => s.pc c = .select i
  | .recv c i result => s.pc c = .recv i ∧ RecvResult s i MAX_MESSAGE_SIZE result
  | .parseHeader c i data _ => s.pc c = .parseHeader i data
  | .malloc c i data header _ => s.pc c = .malloc i data header
  | .recvBody c i data header body remaining result =>
    s.pc c = .recvBody i data header body remaining ∧ RecvResult s i remaining result
  | .reconnect c i response => s.pc c = .reconnect i response
  | .leave c i response => s.pc c = .leave i response
  | .leaveUnlocked c i => s.pc c = .leaveUnlocked i
  | .retry c i => s.pc c = .retry i
  | .answer _ _ _ => True
  | .shut _ => True

instance (mNumSockets : ℕ) (s : State) : (e : Event) → Decidable (Enabled mNumSockets s e) := by
  rintro ⟨⟩ <;> simp only [Enabled] <;> infer_instance

def State.goto (s : State) (c : ℕ) (pc : Pc) : State :=
  { s with pc := Function.update s.pc c pc }

def State.setSocket (s : State) (i : ℕ) (k : Socket) : State :=
  { s with sockets := Function.update s.sockets i k }

def State.setConnection (s : State) (fd : ℤ) (x : Connection ℕ UInt8) : State :=
  { s with connections := Function.update s.connections fd x }

/-- What a write to one socket does not change there, it changes nowhere. -/
theorem setSocket_keeps {α : Type*} {s : State} {i : ℕ} {k : Socket} (f : Socket → α)
    (j : ℕ) (hk : f k = f (s.sockets i)) :
    f ((s.setSocket i k).sockets j) = f (s.sockets j) := by
  by_cases hj : j = i
  · rw [hj, ← hk]
    exact congrArg f (Function.update_self ..)
  · exact congrArg f (Function.update_of_ne hj _ _)

theorem setSocket_release {s : State} {i : ℕ} {k : Socket} (j : ℕ) (hk : k.owner = none) :
    ((s.setSocket i k).sockets j).owner = if j = i then none else (s.sockets j).owner := by
  by_cases hj : j = i
  · rw [if_pos hj, hj, ← hk]
    exact congrArg Socket.owner (Function.update_self ..)
  · rw [if_neg hj]
    exact congrArg Socket.owner (Function.update_of_ne hj _ _)

/-- `if(s->retries++ < MAX_HTTP_RETRIES) goto retry; else ... goto end;`. The flag says
whether the error branch also marks the socket closed. -/
def State.failed (s : State) (c i : ℕ) (markClosed : Bool) : State :=
  let k := s.sockets i
  if k.retries < MAX_HTTP_RETRIES then
    (s.setSocket i { k with retries := k.retries + 1 }).goto c (.retry i)
  else
    (s.setSocket i { k with retries := k.retries + 1, closed := k.closed || markClosed }).goto c
      (.leave i none)

/-- The difference of two `size_t` values. -/
def subSize (a b : ℕ) : ℕ := (a + 2 ^ 64 - b) % 2 ^ 64

/-- The head of the loop that receives the rest of the content. -/
def receiveRest (c i : ℕ) (data : List Byte) (header : Header) (body : List Byte)
    (remaining : ℕ) : Pc :=
  if remaining = 0 then .reconnect i ⟨c, header, data, body⟩
  else .recvBody i data header body remaining

def next (s : State) : Event → State
  | .start c k => { s.goto c (.tryLock 0) with kind := Function.update s.kind c k }
  | .tryLock c i =>
    if (s.sockets i).owner = none then
      (s.setSocket i { s.sockets i with owner := some c }).goto c (.testClosed i)
    else s.goto c (.tryLock (i + 1))
  -- `s` still points to the last socket of the loop
  | .noSocket c i => s.goto c (.leaveUnlocked i)
  | .testClosed c i =>
    s.goto c (if (s.sockets i).closed then .connect i else .send i)
  | .connect c i .noSocket =>
    (s.setSocket i { s.sockets i with fd := INVALID_SOCKET }).goto c (.leave i none)
  | .connect c i .failed =>
    { (s.setSocket i { s.sockets i with fd := s.nextFd }).goto c (.leave i none) with
      nextFd := s.nextFd + 1, closes := s.closes ++ [s.nextFd] }
  | .connect c i .connected =>
    { ((s.setSocket i { s.sockets i with fd := s.nextFd, closed := false }).setConnection
        s.nextFd .fresh).goto c (.send i) with nextFd := s.nextFd + 1 }
  | .send c i true =>
    { (s.setConnection (s.sockets i).fd ((s.connection i).transmit c)).goto c
        (if s.kind c = .doRequest then .select i else .recv i) with
      transmitted := s.transmitted ++ [c] }
  -- only doRequest marks the socket closed
  | .send c i false => s.failed c i (s.kind c == .doRequest)
  | .select c i ready => s.goto c (if ready then .recv i else .leave i none)
  | .recv c i none => s.failed c i false
  | .recv c i (some n) =>
    (s.setConnection (s.sockets i).fd ((s.connection i).read n)).goto c
      (.parseHeader i ((s.connection i).unread.take n))
  | .parseHeader c i _ none => s.goto c (.leave i none)
  | .parseHeader c i data (some h) =>
    s.goto c (if s.kind c = .doRequest then .reconnect i ⟨c, h, data, []⟩
      else if h.code ≠ 200 then .leave i none
      else .malloc i data h)
  | .malloc c i _ _ false => s.goto c (.leave i none)
  | .malloc c i data h true =>
    s.goto c (receiveRest c i data h [] (subSize h.contentLength (subSize data.length h.headerLen)))
  | .recvBody c i _ _ _ _ none => s.failed c i false
  | .recvBody c i data h body remaining (some n) =>
    (s.setConnection (s.sockets i).fd ((s.connection i).read n)).goto c
      (receiveRest c i data h (body ++ (s.connection i).unread.take n) (remaining - n))
  | .reconnect c i response =>
    if response.header.reconnect then
      { (s.setSocket i { s.sockets i with closed := true }).goto c (.leave i (some response)) with
        closes := s.closes ++ [(s.sockets i).fd] }
    else s.goto c (.leave i (some response))
  | .leave c i response =>
    { (s.setSocket i { s.sockets i with retries := 0, owner := none }).goto c .returned with
      responses := s.responses ++ response.toList }
  -- the unlock of a mutex that another call owns is refused
  | .leaveUnlocked c i => (s.setSocket i { s.sockets i with retries := 0 }).goto c .returned
  | .retry c i =>
    { (s.setSocket i { s.sockets i with closed := true, owner := none }).goto c (.tryLock 0) with
      closes := s.closes ++ [(s.sockets i).fd] }
  | .answer fd byte last => s.setConnection fd ((s.connections fd).answer byte last)
  | .shut fd => s.setConnection fd (s.connections fd).shut

def system (mNumSockets : ℕ) : System State Event where
  Start s := s = initial
  Enabled := Enabled mNumSockets
  next := next

instance (mNumSockets : ℕ) (s : State) (e : Event) :
    Decidable ((system mNumSockets).Enabled s e) :=
  inferInstanceAs (Decidable (Enabled mNumSockets s e))

end RestSocketPool
