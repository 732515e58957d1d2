import ADEiger.Loop
import ADEiger.RestHeader
import ADEiger.RestSocketPool
import Mathlib.Logic.Relation

/-! A file of the detector.
`getBlob` takes what one `recv` gives, header and the beginning of the body, and then receives
the rest of the body; a connection that fails is closed and the whole exchange is made again. -/
namespace RestBlob

open CString RestResponse
open RestSocketPool (MAX_HTTP_RETRIES)

/-- What is asked of `recv` and still unread. `result` is the number of bytes it could give;
`none` stands for what is not above 0. -/
def recv (asked : ℕ) (result : Option ℕ) (unread : Text) : Option (Text × Text) :=
  result.bind fun n =>
    let n := min n (min asked unread.length)
    if n = 0 then none else some (unread.take n, unread.drop n)

/-- A length in an `int`. -/
def asInt (n : ℕ) : ℤ := Int.bmod n (2 ^ 32)

/-- Bytes that `malloc` gave and nothing wrote are `none`. -/
abbrev Memory := List (Option Char)

def write (buf : Memory) (pos : ℕ) (piece : Text) : Memory :=
  buf.take pos ++ (piece.map some ++ buf.drop (pos + piece.length))

/-- `*buf` and `*bufSize`. -/
structure Blob where
  buf : Option Memory
  bufSize : ℕ
  deriving DecidableEq

structure Socket where
  closed : Bool
  retries : ℕ
  deriving DecidableEq

/-- The loop over the rest of the body; `bufp` is an offset in `buf`. -/
structure Cursor where
  buf : Memory
  bufp : ℕ
  remaining : ℕ
  unread : Text
  turn : ℕ

inductive Stop where
  | failed | undefined | stuck
  deriving DecidableEq

def receivePiece (recvs : ℕ → Option ℕ) (c : Cursor) : Except Stop Cursor :=
  match recv c.remaining (recvs c.turn) c.unread with
  | none => .error .failed
  | some (piece, unread) =>
    let received := asInt piece.length
    if c.buf.length < c.bufp + piece.length then .error .undefined
    else if received ≤ 0 then .error .failed
    else .ok {
      buf := write c.buf c.bufp piece
      bufp := c.bufp + received.toNat
      remaining := sizeT (c.remaining - received)
      unread := unread
      turn := c.turn + 1 }

/-- `while(remaining)`. -/
def receiveRest (recvs : ℕ → Option ℕ) : Cursor → Except Stop Cursor :=
  Loop.whileLoop (fun c => c.remaining ≠ 0) (receivePiece recvs) .stuck Cursor.remaining

/-- What one pass through `getBlob` meets: the socket that it locks, how the calls end, all
that the connection will give, and the memory behind what the first `recv` gives. -/
structure Attempt where
  socket : Option Socket
  connects : Bool
  sends : Bool
  stream : Text
  first : Option ℕ
  behind : Stack
  mallocs : Bool
  recvs : ℕ → Option ℕ

inductive Outcome where
  | returns (success : Bool) (blob : Blob) (left : Option Socket)
  | retry (blob : Blob) (left : Socket)
  | undefined
  | stuck
  deriving DecidableEq

/-- `if(s->retries++ < MAX_HTTP_RETRIES) goto retry;` -/
def again (s : Socket) (blob : Blob) : Outcome :=
  if s.retries < MAX_HTTP_RETRIES then .retry blob ⟨true, s.retries + 1⟩
  else .returns false blob (some { s with retries := 0 })

/-- The buffer with the content that came with the header, and no byte from behind it. -/
def firstPart (received behind unread : Text) (response : Parsed) : Except Stop Cursor :=
  let contentLength := response.header.contentLength
  let bufSize := sizeT (asInt received.length - response.headerLen)
  if response.header.content.length < bufSize + behind.length ∨ contentLength < bufSize then
    .error .undefined
  else .ok {
    buf := write (List.replicate contentLength none) 0 (response.header.content.take bufSize)
    bufp := bufSize
    remaining := sizeT (contentLength - bufSize)
    unread := unread
    turn := 0 }

/-- How a pass ends whose loop stopped; memory that was allocated is freed. -/
def finish (s : Socket) (response : Parsed) : Except Stop Cursor → Outcome
  | .error .failed => again s ⟨none, 0⟩
  | .error .undefined => .undefined
  | .error .stuck => .stuck
  | .ok c => .returns true ⟨some c.buf, response.header.contentLength⟩
      (some ⟨response.header.reconnect, 0⟩)

def receiveBody (a : Attempt) (s : Socket) (received unread : Text) (response : Parsed) :
    Outcome :=
  finish s response
    ((firstPart received a.behind.bytes unread response).bind (receiveRest a.recvs))

/-- One pass through `getBlob`. -/
def exchange (blob : Blob) (a : Attempt) : Outcome :=
  match a.socket with
  | none => .returns false blob none
  | some s =>
    if s.closed && !a.connects then .returns false blob (some { s with retries := 0 })
    else
      let s := { s with closed := false }
      if !a.sends then again s blob
      else match recv MAX_MESSAGE_SIZE a.first a.stream with
        | none => again s blob
        | some (received, unread) =>
          match parseBuffer (received ++ a.behind.bytes) with
          | none => .undefined
          | some none => .returns false blob (some { s with retries := 0 })
          | some (some response) =>
            if response.header.code ≠ 200 then .returns false blob (some { s with retries := 0 })
            else if !a.mallocs then
              .returns false { blob with buf := none } (some { s with retries := 0 })
            else receiveBody a s received unread response

/-- The number of retries and how the last pass ends; `none` while the call still runs. -/
def getBlob : Blob → List Attempt → Option (ℕ × Outcome)
  | _, [] => none
  | blob, a :: attempts =>
    match exchange blob a with
    | .retry blob _ => (getBlob blob attempts).map fun o => (o.1 + 1, o.2)
    | o => some (0, o)

section Loop

variable {recvs : ℕ → Option ℕ} {c c' : Cursor} {body piece unread : Text} {n asked : ℕ}
  {result : Option ℕ} {buf : Memory}

theorem recv_eq (h : recv asked result unread = some (piece, body)) :
    unread = piece ++ body ∧ 0 < piece.length ∧ piece.length ≤ asked := by
  obtain ⟨n, -, h⟩ := Option.bind_eq_some_iff.mp h
  dsimp only at h
  split_ifs at h with hzero
  obtain ⟨rfl, rfl⟩ := Prod.mk.inj (Option.some.inj h)
  refine ⟨(List.take_append_drop ..).symm, ?_, ?_⟩ <;> rw [List.length_take] <;> omega

theorem bmod_le (n m : ℕ) : Int.bmod n m ≤ n := by
  have hmod : (n : ℤ) % (m : ℤ) ≤ n := by
    rw [← Int.natCast_emod]
    exact Int.ofNat_le.mpr (Nat.mod_le n m)
  rw [Int.bmod_def]
  split_ifs <;> omega

theorem asInt_le (n : ℕ) : (asInt n).toNat ≤ n := by
  unfold asInt
  generalize 2 ^ 32 = m
  exact Int.toNat_le.mpr (bmod_le n m)

theorem asInt_eq (h : n < 2 ^ 31) : asInt n = n := by
  have hm : n < (2 ^ 32 + 1) / 2 := by omega
  unfold asInt
  generalize 2 ^ 32 = m at hm
  exact Int.bmod_eq_of_le (by omega) (by omega)

theorem sizeT_sub {k : ℤ} (hk : 0 ≤ k) (hle : k.toNat ≤ n) (hn : n < 2 ^ 64) :
    sizeT (n - k) = n - k.toNat := by
  rw [sizeT]
  omega

theorem length_write (h : n + piece.length ≤ buf.length) :
    (write buf n piece).length = buf.length := by
  simp only [write, List.length_append, List.length_take, List.length_map, List.length_drop]
  omega

theorem take_write (h : n + piece.length ≤ buf.length) :
    (write buf n piece).take (n + piece.length) = buf.take n ++ piece.map some := by
  have hn : (buf.take n).length = n := by
    rw [List.length_take]
    omega
  rw [write, ← List.append_assoc]
  apply List.take_left'
  rw [List.length_append, hn, List.length_map]

/-- The cursors add up to the length of the body; while no count was cut in its `int`, the
buffer has the body up to `bufp`, and the rest is unread. -/
structure Tracks (body : Text) (c : Cursor) : Prop where
  cursors : c.bufp + c.remaining = body.length
  left : c.unread.length ≤ c.remaining
  size : c.buf.length = body.length
  stored : c.unread.length = c.remaining →
    c.unread = body.drop c.bufp ∧ c.buf.take c.bufp = (body.take c.bufp).map some

theorem receivePiece_ok (h : receivePiece recvs c = .ok c') :
    ∃ piece, c.unread = piece ++ c'.unread ∧ piece.length ≤ c.remaining ∧
      c.bufp + piece.length ≤ c.buf.length ∧ 0 < asInt piece.length ∧
      c'.buf = write c.buf c.bufp piece ∧ c'.bufp = c.bufp + (asInt piece.length).toNat ∧
      c'.remaining = sizeT (c.remaining - asInt piece.length) := by
  rw [receivePiece] at h
  rcases hr : recv c.remaining (recvs c.turn) c.unread with _ | ⟨piece, unread⟩
  · simp [hr] at h
  · rw [hr] at h
    obtain ⟨hsplit, -, hle⟩ := recv_eq hr
    obtain ⟨hfits, h⟩ := Loop.guard_ok h
    obtain ⟨hpos, h⟩ := Loop.guard_ok h
    obtain rfl := Except.ok.inj h
    exact ⟨piece, hsplit, hle, Nat.not_lt.mp hfits, Int.not_le.mp hpos, rfl, rfl, by simp only⟩

theorem Tracks.step (hc : Tracks body c) (hbody : body.length < 2 ^ 64)
    (h : receivePiece recvs c = .ok c') :
    Tracks body c' ∧ c'.remaining < c.remaining := by
  obtain ⟨piece, hunread, hle, hfits, hpos, hbuf, hbufp, hremaining⟩ := receivePiece_ok h
  obtain ⟨hcursors, hleft, hsize, hstored⟩ := hc
  have hcount := asInt_le piece.length
  have hlen : c.unread.length = piece.length + c'.unread.length := by
    rw [hunread, List.length_append]
  have hremaining' : c'.remaining = c.remaining - (asInt piece.length).toNat := by
    rw [hremaining]
    exact sizeT_sub (Int.le_of_lt hpos) (by omega) (by omega)
  have hdown : c'.remaining < c.remaining := by omega
  refine ⟨⟨by omega, by omega, ?_, ?_⟩, hdown⟩
  · rw [hbuf, length_write hfits, hsize]
  · intro hsame
    have hwhole : (asInt piece.length).toNat = piece.length := by omega
    obtain ⟨hdrop, htake⟩ := hstored (by omega)
    have hpiece : piece = (body.drop c.bufp).take piece.length := by
      rw [← hdrop, hunread, List.take_left]
    rw [hbufp, hwhole]
    constructor
    · rw [← List.drop_drop, ← hdrop, hunread, List.drop_left]
    · rw [hbuf, take_write hfits, htake, List.take_add, List.map_append, ← hpiece]

theorem Tracks.defined (hc : Tracks body c) : receivePiece recvs c ≠ .error .undefined := by
  rw [receivePiece]
  rcases hr : recv c.remaining (recvs c.turn) c.unread with _ | ⟨piece, unread⟩
  · nofun
  · obtain ⟨hsplit, -, hle⟩ := recv_eq hr
    have hcursors := hc.cursors
    have hsize := hc.size
    dsimp only
    rw [if_neg (by omega)]
    split_ifs
    · nofun
    · nofun

theorem receivePiece_error {e : Stop} (h : receivePiece recvs c = .error e) : e ≠ .stuck := by
  rw [receivePiece] at h
  rcases hr : recv c.remaining (recvs c.turn) c.unread with _ | ⟨piece, unread⟩
  · rw [hr] at h
    obtain rfl := Except.error.inj h
    decide
  · rw [hr] at h
    dsimp only at h
    split_ifs at h
    · obtain rfl := Except.error.inj h
      decide
    · obtain rfl := Except.error.inj h
      decide

/-- The loop receives the rest of the body, or a `recv` fails. -/
theorem receiveRest_tracks (hc : Tracks body c) (hbody : body.length < 2 ^ 64) :
    receiveRest recvs c = .error .failed ∨
      ∃ c', receiveRest recvs c = .ok c' ∧ c'.buf = body.map some := by
  have hd : Loop.Decreasing (Tracks body) (fun c => c.remaining ≠ 0) (receivePiece recvs)
      Cursor.remaining :=
    ⟨fun _ _ hc _ h => (hc.step hbody h).1, fun _ _ hc _ h => (hc.step hbody h).2⟩
  cases h : receiveRest recvs c with
  | error e =>
    obtain ⟨t, ht, -, herror⟩ := Loop.whileLoop_error hd hc h
    cases e with
    | failed => exact .inl rfl
    | undefined => exact absurd herror ht.defined
    | stuck => exact absurd rfl (receivePiece_error herror)
  | ok c' =>
    obtain ⟨hc', hdone⟩ := Loop.whileLoop_invariant (fun _ _ hc _ h => (hc.step hbody h).1) hc h
    have hzero : c'.remaining = 0 := by simpa using hdone
    obtain ⟨hcursors, hleft, hsize, hstored⟩ := hc'
    obtain ⟨-, htake⟩ := hstored (by omega)
    have hend : c'.bufp = body.length := by omega
    rw [hend, List.take_length, ← hsize, List.take_length] at htake
    exact .inr ⟨c', rfl, htake⟩

end Loop

/-- The response that an attempt meets: nothing else is unread, the length announced is that of
the body, and the first `recv` gives the header at least. -/
structure Attempt.Serves (a : Attempt) (r : Response) : Prop where
  legible : r.Legible
  length : r.Announced r.body.length
  stream : a.stream = r.bytes
  header : ∀ received unread, recv MAX_MESSAGE_SIZE a.first a.stream = some (received, unread) →
    r.header.length ≤ received.length

/-- An attempt that stores a part of the body, however small. -/
def Attempt.Begins (a : Attempt) : Prop :=
  ∃ s received unread response, a.socket = some s ∧ (s.closed && !a.connects) = false ∧
    a.sends = true ∧ recv MAX_MESSAGE_SIZE a.first a.stream = some (received, unread) ∧
    parseBuffer (received ++ a.behind.bytes) = some (some response) ∧
    response.header.code = 200 ∧ a.mallocs = true

/-- The states of the loop over the rest of the body. -/
def Attempt.Reaches (a : Attempt) (c : Cursor) : Prop :=
  ∃ received unread response c₀, recv MAX_MESSAGE_SIZE a.first a.stream = some (received, unread) ∧
    parseBuffer (received ++ a.behind.bytes) = some (some response) ∧
    firstPart received a.behind.bytes unread response = .ok c₀ ∧
    Relation.ReflTransGen (fun c c' => c.remaining ≠ 0 ∧ receivePiece a.recvs c = .ok c') c₀ c

/-- An attempt that comes to the parsing of what it received. -/
def Attempt.Parses (a : Attempt) : Prop :=
  ∃ s, a.socket = some s ∧ (s.closed && !a.connects) = false ∧ a.sends = true ∧
    (recv MAX_MESSAGE_SIZE a.first a.stream).isSome = true

/-- Where an attempt parses its response, the words of the connection fields fit. -/
def Attempt.Fits (a : Attempt) : Prop := ∀ r, a.Serves r → a.Parses → ShortOptions r.fields

/-- An attempt that is not made again. -/
def Attempt.Last (a : Attempt) : Prop := ∀ s, a.socket = some s → MAX_HTTP_RETRIES ≤ s.retries

section Exchange

variable {a : Attempt} {r : Response} {blob : Blob} {received unread value : Text} {n m : ℕ}

theorem announces_eq (h : Announces n value) :
    n = Nat.ofDigitChars 10 ((value.dropWhile EigerParams.isSpace).takeWhile Char.isDigit) 0 := by
  obtain ⟨before, digits, after, rfl, hbefore, hafter, hne, hdigits, rfl⟩ := h
  obtain ⟨x, ds, rfl⟩ := List.exists_cons_of_ne_nil hne
  have hstart : EigerParams.isSpace x = false :=
    (isSpace_of_isDigit (hdigits x List.mem_cons_self)).1
  have hend : after.takeWhile Char.isDigit = [] := by
    cases after with
    | nil => rfl
    | cons c after =>
      refine List.takeWhile_cons_of_neg fun hc => ?_
      have hspace := hafter c List.mem_cons_self
      rw [(isSpace_of_isDigit hc).1] at hspace
      cases hspace
  rw [List.append_assoc, List.dropWhile_append_of_pos hbefore, List.cons_append,
    List.dropWhile_cons_of_neg (by simp [hstart]), ← List.cons_append,
    List.takeWhile_append_of_pos hdigits, hend, List.append_nil]

theorem announced_unique (hn : r.Announced n) (hm : r.Announced m) : n = m := by
  cases hl : lastNamed CONTENT_LENGTH r.fields with
  | none => rw [hn.2 hl, hm.2 hl]
  | some f => rw [announces_eq (hn.1 f hl), announces_eq (hm.1 f hl)]

theorem announced_lt (hr : r.Legible) (hn : r.Announced n) : n < 2 ^ 64 := by
  cases hl : lastNamed CONTENT_LENGTH r.fields with
  | none =>
    rw [hn.2 hl]
    decide
  | some f =>
    have hmem := List.mem_filter.mp (List.mem_of_getLast? hl)
    obtain ⟨m, hlt, hm⟩ := (hr.fields f hmem.1).length hmem.2
    rwa [announces_eq (hn.1 f hl), ← announces_eq hm]

/-- The first `recv` gives the header and the beginning of the body. -/
theorem Attempt.Serves.first_part (hs : a.Serves r)
    (hrecv : recv MAX_MESSAGE_SIZE a.first a.stream = some (received, unread)) :
    ∃ rest, received = r.header ++ rest ∧ r.body = rest ++ unread := by
  obtain ⟨hstream, -, -⟩ := recv_eq hrecv
  rw [hs.stream, Response.bytes] at hstream
  have hheader := hs.header received unread hrecv
  rcases List.append_eq_append_iff.mp hstream with ⟨rest, h, h'⟩ | ⟨missing, h, h'⟩
  · exact ⟨rest, h, h'⟩
  · have hlen := congrArg List.length h
    rw [List.length_append] at hlen
    obtain rfl : missing = [] := List.eq_nil_of_length_eq_zero (by omega)
    refine ⟨[], ?_, h'.symm⟩
    rw [h, List.append_nil, List.append_nil]

theorem nul_behind (a : Attempt) (rest : Text) : NUL ∈ rest ++ a.behind.bytes :=
  List.mem_append_right rest a.behind.terminated

/-- A word that does not fit is written past the end of its buffer. -/
theorem overflows (hs : a.Serves r) (hlong : ¬ ShortOptions r.fields)
    (hrecv : recv MAX_MESSAGE_SIZE a.first a.stream = some (received, unread)) :
    parseBuffer (received ++ a.behind.bytes) = none := by
  obtain ⟨rest, rfl, -⟩ := hs.first_part hrecv
  rw [List.append_assoc]
  exact (parseBuffer_legible hs.legible (nul_behind a rest)).2 hlong

/-- After the first `recv` the buffer has the beginning of the body and the rest is unread. -/
theorem firstPart_serves (hs : a.Serves r) (hshort : ShortOptions r.fields)
    (hrecv : recv MAX_MESSAGE_SIZE a.first a.stream = some (received, unread)) :
    ∃ response c, parseBuffer (received ++ a.behind.bytes) = some (some response) ∧
      response.header.code = r.code ∧ response.header.contentLength = r.body.length ∧
      firstPart received a.behind.bytes unread response = .ok c ∧ Tracks r.body c := by
  obtain ⟨-, -, hmax⟩ := recv_eq hrecv
  obtain ⟨rest, rfl, hbody⟩ := hs.first_part hrecv
  obtain ⟨h, hreads, hparse⟩ := (parseBuffer_legible hs.legible (nul_behind a rest)).1 hshort
  rw [← List.append_assoc] at hparse
  have hlength : h.contentLength = r.body.length := announced_unique hreads.announced hs.length
  have hcount : sizeT (asInt (r.header ++ rest).length - r.header.length) = rest.length := by
    have hint : asInt (r.header ++ rest).length = (r.header ++ rest).length := by
      refine asInt_eq (Nat.lt_of_le_of_lt hmax ?_)
      decide
    have hpos : (0 : ℤ) ≤ r.header.length := Int.natCast_nonneg _
    rw [hint, sizeT_sub hpos (by simp) ?_]
    · simp
    · exact Nat.lt_of_le_of_lt hmax (by decide)
  have hlen : r.body.length = rest.length + unread.length := by rw [hbody, List.length_append]
  have hlt := announced_lt hs.legible hs.length
  have hfits : 0 + rest.length ≤ (List.replicate r.body.length (none : Option Char)).length := by
    rw [List.length_replicate]
    omega
  have hrest : sizeT (r.body.length - rest.length) = unread.length := by
    rw [sizeT_sub (Int.natCast_nonneg _) (by simp; omega) hlt]
    simp
    omega
  have hfirst : firstPart (r.header ++ rest) a.behind.bytes unread
      ⟨r.cutHeader ++ (rest ++ a.behind.bytes), { h with content := rest ++ a.behind.bytes },
        r.header.length⟩ = .ok
        ⟨write (List.replicate r.body.length none) 0 rest, rest.length, unread.length, unread,
          0⟩ := by
    have htail : (rest ++ a.behind.bytes).length = rest.length + a.behind.bytes.length :=
      List.length_append
    rw [firstPart]
    simp only [hcount, hlength, hrest, List.take_left, htail]
    rw [if_neg (by omega)]
  refine ⟨_, _, hparse, hreads.code, hlength, hfirst, ?_, Nat.le_refl _, ?_, fun _ => ⟨?_, ?_⟩⟩
  · exact hlen.symm
  · rw [length_write hfits, List.length_replicate]
  · rw [hbody, List.drop_left]
  · have htake := take_write hfits
    rw [Nat.zero_add, List.take_zero, List.nil_append] at htake
    rw [htake, hbody, List.take_left]

/-- What arrives is parsed in one way, so that one response with short options is enough. -/
theorem Attempt.Serves.fits (hs : a.Serves r) (hshort : ShortOptions r.fields) : a.Fits := by
  rintro r' hs' ⟨-, -, -, -, hsome⟩
  by_contra hlong
  obtain ⟨⟨received, unread⟩, hrecv⟩ := Option.isSome_iff_exists.mp hsome
  obtain ⟨response, c, hparse, -⟩ := firstPart_serves hs hshort hrecv
  rw [overflows hs' hlong hrecv] at hparse
  cases hparse

theorem again_cases (s : Socket) (blob : Blob) :
    (∃ left, again s blob = .returns false blob left) ∨
      ∃ left, again s blob = .retry blob left := by
  rw [again]
  split_ifs
  · exact .inr ⟨_, rfl⟩
  · exact .inl ⟨_, rfl⟩

/-- How an attempt ends: it stored nothing and leaves the size as it was, or it gives the whole
body or nothing. -/
inductive Ends (a : Attempt) (r : Response) (blob : Blob) : Outcome → Prop where
  | unchanged {left} : ¬ a.Begins → Ends a r blob (.returns false blob left)
  | unallocated {left} : ¬ a.Begins → Ends a r blob (.returns false { blob with buf := none } left)
  | again {left} : ¬ a.Begins → Ends a r blob (.retry blob left)
  | whole {left} : a.Begins →
      Ends a r blob (.returns true ⟨some (r.body.map some), r.body.length⟩ left)
  | freed {left} : a.Begins → Ends a r blob (.returns false ⟨none, 0⟩ left)
  | freed_again {left} : a.Begins → Ends a r blob (.retry ⟨none, 0⟩ left)

theorem receiveBody_ends (hs : a.Serves r) (hshort : ShortOptions r.fields) (hb : a.Begins)
    (blob : Blob) (s : Socket)
    (hrecv : recv MAX_MESSAGE_SIZE a.first a.stream = some (received, unread)) :
    ∃ response, parseBuffer (received ++ a.behind.bytes) = some (some response) ∧
      response.header.code = r.code ∧
      Ends a r blob (receiveBody a s received unread response) := by
  obtain ⟨response, c, hparse, hcode, hlength, hfirst, hc⟩ := firstPart_serves hs hshort hrecv
  refine ⟨response, hparse, hcode, ?_⟩
  rw [receiveBody, hfirst, Except.bind]
  rcases receiveRest_tracks hc (announced_lt hs.legible hs.length) with h | ⟨c', h, hbuf⟩
  · rw [h, finish]
    rcases again_cases s ⟨none, 0⟩ with ⟨left, ha⟩ | ⟨left, ha⟩
    · rw [ha]
      exact .freed hb
    · rw [ha]
      exact .freed_again hb
  · rw [h, finish, hbuf, hlength]
    exact .whole hb

theorem exchange_ends (hs : a.Serves r) (hfits : a.Fits) (blob : Blob) :
    Ends a r blob (exchange blob a) := by
  have hagain : ∀ s, ¬ a.Begins → Ends a r blob (again s blob) := by
    intro s hb
    rcases again_cases s blob with ⟨left, ha⟩ | ⟨left, ha⟩
    · rw [ha]
      exact .unchanged hb
    · rw [ha]
      exact .again hb
  rw [exchange]
  cases hsocket : a.socket with
  | none =>
    refine .unchanged ?_
    rintro ⟨s, -, -, -, h, -⟩
    cases hsocket.symm.trans h
  | some s =>
    dsimp only
    cases hopen : s.closed && !a.connects with
    | true =>
      refine .unchanged ?_
      rintro ⟨t, -, -, -, h, hopen', -⟩
      obtain rfl := Option.some.inj (hsocket.symm.trans h)
      cases hopen.symm.trans hopen'
    | false =>
      cases hsends : a.sends with
      | false =>
        apply hagain _
        rintro ⟨-, -, -, -, -, -, h, -⟩
        cases hsends.symm.trans h
      | true =>
        rcases hrecv : recv MAX_MESSAGE_SIZE a.first a.stream with _ | ⟨received, unread⟩
        · apply hagain _
          rintro ⟨-, received, unread, -, -, -, -, h, -⟩
          cases hrecv.symm.trans h
        · have hshort : ShortOptions r.fields :=
            hfits r hs ⟨s, hsocket, hopen, hsends, by rw [hrecv]; rfl⟩
          obtain ⟨response, c, hparse, hcode, -⟩ := firstPart_serves hs hshort hrecv
          have hone : ∀ p, (∃ received unread,
              recv MAX_MESSAGE_SIZE a.first a.stream = some (received, unread) ∧
                parseBuffer (received ++ a.behind.bytes) = some (some p)) → p = response := by
            rintro p ⟨received', unread', h, h'⟩
            obtain ⟨rfl, rfl⟩ := Prod.mk.inj (Option.some.inj (hrecv.symm.trans h))
            exact (Option.some.inj (Option.some.inj (hparse.symm.trans h'))).symm
          simp only [Bool.false_eq_true, if_false, Bool.not_true, hparse]
          by_cases h200 : response.header.code ≠ 200
          · rw [if_pos h200]
            refine .unchanged ?_
            rintro ⟨-, received', unread', p, -, -, -, h, h', hok, -⟩
            exact h200 (hone p ⟨received', unread', h, h'⟩ ▸ hok)
          · rw [if_neg h200]
            cases hmalloc : a.mallocs with
            | false =>
              refine .unallocated ?_
              rintro ⟨-, -, -, -, -, -, -, -, -, -, h⟩
              cases hmalloc.symm.trans h
            | true =>
              have hb : a.Begins := ⟨s, received, unread, response, hsocket, hopen, hsends, hrecv,
                hparse, not_not.mp h200, hmalloc⟩
              obtain ⟨response', hparse', -, hends⟩ :=
                receiveBody_ends hs hshort hb blob { s with closed := false } hrecv
              rw [hone response' ⟨received, unread, hrecv, hparse'⟩] at hends
              rw [if_neg (by decide)]
              exact hends

/-- All through the loop over the rest of the body the cursors add up to its length. -/
theorem Attempt.Reaches.tracks (hs : a.Serves r) {c : Cursor} (h : a.Reaches c) :
    Tracks r.body c := by
  obtain ⟨received, unread, response, c₀, hrecv, hparse, hfirst, hturns⟩ := h
  have hshort : ShortOptions r.fields := by
    by_contra hlong
    rw [overflows hs hlong hrecv] at hparse
    cases hparse
  obtain ⟨response', c₁, hparse', -, -, hfirst', hc⟩ := firstPart_serves hs hshort hrecv
  obtain rfl := Option.some.inj (Option.some.inj (hparse.symm.trans hparse'))
  obtain rfl := Except.ok.inj (hfirst.symm.trans hfirst')
  induction hturns with
  | refl => exact hc
  | tail _ hturn ih => exact (ih.step (announced_lt hs.legible hs.length) hturn.2).1

theorem Attempt.Reaches.ends (hs : a.Serves r) {c : Cursor} (h : a.Reaches c) :
    receiveRest a.recvs c ≠ .error .stuck := by
  rcases receiveRest_tracks (h.tracks hs) (announced_lt hs.legible hs.length) with h | ⟨c', h, -⟩
  · rw [h]
    nofun
  · rw [h]
    nofun

theorem exchange_overflows (hs : a.Serves r) (hp : a.Parses) (hlong : ¬ ShortOptions r.fields)
    (blob : Blob) : exchange blob a = .undefined := by
  obtain ⟨s, hsocket, hopen, hsends, hsome⟩ := hp
  obtain ⟨⟨received, unread⟩, hrecv⟩ := Option.isSome_iff_exists.mp hsome
  simp [exchange, hsocket, hopen, hsends, hrecv, overflows hs hlong hrecv]

theorem again_retry {s : Socket} {b : Blob} {left : Socket} (h : again s blob = .retry b left) :
    s.retries < MAX_HTTP_RETRIES := by
  rw [again] at h
  split_ifs at h with hlt
  exact hlt

theorem finish_retry {s : Socket} {response : Parsed} {e : Except Stop Cursor} {b : Blob}
    {left : Socket} (h : finish s response e = .retry b left) : s.retries < MAX_HTTP_RETRIES := by
  rcases e with (_ | _ | _) | c
  · exact again_retry h
  · cases h
  · cases h
  · cases h

/-- Another attempt follows only where the socket has retries left. -/
theorem exchange_retry {b : Blob} {left : Socket} (h : exchange blob a = .retry b left) :
    ¬ a.Last := by
  intro hlast
  rw [exchange] at h
  cases hsocket : a.socket with
  | none =>
    rw [hsocket] at h
    cases h
  | some s =>
    have hnone : ¬ s.retries < MAX_HTTP_RETRIES := Nat.not_lt.mpr (hlast s hsocket)
    rw [hsocket] at h
    dsimp only at h
    split at h
    · cases h
    · split at h
      · exact absurd (again_retry h) hnone
      · split at h
        · exact absurd (again_retry h) hnone
        · split at h
          · cases h
          · cases h
          · split at h
            · cases h
            · split at h
              · cases h
              · exact absurd (finish_retry h) hnone

end Exchange

/-- What a call leaves when it is over: the body of the response that its last attempt met, or,
once a part of a body was stored, nothing. -/
structure Reassembles (attempts : List Attempt) (k : ℕ) (o : Outcome) : Prop where
  defined : o ≠ .undefined
  ends : o ≠ .stuck
  whole : ∀ blob left, o = .returns true blob left → ∃ a, attempts[k]? = some a ∧
    ∀ r, a.Serves r → blob = ⟨some (r.body.map some), r.body.length⟩
  nothing : ∀ blob left, o = .returns false blob left →
    (∃ a ∈ attempts.take (k + 1), a.Begins) → blob = ⟨none, 0⟩

section Call

variable {attempts : List Attempt} {a : Attempt} {blob : Blob} {k : ℕ} {o : Outcome}

theorem Reassembles.retried (h : Reassembles attempts k o)
    (hfreed : a.Begins → ∀ out left, o = .returns false out left → out = ⟨none, 0⟩) :
    Reassembles (a :: attempts) (k + 1) o := by
  refine ⟨h.defined, h.ends, h.whole, ?_⟩
  intro out left ho hbegins
  rw [List.take_succ_cons] at hbegins
  obtain ⟨b, hmem, hb⟩ := hbegins
  rcases List.mem_cons.mp hmem with rfl | hmem
  · exact hfreed hb out left ho
  · exact h.nothing out left ho ⟨b, hmem, hb⟩

theorem Reassembles.not_begun (hb : ¬ a.Begins) (blob : Blob) (left : Option Socket) :
    Reassembles (a :: attempts) 0 (.returns false blob left) := by
  refine ⟨nofun, nofun, nofun, ?_⟩
  rintro out left - ⟨b, hmem, hbegins⟩
  rw [List.mem_singleton.mp hmem] at hbegins
  exact absurd hbegins hb

/-- A call keeps an empty result while its attempts fail. -/
theorem getBlob_reassembles (hserves : ∀ a ∈ attempts, (∃ r, a.Serves r) ∧ a.Fits)
    (h : getBlob blob attempts = some (k, o)) :
    Reassembles attempts k o ∧
      (blob = ⟨none, 0⟩ → ∀ out left, o = .returns false out left → out = ⟨none, 0⟩) := by
  induction attempts generalizing blob k with
  | nil => cases h
  | cons a attempts ih =>
    obtain ⟨⟨⟨r, hs⟩, hfits⟩, hrest⟩ := List.forall_mem_cons.mp hserves
    have hall : ∀ r', a.Serves r' → Ends a r' blob (exchange blob a) :=
      fun r' hs' => exchange_ends hs' hfits blob
    have hends := hall r hs
    rw [getBlob] at h
    generalize exchange blob a = e at h hall hends
    cases hends with
    | unchanged hb =>
      obtain ⟨rfl, rfl⟩ := Prod.mk.inj (Option.some.inj h)
      refine ⟨.not_begun hb _ _, ?_⟩
      rintro rfl out left ho
      cases ho
      rfl
    | unallocated hb =>
      obtain ⟨rfl, rfl⟩ := Prod.mk.inj (Option.some.inj h)
      refine ⟨.not_begun hb _ _, ?_⟩
      rintro rfl out left ho
      cases ho
      rfl
    | whole hb =>
      obtain ⟨rfl, rfl⟩ := Prod.mk.inj (Option.some.inj h)
      refine ⟨⟨nofun, nofun, ?_, nofun⟩, nofun⟩
      intro out left ho
      refine ⟨a, rfl, fun r' hs' => ?_⟩
      have hends' := hall r' hs'
      rw [ho] at hends'
      cases hends'
      rfl
    | freed hb =>
      obtain ⟨rfl, rfl⟩ := Prod.mk.inj (Option.some.inj h)
      refine ⟨⟨nofun, nofun, nofun, ?_⟩, ?_⟩
      · rintro out left ho -
        cases ho
        rfl
      · rintro - out left ho
        cases ho
        rfl
    | again hb =>
      obtain ⟨⟨k', o'⟩, hcall, ho⟩ := Option.map_eq_some_iff.mp h
      obtain ⟨rfl, rfl⟩ := Prod.mk.inj ho
      obtain ⟨hreassembles, hempty⟩ := ih hrest hcall
      exact ⟨hreassembles.retried fun hbegins => absurd hbegins hb, hempty⟩
    | freed_again hb =>
      obtain ⟨⟨k', o'⟩, hcall, ho⟩ := Option.map_eq_some_iff.mp h
      obtain ⟨rfl, rfl⟩ := Prod.mk.inj ho
      obtain ⟨hreassembles, hempty⟩ := ih hrest hcall
      exact ⟨hreassembles.retried fun _ => hempty rfl, fun _ => hempty rfl⟩

theorem getBlob_returns (hlast : ∃ a ∈ attempts, a.Last) :
    ∃ k o, getBlob blob attempts = some (k, o) := by
  induction attempts generalizing blob with
  | nil =>
    obtain ⟨a, ha, -⟩ := hlast
    cases ha
  | cons a attempts ih =>
    rw [getBlob]
    cases h : exchange blob a with
    | returns success out left => exact ⟨_, _, rfl⟩
    | undefined => exact ⟨_, _, rfl⟩
    | stuck => exact ⟨_, _, rfl⟩
    | retry out left =>
      obtain ⟨b, hb, hblast⟩ := hlast
      have hne : b ≠ a := fun he => exchange_retry h (he ▸ hblast)
      obtain ⟨k, o, hrest⟩ : ∃ k o, getBlob out attempts = some (k, o) :=
        ih ⟨b, (List.mem_cons.mp hb).resolve_left hne, hblast⟩
      refine ⟨k + 1, o, ?_⟩
      dsimp only
      rw [hrest, Option.map_some]

/-- A call gives the body of the response or, once it stored a part of one, nothing; what remains
is always the length of the body without what is behind the cursor, the loop over it ends, and
with a last attempt the call ends too. -/
structure Sound (attempts : List Attempt) (blob : Blob) : Prop where
  result : ∀ k o, getBlob blob attempts = some (k, o) → Reassembles attempts k o
  cursors : ∀ a ∈ attempts, ∀ r, a.Serves r → ∀ c, a.Reaches c →
    c.bufp + c.remaining = r.body.length
  loop : ∀ a ∈ attempts, ∀ c, a.Reaches c → receiveRest a.recvs c ≠ .error .stuck
  returns : (∃ a ∈ attempts, a.Last) → ∃ k o, getBlob blob attempts = some (k, o)

/-- Of the attempts that a detector may let a call make, all are sound exactly when no word of a
connection field overflows its buffer. -/
theorem blob_reassembled (S : Set Attempt) (hserves : ∀ a ∈ S, ∃ r, a.Serves r) :
    (∀ attempts, (∀ a ∈ attempts, a ∈ S) → ∀ blob, Sound attempts blob) ↔ ∀ a ∈ S, a.Fits := by
  constructor
  · intro hsound a ha r hs hp
    by_contra hlong
    have hone : getBlob ⟨none, 0⟩ [a] = some (0, .undefined) := by
      rw [getBlob, exchange_overflows hs hp hlong]
    have h := (hsound [a] (List.forall_mem_singleton.mpr ha) ⟨none, 0⟩).result 0 _ hone
    exact h.defined rfl
  · intro hfits attempts hmem blob
    constructor
    · intro k o h
      exact (getBlob_reassembles (fun a ha =>
        ⟨hserves a (hmem a ha), hfits a (hmem a ha)⟩) h).1
    · exact fun a _ r hs c hc => (Attempt.Reaches.tracks hs hc).cursors
    · intro a ha c hc
      obtain ⟨r, hs⟩ := hserves a (hmem a ha)
      exact Attempt.Reaches.ends hs hc
    · exact getBlob_returns

end Call

/-- A connection that gives the header with a byte of the body, and then pieces of at most two
bytes, the number of them being `pieces`. -/
def piecewise (r : Response) (pieces : ℕ) : Attempt where
  socket := some ⟨false, 0⟩
  connects := true
  sends := true
  stream := r.bytes
  first := some (r.header.length + 1)
  behind := ⟨[NUL], List.mem_singleton_self NUL⟩
  mallocs := true
  recvs turn := if turn < pieces then some 2 else none

theorem piecewise_serves {r : Response} (hr : r.Legible) (hlength : r.Announced r.body.length)
    (hmax : r.header.length ≤ MAX_MESSAGE_SIZE) (pieces : ℕ) : (piecewise r pieces).Serves r where
  legible := hr
  length := hlength
  stream := rfl
  header received unread h := by
    obtain ⟨n, hn, h⟩ := Option.bind_eq_some_iff.mp h
    obtain rfl := Option.some.inj hn
    dsimp only at h
    split_ifs at h
    obtain ⟨rfl, -⟩ := Prod.mk.inj (Option.some.inj h)
    have hbytes : r.bytes.length = r.header.length + r.body.length := List.length_append
    rw [List.length_take, show (piecewise r pieces).stream = r.bytes from rfl, hbytes]
    omega

theorem announced_five {r : Response}
    (hlast : lastNamed CONTENT_LENGTH r.fields = some lengthFive) :
    r.Announced 5 := by
  refine ⟨fun f hf => ?_, fun hnone => ?_⟩
  · obtain rfl := Option.some.inj (hlast.symm.trans hf)
    exact lengthFive_wellFormed.announces (by decide +kernel)
  · cases hlast.symm.trans hnone

theorem closing_serves (pieces : ℕ) : (piecewise closingResponse pieces).Serves closingResponse :=
  piecewise_serves closingResponse_readable.legible (announced_five (by decide +kernel))
    (by decide +kernel) pieces

/-- The first connection fails after a piece, the second gives all. -/
theorem blob_reassembled_retry :
    Sound [piecewise closingResponse 1, piecewise closingResponse 2] ⟨none, 0⟩ := by
  have hserves : ∀ a ∈ {a | ∃ pieces, a = piecewise closingResponse pieces}, ∃ r, a.Serves r := by
    rintro _ ⟨pieces, rfl⟩
    exact ⟨_, closing_serves pieces⟩
  apply (blob_reassembled _ hserves).mpr
  · rintro _ ⟨pieces, rfl⟩
    exact (closing_serves pieces).fits closingResponse_readable.short
  · intro a ha
    rcases List.mem_cons.mp ha with rfl | ha
    · exact ⟨1, rfl⟩
    · rw [List.mem_singleton.mp ha]
      exact ⟨2, rfl⟩

/-- An option that fills the buffer and leaves no room for the end of the string. -/
def longResponse : Response :=
  { closingResponse with
    fields := [⟨"Connection".toList, ' ' :: List.replicate MAX_BUF_SIZE 'a'⟩, lengthFive] }

theorem longResponse_legible : longResponse.Legible where
  version_ne := by decide +kernel
  version_word := by decide +kernel
  reason := by decide +kernel
  code := by decide +kernel
  fields f hf := by
    rcases List.mem_cons.mp hf with rfl | hf
    · exact ⟨⟨by decide +kernel, by decide +kernel, by decide +kernel⟩,
        fun h => absurd h (by decide +kernel), fun _ => by decide +kernel⟩
    · rw [List.mem_singleton.mp hf]
      exact ⟨lengthFive_wellFormed.rendered,
        fun h => ⟨5, by decide, lengthFive_wellFormed.announces h⟩,
        fun h => absurd h (by decide +kernel)⟩

/-- The first word of the option is written past the end of `value`. -/
theorem option_overflows :
    ¬ ∀ (attempts : List Attempt) (blob : Blob), (∀ a ∈ attempts, ∃ r, a.Serves r) →
      ∀ k o, getBlob blob attempts = some (k, o) → Reassembles attempts k o := by
  intro h
  have hserves : ∀ a ∈ [piecewise longResponse 2], ∃ r, a.Serves r :=
    List.forall_mem_singleton.mpr ⟨_, piecewise_serves longResponse_legible
      (announced_five (by decide +kernel)) (by decide +kernel) 2⟩
  have hcall : getBlob ⟨none, 0⟩ [piecewise longResponse 2] = some (0, .undefined) := by
    decide +kernel
  exact (h _ _ hserves _ _ hcall).defined rfl

end RestBlob
