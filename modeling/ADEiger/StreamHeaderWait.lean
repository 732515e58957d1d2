import ADEiger.StreamTask
import ADEiger.StreamMessages

/-! The wait of streamTask for the header of a series.
StreamAPI and Stream2API have different codes for the end of an earlier series. -/
namespace StreamTask

open TransitionSystem
open TinyCbor (Bytes)
open StreamApi (Err)
open Stream2Api (Stream2API)
open StreamFraming (EndMessage HeaderMessage waits)

section Queue

/-- The end of an earlier series on Stream2API. -/
structure StaleEnd where
  delay : ℕ
  bytes : Bytes
  msg : Stream2.EndMsg
  parsed : Stream2.stream2ParseMsg bytes = .ok (.seriesEnd msg)

/-- The header of a series on Stream2API. -/
structure Header where
  delay : ℕ
  bytes : Bytes
  msg : Stream2.StartMsg
  imageDtype : List Char
  parsed : Stream2.stream2ParseMsg bytes = .ok (.start msg)
  hasType : msg.imageDtype = some imageDtype

/-- A message after some seconds without one. -/
def after (delay : ℕ) (bytes : Bytes) (s : List Item) : List Item :=
  List.replicate delay .wait ++ .message bytes :: s

def StaleEnd.queue (e : StaleEnd) (s : List Item) : List Item := after e.delay e.bytes s

/-- What is queued when streamTask begins to wait: the ends of earlier series, the header of the
next one, and anything else. -/
inductive Queue where
  | stream (ends : List EndMessage) (header : HeaderMessage) (rest : List StreamFraming.Item)
  | stream2 (api : Stream2API) (ends : List StaleEnd) (header : Header) (rest : List Item)

def Queue.source : Queue → Source
  | .stream ends header rest =>
    .stream (ends.foldr (fun e s => e.items ++ s) (header.items [] ++ rest))
  | .stream2 api ends header rest =>
    .stream2 api (ends.foldr StaleEnd.queue (after header.delay header.bytes rest))

/-- The source when the header is read. -/
def Queue.started : Queue → Source
  | .stream _ _ rest => .stream rest
  | .stream2 api _ header rest => .stream2 (api.readStart header.msg header.imageDtype) rest

def Queue.isStream : Queue → Prop
  | .stream _ _ _ => True
  | .stream2 _ _ _ _ => False

def Queue.staleEnds : Queue → ℕ
  | .stream ends _ _ => ends.length
  | .stream2 _ ends _ _ => ends.length

/-- The wait ends with the header, and the loop over the frames begins. The steps of the wait
read no settings, so that there is one run only. -/
def StartsFrames (env : Env) (q : Queue) : Prop :=
  ∀ n m, Reachable (system env q.source)
    { initial q.source n m with pc := .frame, source := q.started }

end Queue

variable {env : Env} {source s s' : Source} {n m : ℕ} {err : Err} {t : Task}

section Steps

theorem header_step (err : Err)
    (h : Reachable (system env source) { initial source n m with source := s })
    (hget : getHeader s = some (err, s')) :
    Reachable (system env source)
      { initial source n m with pc := afterHeader err, source := s' } := by
  have hstep : step env { initial source n m with source := s } ⟨false, false, false, false⟩ =
      some { initial source n m with pc := afterHeader err, source := s' } := by
    simp only [step, initial, hget, Option.map_some]
  have henabled : (system env source).Enabled { initial source n m with source := s }
      ⟨false, false, false, false⟩ := by
    change (step env _ _).isSome = true
    rw [hstep]
    rfl
  have hnext := next_eq henabled
  rw [hstep] at hnext
  rw [Option.some.inj hnext]
  exact Reaches.step h henabled trivial

end Steps

section Stream

/-- An end is a stray packet of another htype. -/
theorem readHeader_end (e : EndMessage) :
    StreamFraming.readHeader e.bytes = .error .wrongHtype := by
  obtain ⟨tokens, htoks⟩ := e.message.parsed
  have hnot : "dheader".toList.isPrefixOf e.htype = false := by
    obtain ⟨rest, hrest⟩ := List.isPrefixOf_iff_prefix.mp e.isEnd
    rw [← hrest]
    rfl
  rw [StreamFraming.readHeader, htoks]
  simp only [StreamFraming.readString_eq (by decide) e.message.document htoks e.hasHtype, hnot]
  rfl

/-- Whatever seconds pass before the part. -/
theorem stream_waits {bytes : List Char} {rest : List StreamFraming.Item} (delay : ℕ)
    (h : Reachable (system env source)
      { initial source n m with source := .stream (waits delay ++ .part bytes :: rest) }) :
    Reachable (system env source)
      { initial source n m with source := .stream (.part bytes :: rest) } := by
  induction delay with
  | zero => exact h
  | succ delay ih => exact ih (header_step .timeout h rfl)

theorem stream_ends (ends : List EndMessage) {rest : List StreamFraming.Item}
    (h : Reachable (system env source) { initial source n m with
      source := .stream (ends.foldr (fun e s => e.items ++ s) rest) }) :
    Reachable (system env source) { initial source n m with source := .stream rest } := by
  induction ends with
  | nil => exact h
  | cons e ends ih =>
    rw [List.foldr_cons, EndMessage.items, List.append_assoc, List.singleton_append] at h
    refine ih (header_step .wrongHtype (stream_waits e.delay h) ?_)
    simp only [getHeader, StreamFraming.getHeader, StreamFraming.poll, StreamFraming.recv,
      readHeader_end]

theorem stream_starts (ends : List EndMessage) (header : HeaderMessage)
    (rest : List StreamFraming.Item) : StartsFrames env (.stream ends header rest) := by
  intro n m
  have hends := stream_ends ends (Reaches.start (C := AnyStep)
    (S := system env (Queue.stream ends header rest).source) ⟨n, m, rfl⟩)
  rw [HeaderMessage.items, List.append_assoc, List.cons_append] at hends
  apply header_step .success (stream_waits header.delay hends)
  have hparts : (header.more.map StreamFraming.Item.part).length = header.detail.skip := by
    rw [List.length_map, header.parts]
  simp only [getHeader, StreamFraming.getHeader, StreamFraming.poll, StreamFraming.recv,
    StreamFraming.readHeader_eq, StreamFraming.skipParts_eq, StreamFraming.appendix, if_true,
    List.append_nil, ← hparts, List.drop_left]
  rfl

end Stream

section Stream2

variable {api : Stream2API} {rest : List Item}

theorem stream2_waits {bytes : Bytes} (delay : ℕ)
    (h : Reachable (system env source)
      { initial source n m with source := .stream2 api (after delay bytes rest) }) :
    Reachable (system env source)
      { initial source n m with source := .stream2 api (.message bytes :: rest) } := by
  induction delay with
  | zero => exact h
  | succ delay ih => exact ih (header_step .timeout h rfl)

theorem stream2_starts (api : Stream2API) (header : Header) (rest : List Item) :
    StartsFrames env (.stream2 api [] header rest) := by
  intro n m
  refine header_step .success (stream2_waits header.delay (.start ⟨n, m, rfl⟩)) ?_
  simp only [getHeader, Stream2Api.getHeader, header.parsed, header.hasType]
  rfl

/-- In front of an end, the task waits or has left the series. -/
def BeforeEnd (api : Stream2API) (e : StaleEnd) (s : List Item) (t : Task) : Prop :=
  (t.pc = .header ∧ ∃ delay, t.source = .stream2 api (after delay e.bytes s)) ∨ t.pc = .finished

theorem beforeEnd_step {e : StaleEnd} {s : List Item} {settings : Settings} {t' : Task}
    (h : BeforeEnd api e s t) (hstep : step env t settings = some t') : BeforeEnd api e s t' := by
  rcases h with ⟨hpc, delay, hsource⟩ | hpc
  · simp only [step, hpc, hsource] at hstep
    obtain ⟨r, hr, rfl⟩ := Option.map_eq_some_iff.mp hstep
    cases delay with
    | zero =>
      -- the end is a message of a wrong type, which is an error
      have hend : getHeader (.stream2 api (after 0 e.bytes s)) = some (.error, .stream2 api s) := by
        rw [after, List.replicate_zero, List.nil_append]
        simp only [getHeader, Stream2Api.getHeader, e.parsed]
      obtain rfl := Option.some.inj (hend.symm.trans hr)
      exact .inr rfl
    | succ delay =>
      obtain rfl := Option.some.inj hr
      exact .inl ⟨rfl, delay, rfl⟩
  · simp only [step, hpc] at hstep
    cases hstep

theorem stream2_fails (api : Stream2API) (e : StaleEnd) (ends : List StaleEnd) (header : Header)
    (rest : List Item) : ¬ StartsFrames env (.stream2 api (e :: ends) header rest) := by
  intro h
  have hbefore := Reaches.invariant (I := BeforeEnd api e
    (ends.foldr StaleEnd.queue (after header.delay header.bytes rest)))
    (fun t ht => ?_) (fun t settings ht he _ => beforeEnd_step ht (next_eq he)) (h 0 0)
  · rcases hbefore with ⟨hpc, -⟩ | hpc
    · cases hpc
    · cases hpc
  · obtain ⟨n, m, rfl⟩ := ht
    exact .inl ⟨rfl, e.delay, rfl⟩

end Stream2

/-- For any number of ends, on both interfaces. -/
theorem stale_ends_ignored_iff (env : Env) (q : Queue) :
    StartsFrames env q ↔ q.isStream ∨ q.staleEnds = 0 := by
  cases q with
  | stream ends header rest =>
    constructor
    · intro _
      exact .inl trivial
    · intro _
      exact stream_starts ends header rest
  | stream2 api ends header rest =>
    constructor
    · intro h
      cases ends with
      | nil => exact .inr rfl
      | cons e ends => exact absurd h (stream2_fails api e ends header rest)
    · intro h
      rcases h with h | h
      · cases h
      · obtain rfl := List.length_eq_zero_iff.mp h
        exact stream2_starts api header rest

section Examples

/-- The end of series 7. -/
def endBytes : Bytes :=
  [217, 217, 247, 162, 100, 116, 121, 112, 101, 99, 101, 110, 100, 105, 115, 101, 114, 105,
    101, 115, 95, 105, 100, 7]

theorem endBytes_parsed :
    Stream2.stream2ParseMsg endBytes = .ok (.seriesEnd { seriesId := 7 }) := by
  decide +kernel

def staleEnd : StaleEnd := ⟨0, endBytes, { seriesId := 7 }, endBytes_parsed⟩

def nextHeader : Header :=
  ⟨0, Stream2Api.startBytes, Stream2Api.startMsg, "uint8".toList, Stream2Api.startBytes_parsed, rfl⟩

theorem stale_end_stops_stream2 : ¬ ∀ (env : Env) (q : Queue), StartsFrames env q := by
  intro h
  exact stream2_fails Stream2Api.newApi staleEnd [] nextHeader []
    (h plainEnv (.stream2 Stream2Api.newApi [staleEnd] nextHeader []))

end Examples

end StreamTask
