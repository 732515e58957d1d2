import ADEiger.TransitionSystem
import ADEiger.FrameCopy
import ADEiger.Stream2Threshold

/-! streamTask in one series, on either of the two stream interfaces.
It waits for the header, then for one image after the other, and hands on what getFrame gives it
for each threshold. -/
namespace StreamTask

open TransitionSystem
open TinyCbor (Bytes)
open StreamApi (Err)
open Stream2Api (Stream2API Waited)

section Socket

/-- What the socket of Stream2API gives next: a message, or a second without one. -/
inductive Item where
  | wait
  | message (bytes : Bytes)
  deriving DecidableEq

/-- A receive waits as long as it takes. -/
def recv : List Item → Option (Bytes × List Item)
  | [] => none
  | .wait :: s => recv s
  | .message bytes :: s => some (bytes, s)

/-- The object that streamTask calls, with what comes from its socket. -/
inductive Source where
  | stream (socket : List StreamFraming.Item)
  | stream2 (api : Stream2API) (socket : List Item)

/-- The settings at a call of getFrame, and whether the pool has an array for it. -/
structure Settings where
  decompress : Bool
  signedData : Bool
  arrayCallbacks : Bool
  alloc : Bool
  deriving DecidableEq, Repr

/-- The libraries of both interfaces, what the dimensions of a frame hold before they are read,
and whether time stamps are taken from the messages. -/
structure Env where
  lz4 : List Char → ℕ → Option (List Char)
  bshuf : List Char → ℕ → ℕ → Option (List Char)
  held : ℕ × ℕ
  stream2 : Stream2Api.Env
  streamAsTsSource : Bool

def Env.stream (env : Env) (settings : Settings) : StreamFraming.Env :=
  ⟨fun _ => settings.decompress, fun _ => settings.signedData, fun _ _ => settings.alloc, env.lz4,
    env.bshuf⟩

inductive Frame where
  | stream (a : StreamFraming.NDArray)
  | stream2 (a : Stream2Api.NDArray)
  deriving DecidableEq

/-- `none` when nothing more arrives, or when the call does not return. -/
def getHeader : Source → Option (Err × Source)
  | .stream s =>
    match StreamFraming.getHeader s with
    | none => none
    | some (.ok _, s) => some (.success, .stream s)
    | some (.error err, s) => some (err, .stream s)
  | .stream2 _ [] => none
  | .stream2 api (.wait :: s) => some (.timeout, .stream2 api s)
  | .stream2 api (.message bytes :: s) =>
    match Stream2Api.getHeader api bytes with
    | .error _ => none
    | .ok (err, api) => some (err, .stream2 api s)

/-- StreamAPI does not set the number of thresholds. -/
def waitFrame (numThresholds : ℕ) : Source → Option (Waited × Source)
  | .stream s =>
    match StreamFraming.waitFrame s with
    | none => none
    | some (.seriesEnd, s) => some (⟨.success, true, numThresholds⟩, .stream s)
    | some (.image _ _, s) => some (⟨.success, false, numThresholds⟩, .stream s)
    | some (.failed, s) => some (⟨.error, false, numThresholds⟩, .stream s)
  | .stream2 api s =>
    match recv s with
    | none => none
    | some (bytes, s) =>
      match Stream2Api.waitFrame api numThresholds bytes with
      | .error _ => none
      | .ok (waited, api) => some (waited, .stream2 api s)

/-- StreamAPI::getFrame; with both sizes in the shape it is that of the framing. -/
def streamFrame (env : Env) (settings : Settings) (s : List StreamFraming.Item) :
    Option (Option StreamFraming.NDArray × List StreamFraming.Item) :=
  match StreamFraming.recv s with
  | none => none
  | some (bytes, s) =>
    match FrameCopy.shapeRead env.held bytes with
    | none => some (none, s)
    | some shape =>
      if settings.alloc = false then some (none, s)
      else match StreamFraming.recv s with
        | none => none
        | some (data, s) =>
          match StreamFraming.recv s with
          | none => none
          | some (_, s) =>
            some (some (StreamFraming.readData (env.stream settings) 0 shape data), s)

/-- With `none` for the array, nothing was stored in `pArray`. -/
def getFrame (env : Env) (settings : Settings) (thresh : ℕ) :
    Source → Option ((Err × Option Frame) × Source)
  | .stream s =>
    match streamFrame env settings s with
    | none => none
    | some (some a, s) => some ((.success, some (.stream a)), .stream s)
    | some (none, s) => some ((.error, none), .stream s)
  | .stream2 api s =>
    match Stream2Api.getFrame env.stream2 api thresh env.streamAsTsSource
      ⟨settings.decompress, settings.alloc⟩ with
    | .error _ => none
    | .ok ((err, a), api) => some ((err, a.map .stream2), .stream2 api s)

end Socket

section Task

/-- `undefined` once a pointer is followed that no call has set. -/
inductive Pc where
  | header
  | frame
  | thresholds (thresh : ℕ)
  | finished
  | undefined
  deriving DecidableEq, Repr

/-- A call of getFrame with its result. -/
structure Called where
  source : Source
  thresh : ℕ
  settings : Settings
  err : Err
  stored : Option Frame

/-- What is done with the array that `pArray` points to. -/
inductive Event where
  | read
  | uniqueId (id : ℕ)
  | callback (address : ℕ)
  | count (numImages : ℕ)
  | release
  deriving DecidableEq, Repr

/-- In which turn of the loop it is done, and which call stored the array; `none` for a pointer
that no call has set. -/
structure Touch where
  turn : ℕ
  array : Option ℕ
  event : Event
  deriving DecidableEq, Repr

structure Task where
  pc : Pc
  source : Source
  numThresholds : ℕ
  arrayCounter : ℕ
  numImagesCounter : ℕ
  calls : List Called
  touches : List Touch

def initial (source : Source) (arrayCounter numImagesCounter : ℕ) : Task :=
  ⟨.header, source, 1, arrayCounter, numImagesCounter, [], []⟩

def afterHeader : Err → Pc
  | .success => .frame
  | .wrongHtype | .timeout => .header
  | .error | .unknown => .finished

def afterWaitFrame (waited : Waited) : Pc :=
  match waited.err with
  | .success => if waited.endFrames then .finished else .thresholds 0
  | .timeout => .frame
  | .wrongHtype | .error | .unknown => .finished

/-- The turn of the loop after getFrame, in the order of the source. -/
def turnEvents (t : Task) (thresh : ℕ) (settings : Settings) : List Event :=
  (if settings.signedData then [.read] else []) ++ .uniqueId t.arrayCounter :: .read ::
    ((if settings.arrayCallbacks then [.callback 0, .callback (thresh + 1)] else []) ++
      [.count (t.numImagesCounter + 1), .release])

/-- The status of getFrame is not looked at, and `pArray` is a variable of the turn: with nothing
stored in it, what the turn does is recorded, but nothing can be said of what comes after. -/
def Task.publish (t : Task) (thresh : ℕ) (settings : Settings) (err : Err) (stored : Option Frame)
    (source : Source) : Task :=
  { t with
    pc := if stored.isSome then .thresholds (thresh + 1) else .undefined
    source := source
    arrayCounter := t.arrayCounter + 1
    numImagesCounter := t.numImagesCounter + 1
    calls := t.calls ++ [⟨t.source, thresh, settings, err, stored⟩]
    touches := t.touches ++ (turnEvents t thresh settings).map fun event =>
      ⟨t.calls.length, stored.map fun _ => t.calls.length, event⟩ }

def step (env : Env) (t : Task) (settings : Settings) : Option Task :=
  match t.pc with
  | .header => (getHeader t.source).map fun r =>
    { t with source := r.2, pc := afterHeader r.1 }
  | .frame => (waitFrame t.numThresholds t.source).map fun r =>
    { t with source := r.2, numThresholds := r.1.numThresholds, pc := afterWaitFrame r.1 }
  | .thresholds thresh =>
    if thresh < t.numThresholds then
      (getFrame env settings thresh t.source).map fun r =>
        t.publish thresh settings r.1.1 r.1.2 r.2
    else some { t with pc := .frame }
  | .finished | .undefined => none

def system (env : Env) (source : Source) : System Task Settings where
  Start t := ∃ arrayCounter numImagesCounter, t = initial source arrayCounter numImagesCounter
  Enabled t settings := (step env t settings).isSome = true
  next t settings := (step env t settings).getD t

instance (env : Env) (source : Source) (t : Task) (settings : Settings) :
    Decidable ((system env source).Enabled t settings) :=
  inferInstanceAs (Decidable ((step env t settings).isSome = true))

variable {env : Env} {source : Source} {t t' : Task} {settings : Settings}

theorem step_cases (h : step env t settings = some t') :
    (∃ r, t.pc = .header ∧ getHeader t.source = some r ∧
      t' = { t with source := r.2, pc := afterHeader r.1 }) ∨
    (∃ r, t.pc = .frame ∧ waitFrame t.numThresholds t.source = some r ∧
      t' = { t with source := r.2, numThresholds := r.1.numThresholds, pc := afterWaitFrame r.1 }) ∨
    (∃ thresh r, t.pc = .thresholds thresh ∧ thresh < t.numThresholds ∧
      getFrame env settings thresh t.source = some r ∧
      t' = t.publish thresh settings r.1.1 r.1.2 r.2) ∨
    (∃ thresh, t.pc = .thresholds thresh ∧ ¬ thresh < t.numThresholds ∧
      t' = { t with pc := .frame }) := by
  rw [step] at h
  cases hpc : t.pc with
  | header =>
    simp only [hpc] at h
    obtain ⟨r, hr, rfl⟩ := Option.map_eq_some_iff.mp h
    exact .inl ⟨r, rfl, hr, rfl⟩
  | frame =>
    simp only [hpc] at h
    obtain ⟨r, hr, rfl⟩ := Option.map_eq_some_iff.mp h
    exact .inr (.inl ⟨r, rfl, hr, rfl⟩)
  | thresholds thresh =>
    simp only [hpc] at h
    by_cases hlt : thresh < t.numThresholds
    · rw [if_pos hlt] at h
      obtain ⟨r, hr, rfl⟩ := Option.map_eq_some_iff.mp h
      exact .inr (.inr (.inl ⟨thresh, r, rfl, hlt, hr, rfl⟩))
    · rw [if_neg hlt] at h
      obtain rfl := Option.some.inj h
      exact .inr (.inr (.inr ⟨thresh, rfl, hlt, rfl⟩))
  | finished | undefined =>
    simp only [hpc] at h
    cases h

theorem next_eq (h : (system env source).Enabled t settings) :
    step env t settings = some ((system env source).next t settings) := by
  obtain ⟨t', ht⟩ := Option.isSome_iff_exists.mp h
  have hnext : (system env source).next t settings = t' := by
    change (step env t settings).getD t = t'
    rw [ht]
    rfl
  rw [hnext, ht]

end Task

section Published

/-- Everything is done with an array that the call of the same turn has stored, and each array
that was stored is released once. -/
structure OnlyValid (t : Task) : Prop where
  touched : ∀ touch ∈ t.touches, touch.array = some touch.turn ∧
    ∃ c, t.calls[touch.turn]? = some c ∧ c.err = .success ∧ c.stored ≠ none
  released : ∀ i c, t.calls[i]? = some c → c.stored ≠ none →
    t.touches.countP (fun touch => touch.array = some i ∧ touch.event = .release) = 1

/-- The shape that comes next can be read, or the type of the data is one that is taken, and the
pool has an array. -/
def Fills (held : ℕ × ℕ) (thresh : ℕ) (alloc : Bool) : Source → Prop
  | .stream s => alloc = true ∧
      ∃ bytes rest shape, StreamFraming.recv s = some (bytes, rest) ∧
        FrameCopy.shapeRead held bytes = some shape
  | .stream2 api _ => alloc = true ∧
      ∃ msg channel mda, api.mImageMsg = some msg ∧ msg.data[thresh]? = some (channel, mda) ∧
        Stream2Api.dataTypeOf mda.array.tag ≠ none

def Called.Fillable (held : ℕ × ℕ) (c : Called) : Prop :=
  Fills held c.thresh c.settings.alloc c.source

variable {env : Env} {source : Source} {t t' : Task} {settings : Settings} {thresh : ℕ}

theorem streamFrame_of_readShape {s rest : List StreamFraming.Item} {bytes : List Char}
    {shape : StreamFraming.Shape} (hrecv : StreamFraming.recv s = some (bytes, rest))
    (hshape : StreamFraming.readShape bytes = some shape) :
    streamFrame env settings s = StreamFraming.getFrame (env.stream settings) 0 s := by
  simp only [streamFrame, StreamFraming.getFrame, hrecv, hshape,
    FrameCopy.shapeRead_of_readShape hshape]
  rfl

theorem streamFrame_spec (thresh : ℕ) {s rest : List StreamFraming.Item}
    {a : Option StreamFraming.NDArray}
    (h : streamFrame env settings s = some (a, rest)) :
    a ≠ none ↔ Fills env.held thresh settings.alloc (.stream s) := by
  rw [streamFrame] at h
  rw [Fills]
  cases hrecv : StreamFraming.recv s with
  | none => simp [hrecv] at h
  | some r =>
    simp only [hrecv] at h
    cases hshape : FrameCopy.shapeRead env.held r.1 with
    | none =>
      simp only [hshape] at h
      obtain ⟨rfl, -⟩ := Prod.mk.inj (Option.some.inj h)
      constructor
      · intro ha
        exact absurd rfl ha
      · rintro ⟨-, bytes, rest, shape, hr, hs⟩
        obtain rfl := Option.some.inj hr
        rw [hshape] at hs
        cases hs
    | some shape =>
      simp only [hshape] at h
      split_ifs at h with halloc
      · obtain ⟨rfl, -⟩ := Prod.mk.inj (Option.some.inj h)
        constructor
        · intro ha
          exact absurd rfl ha
        · intro hf
          exact absurd (halloc.symm.trans hf.1) Bool.false_ne_true
      · cases hdata : StreamFraming.recv r.2 with
        | none => simp [hdata] at h
        | some data =>
          simp only [hdata] at h
          cases htimes : StreamFraming.recv data.2 with
          | none => simp [htimes] at h
          | some times =>
            simp only [htimes] at h
            obtain ⟨rfl, -⟩ := Prod.mk.inj (Option.some.inj h)
            constructor
            · intro _
              exact ⟨by simpa using halloc, r.1, r.2, shape, rfl, hshape⟩
            · intro _
              exact Option.some_ne_none _

theorem stream2Frame_spec {api after : Stream2API} {s : List Item} {err : Err}
    {a : Option Stream2Api.NDArray} {extract : Bool}
    (h : Stream2Api.getFrame env.stream2 api thresh extract
      ⟨settings.decompress, settings.alloc⟩ = .ok ((err, a), after)) :
    (a ≠ none ↔ Fills env.held thresh settings.alloc (.stream2 api s)) ∧
      (a ≠ none → err = .success) := by
  rw [Stream2Api.getFrame] at h
  rw [Fills]
  cases hmsg : api.mImageMsg with
  | none => simp [hmsg] at h
  | some msg =>
    simp only [hmsg] at h
    cases hentry : msg.data[thresh]? with
    | none => simp [hentry] at h
    | some entry =>
      simp only [hentry, Stream2Api.frameOf] at h
      cases htype : Stream2Api.dataTypeOf entry.2.array.tag with
      | none =>
        simp only [htype] at h
        obtain ⟨hpair, -⟩ := Prod.mk.inj (Except.ok.inj h)
        obtain ⟨-, rfl⟩ := Prod.mk.inj hpair
        refine ⟨⟨fun ha => absurd rfl ha, ?_⟩, fun ha => absurd rfl ha⟩
        rintro ⟨-, msg', channel, mda, hm, he, ht⟩
        obtain rfl := Option.some.inj hm
        obtain rfl := Option.some.inj (hentry.symm.trans he)
        exact absurd htype ht
      | some type =>
        simp only [htype] at h
        split_ifs at h with halloc
        · obtain ⟨hpair, -⟩ := Prod.mk.inj (Except.ok.inj h)
          obtain ⟨-, rfl⟩ := Prod.mk.inj hpair
          refine ⟨⟨fun ha => absurd rfl ha, ?_⟩, fun ha => absurd rfl ha⟩
          intro hf
          exact absurd (halloc.symm.trans hf.1) Bool.false_ne_true
        · cases hfill : Stream2Api.fillFrame env.stream2 api thresh settings.decompress extract msg
            entry.2 type with
          | error fault =>
            rw [hfill] at h
            cases h
          | ok r =>
            rw [hfill] at h
            obtain ⟨hpair, -⟩ := Prod.mk.inj (Except.ok.inj h)
            obtain ⟨rfl, rfl⟩ := Prod.mk.inj hpair
            refine ⟨⟨fun _ => ?_, fun _ => Option.some_ne_none _⟩, fun _ => rfl⟩
            refine ⟨by simpa using halloc, msg, entry.1, entry.2, rfl, hentry, ?_⟩
            rw [htype]
            exact Option.some_ne_none _

/-- An array is stored just when there is one to be made, and then getFrame succeeds. -/
theorem getFrame_spec {r : (Err × Option Frame) × Source}
    (h : getFrame env settings thresh source = some r) :
    (r.1.2 ≠ none ↔ Fills env.held thresh settings.alloc source) ∧
      (r.1.2 ≠ none → r.1.1 = .success) := by
  cases source with
  | stream s =>
    rw [getFrame] at h
    cases hframe : streamFrame env settings s with
    | none => simp [hframe] at h
    | some a =>
      obtain ⟨a, rest⟩ := a
      have hspec := streamFrame_spec thresh hframe
      cases a with
      | none =>
        simp only [hframe] at h
        obtain rfl := Option.some.inj h
        exact ⟨by simpa using hspec, fun ha => absurd rfl ha⟩
      | some a =>
        simp only [hframe] at h
        obtain rfl := Option.some.inj h
        exact ⟨by simpa using hspec, fun _ => rfl⟩
  | stream2 api s =>
    rw [getFrame] at h
    cases hframe : Stream2Api.getFrame env.stream2 api thresh env.streamAsTsSource
        ⟨settings.decompress, settings.alloc⟩ with
    | error fault => simp [hframe] at h
    | ok a =>
      obtain ⟨⟨err, a⟩, after⟩ := a
      simp only [hframe] at h
      obtain rfl := Option.some.inj h
      have hspec := stream2Frame_spec (s := s) hframe
      cases a with
      | none => simpa using hspec
      | some a => simpa using hspec

/-- The turns of the loop, whatever they were given. -/
structure Law (held : ℕ × ℕ) (t : Task) : Prop where
  touched : ∀ touch ∈ t.touches, ∃ c, t.calls[touch.turn]? = some c ∧
    touch.array = c.stored.map fun _ => touch.turn
  taken : ∀ i c, t.calls[i]? = some c → ∃ touch ∈ t.touches, touch.turn = i
  released : ∀ i c, t.calls[i]? = some c → c.stored ≠ none →
    t.touches.countP (fun touch => touch.array = some i ∧ touch.event = .release) = 1
  stored : ∀ c ∈ t.calls, (c.stored ≠ none ↔ c.Fillable held) ∧ (c.stored ≠ none → c.err = .success)

theorem law_initial (held : ℕ × ℕ) (source : Source) (n m : ℕ) : Law held (initial source n m) := by
  constructor
  all_goals simp [initial]

theorem Law.move (h : Law env.held t) (hcalls : t'.calls = t.calls)
    (htouches : t'.touches = t.touches) : Law env.held t' := by
  constructor
  · rw [hcalls, htouches]
    exact h.touched
  · rw [hcalls, htouches]
    exact h.taken
  · rw [hcalls, htouches]
    exact h.released
  · rw [hcalls]
    exact h.stored

theorem turnEvents_releases (t : Task) (thresh : ℕ) (settings : Settings) :
    (turnEvents t thresh settings).count .release = 1 := by
  rw [turnEvents]
  cases settings.signedData <;> cases settings.arrayCallbacks <;> simp

section Turn

variable (hl : Law env.held t) (thresh : ℕ) (settings : Settings)
  (r : (Err × Option Frame) × Source)

/-- The touches of the turn that begins in `t`. -/
def newTouches (t : Task) (thresh : ℕ) (settings : Settings) (stored : Option Frame) : List Touch :=
  (turnEvents t thresh settings).map fun event =>
    ⟨t.calls.length, stored.map fun _ => t.calls.length, event⟩

theorem mem_newTouches {stored : Option Frame} {touch : Touch}
    (h : touch ∈ newTouches t thresh settings stored) :
    touch.turn = t.calls.length ∧ touch.array = stored.map fun _ => t.calls.length := by
  obtain ⟨event, -, rfl⟩ := List.mem_map.mp h
  exact ⟨rfl, rfl⟩

theorem newTouches_releases {stored : Option Frame} (i : ℕ) :
    (newTouches t thresh settings stored).countP
      (fun touch => touch.array = some i ∧ touch.event = .release) =
        if stored ≠ none ∧ i = t.calls.length then 1 else 0 := by
  rw [newTouches, List.countP_map]
  by_cases h : stored ≠ none ∧ i = t.calls.length
  · obtain ⟨a, rfl⟩ := Option.ne_none_iff_exists'.mp h.1
    rw [if_pos h, ← turnEvents_releases t thresh settings, List.count]
    refine List.countP_congr fun event _ => ?_
    simp [h.2]
  · rw [if_neg h, List.countP_eq_zero]
    intro event _ hevent
    have harray : (stored.map fun _ => t.calls.length) = some i := by
      have hboth := of_decide_eq_true hevent
      exact hboth.1
    obtain ⟨a, rfl, hi⟩ := Option.map_eq_some_iff.mp harray
    exact h ⟨Option.some_ne_none a, hi.symm⟩

include hl

theorem Law.turn_lt {touch : Touch} (h : touch ∈ t.touches) : touch.turn < t.calls.length := by
  obtain ⟨c, hc, -⟩ := hl.touched touch h
  exact (List.getElem?_eq_some_iff.mp hc).1

theorem Law.oldReleases : t.touches.countP
    (fun touch => touch.array = some t.calls.length ∧ touch.event = .release) = 0 := by
  rw [List.countP_eq_zero]
  intro touch hmem htouch
  obtain ⟨harray, -⟩ := of_decide_eq_true htouch
  obtain ⟨c, -, hc⟩ := hl.touched touch hmem
  obtain ⟨a, -, hturn⟩ := Option.map_eq_some_iff.mp (hc.symm.trans harray)
  exact absurd (hl.turn_lt hmem) (by omega)

theorem Law.publish (hr : getFrame env settings thresh t.source = some r) :
    Law env.held (t.publish thresh settings r.1.1 r.1.2 r.2) := by
  have hcalls : (t.publish thresh settings r.1.1 r.1.2 r.2).calls =
      t.calls ++ [⟨t.source, thresh, settings, r.1.1, r.1.2⟩] := rfl
  have htouches : (t.publish thresh settings r.1.1 r.1.2 r.2).touches =
      t.touches ++ newTouches t thresh settings r.1.2 := rfl
  have hlast : (t.calls ++ [(⟨t.source, thresh, settings, r.1.1, r.1.2⟩ : Called)])[
      t.calls.length]? = some ⟨t.source, thresh, settings, r.1.1, r.1.2⟩ := by simp
  constructor
  · rw [hcalls, htouches]
    intro touch hmem
    rcases List.mem_append.mp hmem with hold | hnew
    · obtain ⟨c, hc, harray⟩ := hl.touched touch hold
      exact ⟨c, by rw [List.getElem?_append_left (hl.turn_lt hold), hc], harray⟩
    · obtain ⟨hturn, harray⟩ := mem_newTouches thresh settings hnew
      rw [hturn]
      exact ⟨_, hlast, harray⟩
  · rw [hcalls, htouches]
    intro i c hc
    by_cases hi : i < t.calls.length
    · rw [List.getElem?_append_left hi] at hc
      obtain ⟨touch, hmem, hturn⟩ := hl.taken i c hc
      exact ⟨touch, List.mem_append_left _ hmem, hturn⟩
    · obtain ⟨hlt, -⟩ := List.getElem?_eq_some_iff.mp hc
      rw [List.length_append, List.length_singleton] at hlt
      refine ⟨⟨t.calls.length, r.1.2.map fun _ => t.calls.length, .release⟩, ?_,
        by dsimp only; omega⟩
      refine List.mem_append_right _ (List.mem_map.mpr ⟨.release, ?_, rfl⟩)
      rw [← List.count_pos_iff, turnEvents_releases]
      exact Nat.one_pos
  · rw [hcalls, htouches]
    intro i c hc hstored
    rw [List.countP_append, newTouches_releases]
    by_cases hi : i < t.calls.length
    · rw [List.getElem?_append_left hi] at hc
      rw [hl.released i c hc hstored, if_neg fun h => absurd h.2 (Nat.ne_of_lt hi)]
    · have hlast' : i = t.calls.length := by
        obtain ⟨hlt, -⟩ := List.getElem?_eq_some_iff.mp hc
        rw [List.length_append, List.length_singleton] at hlt
        omega
      subst hlast'
      obtain rfl := Option.some.inj (hlast.symm.trans hc)
      rw [hl.oldReleases, if_pos ⟨hstored, rfl⟩]
  · rw [hcalls]
    intro c hc
    rcases List.mem_append.mp hc with hold | hnew
    · exact hl.stored c hold
    · obtain rfl := List.mem_singleton.mp hnew
      exact getFrame_spec hr

theorem law_step (h : step env t settings = some t') : Law env.held t' := by
  rcases step_cases h with ⟨r, -, -, rfl⟩ | ⟨r, -, -, rfl⟩ | ⟨thresh, r, -, -, hr, rfl⟩ |
    ⟨thresh, -, -, rfl⟩
  · exact hl.move rfl rfl
  · exact hl.move rfl rfl
  · exact hl.publish thresh settings r hr
  · exact hl.move rfl rfl

end Turn

theorem reachable_law (h : Reachable (system env source) t) : Law env.held t := by
  refine Reaches.invariant ?_ ?_ h
  · rintro t ⟨n, m, rfl⟩
    exact law_initial env.held source n m
  · intro t settings hl he _
    exact law_step hl settings (next_eq he)

/-- Over every run, from any source and with any settings at each turn. -/
theorem only_valid_iff (env : Env) (source : Source) {t : Task}
    (h : Reachable (system env source) t) :
    OnlyValid t ↔ ∀ c ∈ t.calls, c.Fillable env.held := by
  have hl := reachable_law h
  constructor
  · intro hv c hc
    obtain ⟨i, hi⟩ := List.getElem?_of_mem hc
    obtain ⟨touch, hmem, rfl⟩ := hl.taken i c hi
    obtain ⟨-, c', hc', -, hstored⟩ := hv.touched touch hmem
    obtain rfl := Option.some.inj (hi.symm.trans hc')
    exact (hl.stored c hc).1.mp hstored
  · intro hf
    constructor
    · intro touch hmem
      obtain ⟨c, hc, harray⟩ := hl.touched touch hmem
      have hspec := hl.stored c (List.mem_of_getElem? hc)
      have hstored : c.stored ≠ none := hspec.1.mpr (hf c (List.mem_of_getElem? hc))
      refine ⟨?_, c, hc, hspec.2 hstored, hstored⟩
      obtain ⟨a, ha⟩ := Option.ne_none_iff_exists'.mp hstored
      rw [harray, ha]
      rfl
    · exact hl.released

end Published

section Examples

/-- An image of two thresholds after its start message. -/
def twoThresholds : Source :=
  .stream2 Stream2Api.newApi [.message Stream2Api.startBytes, .message Stream2Api.imageBytes]

def plainEnv : Env :=
  ⟨fun _ _ => none, fun _ _ _ => none, (0, 0), Stream2Api.plainEnv, false⟩

def withArray (alloc : Bool) : Settings := ⟨true, false, true, alloc⟩

/-- The header, the image and both thresholds, with an array for the second or not. -/
def twoTurns (alloc : Bool) : Task :=
  runTrace (system plainEnv twoThresholds) (initial twoThresholds 0 0)
    [withArray true, withArray true, withArray true, withArray alloc]

theorem twoTurns_reachable (alloc : Bool) :
    Reachable (system plainEnv twoThresholds) (twoTurns alloc) := by
  have hstart : (system plainEnv twoThresholds).Start (initial twoThresholds 0 0) := ⟨0, 0, rfl⟩
  apply reachable_trace hstart _
  cases alloc
  · decide +kernel
  · decide +kernel

theorem only_valid_two_turns : OnlyValid (twoTurns true) ↔
    ∀ c ∈ (twoTurns true).calls, c.Fillable plainEnv.held :=
  only_valid_iff plainEnv twoThresholds (twoTurns_reachable true)

/-- The pool has no array for the second threshold. -/
theorem invalid_frame_published : ¬ ∀ (env : Env) (source : Source) (t : Task),
    Reachable (system env source) t → OnlyValid t := by
  intro h
  have hvalid := h plainEnv twoThresholds _ (twoTurns_reachable false)
  have htouch : (⟨1, none, .release⟩ : Touch) ∈ (twoTurns false).touches := by decide +kernel
  exact Option.some_ne_none _ (hvalid.touched _ htouch).1.symm

end Examples

end StreamTask
