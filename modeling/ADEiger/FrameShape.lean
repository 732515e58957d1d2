import ADEiger.StreamFraming

/-! What readToken writes to the array that getFrame reads the shape of a frame into.
The array has two elements, and readToken is told that there is room for three. -/
namespace FrameShape

open CString (Text)
open Frozen
open StreamFraming

section Tokens

/-- The tokens that a token says are inside it stand behind it. -/
def Enclosed : List JsonToken → Prop
  | [] => True
  | t :: more => t.numDesc ≤ more.length ∧ Enclosed more

variable {toks more : List JsonToken} {t : Text} {s : List JsonToken × Text}

theorem Enclosed.append (h : Enclosed toks) (hmore : Enclosed more) : Enclosed (toks ++ more) := by
  induction toks with
  | nil => exact hmore
  | cons tok toks ih =>
    have hlen : toks.length ≤ (toks ++ more).length := by
      rw [List.length_append]
      exact Nat.le_add_right _ _
    exact ⟨Nat.le_trans h.1 hlen, ih h.2⟩

theorem Enclosed.drop (h : Enclosed toks) (n : ℕ) : Enclosed (toks.drop n) := by
  induction n generalizing toks with
  | zero => exact h
  | succ n ih =>
    cases toks with
    | nil => exact h
    | cons tok toks => exact ih h.2

theorem enclosed_leaf (type : TokenType) (text : Text) : Enclosed [⟨type, text, 0⟩] :=
  ⟨Nat.zero_le _, trivial⟩

theorem enclose_enclosed (type : TokenType) (h : Enclosed s.1) :
    Enclosed (enclose type t s).1 :=
  ⟨Nat.le_refl _, h⟩

theorem parseString_enclosed (h : parseString t = some s) : Enclosed s.1 := by
  obtain ⟨u, -, h⟩ := Option.bind_eq_some_iff.mp h
  obtain ⟨v, -, rfl⟩ := Option.map_eq_some_iff.mp h
  exact enclosed_leaf _ _

theorem parseIdentifier_enclosed (h : parseIdentifier t = some s) : Enclosed s.1 := by
  rw [parseIdentifier] at h
  split at h
  · split_ifs at h
    obtain rfl := Option.some.inj h
    exact enclosed_leaf _ _
  · cases h

theorem parseKey_enclosed (h : parseKey t = some s) : Enclosed s.1 := by
  rw [parseKey] at h
  split at h
  · split_ifs at h
    · exact parseIdentifier_enclosed h
    · exact parseString_enclosed h
  · cases h

theorem parseNumber_enclosed (h : parseNumber t = some s) : Enclosed s.1 := by
  obtain ⟨int, -, h⟩ := Option.bind_eq_some_iff.mp h
  obtain ⟨frac, -, h⟩ := Option.bind_eq_some_iff.mp h
  obtain ⟨exp, -, rfl⟩ := Option.map_eq_some_iff.mp h
  exact enclosed_leaf _ _

theorem expect_enclosed {word : Text} {type : TokenType} (h : expect word type t = some s) :
    Enclosed s.1 := by
  rw [expect] at h
  split_ifs at h
  obtain rfl := Option.some.inj h
  exact enclosed_leaf _ _

/-- By induction on the fuel, for the three functions that call each other. -/
theorem parse_enclosed (fuel : ℕ) :
    (∀ t s, parseValue fuel t = some s → Enclosed s.1) ∧
      (∀ t s, parseElements fuel t = some s → Enclosed s.1) ∧
        ∀ t s, parsePairs fuel t = some s → Enclosed s.1 := by
  induction fuel with
  | zero =>
    refine ⟨fun t s h => ?_, fun t s h => ?_, fun t s h => ?_⟩
    · cases h
    · cases h
    · cases h
  | succ fuel ih =>
    obtain ⟨hvalue, helements, hpairs⟩ := ih
    refine ⟨fun t s h => ?_, fun t s h => ?_, fun t s h => ?_⟩
    · rw [parseValue] at h
      split at h
      · cases h
      · split_ifs at h
        · exact parseString_enclosed h
        · obtain ⟨inside, hinside, rfl⟩ := Option.map_eq_some_iff.mp h
          exact enclose_enclosed _ (hpairs _ _ hinside)
        · obtain ⟨inside, hinside, rfl⟩ := Option.map_eq_some_iff.mp h
          exact enclose_enclosed _ (helements _ _ hinside)
        · exact expect_enclosed h
        · exact expect_enclosed h
        · exact expect_enclosed h
        · exact parseNumber_enclosed h
    · rw [parseElements] at h
      split_ifs at h
      · obtain rfl := Option.some.inj h
        trivial
      · obtain ⟨value, hv, h⟩ := Option.bind_eq_some_iff.mp h
        obtain ⟨rest, hrest, rfl⟩ := Option.map_eq_some_iff.mp h
        exact (hvalue _ _ hv).append (helements _ _ hrest)
    · rw [parsePairs] at h
      split_ifs at h
      · obtain rfl := Option.some.inj h
        trivial
      · obtain ⟨key, hkey, h⟩ := Option.bind_eq_some_iff.mp h
        obtain ⟨u, -, h⟩ := Option.bind_eq_some_iff.mp h
        obtain ⟨value, hv, h⟩ := Option.bind_eq_some_iff.mp h
        obtain ⟨rest, hrest, rfl⟩ := Option.map_eq_some_iff.mp h
        exact (parseKey_enclosed hkey).append ((hvalue _ _ hv).append (hpairs _ _ hrest))

theorem parseJson_enclosed {n : ℕ} (h : parseJson n t = some toks) : Enclosed toks := by
  rw [parseJson] at h
  split_ifs at h
  · obtain ⟨u, -, h⟩ := Option.bind_eq_some_iff.mp h
    obtain rfl := Option.some.inj h
    trivial
  obtain ⟨u, hu, h⟩ := Option.bind_eq_some_iff.mp h
  split_ifs at h
  obtain rfl := Option.some.inj h
  exact ((parse_enclosed _).1 _ _ hu).append (enclosed_leaf _ _)

theorem findMember_enclosed {name : Text} {desc : ℕ} (h : Enclosed toks)
    (hfind : findMember name desc toks = some more) : Enclosed more := by
  fun_induction findMember name desc toks with
  | case1 => cases hfind
  | case2 => cases hfind
  | case3 => cases hfind
  | case4 => cases hfind
  | case5 =>
    obtain rfl := Option.some.inj hfind
    exact h.2
  | case6 desc key value toks _ _ _ inside ih => exact ih (h.2.2.drop inside) hfind

theorem findElement_enclosed {ind desc : ℕ} (h : Enclosed toks)
    (hfind : findElement ind desc toks = some more) : Enclosed more := by
  fun_induction findElement ind desc toks with
  | case1 => cases hfind
  | case2 => cases hfind
  | case3 =>
    obtain rfl := Option.some.inj hfind
    exact h
  | case4 => cases hfind
  | case5 desc value toks ind _ inside ih => exact ih (h.2.drop inside) hfind

theorem findPath_enclosed {fuel : ℕ} {path : Text} (h : Enclosed toks)
    (hfind : findPath fuel toks path = some more) : Enclosed more := by
  induction fuel generalizing toks path with
  | zero => cases hfind
  | succ fuel ih =>
    cases path with
    | nil => cases hfind
    | cons c path =>
      cases toks with
      | nil => cases hfind
      | cons tok toks =>
        rw [findPath] at hfind
        obtain ⟨⟨found, rest⟩, hpart, hfind⟩ := Option.bind_eq_some_iff.mp hfind
        have hfound : Enclosed found := by
          split_ifs at hpart
          · obtain ⟨s, -, hpart⟩ := Option.bind_eq_some_iff.mp hpart
            obtain ⟨toks', hmember, hpair⟩ := Option.map_eq_some_iff.mp hpart
            obtain ⟨rfl, -⟩ := Prod.mk.inj hpair
            exact findElement_enclosed h.2 hmember
          · obtain ⟨toks', hmember, hpair⟩ := Option.map_eq_some_iff.mp hpart
            obtain ⟨rfl, -⟩ := Prod.mk.inj hpair
            exact findMember_enclosed h.2 hmember
        split_ifs at hfind
        · obtain rfl := Option.some.inj hfind
          exact hfound
        · exact ih hfound hfind

theorem findJsonToken_enclosed {name : Text} (h : Enclosed toks)
    (hfind : findJsonToken toks name = some more) : Enclosed more :=
  findPath_enclosed h hfind

end Tokens

section ReadToken

/-- What is stored, from the first element on, and whether readToken succeeds. -/
structure Stored where
  values : List ℕ
  success : Bool
  deriving DecidableEq, Repr

/-- The loop of readToken, which ends with the first token that is not a number. -/
def storeSizes : List JsonToken → Stored
  | [] => ⟨[], true⟩
  | t :: more =>
    match scanSize t.text with
    | none => ⟨[], false⟩
    | some value => ⟨value :: (storeSizes more).values, (storeSizes more).success⟩

/-- `readToken` into an array that is said to have room for `size` elements. -/
def readToken (tokens : List JsonToken) (name : Text) (size : ℕ) : Stored :=
  match findJsonToken tokens name with
  | some (t :: more) =>
    if size < t.numDesc then ⟨[], false⟩ else storeSizes (more.take t.numDesc)
  | _ => ⟨[], false⟩

variable {elements tokens : List JsonToken} {name : Text} {size : ℕ}

theorem storeSizes_length_le (elements : List JsonToken) :
    (storeSizes elements).values.length ≤ elements.length := by
  induction elements with
  | nil => exact Nat.le_refl _
  | cons t more ih =>
    rw [storeSizes]
    split
    · exact Nat.zero_le _
    · exact Nat.succ_le_succ ih

/-- All tokens are numbers. -/
def AllSizes (elements : List JsonToken) : Prop := ∀ t ∈ elements, scanSize t.text ≠ none

theorem storeSizes_success_iff : (storeSizes elements).success = true ↔ AllSizes elements := by
  induction elements with
  | nil => exact iff_of_true rfl (List.forall_mem_nil _)
  | cons t more ih =>
    rw [storeSizes, AllSizes, List.forall_mem_cons, ← AllSizes, ← ih]
    split
    case h_1 hnone => exact iff_of_false Bool.false_ne_true fun h => h.1 hnone
    case h_2 value hsome => exact ⟨fun h => ⟨by simp [hsome], h⟩, fun h => h.2⟩

theorem storeSizes_full_iff :
    (storeSizes elements).values.length = elements.length ↔ AllSizes elements := by
  induction elements with
  | nil => exact iff_of_true rfl (List.forall_mem_nil _)
  | cons t more ih =>
    rw [storeSizes, AllSizes, List.forall_mem_cons, ← AllSizes, ← ih]
    split
    case h_1 hnone => exact iff_of_false (Nat.zero_ne_add_one _) fun h => h.1 hnone
    case h_2 value hsome =>
      simp only [List.length_cons, Nat.add_right_cancel_iff, hsome, ne_eq, reduceCtorEq,
        not_false_eq_true, true_and]

/-- On success these are the numbers that the reading by whole tokens gives. -/
theorem storeSizes_eq_mapM (elements : List JsonToken) :
    elements.mapM (fun t => scanSize t.text) =
      if (storeSizes elements).success then some (storeSizes elements).values else none := by
  induction elements with
  | nil => rfl
  | cons t more ih =>
    rw [List.mapM_cons, ih, storeSizes]
    cases scanSize t.text with
    | none => rfl
    | some value => cases (storeSizes more).success <;> rfl

/-- A name that is not there is an error before anything is stored. -/
theorem readToken_cases (tokens : List JsonToken) (name : Text) (size : ℕ) :
    (∃ t more, findJsonToken tokens name = some (t :: more) ∧ readToken tokens name size =
      if size < t.numDesc then ⟨[], false⟩ else storeSizes (more.take t.numDesc)) ∨
    (∀ t more, findJsonToken tokens name ≠ some (t :: more)) ∧
      readToken tokens name size = ⟨[], false⟩ := by
  cases hfind : findJsonToken tokens name with
  | none =>
    refine Or.inr ⟨fun t more h => ?_, by rw [readToken, hfind]⟩
    cases h
  | some toks =>
    cases toks with
    | nil =>
      refine Or.inr ⟨fun t more h => ?_, by rw [readToken, hfind]⟩
      cases Option.some.inj h
    | cons t more => exact Or.inl ⟨t, more, rfl, by rw [readToken, hfind]⟩

theorem readSizes_eq (tokens : List JsonToken) (name : Text) (size : ℕ) :
    readSizes tokens name size =
      if (readToken tokens name size).success then some (readToken tokens name size).values
      else none := by
  obtain ⟨t, more, hfind, hread⟩ | ⟨hfind, hread⟩ := readToken_cases tokens name size
  · rw [hread, readSizes, hfind]
    by_cases hsize : size < t.numDesc
    · simp only [if_pos hsize, Bool.false_eq_true, if_false]
    · simp only [if_neg hsize]
      exact storeSizes_eq_mapM _
  · rw [hread, readSizes]
    split
    · exact absurd ‹_› (hfind _ _)
    · rfl

end ReadToken

section GetFrame

/-- What getFrame has stored in `frameShape`, and whether it comes to the array. -/
structure ShapeRead where
  stored : List ℕ
  allocates : Bool
  deriving DecidableEq, Repr

/-- The other tokens of the message, without which there is no array either. -/
def Usable (tokens : List JsonToken) : Prop :=
  ((readChars tokens "type".toList 8).bind readDataType).isSome = true ∧
    (readChars tokens "encoding".toList 32).isSome = true ∧
      (readSize tokens "size".toList).isSome = true

instance (tokens : List JsonToken) : Decidable (Usable tokens) :=
  inferInstanceAs (Decidable (_ ∧ _ ∧ _))

/-- getFrame up to the pool, on a part that is JSON. The four tokens are read one after the other,
whether or not one of them fails. -/
def readFrameShape (bytes : Text) : Option ShapeRead :=
  (parseJson StreamFraming.MAX_JSON_TOKENS bytes).map fun tokens =>
    let shape := readToken tokens "shape".toList 3
    ⟨shape.values, shape.success && Usable tokens⟩

variable {bytes : Text} {tokens : List JsonToken}

/-- An array of two elements in the message is what the reading of the whole part takes. -/
theorem readShape_isSome_iff (bytes : Text) : (StreamFraming.readShape bytes).isSome = true ↔
    ∃ x y, readFrameShape bytes = some ⟨[x, y], true⟩ := by
  rw [readFrameShape, StreamFraming.readShape]
  cases hparse : parseJson StreamFraming.MAX_JSON_TOKENS bytes with
  | none => simp
  | some tokens =>
    simp only [Option.map_some, Option.some.injEq, ShapeRead.mk.injEq, Bool.and_eq_true,
      decide_eq_true_eq, readSizes_eq]
    constructor
    · intro h
      split at h
      case h_1 x y dataType encoding size hshape htype hencoding hsize =>
        split_ifs at hshape with hsuccess
        obtain ⟨t, ht⟩ := Option.isSome_iff_exists.mp h
        obtain ⟨type, htype', -⟩ := Option.map_eq_some_iff.mp ht
        refine ⟨x, y, Option.some.inj hshape, hsuccess, ?_, ?_, ?_⟩
        · rw [htype, Option.bind_some, htype', Option.isSome_some]
        · rw [hencoding, Option.isSome_some]
        · rw [hsize, Option.isSome_some]
      case h_2 => cases h
    · rintro ⟨x, y, hvalues, hsuccess, htype, hencoding, hsize⟩
      obtain ⟨type, htype⟩ := Option.isSome_iff_exists.mp htype
      obtain ⟨dataType, hdataType, htype⟩ := Option.bind_eq_some_iff.mp htype
      obtain ⟨encoding, hencoding⟩ := Option.isSome_iff_exists.mp hencoding
      obtain ⟨size, hsize⟩ := Option.isSome_iff_exists.mp hsize
      simp only [hsuccess, if_true, hvalues, hdataType, hencoding, hsize, htype, Option.map_some,
        Option.isSome_some]

/-- The condition on the tokens of a message. With more than three elements nothing is stored, and
an element that is not a number ends the loop. -/
def ShapeFits (tokens : List JsonToken) : Prop :=
  ∀ t more, findJsonToken tokens "shape".toList = some (t :: more) →
    AllSizes (more.take t.numDesc) → t.numDesc ≠ 3 ∧ (t.numDesc < 2 → ¬ Usable tokens)

/-- `frameShape` has two elements, and both are set when getFrame comes to the array. -/
def ShapeRead.InBounds (r : ShapeRead) : Prop :=
  r.stored.length ≤ 2 ∧ (r.allocates = true → 2 ≤ r.stored.length)

theorem shapeFits_iff {t : JsonToken} {more : List JsonToken}
    (hfind : findJsonToken tokens "shape".toList = some (t :: more)) :
    ShapeFits tokens ↔ (AllSizes (more.take t.numDesc) →
      t.numDesc ≠ 3 ∧ (t.numDesc < 2 → ¬ Usable tokens)) := by
  constructor
  · intro h
    exact h t more hfind
  · intro h t' more' hfind'
    obtain ⟨rfl, rfl⟩ := List.cons.inj (Option.some.inj (hfind.symm.trans hfind'))
    exact h

/-- The number of elements against the room, in the three ways that readToken ends. -/
theorem inBounds_iff (htokens : Enclosed tokens) :
    (ShapeRead.mk (readToken tokens "shape".toList 3).values
      ((readToken tokens "shape".toList 3).success && Usable tokens)).InBounds ↔
        ShapeFits tokens := by
  rw [ShapeRead.InBounds]
  obtain ⟨t, more, hfind, hread⟩ | ⟨hfind, hread⟩ := readToken_cases tokens "shape".toList 3
  · have hlen : (more.take t.numDesc).length = t.numDesc :=
      List.length_take_of_le (findJsonToken_enclosed htokens hfind).1
    rw [shapeFits_iff hfind, hread]
    by_cases hsize : 3 < t.numDesc
    · rw [if_pos hsize]
      exact iff_of_true ⟨Nat.zero_le _, fun h => by cases h⟩ fun _ => ⟨by omega, fun h => by omega⟩
    · rw [if_neg hsize]
      by_cases hall : AllSizes (more.take t.numDesc)
      · have hfull := storeSizes_full_iff.mpr hall
        simp only [hfull, hlen, storeSizes_success_iff.mpr hall, Bool.true_and,
          decide_eq_true_eq, hall, true_implies]
        constructor
        · intro h
          exact ⟨by omega, fun hlt husable => by have := h.2 husable; omega⟩
        · intro h
          exact ⟨by omega, fun husable => Nat.le_of_not_lt fun hlt => h.2 hlt husable⟩
      · have hle := storeSizes_length_le (more.take t.numDesc)
        have hne := mt storeSizes_full_iff.mp hall
        have htwo : (storeSizes (more.take t.numDesc)).values.length ≤ 2 := by omega
        refine iff_of_true ⟨htwo, fun h => ?_⟩ fun h => absurd h hall
        exact absurd (storeSizes_success_iff.mp (Bool.and_eq_true_iff.mp h).1) hall
  · refine iff_of_true ?_ fun t more h => absurd h (hfind t more)
    rw [hread]
    exact ⟨Nat.zero_le _, fun h => by cases h⟩

/-- For every part. -/
theorem shape_in_bounds_iff (bytes : Text) :
    (∀ r, readFrameShape bytes = some r → r.InBounds) ↔
      ∀ tokens, parseJson StreamFraming.MAX_JSON_TOKENS bytes = some tokens →
        ShapeFits tokens := by
  constructor
  · intro h tokens hparse
    exact (inBounds_iff (parseJson_enclosed hparse)).mp
      (h _ (Option.map_eq_some_iff.mpr ⟨tokens, hparse, rfl⟩))
  · intro h r hr
    obtain ⟨tokens, hparse, rfl⟩ := Option.map_eq_some_iff.mp hr
    exact (inBounds_iff (parseJson_enclosed hparse)).mpr (h tokens hparse)

/-- A message whose shape has a third size. -/
def threeSizes : Text :=
  "\x7b\"shape\":[1,2,3],\"type\":\"uint8\",\"encoding\":\"<\",\"size\":6\x7d".toList

theorem three_sizes_stored : ¬ ∀ bytes r, readFrameShape bytes = some r → r.InBounds := by
  intro h
  have hread : readFrameShape threeSizes = some ⟨[1, 2, 3], true⟩ := by decide +kernel
  exact absurd (h threeSizes _ hread).1 (by decide)

end GetFrame

end FrameShape
