import ADEiger.FrozenDocument
import Mathlib.Data.List.TakeWhile

/-! What the tokens say of any text that the parser takes, whether or not it is JSON: commas may be
missing, keys may be bare words, and what follows the document is not looked at.
The tokens are those of one value, nested as its brackets are, and a lookup is one among the
members of the outermost object. -/
namespace Frozen

open CString (Text)


section Nesting

/-- The texts stand in `t` one behind the other. -/
inductive Spread : List Text → Text → Prop where
  | nil {t} : Spread [] t
  | cons {x xs rest} (gap : Text) : Spread xs rest → Spread (x :: xs) (gap ++ (x ++ rest))

/-- A member of an object: its key, and the text and the tokens of its value. -/
structure Field where
  key : Text
  text : Text
  tokens : List JsonToken

mutual

/-- The tokens of the value that stands in `text`. -/
inductive Nested : Text → List JsonToken → Prop where
  | leaf {type text} : type ≠ .array ∧ type ≠ .object → Nested text [⟨type, text, 0⟩]
  | array {inner texts toks} : NestedItems texts toks → Spread texts inner →
      Nested ('[' :: (inner ++ [']'])) (⟨.array, '[' :: (inner ++ [']']), toks.length⟩ :: toks)
  | object {inner fields toks} : NestedFields fields toks →
      Spread (fields.flatMap fun f => [f.key, f.text]) inner →
      Nested ('\x7b' :: (inner ++ ['\x7d']))
        (⟨.object, '\x7b' :: (inner ++ ['\x7d']), toks.length⟩ :: toks)

inductive NestedItems : List Text → List JsonToken → Prop where
  | nil : NestedItems [] []
  | cons {text texts value toks} : Nested text value → NestedItems texts toks →
      NestedItems (text :: texts) (value ++ toks)

inductive NestedFields : List Field → List JsonToken → Prop where
  | nil : NestedFields [] []
  | cons {field fields toks} : Nested field.text field.tokens → NestedFields fields toks →
      NestedFields (field :: fields) (⟨.string, field.key, 0⟩ :: (field.tokens ++ toks))

end

/-- The lookup gives the tokens from the value of the first member with the name on, and nothing
if there is none. -/
def Finds (fields : List Field) (name : Text) (found : Option (List JsonToken)) : Prop :=
  match fields.find? fun f => f.key = name with
  | some f => ∃ more, found = some (f.tokens ++ more)
  | none => found = none

/-- What the parser gives for a text that starts with an object or an array. -/
inductive TokensOf (t : Text) (toks : List JsonToken) : Prop where
  | object (gap inner after : Text) (fields : List Field) (inside : List JsonToken) :
      t = gap ++ ('\x7b' :: (inner ++ '\x7d' :: after)) → (∀ c ∈ gap, isSpace c = true) →
      NestedFields fields inside → Spread (fields.flatMap fun f => [f.key, f.text]) inner →
      toks = ⟨.object, '\x7b' :: (inner ++ ['\x7d']), inside.length⟩ ::
        (inside ++ [⟨.eof, [], 0⟩]) →
      (∀ name, OneName name → Finds fields name (findJsonToken toks name)) → TokensOf t toks
  | array (gap inner after : Text) (texts : List Text) (inside : List JsonToken) :
      t = gap ++ ('[' :: (inner ++ ']' :: after)) → (∀ c ∈ gap, isSpace c = true) →
      NestedItems texts inside → Spread texts inner →
      toks = ⟨.array, '[' :: (inner ++ [']']), inside.length⟩ :: (inside ++ [⟨.eof, [], 0⟩]) →
      (∀ name, OneName name → findJsonToken toks name = none) → TokensOf t toks

end Nesting

section Scanners

variable {t rest u : Text} {s : List JsonToken × Text} {fuel : ℕ}

theorem skipWhitespaces_split (t : Text) : ∃ gap, t = gap ++ skipWhitespaces t ∧
    ∀ c ∈ gap, isSpace c = true := by
  refine ⟨t.takeWhile isSpace, ?_, fun c hc => List.mem_takeWhile_imp hc⟩
  exact (List.takeWhile_append_dropWhile (p := isSpace) (l := t)).symm

theorem testAndSkip_split {c : Char} (h : testAndSkip c t = some rest) :
    ∃ gap, t = gap ++ c :: rest := by
  obtain ⟨gap, hgap, -⟩ := skipWhitespaces_split t
  rw [testAndSkip] at h
  split at h
  case h_1 d u hskip =>
    split_ifs at h with hd
    obtain rfl := Option.some.inj h
    exact ⟨gap, by rw [← hd, ← hskip]; exact hgap⟩
  case h_2 => cases h

theorem skipComma_split (t : Text) : ∃ gap, t = gap ++ skipComma t := by
  obtain ⟨gap, hgap, -⟩ := skipWhitespaces_split t
  rw [skipComma]
  split
  case h_1 u hskip => exact ⟨gap ++ [','], by rw [hgap, hskip, List.append_assoc]; rfl⟩
  case h_2 => exact ⟨gap, hgap⟩

theorem parseStringBody_split {body : Text} (h : parseStringBody fuel t = some (body, rest)) :
    t = body ++ '"' :: rest := by
  induction fuel generalizing t body with
  | zero => cases h
  | succ fuel ih =>
    cases t with
    | nil => cases h
    | cons ch t =>
      rw [parseStringBody] at h
      split_ifs at h with hcontrol hroom hquote
      · obtain ⟨rfl, rfl⟩ := Prod.mk.inj (Option.some.inj h)
        rw [hquote, List.nil_append]
      all_goals
        obtain ⟨len, -, h⟩ := Option.bind_eq_some_iff.mp h
        obtain ⟨⟨more, rest'⟩, hmore, h⟩ := Option.map_eq_some_iff.mp h
        obtain ⟨rfl, rfl⟩ := Prod.mk.inj h
        rw [List.append_assoc, ← ih hmore, List.take_append_drop]

theorem parseString_split (h : parseString t = some s) : ∃ gap body,
    t = gap ++ (body ++ ('"' :: s.2)) ∧ s.1 = [⟨.string, body, 0⟩] := by
  obtain ⟨u, hskip, h⟩ := Option.bind_eq_some_iff.mp h
  obtain ⟨⟨body, rest⟩, hbody, rfl⟩ := Option.map_eq_some_iff.mp h
  obtain ⟨gap, rfl⟩ := testAndSkip_split hskip
  refine ⟨gap ++ ['"'], body, ?_, rfl⟩
  rw [parseStringBody_split hbody, List.append_assoc]
  rfl

/-- Where a value stands in `t`, and what is behind it. -/
def Stands (text t rest : Text) : Prop := ∃ gap after, t = gap ++ (text ++ (after ++ rest))

theorem Stands.skip {gap : Text} (h : Stands u t rest) : Stands u (gap ++ t) rest := by
  obtain ⟨before, after, rfl⟩ := h
  exact ⟨gap ++ before, after, (List.append_assoc _ _ _).symm⟩

theorem Stands.skipped (h : Stands u (skipWhitespaces t) rest) : Stands u t rest := by
  obtain ⟨gap, hgap, -⟩ := skipWhitespaces_split t
  rw [hgap]
  exact h.skip

theorem parseIdentifier_split (h : parseIdentifier t = some s) :
    ∃ name, s.1 = [⟨.string, name, 0⟩] ∧ Stands name t s.2 := by
  rw [parseIdentifier] at h
  split at h
  case h_1 c u hskip =>
    split_ifs at h
    obtain rfl := Option.some.inj h
    refine ⟨_, rfl, Stands.skipped ⟨[], [], ?_⟩⟩
    rw [hskip, List.nil_append, List.nil_append, List.takeWhile_append_dropWhile]
  case h_2 => cases h

theorem parseKey_split (h : parseKey t = some s) :
    ∃ name, s.1 = [⟨.string, name, 0⟩] ∧ Stands name t s.2 := by
  rw [parseKey] at h
  split at h
  case h_1 c u hskip =>
    split_ifs at h
    · obtain ⟨name, hname, hstands⟩ := parseIdentifier_split h
      exact ⟨name, hname, Stands.skipped (hskip ▸ hstands)⟩
    · obtain ⟨gap, body, htext, hbody⟩ := parseString_split h
      exact ⟨body, hbody, Stands.skipped (hskip ▸ ⟨gap, ['"'], htext⟩)⟩
  case h_2 => cases h

theorem digits_split {ds : Text × Text} (h : digits t = some ds) :
    t = ds.1 ++ ds.2 ∧ ds.1 ≠ [] := by
  rw [digits] at h
  split_ifs at h with hnil
  obtain rfl := Option.some.inj h
  exact ⟨List.takeWhile_append_dropWhile.symm, hnil⟩

theorem parseFraction_split {fs : Text × Text} (h : parseFraction t = some fs) :
    t = fs.1 ++ fs.2 := by
  unfold parseFraction at h
  split at h
  · obtain ⟨ds, hds, rfl⟩ := Option.map_eq_some_iff.mp h
    rw [(digits_split hds).1]
    rfl
  · obtain rfl := Option.some.inj h
    rfl

theorem parseExponent_split {es : Text × Text} (h : parseExponent t = some es) :
    t = es.1 ++ es.2 := by
  unfold parseExponent at h
  split at h
  · split_ifs at h
    · split at h
      · split_ifs at h
        · obtain ⟨ds, hds, rfl⟩ := Option.map_eq_some_iff.mp h
          rw [(digits_split hds).1]
          rfl
        · obtain ⟨ds, hds, rfl⟩ := Option.map_eq_some_iff.mp h
          rw [(digits_split hds).1]
          rfl
      · cases h
    · obtain rfl := Option.some.inj h
      rfl
  · obtain rfl := Option.some.inj h
    rfl

theorem parseNumber_split (h : parseNumber t = some s) :
    ∃ number, number ≠ [] ∧ s.1 = [⟨.number, number, 0⟩] ∧ Stands number t s.2 := by
  unfold parseNumber at h
  dsimp only at h
  split at h
  case h_1 u hskip =>
    obtain ⟨int, hint, h⟩ := Option.bind_eq_some_iff.mp h
    obtain ⟨frac, hfrac, h⟩ := Option.bind_eq_some_iff.mp h
    obtain ⟨exp, hexp, rfl⟩ := Option.map_eq_some_iff.mp h
    obtain ⟨hbody, -⟩ : u = _ ∧ _ := digits_split hint
    rw [parseFraction_split hfrac, parseExponent_split hexp] at hbody
    refine ⟨_, by simp, rfl, Stands.skipped ⟨[], [], ?_⟩⟩
    rw [hskip, hbody]
    simp only [List.append_assoc, List.nil_append, List.cons_append]
  case h_2 =>
    obtain ⟨int, hint, h⟩ := Option.bind_eq_some_iff.mp h
    obtain ⟨frac, hfrac, h⟩ := Option.bind_eq_some_iff.mp h
    obtain ⟨exp, hexp, rfl⟩ := Option.map_eq_some_iff.mp h
    obtain ⟨hbody, hne⟩ : skipWhitespaces t = _ ∧ _ := digits_split hint
    rw [parseFraction_split hfrac, parseExponent_split hexp] at hbody
    refine ⟨_, by simp [hne], rfl, Stands.skipped ⟨[], [], ?_⟩⟩
    rw [hbody]
    simp only [List.append_assoc, List.nil_append]

theorem expect_split {word : Text} {type : TokenType} (h : expect word type t = some s) :
    s.1 = [⟨type, word, 0⟩] ∧ Stands word t s.2 := by
  rw [expect] at h
  split_ifs at h with hprefix
  obtain rfl := Option.some.inj h
  obtain ⟨rest, rfl⟩ := List.isPrefixOf_iff_prefix.mp hprefix
  refine ⟨rfl, [], [], ?_⟩
  rw [List.drop_left]
  rfl

end Scanners

section Parser

variable {t rest u text inner : Text} {s inside : List JsonToken × Text} {fuel : ℕ}
  {texts : List Text} {fields : List Field} {toks : List JsonToken} {name : Text}

theorem enclose_split (type : TokenType) {opening closing : Char}
    (h : rest = inner ++ closing :: inside.2) :
    enclose type (opening :: rest) inside =
      (⟨type, opening :: (inner ++ [closing]), inside.1.length⟩ :: inside.1, inside.2) := by
  have htext : opening :: rest = opening :: (inner ++ [closing]) ++ inside.2 := by
    rw [h, List.cons_append, List.append_assoc]
    rfl
  rw [htext]
  exact enclose_eq type _ _ _

theorem Spread.skip {gap : Text} (h : Spread texts t) : Spread texts (gap ++ t) := by
  cases h with
  | nil => exact .nil
  | cons before hrest =>
    rw [← List.append_assoc]
    exact .cons (gap ++ before) hrest

/-- What was read first stands in front of what was read behind it. -/
theorem Stands.spread {gap : Text} {closing : Char}
    (h : Stands text t (gap ++ (inner ++ closing :: rest))) (hinner : Spread texts inner) :
    ∃ whole, t = whole ++ closing :: rest ∧ Spread (text :: texts) whole := by
  obtain ⟨before, after, rfl⟩ := h
  refine ⟨before ++ (text ++ (after ++ (gap ++ inner))), ?_, .cons before hinner.skip.skip⟩
  simp only [List.append_assoc]

theorem head_split {c : Char} (h : (skipWhitespaces t).head? = some c) : ∃ gap,
    t = gap ++ c :: (skipWhitespaces t).tail ∧ ∀ c ∈ gap, isSpace c = true := by
  obtain ⟨gap, hgap, hspace⟩ := skipWhitespaces_split t
  refine ⟨gap, ?_, hspace⟩
  rwa [← List.eq_cons_of_mem_head? h]

/-- The tokens are nested as the brackets are; by induction on the fuel, for the three functions
that call each other. -/
theorem parse_nested (fuel : ℕ) :
    (∀ t s, parseValue fuel t = some s → ∃ text, Nested text s.1 ∧ Stands text t s.2) ∧
    (∀ t s, parseElements fuel t = some s → ∃ texts inner, NestedItems texts s.1 ∧
      Spread texts inner ∧ t = inner ++ ']' :: s.2) ∧
    ∀ t s, parsePairs fuel t = some s → ∃ fields inner, NestedFields fields s.1 ∧
      Spread (fields.flatMap fun f => [f.key, f.text]) inner ∧ t = inner ++ '}' :: s.2 := by
  induction fuel with
  | zero =>
    refine ⟨fun t s h => ?_, fun t s h => ?_, fun t s h => ?_⟩
    · cases h
    · cases h
    · cases h
  | succ fuel ih =>
    obtain ⟨hvalue, helements, hpairs⟩ := ih
    refine ⟨fun t s h => ?_, fun t s h => ?_, fun t s h => ?_⟩
    · rw [parseValue] at h
      split at h
      case h_1 => cases h
      case h_2 ch rest hskip =>
        split_ifs at h with hquote hbrace hbracket hnull htrue hfalse hnumber
        · obtain ⟨gap, body, htext, hbody⟩ := parseString_split h
          rw [hbody]
          exact ⟨body, .leaf (by decide), Stands.skipped ⟨gap, ['"'], htext⟩⟩
        · obtain ⟨inside, hinside, rfl⟩ := Option.map_eq_some_iff.mp h
          obtain ⟨fields, inner, hfields, hspread, hrest⟩ := hpairs _ _ hinside
          rw [hskip, hbrace, enclose_split _ hrest]
          refine ⟨_, .object hfields hspread, Stands.skipped ⟨[], [], ?_⟩⟩
          rw [hskip, hbrace, hrest]
          simp only [List.nil_append, List.cons_append, List.append_assoc]
        · obtain ⟨inside, hinside, rfl⟩ := Option.map_eq_some_iff.mp h
          obtain ⟨texts, inner, htexts, hspread, hrest⟩ := helements _ _ hinside
          rw [hskip, hbracket, enclose_split _ hrest]
          refine ⟨_, .array htexts hspread, Stands.skipped ⟨[], [], ?_⟩⟩
          rw [hskip, hbracket, hrest]
          simp only [List.nil_append, List.cons_append, List.append_assoc]
        · obtain ⟨htok, hstands⟩ := expect_split h
          rw [htok]
          exact ⟨_, .leaf (by decide), hstands.skipped⟩
        · obtain ⟨htok, hstands⟩ := expect_split h
          rw [htok]
          exact ⟨_, .leaf (by decide), hstands.skipped⟩
        · obtain ⟨htok, hstands⟩ := expect_split h
          rw [htok]
          exact ⟨_, .leaf (by decide), hstands.skipped⟩
        · obtain ⟨number, -, htok, hstands⟩ := parseNumber_split h
          rw [htok]
          exact ⟨number, .leaf (by decide), hstands.skipped⟩
    · rw [parseElements] at h
      split_ifs at h with hclose
      · obtain rfl := Option.some.inj h
        obtain ⟨gap, hgap, -⟩ := head_split hclose
        exact ⟨[], gap, .nil, .nil, hgap⟩
      · obtain ⟨value, hv, h⟩ := Option.bind_eq_some_iff.mp h
        obtain ⟨more, hmore, rfl⟩ := Option.map_eq_some_iff.mp h
        obtain ⟨text, hnested, hstands⟩ := hvalue _ _ hv
        obtain ⟨texts, inner, htexts, hspread, hrest⟩ := helements _ _ hmore
        obtain ⟨comma, hcomma⟩ := skipComma_split value.2
        rw [hcomma, hrest] at hstands
        obtain ⟨whole, ht, hwhole⟩ := hstands.skipped.spread hspread
        exact ⟨text :: texts, whole, .cons hnested htexts, hwhole, ht⟩
    · rw [parsePairs] at h
      split_ifs at h with hclose
      · obtain rfl := Option.some.inj h
        obtain ⟨gap, hgap, -⟩ := head_split hclose
        exact ⟨[], gap, .nil, .nil, hgap⟩
      · obtain ⟨key, hkey, h⟩ := Option.bind_eq_some_iff.mp h
        obtain ⟨u, hcolon, h⟩ := Option.bind_eq_some_iff.mp h
        obtain ⟨value, hv, h⟩ := Option.bind_eq_some_iff.mp h
        obtain ⟨more, hmore, rfl⟩ := Option.map_eq_some_iff.mp h
        obtain ⟨name, hname, hkeyStands⟩ := parseKey_split hkey
        obtain ⟨text, hnested, hstands⟩ := hvalue _ _ hv
        obtain ⟨fields, inner, hfields, hspread, hrest⟩ := hpairs _ _ hmore
        obtain ⟨comma, hcomma⟩ := skipComma_split value.2
        obtain ⟨gap, hgap⟩ := testAndSkip_split hcolon
        rw [hcomma, hrest] at hstands
        obtain ⟨behind, hu, hbehind⟩ := hstands.spread hspread
        have hbetween : gap ++ ':' :: u = (gap ++ [':']) ++ (behind ++ '}' :: more.2) := by
          rw [hu, List.append_assoc]
          rfl
        rw [hgap, hbetween] at hkeyStands
        obtain ⟨whole, ht, hwhole⟩ := hkeyStands.skipped.spread hbehind
        refine ⟨⟨name, text, value.1⟩ :: fields, whole, ?_, hwhole, ht⟩
        rw [hname]
        exact NestedFields.cons hnested hfields

/-- A value is one token, with the tokens inside it behind it. -/
theorem Nested.oneValue (h : Nested text toks) : OneValue toks := by
  cases h with
  | leaf htype => exact oneValue_single _ _ htype
  | array _ _ => exact oneValue_enclose _ (.inl rfl) _ _
  | object _ _ => exact oneValue_enclose _ (.inr rfl) _ _

/-- The lookup goes from member to member, over all tokens of the values in between. -/
theorem findMember_finds (h : NestedFields fields toks) (tok : JsonToken) :
    Finds fields name (findMember name toks.length (toks ++ [tok])) := by
  induction fields generalizing toks with
  | nil =>
    obtain ⟨⟩ := h
    simp [Finds, findMember]
  | cons field fields ih =>
    obtain _ | @⟨_, _, toks, hnested, hfields⟩ := h
    by_cases hkey : field.key = name
    · rw [Finds, List.find?_cons_of_pos (by simpa using hkey)]
      obtain ⟨head, inside, htokens, -⟩ := hnested.oneValue
      refine ⟨toks ++ [tok], ?_⟩
      rw [htokens]
      simp [findMember, hkey]
    · rw [Finds, List.find?_cons_of_neg (by simpa using hkey),
        findMember_other hkey hnested.oneValue]
      exact ih hfields

end Parser

section Termination

variable {t rest text : Text} {s : List JsonToken × Text} {fuel : ℕ}

theorem Stands.length_lt (h : Stands text t rest) (hne : text ≠ []) : rest.length < t.length := by
  obtain ⟨gap, after, rfl⟩ := h
  have hpos := List.length_pos_iff.mpr hne
  simp only [List.length_append]
  omega

theorem parseValue_shorter (h : parseValue fuel t = some s) : s.2.length < t.length := by
  obtain ⟨fuel, rfl⟩ : ∃ n, fuel = n + 1 := by
    cases fuel with
    | zero => cases h
    | succ n => exact ⟨n, rfl⟩
  obtain ⟨gap, hgap, -⟩ := skipWhitespaces_split t
  have hle := congrArg List.length hgap
  rw [List.length_append] at hle
  refine Nat.lt_of_lt_of_le ?_ (by omega : (skipWhitespaces t).length ≤ t.length)
  rw [parseValue] at h
  split at h
  case h_1 => cases h
  case h_2 ch rest hskip =>
    rw [hskip] at h ⊢
    split_ifs at h
    · obtain ⟨gap, body, htext, -⟩ := parseString_split h
      have hlen := congrArg List.length htext
      simp only [List.length_append, List.length_cons] at hlen
      rw [List.length_cons]
      omega
    · obtain ⟨inside, hinside, rfl⟩ := Option.map_eq_some_iff.mp h
      obtain ⟨_, inner, -, -, hrest⟩ := (parse_nested _).2.2 _ _ hinside
      rw [hrest]
      simp only [enclose, List.length_cons, List.length_append]
      omega
    · obtain ⟨inside, hinside, rfl⟩ := Option.map_eq_some_iff.mp h
      obtain ⟨_, inner, -, -, hrest⟩ := (parse_nested _).2.1 _ _ hinside
      rw [hrest]
      simp only [enclose, List.length_cons, List.length_append]
      omega
    · exact (expect_split h).2.length_lt (by decide)
    · exact (expect_split h).2.length_lt (by decide)
    · exact (expect_split h).2.length_lt (by decide)
    · obtain ⟨number, hne, -, hstands⟩ := parseNumber_split h
      exact hstands.length_lt hne

theorem skipWhitespaces_length (t : Text) : (skipWhitespaces t).length ≤ t.length := by
  obtain ⟨gap, hgap, -⟩ := skipWhitespaces_split t
  have hlen := congrArg List.length hgap
  rw [List.length_append] at hlen
  omega

theorem skipComma_length (t : Text) : (skipComma t).length ≤ t.length := by
  obtain ⟨gap, hgap⟩ := skipComma_split t
  have hlen := congrArg List.length hgap
  rw [List.length_append] at hlen
  omega

/-- One more round changes nothing once there is one for each byte and each bracket; by induction on
the fuel. -/
theorem parse_succ (fuel : ℕ) :
    (∀ t : Text, 2 * t.length + 1 ≤ fuel → parseValue (fuel + 1) t = parseValue fuel t) ∧
    (∀ t : Text, 2 * t.length + 2 ≤ fuel → parseElements (fuel + 1) t = parseElements fuel t) ∧
    ∀ t : Text, 2 * t.length + 2 ≤ fuel → parsePairs (fuel + 1) t = parsePairs fuel t := by
  induction fuel with
  | zero =>
    refine ⟨fun t h => ?_, fun t h => ?_, fun t h => ?_⟩
    · cases h
    · cases h
    · cases h
  | succ fuel ih =>
    obtain ⟨hvalue, helements, hpairs⟩ := ih
    refine ⟨fun t h => ?_, fun t h => ?_, fun t h => ?_⟩
    · have hskip := skipWhitespaces_length t
      rw [parseValue, parseValue]
      cases hs : skipWhitespaces t with
      | nil => rfl
      | cons ch rest =>
        rw [hs, List.length_cons] at hskip
        dsimp only
        rw [hpairs rest (by omega), helements rest (by omega)]
    · have hskip := skipWhitespaces_length t
      rw [parseElements, parseElements]
      split_ifs with hclose
      · rfl
      · rw [hvalue _ (by omega)]
        refine Option.bind_congr fun value hv => ?_
        have hlt := parseValue_shorter hv
        have hcomma := skipComma_length value.2
        rw [helements _ (by omega)]
    · have hskip := skipWhitespaces_length t
      rw [parsePairs, parsePairs]
      split_ifs with hclose
      · rfl
      · refine Option.bind_congr fun key hkey => Option.bind_congr fun u hu => ?_
        have hcolon : u.length < t.length := by
          obtain ⟨name, -, gap, after, hname⟩ := parseKey_split hkey
          obtain ⟨colon, hbehind⟩ := testAndSkip_split hu
          have hlen := congrArg List.length hname
          have hlen' := congrArg List.length hbehind
          simp only [List.length_append, List.length_cons] at hlen hlen'
          omega
        rw [hvalue _ (by omega)]
        refine Option.bind_congr fun value hv => ?_
        have hlt := parseValue_shorter hv
        have hcomma := skipComma_length value.2
        rw [hpairs _ (by omega)]

/-- The parser comes back from every text: the answer is the same with any amount of fuel that is
not below twice the number of bytes. -/
theorem parseValue_terminates (hfuel : 2 * t.length + 1 ≤ fuel) :
    parseValue fuel t = parseValue (2 * t.length + 1) t := by
  induction fuel, hfuel using Nat.le_induction with
  | base => rfl
  | succ fuel hle ih => exact ((parse_succ fuel).1 t hle).trans ih

end Termination

/-- The parser comes back from every text, with an answer that no more fuel would change; and
whatever text it takes, the tokens fit in the array, they are those of one object or array with
everything inside it, and a lookup of one name finds the first of the members of that object, if
there is one. Without a place for tokens nothing is stored. -/
theorem parseJson_tokens (maxTokens : ℕ) (t : Text) :
    (∀ fuel, 2 * t.length + 2 ≤ fuel → parseValue fuel (skipWhitespaces t) =
      parseValue (2 * t.length + 2) (skipWhitespaces t)) ∧
    ∀ toks, parseJson maxTokens t = some toks →
      toks.length ≤ maxTokens ∧ (0 < maxTokens → TokensOf t toks) := by
  constructor
  · intro fuel hfuel
    have hskip := skipWhitespaces_length t
    rw [parseValue_terminates (by omega : 2 * (skipWhitespaces t).length + 1 ≤ fuel),
      parseValue_terminates (by omega : 2 * (skipWhitespaces t).length + 1 ≤ 2 * t.length + 2)]
  · intro toks h
    rw [parseJson] at h
    split_ifs at h with hstart hzero
    · obtain ⟨s, -, h⟩ := Option.bind_eq_some_iff.mp h
      obtain rfl := Option.some.inj h
      exact ⟨Nat.zero_le _, fun hmax => absurd hzero (Nat.ne_of_gt hmax)⟩
    obtain ⟨s, hs, h⟩ := Option.bind_eq_some_iff.mp h
    split_ifs at h with hroom
    obtain rfl := Option.some.inj h
    refine ⟨by rw [List.length_append]; exact hroom, fun _ => ?_⟩
    rcases hstart with hbrace | hbracket
    · obtain ⟨gap, hgap, hspace⟩ := head_split hbrace
      rw [List.eq_cons_of_mem_head? hbrace, parseValue, skip_cons (by decide)] at hs
      obtain ⟨inside, hinside, rfl⟩ := Option.map_eq_some_iff.mp hs
      obtain ⟨fields, inner, hfields, hspread, hrest⟩ := (parse_nested _).2.2 _ _ hinside
      rw [enclose_split _ hrest]
      refine .object gap inner inside.2 fields inside.1 ?_ hspace hfields hspread rfl ?_
      · rw [← hrest]
        exact hgap
      · intro name hname
        dsimp only
        rw [List.cons_append, findJsonToken_name hname, if_neg (not_not.mpr rfl)]
        exact findMember_finds hfields _
    · obtain ⟨gap, hgap, hspace⟩ := head_split hbracket
      rw [List.eq_cons_of_mem_head? hbracket, parseValue, skip_cons (by decide)] at hs
      obtain ⟨inside, hinside, rfl⟩ := Option.map_eq_some_iff.mp hs
      obtain ⟨texts, inner, htexts, hspread, hrest⟩ := (parse_nested _).2.1 _ _ hinside
      rw [enclose_split _ hrest]
      refine .array gap inner inside.2 texts inside.1 ?_ hspace htexts hspread rfl ?_
      · rw [← hrest]
        exact hgap
      · intro name hname
        dsimp only
        rw [List.cons_append, findJsonToken_name hname, if_pos (fun hc => by cases hc)]

end Frozen
