import ADEiger.Frozen

/-! The tokens of a document.
The parser takes every JSON document, up to its number of tokens, and a member is found by
its name; the token of a string value is the text of its literal. -/
namespace Frozen

open CString (Text)
open EigerParams (Token Response)
open Json (Ws isWs Decodes quoted commas Element Member Document)

variable {t rest ws lit v : Text} {c : Char} {fuel : ℕ}

section Spaces

theorem skip_ws (h : Ws ws) : skipWhitespaces (ws ++ t) = skipWhitespaces t :=
  List.dropWhile_append_of_pos h

theorem skip_cons (h : isWs c = false) : skipWhitespaces (c :: t) = c :: t :=
  List.dropWhile_cons_of_neg (Bool.eq_false_iff.mp h)

theorem skip_ws_cons (h : Ws ws) (hc : isWs c = false) : skipWhitespaces (ws ++ c :: t) = c :: t :=
  (skip_ws h).trans (skip_cons hc)

theorem testAndSkip_cons (h : Ws ws) (hc : isWs c = false) :
    testAndSkip c (ws ++ c :: t) = some t := by
  rw [testAndSkip, skip_ws_cons h hc]
  exact if_pos rfl

end Spaces

section Strings

theorem getUtf8CharLen_eq (hc : c.toNat < 256) : getUtf8CharLen c =
    if c.toNat < 128 then 1 else if c.toNat < 0xE0 then 2 else if c.toNat < 0xF0 then 3 else 4 := by
  have hbytes : ∀ n < 256, (if n &&& 0x80 = 0 then 1 else if n &&& 0xf0 = 0xf0 then 4
      else if n &&& 0xf0 = 0xe0 then 3 else 2) =
      if n < 128 then 1 else if n < 0xE0 then 2 else if n < 0xF0 then 3 else 4 := by
    decide +kernel
  exact hbytes c.toNat hc

/-- One round of the loop over the bytes of a character. -/
theorem parseStringBody_char {p s : Text} {b : Char} (hb : 32 ≤ b.toNat) (hquote : b ≠ '"')
    (hslash : b ≠ '\\') (hlen : getUtf8CharLen b = (b :: p).length) (hs : s ≠ [])
    (h : parseStringBody fuel s = some (lit, rest)) :
    parseStringBody (fuel + 1) (b :: p ++ s) = some (b :: p ++ lit, rest) := by
  have hpos := List.length_pos_of_ne_nil hs
  have hin : ¬ ¬ (b :: p).length < (b :: (p ++ s)).length := by
    simp only [List.length_cons, List.length_append]
    omega
  rw [List.cons_append]
  simp only [parseStringBody, if_neg (Nat.not_lt.mpr hb), hlen, if_neg hin, if_neg hquote,
    if_neg hslash, Option.bind_some]
  rw [← List.cons_append, List.drop_left, List.take_left, h, Option.map_some]

/-- One round of the loop over an escape; `p` is what follows the backslash. -/
theorem parseStringBody_escape {p s : Text} (hp : p ≠ [])
    (hlen : getEscapeLen (p ++ s) ('\\' :: (p ++ s)).length = some p.length)
    (h : parseStringBody fuel s = some (lit, rest)) :
    parseStringBody (fuel + 1) ('\\' :: p ++ s) = some ('\\' :: p ++ lit, rest) := by
  have hpos := List.length_pos_of_ne_nil hp
  have hone : getUtf8CharLen '\\' = 1 := by decide
  have hlow : ¬ '\\'.toNat < 32 := by decide
  have hquote : '\\' ≠ '"' := by decide
  have hin : ¬ ¬ 1 < ('\\' :: (p ++ s)).length := by
    simp only [List.length_cons, List.length_append]
    omega
  have hall : 1 + p.length = ('\\' :: p).length := by rw [List.length_cons, Nat.add_comm]
  rw [List.cons_append]
  simp only [parseStringBody, if_neg hlow, hone, if_neg hin, if_neg hquote, if_pos, hlen,
    Option.map_some, Option.bind_some, hall]
  rw [← List.cons_append, List.drop_left, List.take_left, h, Option.map_some]

theorem isHexDigit_of_hexDigit {n : ℕ} (h : Json.hexDigit c = some n) : isHexDigit c = true := by
  rw [Json.hexDigit] at h
  rw [isHexDigit]
  split_ifs at h <;> simp_all

theorem getEscapeLen_escaped {e : Char} {n : ℕ} (h : Json.escaped e = some c) (hn : 2 ≤ n) :
    getEscapeLen (e :: t) n = some 1 := by
  have hn : ¬ n < 2 := Nat.not_lt.mpr hn
  unfold Json.escaped at h
  split at h
  case h_9 => cases h
  all_goals simp [getEscapeLen, hn]

theorem getEscapeLen_unicode {a b c d : Char} {m n : ℕ} (h : Json.hex4 a b c d = some m)
    (hn : 6 ≤ n) : getEscapeLen ('u' :: a :: b :: c :: d :: t) n = some 5 := by
  rw [Json.hex4] at h
  obtain ⟨na, ha, h⟩ := Option.bind_eq_some_iff.mp h
  obtain ⟨nb, hb, h⟩ := Option.bind_eq_some_iff.mp h
  obtain ⟨nc, hc, h⟩ := Option.bind_eq_some_iff.mp h
  obtain ⟨nd, hd, -⟩ := Option.bind_eq_some_iff.mp h
  rw [getEscapeLen, if_neg (by omega), isHexDigit_of_hexDigit ha, isHexDigit_of_hexDigit hb,
    isHexDigit_of_hexDigit hc, isHexDigit_of_hexDigit hd]
  rfl

/-- The loop reads a literal up to its closing quote and keeps it as it is written. -/
theorem parseStringBody_decodes (h : Decodes lit v) (hrest : rest ≠ [])
    (hfuel : lit.length + 1 ≤ fuel) :
    parseStringBody fuel (lit ++ '"' :: rest) = some (lit, rest) := by
  have hmore : ∀ t : Text, t ++ '"' :: rest ≠ [] := fun t =>
    List.append_ne_nil_of_right_ne_nil t (List.cons_ne_nil _ _)
  induction h generalizing fuel with
  | nil =>
    obtain ⟨fuel, rfl⟩ := Nat.exists_eq_succ_of_ne_zero (by omega : fuel ≠ 0)
    have hquote : getUtf8CharLen '"' = 1 := by decide
    have hpos := List.length_pos_of_ne_nil hrest
    simp [parseStringBody, hquote, hpos]
  | @plain c t v hc _ ih =>
    obtain ⟨fuel, rfl⟩ := Nat.exists_eq_succ_of_ne_zero (by omega : fuel ≠ 0)
    obtain ⟨⟨hlow, hquote⟩, hslash⟩ : (32 ≤ c.toNat ∧ c ≠ '"') ∧ c ≠ '\\' := by
      simpa [Json.plainChar] using hc
    have hpos := (Json.utf8_length c).1
    rw [List.length_append] at hfuel
    have hih : parseStringBody fuel (t ++ '"' :: rest) = some (t, rest) := ih (by omega)
    rw [List.append_assoc]
    rcases Json.utf8_cases c with ⟨hascii, hone⟩ | ⟨b, more, hmany, -, hhigh, hlen⟩
    · have hc1 : getUtf8CharLen c = 1 := by
        rw [getUtf8CharLen_eq (by omega), if_pos hascii]
      rw [hone]
      exact parseStringBody_char hlow hquote hslash hc1 (hmore t) hih
    · have hb := hhigh b List.mem_cons_self
      have hbn : getUtf8CharLen b = (b :: more).length := by
        rw [getUtf8CharLen_eq (by omega), if_neg (by omega), List.length_cons]
        split_ifs <;> omega
      have hne : ∀ x : Char, x.toNat < 128 → b ≠ x := fun x hx he => by subst he; omega
      rw [hmany]
      exact parseStringBody_char (by omega) (hne '"' (by decide)) (hne '\\' (by decide)) hbn
        (hmore t) hih
  | @escape e c t v he _ ih =>
    obtain ⟨fuel, rfl⟩ := Nat.exists_eq_succ_of_ne_zero (by omega : fuel ≠ 0)
    simp only [List.length_cons] at hfuel
    have hlen := getEscapeLen_escaped (t := t ++ '"' :: rest) he
      (n := ('\\' :: e :: (t ++ '"' :: rest)).length) (by simp)
    exact parseStringBody_escape (p := [e]) (List.cons_ne_nil _ _) hlen (ih (by omega))
  | @unicode a b c d n t v hn _ _ ih =>
    obtain ⟨fuel, rfl⟩ := Nat.exists_eq_succ_of_ne_zero (by omega : fuel ≠ 0)
    simp only [List.length_cons] at hfuel
    have hlen := getEscapeLen_unicode (t := t ++ '"' :: rest) hn
      (n := ('\\' :: 'u' :: a :: b :: c :: d :: (t ++ '"' :: rest)).length) (by simp)
    exact parseStringBody_escape (p := ['u', a, b, c, d]) (List.cons_ne_nil _ _) hlen
      (ih (by omega))
  | @surrogates a b c d m e f g h n t v hm _ _ hn _ _ _ ih =>
    simp only [List.length_cons] at hfuel
    obtain ⟨fuel, rfl⟩ := Nat.exists_eq_add_of_le' (by omega : 2 ≤ fuel)
    have hlen := getEscapeLen_unicode (t := t ++ '"' :: rest) hn
      (n := ('\\' :: 'u' :: e :: f :: g :: h :: (t ++ '"' :: rest)).length) (by simp)
    have hih : parseStringBody fuel (t ++ '"' :: rest) = some (t, rest) := ih (by omega)
    have hlow := parseStringBody_escape (p := ['u', e, f, g, h]) (List.cons_ne_nil _ _) hlen hih
    have hlen := getEscapeLen_unicode
      (t := '\\' :: 'u' :: e :: f :: g :: h :: (t ++ '"' :: rest)) hm
      (n := ('\\' :: 'u' :: a :: b :: c :: d ::
        ('\\' :: 'u' :: e :: f :: g :: h :: (t ++ '"' :: rest))).length) (by simp)
    exact parseStringBody_escape (p := ['u', a, b, c, d]) (List.cons_ne_nil _ _) hlen hlow

theorem parseString_quoted (hws : Ws ws) (h : Decodes lit v) (hrest : rest ≠ []) :
    parseString (ws ++ (quoted lit ++ rest)) = some ([⟨.string, lit, 0⟩], rest) := by
  have htext : quoted lit ++ rest = '"' :: (lit ++ '"' :: rest) := by
    simp only [quoted, List.cons_append, List.append_assoc, List.nil_append]
  rw [parseString, htext, testAndSkip_cons hws (by decide), Option.bind_some,
    parseStringBody_decodes h hrest (by simp), Option.map_some]

end Strings

section Numbers

/-- What comes after a value: a space, a comma or the end of what encloses it. -/
def Follow (t : Text) : Prop :=
  ∃ c s, t = c :: s ∧ (isWs c = true ∨ c = ',' ∨ c = ']' ∨ c = '\x7d')

/-- The text does not go on with any of these characters. -/
def StopsAt (p : Char → Bool) (t : Text) : Prop := ∀ c ∈ t.head?, p c = false

theorem stopsAt_cons {p : Char → Bool} (h : p c = false) : StopsAt p (c :: t) := by
  intro d hd
  obtain rfl := Option.some.inj hd
  exact h

theorem Follow.stopsAt {p : Char → Bool} (h : Follow t)
    (hp : ∀ c ∈ [' ', '\t', '\r', '\n', ',', ']', '\x7d'], p c = false) : StopsAt p t := by
  obtain ⟨c, s, rfl, hc⟩ := h
  apply stopsAt_cons
  apply hp
  simpa [isWs, or_assoc] using hc

variable {ds : Text}

theorem digits_eq (h : Json.Digits ds) (hrest : StopsAt Char.isDigit rest) :
    digits (ds ++ rest) = some (ds, rest) := by
  have htake : rest.takeWhile Char.isDigit = [] ∧ rest.dropWhile Char.isDigit = rest := by
    cases rest with
    | nil => exact ⟨rfl, rfl⟩
    | cons c rest =>
      have hc := hrest c rfl
      exact ⟨List.takeWhile_cons_of_neg (by simp [hc]), List.dropWhile_cons_of_neg (by simp [hc])⟩
  rw [digits, List.takeWhile_append_of_pos h.2, List.dropWhile_append_of_pos h.2, htake.1, htake.2,
    List.append_nil, if_neg h.1]

theorem parseFraction_eq (h : t = [] ∨ ∃ ds, t = '.' :: ds ∧ Json.Digits ds)
    (hrest : StopsAt (fun c => c.isDigit || c = '.') rest) :
    parseFraction (t ++ rest) = some (t, rest) := by
  have hdigit : StopsAt Char.isDigit rest := fun c hc => (Bool.or_eq_false_iff.mp (hrest c hc)).1
  rcases h with rfl | ⟨ds, rfl, hds⟩
  · cases rest with
    | nil => rfl
    | cons c rest =>
      have hc : c ≠ '.' := by simpa using (Bool.or_eq_false_iff.mp (hrest c rfl)).2
      rw [List.nil_append, parseFraction]
      intro s hs
      exact hc (List.cons.inj hs).1
  · rw [List.cons_append, parseFraction, digits_eq hds hdigit, Option.map_some]

theorem parseExponent_eq (h : t = [] ∨ ∃ e sign ds, t = e :: (sign ++ ds) ∧ (e = 'e' ∨ e = 'E') ∧
      (sign = [] ∨ sign = ['+'] ∨ sign = ['-']) ∧ Json.Digits ds)
    (hrest : StopsAt (fun c => c.isDigit || c = 'e' || c = 'E') rest) :
    parseExponent (t ++ rest) = some (t, rest) := by
  have hdigit : StopsAt Char.isDigit rest := by
    intro c hc
    have hc := hrest c hc
    simp only [Bool.or_eq_false_iff] at hc
    exact hc.1.1
  rcases h with rfl | ⟨e, sign, ds, rfl, he, hsign, hds⟩
  · cases rest with
    | nil => rfl
    | cons c rest =>
      have hc : ¬ (c = 'e' ∨ c = 'E') := by
        have hc := hrest c rfl
        simp only [Bool.or_eq_false_iff, decide_eq_false_iff_not] at hc
        exact not_or.mpr ⟨hc.1.2, hc.2⟩
      exact (parseExponent.eq_def _).trans (if_neg hc)
  · have hdigits := digits_eq hds hdigit
    obtain ⟨d, ds, rfl⟩ := List.exists_cons_of_ne_nil hds.1
    have hd : d.isDigit = true := hds.2 d List.mem_cons_self
    refine (parseExponent.eq_def _).trans ((if_pos he).trans ?_)
    rcases hsign with rfl | rfl | rfl
    · have hnot : ¬ (d = '+' ∨ d = '-') := by rintro (rfl | rfl) <;> cases hd
      exact (if_neg hnot).trans (congrArg (Option.map _) hdigits)
    · exact (if_pos (.inl rfl)).trans (congrArg (Option.map _) hdigits)
    · exact (if_pos (.inr rfl)).trans (congrArg (Option.map _) hdigits)

theorem isWs_digit (h : c.isDigit = true) : isWs c = false := by
  cases hc : isWs c with
  | false => rfl
  | true =>
    simp only [isWs, Bool.or_eq_true, decide_eq_true_eq] at hc
    rcases hc with ((rfl | rfl) | rfl) | rfl <;> cases h

theorem parseNumber_eq (h : Json.Number t) (hrest : Follow rest) :
    parseNumber (t ++ rest) = some ([⟨.number, t, 0⟩], rest) := by
  obtain ⟨sign, int, frac, exp, rfl, hsign, hint, hfrac, hexp⟩ := h
  have hint : Json.Digits int := by
    rcases hint with rfl | ⟨hint, -⟩
    · exact ⟨List.cons_ne_nil _ _, by simp⟩
    · exact hint
  have hexponent : parseExponent (exp ++ rest) = some (exp, rest) :=
    parseExponent_eq hexp (hrest.stopsAt (by decide))
  have hfraction : parseFraction (frac ++ (exp ++ rest)) = some (frac, exp ++ rest) := by
    apply parseFraction_eq hfrac
    rcases hexp with rfl | ⟨e, _, _, rfl, he | he, -⟩
    · exact hrest.stopsAt (by decide)
    · exact stopsAt_cons (by rw [he]; decide)
    · exact stopsAt_cons (by rw [he]; decide)
  have hdigits : digits (int ++ (frac ++ (exp ++ rest))) = some (int, frac ++ (exp ++ rest)) := by
    apply digits_eq hint
    rcases hfrac with rfl | ⟨_, rfl, -⟩
    · rcases hexp with rfl | ⟨e, _, _, rfl, he | he, -⟩
      · exact hrest.stopsAt (by decide)
      · exact stopsAt_cons (by rw [he]; decide)
      · exact stopsAt_cons (by rw [he]; decide)
    · exact stopsAt_cons (by decide)
  simp only [List.append_assoc]
  obtain ⟨d, ds, rfl⟩ := List.exists_cons_of_ne_nil hint.1
  have hd : d.isDigit = true := hint.2 d List.mem_cons_self
  have hminus : d ≠ '-' := by rintro rfl; cases hd
  rw [parseNumber]
  rcases hsign with rfl | rfl
  · rw [List.nil_append, List.cons_append, skip_cons (isWs_digit hd)]
    rw [List.cons_append] at hdigits
    dsimp only
    split
    · next heq => exact absurd (List.cons.inj heq).1 hminus
    · simp only [hdigits, Option.bind_some, hfraction, hexponent, Option.map_some,
        List.nil_append, List.append_assoc]
  · rw [List.cons_append, skip_cons (by decide), List.nil_append]
    simp only [hdigits, Option.bind_some, hfraction, hexponent, Option.map_some,
      List.append_assoc, List.singleton_append]
    rfl

end Numbers

section Values

/-- The tokens of one value, the first with what is inside it. -/
def OneValue (toks : List JsonToken) : Prop :=
  ∃ tok inside, toks = tok :: inside ∧
    inside.length = if tok.type = .array ∨ tok.type = .object then tok.numDesc else 0

theorem value_head (h : Json.Value t) :
    ∃ c s, t = c :: s ∧ isWs c = false ∧ c ≠ ']' ∧ c ≠ '\x7d' := by
  cases h with
  | null => exact ⟨'n', "ull".toList, rfl, by decide⟩
  | true => exact ⟨'t', "rue".toList, rfl, by decide⟩
  | false => exact ⟨'f', "alse".toList, rfl, by decide⟩
  | number h =>
    obtain ⟨sign, int, frac, exp, rfl, hsign, hint, -⟩ := h
    obtain ⟨d, ds, rfl, hd⟩ : ∃ d ds, int = d :: ds ∧ d.isDigit = true := by
      rcases hint with rfl | ⟨hint, -⟩
      · exact ⟨'0', [], rfl, by decide⟩
      · obtain ⟨d, ds, rfl⟩ := List.exists_cons_of_ne_nil hint.1
        exact ⟨d, ds, rfl, hint.2 d List.mem_cons_self⟩
    rcases hsign with rfl | rfl
    · refine ⟨d, _, rfl, isWs_digit hd, ?_, ?_⟩ <;> rintro rfl <;> cases hd
    · exact ⟨'-', _, rfl, by decide⟩
  | string => exact ⟨'"', _, rfl, by decide⟩
  | emptyArray => exact ⟨'[', _, rfl, by decide⟩
  | array => exact ⟨'[', _, rfl, by decide⟩
  | emptyObject => exact ⟨'\x7b', _, rfl, by decide⟩
  | object => exact ⟨'\x7b', _, rfl, by decide⟩

theorem skip_value (hws : Ws ws) (h : Json.Value t) :
    skipWhitespaces (ws ++ (t ++ rest)) = t ++ rest := by
  obtain ⟨c, s, rfl, hc, -⟩ := value_head h
  exact skip_ws_cons hws hc

theorem parseValue_ws (hws : Ws ws) :
    parseValue (fuel + 1) (ws ++ t) = parseValue (fuel + 1) t := by
  rw [parseValue, parseValue, skip_ws hws]

theorem parseValue_quoted (h : Decodes lit v) (hrest : rest ≠ []) :
    parseValue (fuel + 1) (quoted lit ++ rest) = some ([⟨.string, lit, 0⟩], rest) := by
  have hquoted : parseString (quoted lit ++ rest) = some ([⟨.string, lit, 0⟩], rest) :=
    parseString_quoted (List.forall_mem_nil _) h hrest
  have htext : quoted lit ++ rest = '"' :: (lit ++ '"' :: rest) := by
    simp only [quoted, List.cons_append, List.append_assoc, List.nil_append]
  rw [htext] at hquoted
  rw [parseValue, htext, skip_cons (by decide)]
  simp only [if_true, hquoted]

/-- The rest of an array or object after one of its parts. -/
structure Tail (c : Char) (rest : Text) (ts : List Text) (tail : Text) : Prop where
  next : ∀ ws, Ws ws → skipComma (ws ++ tail) = commas ts ++ c :: rest
  follow : ∀ ws, Ws ws → Follow (ws ++ tail)

theorem commas_cons (t rest : Text) (ts : List Text) (hc : c = ']' ∨ c = '\x7d') :
    ∃ tail, commas (t :: ts) ++ c :: rest = t ++ tail ∧ Tail c rest ts tail := by
  have hfollow : ∀ d s ws, d = ',' ∨ d = ']' ∨ d = '\x7d' → Ws ws → Follow (ws ++ d :: s) := by
    intro d s ws hd hws
    cases ws with
    | nil => exact ⟨d, s, rfl, .inr hd⟩
    | cons w ws => exact ⟨w, _, rfl, .inl (hws w List.mem_cons_self)⟩
  cases ts with
  | nil =>
    refine ⟨c :: rest, by simp [commas], fun ws hws => ?_, fun ws => hfollow c rest ws (.inr hc)⟩
    have hnot : isWs c = false := by rcases hc with rfl | rfl <;> decide
    rw [skipComma, skip_ws_cons hws hnot]
    rcases hc with rfl | rfl <;> rfl
  | cons u ts =>
    refine ⟨',' :: (commas (u :: ts) ++ c :: rest), ?_, fun ws hws => ?_,
      fun ws => hfollow ',' _ ws (.inl rfl)⟩
    · simp [commas, List.intercalate]
    · rw [skipComma, skip_ws_cons hws (by decide)]
      rfl

theorem length_commas_cons (t : Text) (ts : List Text) :
    t.length + (commas ts).length ≤ (commas (t :: ts)).length := by
  cases ts with
  | nil => simp [commas]
  | cons u ts => simp [commas, List.intercalate]

variable {es : List Element} {ms : List Member} {toks value : List JsonToken}

/-- A text is parsed to these tokens wherever it stands: fuel for its length is enough, and the
parser ends right behind it. -/
def ParsesTo (t : Text) (toks : List JsonToken) : Prop :=
  ∀ rest fuel, Follow rest → t.length + 1 ≤ fuel → parseValue fuel (t ++ rest) = some (toks, rest)

theorem ParsesTo.unique (h : ParsesTo t toks) (h' : ParsesTo t value) : toks = value := by
  have hfollow : Follow [','] := ⟨',', [], rfl, .inr (.inl rfl)⟩
  have hsame := (h [','] (t.length + 1) hfollow le_rfl).symm.trans
    (h' [','] (t.length + 1) hfollow le_rfl)
  exact (Prod.mk.inj (Option.some.inj hsame)).1

/-- The tokens of elements, one value after the other. -/
inductive ElementTokens : List Element → List JsonToken → Prop where
  | nil : ElementTokens [] []
  | cons {e es value toks} : ParsesTo e.value value → ElementTokens es toks →
      ElementTokens (e :: es) (value ++ toks)

/-- The tokens of members: for each its key and its value. -/
inductive MemberTokens : List Member → List JsonToken → Prop where
  | nil : MemberTokens [] []
  | cons {m ms value toks} : ParsesTo m.value value → OneValue value → MemberTokens ms toks →
      MemberTokens (m :: ms) (⟨.string, m.key, 0⟩ :: (value ++ toks))

theorem parseElements_elements (rest : Text) (h : ElementTokens es toks)
    (hws : ∀ e ∈ es, Ws e.before ∧ Ws e.after) (hvalue : ∀ e ∈ es, Json.Value e.value)
    (hfuel : (commas (es.map Element.text)).length + 2 ≤ fuel) :
    parseElements fuel (commas (es.map Element.text) ++ ']' :: rest) = some (toks, rest) := by
  induction h generalizing fuel with
  | nil =>
    obtain ⟨fuel, rfl⟩ := Nat.exists_eq_succ_of_ne_zero (by omega : fuel ≠ 0)
    rw [parseElements]
    rfl
  | @cons e es value toks hp _ ih =>
    obtain ⟨fuel, rfl⟩ := Nat.exists_eq_succ_of_ne_zero (by omega : fuel ≠ 0)
    obtain ⟨⟨hbefore, hafter⟩, hws⟩ := List.forall_mem_cons.mp hws
    obtain ⟨hv, hvalue⟩ := List.forall_mem_cons.mp hvalue
    obtain ⟨tail, htail, hnext⟩ := commas_cons e.text rest (es.map Element.text)
      (.inl rfl : ']' = ']' ∨ _)
    obtain ⟨c, s, hc, -, hclose, -⟩ := value_head hv
    have hlen := length_commas_cons e.text (es.map Element.text)
    have hpos : 1 ≤ e.value.length := by rw [hc]; simp
    have htext : e.value.length ≤ e.text.length := by
      simp only [Element.text, List.length_append]
      omega
    rw [List.map_cons] at hfuel ⊢
    have htoks := hp (e.after ++ tail) fuel (hnext.follow e.after hafter) (by omega)
    have hmore : (commas (es.map Element.text)).length + 2 ≤ fuel := by omega
    have hskip : skipWhitespaces (e.text ++ tail) = e.value ++ (e.after ++ tail) := by
      rw [Element.text, List.append_assoc, List.append_assoc]
      exact skip_value hbefore hv
    have hhead : ¬ (e.value ++ (e.after ++ tail)).head? = some ']' := by
      rw [hc]
      simpa using hclose
    rw [htail, parseElements, hskip, if_neg hhead, htoks, Option.bind_some,
      hnext.next e.after hafter, ih hws hvalue hmore, Option.map_some]

theorem parseKey_quoted (h : Decodes lit v) (hrest : rest ≠ []) :
    parseKey (quoted lit ++ rest) = some ([⟨.string, lit, 0⟩], rest) := by
  have hquoted : parseString (quoted lit ++ rest) = some ([⟨.string, lit, 0⟩], rest) :=
    parseString_quoted (List.forall_mem_nil _) h hrest
  have htext : quoted lit ++ rest = '"' :: (lit ++ '"' :: rest) := by
    simp only [quoted, List.cons_append, List.append_assoc, List.nil_append]
  have halpha : ¬ isAlpha '"' = true := by decide
  rw [htext] at hquoted
  rw [parseKey, htext, skip_cons (by decide)]
  simp only [if_neg halpha, if_true, hquoted]

theorem parsePairs_members (rest : Text) (h : MemberTokens ms toks)
    (hms : ∀ m ∈ ms, m.WellFormed)
    (hfuel : (commas (ms.map Member.text)).length + 2 ≤ fuel) :
    parsePairs fuel (commas (ms.map Member.text) ++ '\x7d' :: rest) = some (toks, rest) := by
  induction h generalizing fuel with
  | nil =>
    obtain ⟨fuel, rfl⟩ := Nat.exists_eq_succ_of_ne_zero (by omega : fuel ≠ 0)
    rw [parsePairs]
    rfl
  | @cons m ms value toks hp _ _ ih =>
    obtain ⟨⟨hbefore, ⟨name, hkey⟩, hafterKey, hbeforeValue, hafter⟩, hms⟩ :=
      List.forall_mem_cons.mp hms
    obtain ⟨tail, htail, hnext⟩ := commas_cons m.text rest (ms.map Member.text)
      (.inr rfl : '\x7d' = ']' ∨ _)
    have hlen := length_commas_cons m.text (ms.map Member.text)
    have htext : m.value.length + 3 ≤ m.text.length := by
      simp only [Member.text, quoted, List.length_append, List.length_cons]
      omega
    rw [List.map_cons] at hfuel ⊢
    obtain ⟨fuel, rfl⟩ := Nat.exists_eq_add_of_le' (by omega : 2 ≤ fuel)
    have htoks := hp (m.after ++ tail) (fuel + 1) (hnext.follow m.after hafter) (by omega)
    have hmore : (commas (ms.map Member.text)).length + 2 ≤ fuel + 1 := by omega
    have hskip : skipWhitespaces (m.text ++ tail) = quoted m.key ++
        (m.afterKey ++ ':' :: (m.beforeValue ++ (m.value ++ (m.after ++ tail)))) := by
      simp only [Member.text, List.append_assoc, List.cons_append]
      exact skip_ws_cons hbefore (by decide)
    have hkeyed := parseKey_quoted hkey (List.append_ne_nil_of_right_ne_nil m.afterKey
      (List.cons_ne_nil ':' (m.beforeValue ++ (m.value ++ (m.after ++ tail)))))
    rw [htail, parsePairs, hskip, if_neg (by simp [quoted]), hkeyed, Option.bind_some,
      testAndSkip_cons hafterKey (by decide), Option.bind_some, parseValue_ws hbeforeValue, htoks,
      Option.bind_some, hnext.next m.after hafter, ih hms hmore, Option.map_some]
    rfl

theorem oneValue_single (type : TokenType) (text : Text) (h : type ≠ .array ∧ type ≠ .object) :
    OneValue [⟨type, text, 0⟩] :=
  ⟨_, [], rfl, by rw [if_neg (not_or.mpr h)]; rfl⟩

theorem oneValue_enclose (type : TokenType) (h : type = .array ∨ type = .object) (text : Text)
    (toks : List JsonToken) : OneValue (⟨type, text, toks.length⟩ :: toks) :=
  ⟨_, toks, rfl, (if_pos h).symm⟩

theorem parsesTo_word {type : TokenType} (word : Text)
    (hparse : ∀ fuel rest, parseValue (fuel + 1) (word ++ rest) = expect word type (word ++ rest)) :
    ParsesTo word [⟨type, word, 0⟩] := by
  intro rest fuel _ hfuel
  obtain ⟨fuel, rfl⟩ := Nat.exists_eq_succ_of_ne_zero (by omega : fuel ≠ 0)
  have hpre : word.isPrefixOf (word ++ rest) = true := by simp
  rw [hparse, expect, if_pos hpre, List.drop_left]

theorem parsesTo_string (h : Decodes lit v) : ParsesTo (quoted lit) [⟨.string, lit, 0⟩] := by
  rintro rest fuel ⟨c, s, rfl, _⟩ hfuel
  obtain ⟨fuel, rfl⟩ := Nat.exists_eq_succ_of_ne_zero (by omega : fuel ≠ 0)
  exact parseValue_quoted h (List.cons_ne_nil c s)

theorem parsesTo_number (h : Json.Number t) : ParsesTo t [⟨.number, t, 0⟩] := by
  intro rest fuel hrest hfuel
  obtain ⟨fuel, rfl⟩ := Nat.exists_eq_succ_of_ne_zero (by omega : fuel ≠ 0)
  have hnumber := parseNumber_eq h hrest
  obtain ⟨c, s, rfl, hws, -⟩ := value_head (.number h)
  have hc : c = '-' ∨ c.isDigit = true := by
    obtain ⟨sign, int, frac, exp, ht, rfl | rfl, hint, -⟩ := h
    · right
      rcases hint with rfl | ⟨hint, -⟩
      · rw [(List.cons.inj ht).1]
        decide
      · obtain ⟨d, ds, rfl⟩ := List.exists_cons_of_ne_nil hint.1
        rw [(List.cons.inj ht).1]
        exact hint.2 d List.mem_cons_self
    · exact .inl (List.cons.inj ht).1
  have hne : ∀ x : Char, x ∈ ['"', '\x7b', '[', 'n', 't', 'f'] → c ≠ x := by
    rintro x hx rfl
    rcases hc with rfl | hc
    · revert hx
      decide
    · simp only [List.mem_cons, List.not_mem_nil, or_false] at hx
      rcases hx with rfl | rfl | rfl | rfl | rfl | rfl <;> cases hc
  rw [List.cons_append] at hnumber ⊢
  rw [parseValue, skip_cons hws]
  simp only [if_neg (hne '"' (by decide)), if_neg (hne '\x7b' (by decide)),
    if_neg (hne '[' (by decide)), if_neg (hne 'n' (by decide)), if_neg (hne 't' (by decide)),
    if_neg (hne 'f' (by decide)), if_pos hc]
  exact hnumber

theorem enclose_eq (type : TokenType) (t rest : Text) (toks : List JsonToken) :
    enclose type (t ++ rest) (toks, rest) = (⟨type, t, toks.length⟩ :: toks, rest) := by
  have hlen : (t ++ rest).length - rest.length = t.length := by
    rw [List.length_append, Nat.add_sub_cancel]
  rw [enclose, hlen, List.take_left]

theorem parsesTo_array {inside : Text} (toks : List JsonToken)
    (h : ∀ rest fuel, inside.length + 2 ≤ fuel →
      parseElements fuel (inside ++ ']' :: rest) = some (toks, rest)) :
    ParsesTo ('[' :: (inside ++ [']']))
      (⟨.array, '[' :: (inside ++ [']']), toks.length⟩ :: toks) := by
  intro rest fuel _ hfuel
  simp only [List.length_cons, List.length_append] at hfuel
  obtain ⟨fuel, rfl⟩ := Nat.exists_eq_succ_of_ne_zero (by omega : fuel ≠ 0)
  have hinside := h rest fuel (by omega)
  have htext : '[' :: (inside ++ [']']) ++ rest = '[' :: (inside ++ ']' :: rest) := by
    rw [List.cons_append, List.append_assoc, List.singleton_append]
  rw [← enclose_eq, htext, parseValue, skip_cons (by decide)]
  exact congrArg (Option.map _) hinside

theorem parseValue_object {inside : Text} (toks : List JsonToken) (rest : Text)
    (hfuel : inside.length + 3 ≤ fuel)
    (h : ∀ rest fuel, inside.length + 2 ≤ fuel →
      parsePairs fuel (inside ++ '\x7d' :: rest) = some (toks, rest)) :
    parseValue fuel ('\x7b' :: (inside ++ ['\x7d']) ++ rest) =
      some (⟨.object, '\x7b' :: (inside ++ ['\x7d']), toks.length⟩ :: toks, rest) := by
  obtain ⟨fuel, rfl⟩ := Nat.exists_eq_succ_of_ne_zero (by omega : fuel ≠ 0)
  have hinside := h rest fuel (by omega)
  have htext : '\x7b' :: (inside ++ ['\x7d']) ++ rest = '\x7b' :: (inside ++ '\x7d' :: rest) := by
    rw [List.cons_append, List.append_assoc, List.singleton_append]
  rw [← enclose_eq, htext, parseValue, skip_cons (by decide)]
  exact congrArg (Option.map _) hinside

/-- A value is parsed to its tokens. -/
def Parses (t : Text) : Prop := ∃ toks, ParsesTo t toks ∧ OneValue toks

theorem elementTokens_exists (h : ∀ e ∈ es, Parses e.value) : ∃ toks, ElementTokens es toks := by
  induction es with
  | nil => exact ⟨[], .nil⟩
  | cons e es ih =>
    obtain ⟨⟨value, hvalue, -⟩, h⟩ := List.forall_mem_cons.mp h
    obtain ⟨toks, htoks⟩ := ih h
    exact ⟨_, .cons hvalue htoks⟩

theorem memberTokens_exists (h : ∀ m ∈ ms, Parses m.value) : ∃ toks, MemberTokens ms toks := by
  induction ms with
  | nil => exact ⟨[], .nil⟩
  | cons m ms ih =>
    obtain ⟨⟨value, hvalue, hone⟩, h⟩ := List.forall_mem_cons.mp h
    obtain ⟨toks, htoks⟩ := ih h
    exact ⟨_, .cons hvalue hone htoks⟩

theorem parses_value (h : Json.Value t) : Parses t := by
  induction h with
  | null =>
    exact ⟨_, parsesTo_word "null".toList fun _ _ => rfl, oneValue_single _ _ ⟨nofun, nofun⟩⟩
  | true =>
    exact ⟨_, parsesTo_word "true".toList fun _ _ => rfl, oneValue_single _ _ ⟨nofun, nofun⟩⟩
  | false =>
    exact ⟨_, parsesTo_word "false".toList fun _ _ => rfl, oneValue_single _ _ ⟨nofun, nofun⟩⟩
  | number h => exact ⟨_, parsesTo_number h, oneValue_single _ _ ⟨nofun, nofun⟩⟩
  | string h => exact ⟨_, parsesTo_string h, oneValue_single _ _ ⟨nofun, nofun⟩⟩
  | @emptyArray ws h =>
    refine ⟨_, parsesTo_array [] fun rest fuel hfuel => ?_,
      oneValue_enclose _ (.inl rfl) _ _⟩
    obtain ⟨fuel, rfl⟩ := Nat.exists_eq_succ_of_ne_zero (by omega : fuel ≠ 0)
    rw [parseElements, skip_ws_cons h (by decide)]
    rfl
  | @array es hne hws hvalue ih =>
    obtain ⟨toks, htoks⟩ := elementTokens_exists ih
    refine ⟨_, parsesTo_array toks fun rest _ hfuel => ?_, oneValue_enclose _ (.inl rfl) _ _⟩
    exact parseElements_elements rest htoks hws hvalue hfuel
  | @emptyObject ws h =>
    refine ⟨_, fun rest fuel _ hfuel => parseValue_object [] rest ?_ fun rest fuel hfuel => ?_,
      oneValue_enclose _ (.inr rfl) _ _⟩
    · simp only [List.length_cons, List.length_append] at hfuel
      omega
    · obtain ⟨fuel, rfl⟩ := Nat.exists_eq_succ_of_ne_zero (by omega : fuel ≠ 0)
      rw [parsePairs, skip_ws_cons h (by decide)]
      rfl
  | @object ms hne hms hvalue ih =>
    obtain ⟨toks, htoks⟩ := memberTokens_exists ih
    refine ⟨_, fun rest fuel _ hfuel => parseValue_object toks rest ?_ fun rest _ hfuel =>
      parsePairs_members rest htoks hms hfuel, oneValue_enclose _ (.inr rfl) _ _⟩
    simp only [List.length_cons, List.length_append] at hfuel
    omega

end Values

section Documents

variable {ms : List Member} {toks value : List JsonToken} {name : Text} {x : Response}

/-- The only reason not to take a document is the number of its tokens. -/
theorem parseJson_document (h : Document t ms) {maxTokens : ℕ} (hmax : 0 < maxTokens) :
    ∃ text toks, MemberTokens ms toks ∧ parseJson maxTokens t = if toks.length + 2 ≤ maxTokens then
      some (⟨.object, text, toks.length⟩ :: (toks ++ [⟨.eof, [], 0⟩])) else none := by
  obtain ⟨before, after, hbefore, -, ht⟩ := h.text
  have hlen := congrArg List.length ht
  simp only [List.length_append, List.length_cons] at hlen
  obtain ⟨toks, htoks⟩ := memberTokens_exists fun m hm => parses_value (h.values m hm)
  have hfuel : (commas (ms.map Member.text)).length + 3 ≤ 2 * t.length + 2 := by omega
  have hstart : skipWhitespaces t =
      '\x7b' :: (commas (ms.map Member.text) ++ ['\x7d']) ++ after := by
    rw [ht, List.cons_append, List.append_assoc, List.singleton_append]
    exact skip_ws_cons hbefore (by decide)
  refine ⟨'\x7b' :: (commas (ms.map Member.text) ++ ['\x7d']), toks, htoks, ?_⟩
  have hobject := parseValue_object toks after hfuel fun rest _ hfuel =>
    parsePairs_members rest htoks h.wellFormed hfuel
  have hhead : ('\x7b' :: (commas (ms.map Member.text) ++ ['\x7d']) ++ after).head? =
      some '\x7b' := rfl
  rw [parseJson]
  simp only [hstart, hhead, true_or, if_true, hobject, Option.bind_some,
    if_neg (Nat.ne_of_gt hmax)]
  rfl

theorem findMember_other {key : Text} (hkey : key ≠ name) (hone : OneValue value)
    (toks : List JsonToken) (tok : JsonToken) :
    findMember name (⟨.string, key, 0⟩ :: (value ++ toks)).length
        (⟨.string, key, 0⟩ :: (value ++ toks) ++ [tok]) =
      findMember name toks.length (toks ++ [tok]) := by
  obtain ⟨first, inside, rfl, hinside⟩ := hone
  have hdesc : (⟨.string, key, 0⟩ :: (first :: inside ++ toks)).length - (2 + inside.length) =
      toks.length := by
    simp only [List.length_cons, List.length_append]
    omega
  have hdrop : (inside ++ toks ++ [tok]).drop inside.length = toks ++ [tok] := by
    rw [List.append_assoc, List.drop_left]
  simp only [List.cons_append] at hdesc ⊢
  rw [findMember, if_neg (by simp), if_neg (by simp), if_neg hkey]
  simp only [← hinside, hdesc, hdrop]

theorem findMember_eq (htoks : MemberTokens ms toks) {text : Text}
    (hm : Json.HasMember ms name text) (htext : ParsesTo text value) (tok : JsonToken) :
    ∃ more, findMember name toks.length (toks ++ [tok]) = some (value ++ more) := by
  obtain ⟨m, hm, hkey, rfl, hunique⟩ := hm
  induction htoks with
  | nil => cases hm
  | @cons m' ms first toks hfirst hone _ ih =>
    by_cases hname : m'.key = name
    · obtain rfl := hunique m' List.mem_cons_self hname
      obtain rfl := hfirst.unique htext
      obtain ⟨head, inside, rfl, -⟩ := hone
      refine ⟨toks ++ [tok], ?_⟩
      simp [findMember, hname]
    · have hm : m ∈ ms := (List.mem_cons.mp hm).resolve_left fun he => hname (he ▸ hkey)
      obtain ⟨more, hmore⟩ := ih hm fun m' hm' => hunique m' (List.mem_cons_of_mem _ hm')
      exact ⟨more, (findMember_other hname hone toks tok).trans hmore⟩

theorem findMember_none (htoks : MemberTokens ms toks) (h : ∀ m ∈ ms, m.key ≠ name)
    (tok : JsonToken) : findMember name toks.length (toks ++ [tok]) = none := by
  induction htoks with
  | nil => simp [findMember]
  | cons _ hone _ ih =>
    obtain ⟨hkey, h⟩ := List.forall_mem_cons.mp h
    exact (findMember_other hkey hone _ tok).trans (ih h)

variable {maxTokens : ℕ} {all : List JsonToken}

/-- What the parser gives for a document is an object over the tokens of its members. -/
theorem parseJson_spec (h : Document t ms) (hmax : 0 < maxTokens)
    (hx : parseJson maxTokens t = some all) :
    ∃ text toks, MemberTokens ms toks ∧
      all = ⟨.object, text, toks.length⟩ :: (toks ++ [⟨.eof, [], 0⟩]) := by
  obtain ⟨text, toks, htoks, hparse⟩ := parseJson_document h hmax
  rw [hparse] at hx
  split_ifs at hx
  exact ⟨text, toks, htoks, (Option.some.inj hx).symm⟩

theorem findJsonToken_eq (hname : OneName name) (h : Document t ms) (hmax : 0 < maxTokens)
    (hx : parseJson maxTokens t = some all) {text : Text}
    (hm : Json.HasMember ms name text) (htext : ParsesTo text value) :
    ∃ more, findJsonToken all name = some (value ++ more) := by
  obtain ⟨_, toks, htoks, rfl⟩ := parseJson_spec h hmax hx
  rw [findJsonToken_name hname, if_neg (not_not.mpr rfl)]
  exact findMember_eq htoks hm htext _

theorem findJsonToken_none (hname : OneName name) (h : Document t ms) (hmax : 0 < maxTokens)
    (hx : parseJson maxTokens t = some all) (hms : ∀ m ∈ ms, m.key ≠ name) :
    findJsonToken all name = none := by
  obtain ⟨_, toks, htoks, rfl⟩ := parseJson_spec h hmax hx
  rw [findJsonToken_name hname, if_neg (not_not.mpr rfl)]
  exact findMember_none htoks hms _

theorem MemberTokens.length_strings (h : MemberTokens ms toks)
    (hms : ∀ m ∈ ms, ∃ lit v, m.value = quoted lit ∧ Decodes lit v) :
    toks.length = 2 * ms.length := by
  induction h with
  | nil => rfl
  | @cons m ms value toks hvalue _ _ ih =>
    obtain ⟨⟨lit, v, htext, hlit⟩, hms⟩ := List.forall_mem_cons.mp hms
    rw [htext] at hvalue
    rw [hvalue.unique (parsesTo_string hlit)]
    simp only [List.length_cons, List.singleton_append, ih hms]
    omega

/-- What the parameters see of a string in a document: the text of its literal. -/
theorem response_string (hname : OneName name) (h : Document t ms) (hx : response t = some x)
    (hm : Json.HasMember ms name (quoted lit)) (hlit : Decodes lit v) :
    x name = some ⟨.string, lit, []⟩ := by
  obtain ⟨toks, htoks, rfl⟩ := Option.map_eq_some_iff.mp hx
  obtain ⟨more, hmore⟩ :=
    findJsonToken_eq hname h (by decide) htoks hm (parsesTo_string hlit)
  dsimp only
  rw [hmore]
  rfl

end Documents

end Frozen
