import Mathlib.Data.List.Basic
import Mathlib.Data.Char
import Mathlib.Tactic.ByContra

/-! JSON texts in UTF-8.
A text is a list of bytes. The grammar says what a document is, which members its object has
and which bytes a string literal stands for. -/
namespace Json

/-- The bytes of a character. -/
def utf8 (c : Char) : List Char := (String.utf8EncodeChar c).map fun b => Char.ofNat b.toNat

def isWs (c : Char) : Bool := c = ' ' || c = '\t' || c = '\r' || c = '\n'

/-- What may stand in a string literal for itself. -/
def plainChar (c : Char) : Bool := 32 ≤ c.toNat && c ≠ '"' && c ≠ '\\'

def escaped : Char → Option Char
  | '"' => some '"'
  | '\\' => some '\\'
  | '/' => some '/'
  | 'b' => some (Char.ofNat 8)
  | 'f' => some (Char.ofNat 12)
  | 'n' => some '\n'
  | 'r' => some '\r'
  | 't' => some '\t'
  | _ => none

def hexDigit (c : Char) : Option ℕ :=
  if c.isDigit then some (c.toNat - 48)
  else if 'a' ≤ c ∧ c ≤ 'f' then some (c.toNat - 87)
  else if 'A' ≤ c ∧ c ≤ 'F' then some (c.toNat - 55)
  else none

def hex4 (a b c d : Char) : Option ℕ := do
  return (((← hexDigit a) * 16 + (← hexDigit b)) * 16 + (← hexDigit c)) * 16 + (← hexDigit d)

/-- The bytes that the text between the quotes of a literal stands for. -/
inductive Decodes : List Char → List Char → Prop where
  | nil : Decodes [] []
  | plain {c t v} : plainChar c = true → Decodes t v → Decodes (utf8 c ++ t) (utf8 c ++ v)
  | escape {e c t v} : escaped e = some c → Decodes t v → Decodes ('\\' :: e :: t) (c :: v)
  | unicode {a b c d n t v} : hex4 a b c d = some n → n.isValidChar → Decodes t v →
      Decodes ('\\' :: 'u' :: a :: b :: c :: d :: t) (utf8 (Char.ofNat n) ++ v)
  | surrogates {a b c d m e f g h n t v} : hex4 a b c d = some m → 0xD800 ≤ m → m < 0xDC00 →
      hex4 e f g h = some n → 0xDC00 ≤ n → n < 0xE000 → Decodes t v →
      Decodes ('\\' :: 'u' :: a :: b :: c :: d :: '\\' :: 'u' :: e :: f :: g :: h :: t)
        (utf8 (Char.ofNat (0x10000 + (m - 0xD800) * 0x400 + (n - 0xDC00))) ++ v)

/-- A text that stands for itself in a literal. -/
def Plain (v : List Char) : Prop := ∃ cs : List Char, (∀ c ∈ cs, plainChar c = true) ∧
  v = cs.flatMap utf8

/-- A byte in a literal: quotes, backslashes and control characters are escaped. -/
def encodeByte (c : Char) : List Char :=
  if c = '"' ∨ c = '\\' then ['\\', c]
  else if c.toNat < 32 then
    ['\\', 'u', '0', '0', Nat.digitChar (c.toNat / 16), Nat.digitChar (c.toNat % 16)]
  else [c]

def encode (v : List Char) : List Char := v.flatMap encodeByte

def quoted (lit : List Char) : List Char := '"' :: (lit ++ ['"'])

def Ws (t : List Char) : Prop := ∀ c ∈ t, isWs c = true

def Digits (t : List Char) : Prop := t ≠ [] ∧ ∀ c ∈ t, c.isDigit = true

def Number (t : List Char) : Prop := ∃ sign int frac exp, t = sign ++ int ++ frac ++ exp ∧
  (sign = [] ∨ sign = ['-']) ∧ (int = ['0'] ∨ Digits int ∧ int.head? ≠ some '0') ∧
  (frac = [] ∨ ∃ ds, frac = '.' :: ds ∧ Digits ds) ∧
  (exp = [] ∨ ∃ e sign ds, exp = e :: (sign ++ ds) ∧ (e = 'e' ∨ e = 'E') ∧
    (sign = [] ∨ sign = ['+'] ∨ sign = ['-']) ∧ Digits ds)

/-- An element of an array with the white space around it. -/
structure Element where
  before : List Char
  value : List Char
  after : List Char

def Element.text (e : Element) : List Char := e.before ++ (e.value ++ e.after)

structure Member where
  before : List Char
  key : List Char
  afterKey : List Char
  beforeValue : List Char
  value : List Char
  after : List Char
  deriving DecidableEq

def Member.text (m : Member) : List Char :=
  m.before ++ (quoted m.key ++ (m.afterKey ++ ':' :: (m.beforeValue ++ (m.value ++ m.after))))

structure Member.WellFormed (m : Member) : Prop where
  before : Ws m.before
  key : ∃ name, Decodes m.key name
  afterKey : Ws m.afterKey
  beforeValue : Ws m.beforeValue
  after : Ws m.after

def commas (ts : List (List Char)) : List Char := [','].intercalate ts

inductive Value : List Char → Prop where
  | null : Value "null".toList
  | true : Value "true".toList
  | false : Value "false".toList
  | number {t} : Number t → Value t
  | string {lit v} : Decodes lit v → Value (quoted lit)
  | emptyArray {ws} : Ws ws → Value ('[' :: (ws ++ [']']))
  | array {es : List Element} : es ≠ [] → (∀ e ∈ es, Ws e.before ∧ Ws e.after) →
      (∀ e ∈ es, Value e.value) → Value ('[' :: (commas (es.map Element.text) ++ [']']))
  | emptyObject {ws} : Ws ws → Value ('\x7b' :: (ws ++ ['\x7d']))
  | object {ms : List Member} : ms ≠ [] → (∀ m ∈ ms, m.WellFormed) →
      (∀ m ∈ ms, Value m.value) → Value ('\x7b' :: (commas (ms.map Member.text) ++ ['\x7d']))

/-- A document whose object has the members `ms`, at least one. -/
structure Document (t : List Char) (ms : List Member) : Prop where
  text : ∃ before after, Ws before ∧ Ws after ∧
    t = before ++ ('\x7b' :: (commas (ms.map Member.text) ++ '\x7d' :: after))
  members : ms ≠ []
  wellFormed : ∀ m ∈ ms, m.WellFormed
  values : ∀ m ∈ ms, Value m.value

/-- One of the members has this key, as it is written, and has this value. -/
def HasMember (ms : List Member) (key value : List Char) : Prop :=
  ∃ m ∈ ms, m.key = key ∧ m.value = value ∧ ∀ m' ∈ ms, m'.key = key → m' = m

instance (ms : List Member) (key value : List Char) : Decidable (HasMember ms key value) :=
  inferInstanceAs (Decidable (∃ m ∈ ms, _ ∧ _ ∧ ∀ m' ∈ ms, _ → _))

/-- A member with a space before its value. -/
def spaced (key value : List Char) : Member := ⟨[], key, [], [' '], value, []⟩

def objectText (ms : List Member) : List Char := '\x7b' :: (commas (ms.map Member.text) ++ ['\x7d'])

/-- The document has a member with this name, a string with this value. -/
def Holds (t name v : List Char) : Prop :=
  ∃ ms m lit, Document t ms ∧ m ∈ ms ∧ Decodes m.key name ∧ m.value = quoted lit ∧ Decodes lit v

section Literals

variable {c : Char} {lit v t : List Char}

theorem utf8_length (c : Char) : 1 ≤ (utf8 c).length ∧ (utf8 c).length ≤ 4 := by
  rw [utf8, List.length_map, String.length_utf8EncodeChar]
  exact ⟨c.utf8Size_pos, c.utf8Size_le_four⟩

theorem toNat_byte {n : ℕ} (h : n < 256) : (Char.ofNat (UInt8.ofNat n).toNat).toNat = n := by
  have hn : (UInt8.ofNat n).toNat = n := by simp [Nat.mod_eq_of_lt h]
  have hvalid : n.isValidChar := by unfold Nat.isValidChar; omega
  rw [hn, Char.ofNat, dif_pos hvalid]
  rfl

/-- A character is one byte, or the first of its bytes tells how many they are. -/
theorem utf8_cases (c : Char) : (c.toNat < 128 ∧ utf8 c = [c]) ∨
    ∃ b t, utf8 c = b :: t ∧ 128 ≤ c.toNat ∧ (∀ x ∈ b :: t, 128 ≤ x.toNat) ∧
      (t.length = 1 ∧ 0xC0 ≤ b.toNat ∧ b.toNat < 0xE0 ∨
       t.length = 2 ∧ 0xE0 ≤ b.toNat ∧ b.toNat < 0xF0 ∨
       t.length = 3 ∧ 0xF0 ≤ b.toNat ∧ b.toNat < 0x100) := by
  have hval : c.val.toNat = c.toNat := rfl
  unfold utf8 String.utf8EncodeChar
  dsimp only
  rw [hval]
  split_ifs with h₁ h₂ h₃
  · left
    have hbyte : (UInt8.ofNat c.toNat).toNat = c.toNat := by simp; omega
    rw [List.map_singleton, hbyte, Char.ofNat_toNat]
    exact ⟨by omega, rfl⟩
  all_goals
    right
    refine ⟨_, _, rfl, by omega, ?_⟩
    simp only [List.map_cons, List.map_nil, List.forall_mem_cons, List.length_cons,
      List.length_nil]
  · rw [toNat_byte (by omega), toNat_byte (by omega)]
    exact ⟨⟨by omega, by omega, nofun⟩, .inl ⟨trivial, by omega, by omega⟩⟩
  · rw [toNat_byte (by omega), toNat_byte (by omega), toNat_byte (by omega)]
    exact ⟨⟨by omega, by omega, by omega, nofun⟩, .inr (.inl ⟨trivial, by omega, by omega⟩)⟩
  · rw [toNat_byte (by omega), toNat_byte (by omega), toNat_byte (by omega),
      toNat_byte (by omega)]
    exact ⟨⟨by omega, by omega, by omega, by omega, nofun⟩,
      .inr (.inr ⟨trivial, by omega, by omega⟩)⟩

theorem mem_utf8 {x : Char} (h : x ∈ utf8 c) : x = c ∨ 128 ≤ x.toNat := by
  rcases utf8_cases c with ⟨-, hc⟩ | ⟨b, t, hc, -, hhigh, -⟩
  · rw [hc] at h
    exact .inl (List.mem_singleton.mp h)
  · rw [hc] at h
    exact .inr (hhigh x h)

/-- The value of a literal is at most as long, and as long only if it stands for itself. -/
theorem Decodes.length (h : Decodes lit v) :
    v.length ≤ lit.length ∧ (v.length = lit.length → lit = v ∧ Plain v) := by
  induction h with
  | nil => exact ⟨le_rfl, fun _ => ⟨rfl, [], nofun, rfl⟩⟩
  | @plain c t v hc _ ih =>
    rw [List.length_append, List.length_append]
    refine ⟨by omega, fun hlen => ?_⟩
    obtain ⟨rfl, cs, hcs, rfl⟩ := ih.2 (by omega)
    exact ⟨rfl, c :: cs, List.forall_mem_cons.mpr ⟨hc, hcs⟩, rfl⟩
  | escape _ _ ih =>
    simp only [List.length_cons]
    exact ⟨by omega, fun hlen => absurd hlen (by omega)⟩
  | @unicode _ _ _ _ n _ _ _ _ _ ih =>
    have hlen := utf8_length (Char.ofNat n)
    simp only [List.length_cons, List.length_append]
    exact ⟨by omega, fun hlen => absurd hlen (by omega)⟩
  | @surrogates _ _ _ _ m _ _ _ _ n _ _ _ _ _ _ _ _ _ ih =>
    have hlen := utf8_length (Char.ofNat (0x10000 + (m - 0xD800) * 0x400 + (n - 0xDC00)))
    simp only [List.length_cons, List.length_append]
    exact ⟨by omega, fun hlen => absurd hlen (by omega)⟩

theorem Decodes.eq_of_not_mem (h : Decodes lit v) (hlit : '\\' ∉ lit) : v = lit := by
  induction h with
  | nil => rfl
  | plain _ _ ih => rw [ih fun hmem => hlit (List.mem_append_right _ hmem)]
  | escape => exact absurd List.mem_cons_self hlit
  | unicode => exact absurd List.mem_cons_self hlit
  | surrogates => exact absurd List.mem_cons_self hlit

theorem Plain.not_mem {x : Char} (h : Plain v) (hx : plainChar x = false) (hascii : x.toNat < 128) :
    x ∉ v := by
  obtain ⟨cs, hcs, rfl⟩ := h
  intro hmem
  obtain ⟨c, hc, hxc⟩ := List.mem_flatMap.mp hmem
  rcases mem_utf8 hxc with rfl | hhigh
  · exact absurd ((hcs x hc).symm.trans hx) nofun
  · omega

theorem plain_ascii (h : ∀ c ∈ v, plainChar c = true ∧ c.toNat < 128) : Plain v := by
  refine ⟨v, fun c hc => (h c hc).1, ?_⟩
  induction v with
  | nil => rfl
  | cons c v ih =>
    obtain ⟨⟨-, hascii⟩, hv⟩ := List.forall_mem_cons.mp h
    rcases utf8_cases c with ⟨-, hone⟩ | ⟨_, _, _, hhigh, -⟩
    · rw [List.flatMap_cons, hone, ← ih hv, List.singleton_append]
    · omega

theorem Plain.decodes (h : Plain v) : Decodes v v := by
  obtain ⟨cs, hcs, rfl⟩ := h
  induction cs with
  | nil => exact .nil
  | cons c cs ih =>
    obtain ⟨hc, hcs⟩ := List.forall_mem_cons.mp hcs
    exact .plain hc (ih hcs)

theorem encodeByte_eq (h : plainChar c = true) : encodeByte c = [c] := by
  obtain ⟨⟨hlow, hquote⟩, hslash⟩ : (32 ≤ c.toNat ∧ c ≠ '"') ∧ c ≠ '\\' := by
    simpa [plainChar] using h
  rw [encodeByte, if_neg (not_or.mpr ⟨hquote, hslash⟩), if_neg (Nat.not_lt.mpr hlow)]

theorem plainChar_high (h : 128 ≤ c.toNat) : plainChar c = true := by
  have hne : ∀ y : Char, y.toNat < 128 → c ≠ y := fun y hy he => by subst he; omega
  have hlow : 32 ≤ c.toNat := by omega
  simp [plainChar, hlow, hne '"' (by decide), hne '\\' (by decide)]

theorem encode_eq (h : ∀ x ∈ t, plainChar x = true) : encode t = t := by
  induction t with
  | nil => rfl
  | cons x t ih =>
    obtain ⟨hx, ht⟩ := List.forall_mem_cons.mp h
    rw [encode, List.flatMap_cons, encodeByte_eq hx]
    exact congrArg (x :: ·) (ih ht)

theorem encode_append (t v : List Char) : encode (t ++ v) = encode t ++ encode v :=
  List.flatMap_append

theorem decodes_encode_utf8 (c : Char) (h : Decodes (encode v) v) :
    Decodes (encode (utf8 c ++ v)) (utf8 c ++ v) := by
  rw [encode_append]
  rcases utf8_cases c with ⟨hascii, hone⟩ | ⟨b, t, hmany, hhigh, hbytes, -⟩
  · by_cases hplain : plainChar c = true
    · have hsame : encode (utf8 c) = utf8 c := by
        rw [hone, encode, List.flatMap_singleton, encodeByte_eq hplain]
      rw [hsame]
      exact .plain hplain h
    · rw [hone]
      by_cases hesc : c = '"' ∨ c = '\\'
      · have hcode : encode [c] = ['\\', c] := by
          rw [encode, List.flatMap_singleton, encodeByte, if_pos hesc]
        rw [hcode]
        rcases hesc with rfl | rfl
        · exact .escape (e := '"') rfl h
        · exact .escape (e := '\\') rfl h
      · have hlow : c.toNat < 32 := by
          by_contra hlow
          obtain ⟨hquote, hslash⟩ := not_or.mp hesc
          exact hplain (by simp [plainChar, hquote, hslash, Nat.not_lt.mp hlow])
        have hdigits : ∀ n < 32, hex4 '0' '0' (Nat.digitChar (n / 16)) (Nat.digitChar (n % 16)) =
            some n := by decide
        have hcode : encode [c] = '\\' :: 'u' :: '0' :: '0' :: Nat.digitChar (c.toNat / 16) ::
            Nat.digitChar (c.toNat % 16) :: [] := by
          rw [encode, List.flatMap_singleton, encodeByte, if_neg hesc, if_pos hlow]
        have hvalid : c.toNat.isValidChar := .inl (by omega)
        have hdecodes := Decodes.unicode (hdigits c.toNat hlow) hvalid h
        rw [Char.ofNat_toNat, hone] at hdecodes
        rw [hcode]
        exact hdecodes
  · have hsame : encode (utf8 c) = utf8 c := by
      rw [hmany]
      exact encode_eq fun x hx => plainChar_high (hbytes x hx)
    rw [hsame]
    exact .plain (plainChar_high hhigh) h

/-- Every text that has a literal is decoded from its encoding. -/
theorem Decodes.encode (h : Decodes lit v) : Decodes (encode v) v := by
  induction h with
  | nil => exact .nil
  | @plain c _ _ _ _ ih => exact decodes_encode_utf8 c ih
  | @escape e c t v he _ ih =>
    have hone : utf8 c = [c] := by
      unfold escaped at he
      split at he
      case h_9 => cases he
      all_goals
        obtain rfl := Option.some.inj he
        decide
    have hcons : c :: v = utf8 c ++ v := by rw [hone, List.singleton_append]
    rw [hcons]
    exact decodes_encode_utf8 c ih
  | unicode _ _ _ ih => exact decodes_encode_utf8 _ ih
  | surrogates _ _ _ _ _ _ _ ih => exact decodes_encode_utf8 _ ih

theorem Plain.encode (h : Plain v) : encode v = v := by
  apply encode_eq
  intro x hx
  by_contra hnot
  have hplain : plainChar x = false := eq_false_of_ne_true hnot
  apply h.not_mem hplain _ hx
  by_contra hascii
  exact hnot (plainChar_high (Nat.le_of_not_lt hascii))

end Literals

section Numbers

theorem head_toDigits (n : ℕ) :
    Nat.toDigits 10 n = ['0'] ∨ (Nat.toDigits 10 n).head? ≠ some '0' := by
  induction n using Nat.strong_induction_on with
  | _ n ih =>
    by_cases hn : n < 10
    · have hdigits : ∀ d < 10, [d.digitChar] = ['0'] ∨ [d.digitChar].head? ≠ some '0' := by decide
      rw [Nat.toDigits_of_lt_base hn]
      exact hdigits n hn
    · have hsmall : n / 10 < n := by omega
      have hpos : n / 10 ≠ 0 := by omega
      rw [Nat.toDigits_of_base_le (by decide) (by omega)]
      right
      rcases ih (n / 10) hsmall with hzero | hhead
      · have hvalue := Nat.ofDigitChars_ten_toDigits (n := n / 10)
        rw [hzero] at hvalue
        exact absurd hvalue.symm hpos
      · rw [List.head?_append_of_ne_nil _ Nat.toDigits_ne_nil]
        exact hhead

theorem number_toDigits (n : ℕ) : Number (Nat.toDigits 10 n) := by
  refine ⟨[], Nat.toDigits 10 n, [], [], by simp, .inl rfl, ?_, .inl rfl, .inl rfl⟩
  rcases head_toDigits n with hzero | hhead
  · exact .inl hzero
  · refine .inr ⟨⟨Nat.toDigits_ne_nil, fun c hc => ?_⟩, hhead⟩
    exact Nat.isDigit_of_mem_toDigits (by decide) (by decide) hc

end Numbers

section Documents

variable {t name v : List Char}

/-- An object of members with a space before each value, none of whose keys has to be escaped. -/
theorem document_objectText {ms : List Member} (hne : ms ≠ [])
    (hkey : ∀ m ∈ ms, m = spaced m.key m.value ∧
      ∀ c ∈ m.key, plainChar c = true ∧ c.toNat < 128)
    (hvalue : ∀ m ∈ ms, Value m.value) : Document (objectText ms) ms := by
  refine ⟨⟨[], [], nofun, nofun, rfl⟩, hne, fun m hm => ?_, hvalue⟩
  obtain ⟨hspaced, hascii⟩ := hkey m hm
  rw [hspaced]
  refine ⟨nofun, ⟨m.key, (plain_ascii hascii).decodes⟩, nofun, fun c hc => ?_, nofun⟩
  obtain rfl := List.mem_singleton.mp hc
  rfl

theorem commas_split {ts : List (List Char)} {x : List Char} (h : x ∈ ts) :
    ∃ l r, commas ts = l ++ (x ++ r) := by
  induction ts with
  | nil => cases h
  | cons y ts ih =>
    rcases List.mem_cons.mp h with rfl | h
    · cases ts with
      | nil => exact ⟨[], [], by simp [commas]⟩
      | cons z ts => exact ⟨[], ',' :: commas (z :: ts), by simp [commas, List.intercalate]⟩
    · obtain ⟨l, r, hlr⟩ := ih h
      cases ts with
      | nil => cases h
      | cons z ts =>
        refine ⟨y ++ ',' :: l, r, ?_⟩
        have hcons : commas (y :: z :: ts) = y ++ ',' :: commas (z :: ts) := by
          simp [commas, List.intercalate]
        rw [hcons, hlr]
        simp only [List.append_assoc, List.cons_append]

/-- Where the value of a member stands in a document. -/
theorem Holds.split (h : Holds t name v) : ∃ pre lit post,
    t = pre ++ ('"' :: (lit ++ '"' :: post)) ∧ Decodes lit v ∧ name.length + 4 ≤ pre.length ∧
      2 ≤ pre.count '"' ∧ '\x7d' ∈ post := by
  obtain ⟨ms, m, lit, hdoc, hm, hkey, hvalue, hlit⟩ := h
  obtain ⟨before, after, -, -, ht⟩ := hdoc.text
  obtain ⟨l, r, hlr⟩ := commas_split (List.mem_map_of_mem (f := Member.text) hm)
  have hlen := hkey.length.1
  refine ⟨before ++ '\x7b' :: (l ++ (m.before ++ (quoted m.key ++ (m.afterKey ++ ':' ::
    m.beforeValue)))), lit, m.after ++ (r ++ '\x7d' :: after), ?_, hlit, ?_, ?_, ?_⟩
  · rw [ht, hlr, Member.text, hvalue]
    simp only [quoted, List.append_assoc, List.cons_append, List.nil_append]
  · simp only [quoted, List.length_append, List.length_cons, List.length_nil]
    omega
  · simp only [quoted, List.count_append, List.count_cons_self, List.count_cons]
    omega
  · simp

end Documents

end Json
