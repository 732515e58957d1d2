import ADEiger.Rfc3339Calendar
import Mathlib.Computability.RegularExpressions
import Mathlib.Data.List.TakeWhile

/-! The texts that the pattern of `rfc3339.h` matches, as a regular expression and by what is
written in them. -/
namespace Rfc3339

open CString (Text)

section Fields

def zoneText (zone : Option Zone) : Text := (zone.map Zone.text).getD []

/-- What is written in a text of the pattern, whether or not it makes a time. -/
structure Fields where
  year : ℕ
  month : ℕ
  day : ℕ
  separator : Char
  hour : ℕ
  minute : ℕ
  second : ℕ
  fraction : List ℕ
  zone : Option Zone
  deriving DecidableEq, Repr

def Fields.text (f : Fields) : Text :=
  fieldsText f.year f.month f.day f.separator f.hour f.minute f.second f.fraction
    (zoneText f.zone)

/-- Every number has the digits that are written for it, and the fraction at most nine. -/
structure Fields.Written (f : Fields) : Prop where
  year : f.year < 10000
  month : f.month < 100
  day : f.day < 100
  separator : f.separator ∈ ['T', 't', ' ']
  hour : f.hour < 100
  minute : f.minute < 100
  second : f.second < 100
  fraction : ∀ d ∈ f.fraction, d < 10
  length : f.fraction.length ≤ 9
  zone : ∀ negative hour minute, f.zone = some (.offset negative hour minute) →
    hour < 100 ∧ minute < 100

/-- The pattern has no small letter for UTC. -/
structure Fields.Matched (f : Fields) : Prop extends f.Written where
  letter : f.zone ≠ some (.utc true)

def Fields.groups (f : Fields) : Match :=
  ⟨f.year, f.month, f.day, f.hour, f.minute, f.second, f.fraction.map digitChar, zoneText f.zone⟩

end Fields

section Matching

variable {f g : Fields} {t u : Text} {n v w : ℕ}

theorem zoneText_after (zone : Option Zone) : AfterFraction (zoneText zone) := by
  cases zone with
  | none => intro c u hcu; cases hcu
  | some zone => exact zone.text_after

/-- The offsets of the pattern. -/
theorem zoneText_matched {zone : Option Zone} (h : ∀ negative hour minute,
    zone = some (.offset negative hour minute) → hour < 100 ∧ minute < 100) :
    (zoneText zone = [] ∨ zoneText zone = ['Z'] ∨ (matchOffset (zoneText zone)).isSome) ↔
      zone ≠ some (.utc true) := by
  cases zone with
  | none => exact iff_of_true (.inl rfl) fun h => by cases h
  | some zone =>
    cases zone with
    | utc lower => cases lower <;> decide
    | offset negative hour minute =>
      obtain ⟨hhour, hminute⟩ := h _ _ _ rfl
      have hoffset : matchOffset (zoneText (some (.offset negative hour minute))) = _ :=
        matchOffset_text hhour hminute
      exact iff_of_true (.inr (.inr (by rw [hoffset]; rfl))) fun h => by cases h

theorem matchPattern_written (h : f.Written) :
    matchPattern f.text = if f.zone ≠ some (.utc true) then some f.groups else none := by
  rw [Fields.text, matchPattern_fieldsText h.year h.month h.day h.separator h.hour h.minute
    h.second h.fraction h.length (zoneText_after f.zone)]
  exact if_congr (zoneText_matched h.zone) rfl rfl

theorem digit_of_isDigit {c : Char} (h : c.isDigit = true) :
    digitValue c < 10 ∧ c = digitChar (digitValue c) := by
  simp only [Char.isDigit, Bool.and_eq_true, decide_eq_true_eq] at h
  have hlow : 48 ≤ c.toNat := h.1
  have hhigh : c.toNat ≤ 57 := h.2
  refine ⟨by rw [digitValue]; omega, ?_⟩
  rw [digitChar, digitValue, Nat.add_sub_cancel' hlow, Char.ofNat_toNat]

theorem readDigits_inv (h : readDigits n v t = some (w, u)) :
    ∃ ds : List ℕ, ds.length = n ∧ (∀ d ∈ ds, d < 10) ∧ t = ds.map digitChar ++ u ∧
      w = ds.foldl (fun v d => 10 * v + d) v := by
  induction n generalizing v t with
  | zero =>
    obtain ⟨rfl, rfl⟩ := Prod.mk.inj (Option.some.inj h)
    exact ⟨[], rfl, List.forall_mem_nil _, rfl, rfl⟩
  | succ n ih =>
    cases t with
    | nil => cases h
    | cons c t =>
      rw [readDigits] at h
      split_ifs at h with hc
      obtain ⟨ds, hlen, hds, rfl, rfl⟩ := ih h
      obtain ⟨hlt, hchar⟩ := digit_of_isDigit hc
      refine ⟨digitValue c :: ds, congrArg (· + 1) hlen, List.forall_mem_cons.mpr ⟨hlt, hds⟩, ?_,
        rfl⟩
      rw [List.map_cons, ← hchar, List.cons_append]

theorem readDigits2_inv (h : readDigits 2 v t = some (w, u)) :
    ∃ n < 100, w = 100 * v + n ∧ t = digits2 n ++ u := by
  obtain ⟨ds, hlen, hds, rfl, rfl⟩ := readDigits_inv h
  obtain ⟨a, b, rfl⟩ := List.length_eq_two.mp hlen
  have ha := hds a (by simp)
  have hb := hds b (by simp)
  have hdiv : (10 * a + b) / 10 = a := by omega
  have hmod : (10 * a + b) % 10 = b := by omega
  refine ⟨10 * a + b, by omega, ?_, ?_⟩
  · simp only [List.foldl_cons, List.foldl_nil]
    omega
  · simp only [digits2, hdiv, hmod, List.map_cons, List.map_nil]

theorem readDigits4_inv (h : readDigits 4 0 t = some (w, u)) :
    w < 10000 ∧ t = digits4 w ++ u := by
  rw [show 4 = 2 + 2 from rfl, readDigits_add] at h
  obtain ⟨⟨x, s⟩, hx, hw⟩ := Option.bind_eq_some_iff.mp h
  obtain ⟨m, hm, rfl, rfl⟩ := readDigits2_inv hx
  obtain ⟨n, hn, rfl, rfl⟩ := readDigits2_inv hw
  have hdiv : (100 * (100 * 0 + m) + n) / 100 = m := by omega
  have hmod : (100 * (100 * 0 + m) + n) % 100 = n := by omega
  refine ⟨by omega, ?_⟩
  rw [digits4, hdiv, hmod, List.append_assoc]

theorem readChar_inv {allowed : List Char} {c : Char} (h : readChar allowed t = some (c, u)) :
    c ∈ allowed ∧ t = c :: u := by
  cases t with
  | nil => cases h
  | cons c' t =>
    rw [readChar] at h
    split_ifs at h with hc
    obtain ⟨rfl, rfl⟩ := Prod.mk.inj (Option.some.inj h)
    exact ⟨hc, rfl⟩

theorem readFraction_inv {digits : Text} (h : readFraction t = some (digits, u)) :
    ∃ fraction : List ℕ, (∀ d ∈ fraction, d < 10) ∧ fraction.length ≤ 9 ∧
      t = fractionText fraction ++ u ∧ digits = fraction.map digitChar := by
  unfold readFraction at h
  split at h
  · case h_1 t =>
    dsimp only at h
    split_ifs at h with hlen
    obtain ⟨rfl, rfl⟩ := Prod.mk.inj (Option.some.inj h)
    have hall : ∀ c ∈ t.takeWhile Char.isDigit, c.isDigit = true := fun c =>
      List.mem_takeWhile_imp
    have hdigits : ((t.takeWhile Char.isDigit).map digitValue).map digitChar =
        t.takeWhile Char.isDigit := by
      rw [List.map_map]
      exact (List.map_congr_left fun c hc => (digit_of_isDigit (hall c hc)).2.symm).trans
        (List.map_id _)
    have hne : (t.takeWhile Char.isDigit).map digitValue ≠ [] := by
      intro hnil
      rw [List.map_eq_nil_iff.mp hnil] at hlen
      exact absurd hlen.1 (by decide)
    refine ⟨(t.takeWhile Char.isDigit).map digitValue, fun d hd => ?_, ?_, ?_, hdigits.symm⟩
    · obtain ⟨c, hc, rfl⟩ := List.mem_map.mp hd
      exact (digit_of_isDigit (hall c hc)).1
    · rw [List.length_map]
      exact hlen.2
    · rw [fractionText, if_neg hne, hdigits, List.cons_append,
        List.prefix_iff_eq_append.mp (List.takeWhile_prefix _)]
  · obtain ⟨rfl, rfl⟩ := Prod.mk.inj (Option.some.inj h)
    exact ⟨[], List.forall_mem_nil _, Nat.zero_le _, rfl, rfl⟩

theorem matchOffset_inv (h : (matchOffset t).isSome = true) : ∃ negative hour minute,
    hour < 100 ∧ minute < 100 ∧ t = (Zone.offset negative hour minute).text := by
  obtain ⟨r, h⟩ := Option.isSome_iff_exists.mp h
  rw [matchOffset] at h
  obtain ⟨⟨sign, t₁⟩, hsign, h⟩ := Option.bind_eq_some_iff.mp h
  obtain ⟨⟨hour, t₂⟩, hhour, h⟩ := Option.bind_eq_some_iff.mp h
  obtain ⟨⟨colon, t₃⟩, hcolon, h⟩ := Option.bind_eq_some_iff.mp h
  obtain ⟨⟨minute, t₄⟩, hminute, h⟩ := Option.bind_eq_some_iff.mp h
  dsimp only at h
  split_ifs at h with hend
  obtain ⟨hsign₁, rfl⟩ := readChar_inv hsign
  obtain ⟨hours, hlt, -, rfl⟩ := readDigits2_inv hhour
  obtain ⟨hcolon₁, rfl⟩ := readChar_inv hcolon
  obtain ⟨minutes, hlt', -, rfl⟩ := readDigits2_inv hminute
  obtain rfl := hend
  obtain rfl := List.mem_singleton.mp hcolon₁
  rw [List.append_nil]
  rcases List.mem_pair.mp hsign₁ with rfl | rfl
  · exact ⟨false, hours, minutes, hlt, hlt', rfl⟩
  · exact ⟨true, hours, minutes, hlt, hlt', rfl⟩

theorem zone_inv (h : t = [] ∨ t = ['Z'] ∨ (matchOffset t).isSome = true) :
    ∃ zone : Option Zone, t = zoneText zone ∧ zone ≠ some (.utc true) ∧
      ∀ negative hour minute, zone = some (.offset negative hour minute) →
        hour < 100 ∧ minute < 100 := by
  rcases h with rfl | rfl | h
  · exact ⟨none, rfl, by decide, fun _ _ _ h => by cases h⟩
  · exact ⟨some (.utc false), rfl, by decide, fun _ _ _ h => by cases h⟩
  · obtain ⟨negative, hour, minute, hhour, hminute, rfl⟩ := matchOffset_inv h
    refine ⟨some (.offset negative hour minute), rfl, by simp, fun _ _ _ h => ?_⟩
    obtain ⟨rfl, rfl, rfl⟩ := Zone.offset.inj (Option.some.inj h)
    exact ⟨hhour, hminute⟩

theorem matchPattern_inv {m : Match} (h : matchPattern t = some m) :
    ∃ f : Fields, f.Matched ∧ t = f.text := by
  rw [matchPattern] at h
  obtain ⟨⟨year, t₁⟩, hyear, h⟩ := Option.bind_eq_some_iff.mp h
  obtain ⟨⟨dash, t₂⟩, hdash, h⟩ := Option.bind_eq_some_iff.mp h
  obtain ⟨⟨month, t₃⟩, hmonth, h⟩ := Option.bind_eq_some_iff.mp h
  obtain ⟨⟨dash', t₄⟩, hdash', h⟩ := Option.bind_eq_some_iff.mp h
  obtain ⟨⟨day, t₅⟩, hday, h⟩ := Option.bind_eq_some_iff.mp h
  obtain ⟨⟨separator, t₆⟩, hseparator, h⟩ := Option.bind_eq_some_iff.mp h
  obtain ⟨⟨hour, t₇⟩, hhour, h⟩ := Option.bind_eq_some_iff.mp h
  obtain ⟨⟨colon, t₈⟩, hcolon, h⟩ := Option.bind_eq_some_iff.mp h
  obtain ⟨⟨minute, t₉⟩, hminute, h⟩ := Option.bind_eq_some_iff.mp h
  obtain ⟨⟨colon', t₁₀⟩, hcolon', h⟩ := Option.bind_eq_some_iff.mp h
  obtain ⟨⟨second, t₁₁⟩, hsecond, h⟩ := Option.bind_eq_some_iff.mp h
  obtain ⟨⟨digits, offset⟩, hfraction, h⟩ := Option.bind_eq_some_iff.mp h
  dsimp only at h
  split_ifs at h with hoffset
  obtain ⟨hyear₁, rfl⟩ := readDigits4_inv hyear
  obtain ⟨hdash₁, rfl⟩ := readChar_inv hdash
  obtain ⟨_, hmonth₁, -, rfl⟩ := readDigits2_inv hmonth
  obtain ⟨hdash'₁, rfl⟩ := readChar_inv hdash'
  obtain ⟨_, hday₁, -, rfl⟩ := readDigits2_inv hday
  obtain ⟨hseparator₁, rfl⟩ := readChar_inv hseparator
  obtain ⟨_, hhour₁, -, rfl⟩ := readDigits2_inv hhour
  obtain ⟨hcolon₁, rfl⟩ := readChar_inv hcolon
  obtain ⟨_, hminute₁, -, rfl⟩ := readDigits2_inv hminute
  obtain ⟨hcolon'₁, rfl⟩ := readChar_inv hcolon'
  obtain ⟨_, hsecond₁, -, rfl⟩ := readDigits2_inv hsecond
  obtain ⟨fraction, hdigits, hlen, rfl, -⟩ := readFraction_inv hfraction
  obtain rfl := List.mem_singleton.mp hdash₁
  obtain rfl := List.mem_singleton.mp hdash'₁
  obtain rfl := List.mem_singleton.mp hcolon₁
  obtain rfl := List.mem_singleton.mp hcolon'₁
  obtain ⟨zone, rfl, hletter, hzone⟩ := zone_inv hoffset
  exact ⟨⟨year, _, _, separator, _, _, _, fraction, zone⟩,
    ⟨⟨hyear₁, hmonth₁, hday₁, hseparator₁, hhour₁, hminute₁, hsecond₁, hdigits, hlen, hzone⟩,
      hletter⟩, rfl⟩

theorem matchPattern_isSome_iff (t : Text) :
    (matchPattern t).isSome = true ↔ ∃ f : Fields, f.Matched ∧ t = f.text := by
  constructor
  · intro h
    obtain ⟨m, hm⟩ := Option.isSome_iff_exists.mp h
    exact matchPattern_inv hm
  · rintro ⟨f, hf, rfl⟩
    rw [matchPattern_written hf.toWritten, if_pos hf.letter]
    rfl

end Matching

section Language

open RegularExpression (char)

/-- A set of characters. -/
def anyOf (cs : List Char) : RegularExpression Char := cs.foldr (fun c r => char c + r) 0

/-- `\d`. -/
def digit : RegularExpression Char := anyOf "0123456789".toList

def optional (r : RegularExpression Char) : RegularExpression Char := 1 + r

/-- `r` at most `n` times. -/
def upTo (r : RegularExpression Char) : ℕ → RegularExpression Char
  | 0 => 1
  | n + 1 => optional (r * upTo r n)

/-- `(\.\d{1,9})?`. -/
def SECFRAC : RegularExpression Char := optional (char '.' * (digit * upTo digit 8))

/-- `(Z|[+-]\d\d:\d\d)?`. -/
def TIME_OFFSET : RegularExpression Char :=
  optional (char 'Z' + anyOf ['+', '-'] * (digit ^ 2 * (char ':' * digit ^ 2)))

def PATTERN : RegularExpression Char :=
  digit ^ 4 * (char '-' * (digit ^ 2 * (char '-' * (digit ^ 2 * (anyOf ['T', 't', ' '] *
    (digit ^ 2 * (char ':' * (digit ^ 2 * (char ':' * (digit ^ 2 *
      (SECFRAC * TIME_OFFSET)))))))))))

variable {t : Text} {n : ℕ}

theorem mem_anyOf {cs : List Char} : t ∈ (anyOf cs).matches' ↔ ∃ c ∈ cs, t = [c] := by
  induction cs with
  | nil => exact iff_of_false (Language.notMem_zero t) fun ⟨c, hc, _⟩ => by cases hc
  | cons c cs ih =>
    rw [List.exists_mem_cons_iff, ← ih]
    rfl

theorem mem_char {c : Char} : t ∈ (char c).matches' ↔ t = [c] := Iff.rfl

theorem mem_optional {r : RegularExpression Char} :
    t ∈ (optional r).matches' ↔ t = [] ∨ t ∈ r.matches' := Iff.rfl

theorem mem_mul {r s : RegularExpression Char} :
    t ∈ (r * s).matches' ↔ ∃ u ∈ r.matches', ∃ v ∈ s.matches', u ++ v = t := Iff.rfl

theorem mem_digit : t ∈ digit.matches' ↔ ∃ d < 10, t = [digitChar d] := by
  have hdigits : "0123456789".toList = (List.range 10).map digitChar := by decide
  rw [digit, mem_anyOf, hdigits]
  simp only [List.mem_map, List.mem_range, exists_exists_and_eq_and]

theorem mem_digit_pow : t ∈ (digit ^ n).matches' ↔
    ∃ ds : List ℕ, ds.length = n ∧ (∀ d ∈ ds, d < 10) ∧ t = ds.map digitChar := by
  induction n generalizing t with
  | zero =>
    constructor
    · intro h
      exact ⟨[], rfl, List.forall_mem_nil _, h⟩
    · rintro ⟨ds, hlen, -, rfl⟩
      rw [List.length_eq_zero_iff.mp hlen]
      exact Language.nil_mem_one
  | succ n ih =>
    have hsucc : t ∈ (digit ^ (n + 1)).matches' ↔ t ∈ (digit ^ n * digit).matches' := Iff.rfl
    rw [hsucc, mem_mul]
    constructor
    · rintro ⟨u, hu, v, hv, rfl⟩
      obtain ⟨ds, hlen, hds, rfl⟩ := ih.mp hu
      obtain ⟨d, hd, rfl⟩ := mem_digit.mp hv
      refine ⟨ds ++ [d], by rw [List.length_append, hlen]; rfl, ?_, by rw [List.map_append]; rfl⟩
      exact List.forall_mem_append.mpr ⟨hds, List.forall_mem_singleton.mpr hd⟩
    · rintro ⟨ds, hlen, hds, rfl⟩
      obtain ⟨init, d, rfl⟩ := (List.eq_nil_or_concat ds).resolve_left (by rintro rfl; cases hlen)
      rw [List.concat_eq_append] at hlen hds ⊢
      rw [List.length_append] at hlen
      obtain ⟨hinit, hd⟩ := List.forall_mem_append.mp hds
      exact ⟨_, ih.mpr ⟨init, Nat.succ.inj hlen, hinit, rfl⟩, _,
        mem_digit.mpr ⟨d, hd d (List.mem_singleton.mpr rfl), rfl⟩, by rw [List.map_append]; rfl⟩

theorem mem_digits2 : t ∈ (digit ^ 2).matches' ↔ ∃ n < 100, t = digits2 n := by
  rw [mem_digit_pow]
  constructor
  · rintro ⟨ds, hlen, hds, rfl⟩
    obtain ⟨a, b, rfl⟩ := List.length_eq_two.mp hlen
    have ha := hds a (by simp)
    have hb := hds b (by simp)
    have hdiv : (10 * a + b) / 10 = a := by omega
    have hmod : (10 * a + b) % 10 = b := by omega
    exact ⟨10 * a + b, by omega, by rw [digits2, hdiv, hmod]; rfl⟩
  · rintro ⟨n, hn, rfl⟩
    refine ⟨[n / 10, n % 10], rfl, ?_, rfl⟩
    simp only [List.forall_mem_cons, List.not_mem_nil, false_implies, implies_true, and_true]
    omega

theorem mem_digits4 : t ∈ (digit ^ 4).matches' ↔ ∃ n < 10000, t = digits4 n := by
  have hpow : t ∈ (digit ^ 4).matches' ↔ ∃ u ∈ (digit ^ 2).matches', ∃ v ∈ (digit ^ 2).matches',
      u ++ v = t := by
    rw [RegularExpression.matches'_pow, show 4 = 2 + 2 from rfl, pow_add, Language.mem_mul,
      ← RegularExpression.matches'_pow]
  rw [hpow]
  constructor
  · rintro ⟨u, hu, v, hv, rfl⟩
    obtain ⟨m, hm, rfl⟩ := mem_digits2.mp hu
    obtain ⟨n, hn, rfl⟩ := mem_digits2.mp hv
    have hdiv : (100 * m + n) / 100 = m := by omega
    have hmod : (100 * m + n) % 100 = n := by omega
    exact ⟨100 * m + n, by omega, by rw [digits4, hdiv, hmod]⟩
  · rintro ⟨n, hn, rfl⟩
    exact ⟨_, mem_digits2.mpr ⟨n / 100, by omega, rfl⟩, _, mem_digits2.mpr ⟨n % 100, by omega, rfl⟩,
      rfl⟩

theorem mem_upTo : t ∈ (upTo digit n).matches' ↔
    ∃ ds : List ℕ, ds.length ≤ n ∧ (∀ d ∈ ds, d < 10) ∧ t = ds.map digitChar := by
  induction n generalizing t with
  | zero =>
    constructor
    · intro h
      exact ⟨[], Nat.le_refl _, List.forall_mem_nil _, h⟩
    · rintro ⟨ds, hlen, -, rfl⟩
      rw [List.length_eq_zero_iff.mp (Nat.le_zero.mp hlen)]
      exact Language.nil_mem_one
  | succ n ih =>
    rw [upTo, mem_optional, mem_mul]
    constructor
    · rintro (rfl | ⟨u, hu, v, hv, rfl⟩)
      · exact ⟨[], Nat.zero_le _, List.forall_mem_nil _, rfl⟩
      · obtain ⟨d, hd, rfl⟩ := mem_digit.mp hu
        obtain ⟨ds, hlen, hds, rfl⟩ := ih.mp hv
        exact ⟨d :: ds, Nat.succ_le_succ hlen, List.forall_mem_cons.mpr ⟨hd, hds⟩, rfl⟩
    · rintro ⟨ds, hlen, hds, rfl⟩
      cases ds with
      | nil => exact Or.inl rfl
      | cons d ds =>
        obtain ⟨hd, hds⟩ := List.forall_mem_cons.mp hds
        exact Or.inr ⟨_, mem_digit.mpr ⟨d, hd, rfl⟩, _,
          ih.mpr ⟨ds, Nat.le_of_succ_le_succ hlen, hds, rfl⟩, rfl⟩

theorem mem_secfrac : t ∈ SECFRAC.matches' ↔ ∃ fraction : List ℕ,
    (∀ d ∈ fraction, d < 10) ∧ fraction.length ≤ 9 ∧ t = fractionText fraction := by
  rw [SECFRAC, mem_optional]
  simp only [mem_mul, mem_char, mem_digit, mem_upTo]
  constructor
  · rintro (rfl | ⟨u, rfl, v, ⟨w, ⟨d, hd, rfl⟩, x, ⟨ds, hlen, hds, rfl⟩, rfl⟩, rfl⟩)
    · exact ⟨[], List.forall_mem_nil _, Nat.zero_le _, rfl⟩
    · refine ⟨d :: ds, List.forall_mem_cons.mpr ⟨hd, hds⟩, Nat.succ_le_succ hlen, ?_⟩
      rw [fractionText, if_neg (List.cons_ne_nil _ _)]
      rfl
  · rintro ⟨fraction, hdigits, hlen, rfl⟩
    cases fraction with
    | nil => exact Or.inl rfl
    | cons d ds =>
      obtain ⟨hd, hds⟩ := List.forall_mem_cons.mp hdigits
      refine Or.inr ⟨_, rfl, _, ⟨_, ⟨d, hd, rfl⟩, _,
        ⟨ds, Nat.le_of_succ_le_succ hlen, hds, rfl⟩, rfl⟩, ?_⟩
      rw [fractionText, if_neg (List.cons_ne_nil _ _)]
      rfl

theorem mem_numOffset : t ∈ (anyOf ['+', '-'] * (digit ^ 2 * (char ':' * digit ^ 2))).matches' ↔
    ∃ negative hour minute, hour < 100 ∧ minute < 100 ∧
      t = (Zone.offset negative hour minute).text := by
  simp only [mem_mul, mem_char, mem_anyOf, mem_digits2]
  constructor
  · rintro ⟨_, ⟨sign, hsign, rfl⟩, _, ⟨_, ⟨hour, hhour, rfl⟩, _, ⟨_, rfl, _, ⟨minute, hminute,
      rfl⟩, rfl⟩, rfl⟩, rfl⟩
    rcases List.mem_pair.mp hsign with rfl | rfl
    · exact ⟨false, hour, minute, hhour, hminute, rfl⟩
    · exact ⟨true, hour, minute, hhour, hminute, rfl⟩
  · rintro ⟨negative, hour, minute, hhour, hminute, rfl⟩
    have hsign : (if negative then '-' else '+') ∈ ['+', '-'] := by cases negative <;> decide
    exact ⟨_, ⟨_, hsign, rfl⟩, _, ⟨_, ⟨hour, hhour, rfl⟩, _, ⟨_, rfl, _, ⟨minute, hminute, rfl⟩,
      rfl⟩, rfl⟩, rfl⟩

theorem mem_timeOffset : t ∈ TIME_OFFSET.matches' ↔ ∃ zone : Option Zone, t = zoneText zone ∧
    zone ≠ some (.utc true) ∧ ∀ negative hour minute,
      zone = some (.offset negative hour minute) → hour < 100 ∧ minute < 100 := by
  have hsum : t ∈ TIME_OFFSET.matches' ↔ t = [] ∨ t = ['Z'] ∨
      t ∈ (anyOf ['+', '-'] * (digit ^ 2 * (char ':' * digit ^ 2))).matches' := Iff.rfl
  rw [hsum, mem_numOffset]
  constructor
  · rintro (rfl | rfl | ⟨negative, hour, minute, hhour, hminute, rfl⟩)
    · exact zone_inv (.inl rfl)
    · exact zone_inv (.inr (.inl rfl))
    · exact zone_inv (.inr (.inr (by rw [matchOffset_text hhour hminute]; rfl)))
  · rintro ⟨zone, rfl, hletter, hzone⟩
    rcases (zoneText_matched hzone).mpr hletter with h | h | h
    · exact Or.inl h
    · exact Or.inr (Or.inl h)
    · exact Or.inr (Or.inr (matchOffset_inv h))

theorem mem_pattern : t ∈ PATTERN.matches' ↔ ∃ f : Fields, f.Matched ∧ t = f.text := by
  simp only [PATTERN, mem_mul, mem_char, mem_anyOf, mem_digits2, mem_digits4, mem_secfrac,
    mem_timeOffset]
  constructor
  · rintro ⟨_, ⟨year, hyear, rfl⟩, _, ⟨_, rfl, _, ⟨_, ⟨month, hmonth, rfl⟩, _, ⟨_, rfl, _,
      ⟨_, ⟨day, hday, rfl⟩, _, ⟨_, ⟨separator, hseparator, rfl⟩, _, ⟨_, ⟨hour, hhour, rfl⟩, _,
      ⟨_, rfl, _, ⟨_, ⟨minute, hminute, rfl⟩, _, ⟨_, rfl, _, ⟨_, ⟨second, hsecond, rfl⟩, _,
      ⟨_, ⟨fraction, hfraction, hlen, rfl⟩, _, ⟨zone, rfl, hletter, hzone⟩, rfl⟩, rfl⟩, rfl⟩,
      rfl⟩, rfl⟩, rfl⟩, rfl⟩, rfl⟩, rfl⟩, rfl⟩, rfl⟩, rfl⟩
    exact ⟨⟨year, month, day, separator, hour, minute, second, fraction, zone⟩,
      ⟨⟨hyear, hmonth, hday, hseparator, hhour, hminute, hsecond, hfraction, hlen, hzone⟩,
        hletter⟩, rfl⟩
  · rintro ⟨f, ⟨⟨hyear, hmonth, hday, hseparator, hhour, hminute, hsecond, hfraction, hlen, hzone⟩,
      hletter⟩, rfl⟩
    exact ⟨_, ⟨_, hyear, rfl⟩, _, ⟨_, rfl, _, ⟨_, ⟨_, hmonth, rfl⟩, _, ⟨_, rfl, _,
      ⟨_, ⟨_, hday, rfl⟩, _, ⟨_, ⟨_, hseparator, rfl⟩, _, ⟨_, ⟨_, hhour, rfl⟩, _,
      ⟨_, rfl, _, ⟨_, ⟨_, hminute, rfl⟩, _, ⟨_, rfl, _, ⟨_, ⟨_, hsecond, rfl⟩, _,
      ⟨_, ⟨_, hfraction, hlen, rfl⟩, _, ⟨_, rfl, hletter, hzone⟩, rfl⟩, rfl⟩, rfl⟩,
      rfl⟩, rfl⟩, rfl⟩, rfl⟩, rfl⟩, rfl⟩, rfl⟩, rfl⟩, rfl⟩

end Language

end Rfc3339
