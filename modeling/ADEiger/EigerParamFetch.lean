import ADEiger.EigerParamClamp
import ADEiger.Json
import Mathlib.Algebra.Order.Field.Rat
import Mathlib.Data.Int.ModEq
import Mathlib.Data.Rat.Cast.Order
import Mathlib.RingTheory.Coprime.Lemmas
import Mathlib.Tactic.FieldSimp
import Mathlib.Tactic.Linarith
import Mathlib.Tactic.Positivity
import Mathlib.Tactic.Ring

/-! What `fetch` returns.
The answer has a JSON value. Each overload makes a value of its own kind of the text, stores it
in the parameter library and returns what it finds there. -/
namespace EigerParams

open CString (Text digitsValue)

section Numbers

inductive Fraction : Text → ℚ → Prop where
  | none : Fraction [] 0
  | digits {ds} : Json.Digits ds → Fraction ('.' :: ds) (digitsValue ds / 10 ^ ds.length)

inductive Exponent : Text → ℤ → Prop where
  | none : Exponent [] 0
  | unsigned {c ds} : c = 'e' ∨ c = 'E' → Json.Digits ds → Exponent (c :: ds) (digitsValue ds)
  | plus {c ds} : c = 'e' ∨ c = 'E' → Json.Digits ds → Exponent (c :: '+' :: ds) (digitsValue ds)
  | minus {c ds} : c = 'e' ∨ c = 'E' → Json.Digits ds →
      Exponent (c :: '-' :: ds) (-(digitsValue ds : ℤ))

def Whole (ds : Text) : Prop := ds = ['0'] ∨ Json.Digits ds ∧ ds.head? ≠ some '0'

/-- The number that a JSON literal stands for. -/
inductive Denotes : Text → ℚ → Prop where
  | positive {ds frac exp f e} : Whole ds → Fraction frac f → Exponent exp e →
      Denotes (ds ++ (frac ++ exp)) ((digitsValue ds + f) * 10 ^ e)
  | negative {ds frac exp f e} : Whole ds → Fraction frac f → Exponent exp e →
      Denotes ('-' :: (ds ++ (frac ++ exp))) (-((digitsValue ds + f) * 10 ^ e))

variable {ds t frac exp : Text} {x f : ℚ} {e m n v : ℤ} {k : ℕ}

theorem Whole.digits (h : Whole ds) : Json.Digits ds := by
  rcases h with rfl | ⟨h, -⟩
  · exact ⟨by decide, by decide⟩
  · exact h

theorem digitsValue_append_singleton (ds : Text) (c : Char) :
    digitsValue (ds ++ [c]) = 10 * digitsValue ds + (c.toNat - 48) := by
  simp [digitsValue]

theorem digitsValue_lt (h : ∀ c ∈ ds, c.isDigit = true) : digitsValue ds < 10 ^ ds.length := by
  induction ds using List.reverseRecOn with
  | nil => decide
  | append_singleton ds c ih =>
    have hds := ih fun x hx => h x (List.mem_append_left _ hx)
    have hc := h c (List.mem_append_right _ (List.mem_singleton_self c))
    have hval : c.toNat ≤ 57 := by
      simp only [Char.isDigit, Bool.and_eq_true, decide_eq_true_eq] at hc
      exact hc.2
    rw [digitsValue_append_singleton]
    rw [List.length_append, List.length_singleton, Nat.pow_succ]
    omega

theorem Fraction.bounds (h : Fraction t f) : 0 ≤ f ∧ f < 1 := by
  cases h with
  | none => exact ⟨le_rfl, zero_lt_one⟩
  | @digits ds h =>
    have hlt : (digitsValue ds : ℚ) < 10 ^ ds.length := by exact_mod_cast digitsValue_lt h.2
    have hpos : (0 : ℚ) < 10 ^ ds.length := by positivity
    exact ⟨by positivity, (div_lt_one hpos).mpr hlt⟩

theorem takeWhile_whole (hds : ∀ c ∈ ds, c.isDigit = true)
    (hf : Fraction frac f) (he : Exponent exp e) :
    (ds ++ (frac ++ exp)).takeWhile Char.isDigit = ds := by
  have hrest : (frac ++ exp).takeWhile Char.isDigit = [] := by
    cases hf with
    | digits => rfl
    | none =>
      cases he with
      | none => rfl
      | unsigned hc => rcases hc with rfl | rfl <;> rfl
      | plus hc => rcases hc with rfl | rfl <;> rfl
      | minus hc => rcases hc with rfl | rfl <;> rfl
  rw [List.takeWhile_append_of_pos hds, hrest, List.append_nil]

/-- A number with a fraction or an exponent is read up to the first character that is no digit. -/
theorem Denotes.scanInt (h : Denotes t x) : ∃ (sign : ℤ) (n : ℕ) (f : ℚ) (e : ℤ),
    (sign = 1 ∨ sign = -1) ∧ 0 ≤ f ∧ f < 1 ∧ x = sign * ((n + f) * 10 ^ e) ∧
      scanInt t = some (sign * n) := by
  cases h with
  | @positive ds frac exp f e hds hf he =>
    obtain ⟨hne, hdigit⟩ := hds.digits
    refine ⟨1, digitsValue ds, f, e, .inl rfl, hf.bounds.1, hf.bounds.2, by simp, ?_⟩
    have htake := takeWhile_whole hdigit hf he
    obtain ⟨c, ds, rfl⟩ := List.exists_cons_of_ne_nil hne
    have hc : c.isDigit = true := hdigit c List.mem_cons_self
    have hscan := scanInt_leading hc (ds ++ (frac ++ exp))
    rw [← List.cons_append, htake] at hscan
    rw [hscan, one_mul]
  | @negative ds frac exp f e hds hf he =>
    obtain ⟨hne, hdigit⟩ := hds.digits
    refine ⟨-1, digitsValue ds, f, e, .inr rfl, hf.bounds.1, hf.bounds.2, by simp, ?_⟩
    have htake := takeWhile_whole hdigit hf he
    have hds : (ds ++ (frac ++ exp)).takeWhile Char.isDigit ≠ [] := by rwa [htake]
    rw [scanInt_minus hds, htake, neg_one_mul]

/-- Moving the point of a number that is kept in 32 bits changes it, unless it is 0. -/
theorem toInt_mul_pow (hk : k ≠ 0) (h : toInt (v * 10 ^ k) = v) : v = 0 := by
  have hv := toInt_inInt (v * 10 ^ k)
  rw [h] at hv
  obtain ⟨hlow, hhigh⟩ := hv
  generalize hy : v * 10 ^ k = y at h
  have hsign : (0 ≤ v → 0 ≤ y) ∧ (v ≤ 0 → y ≤ 0) := by
    rw [← hy]
    exact ⟨fun h => by positivity, fun h => mul_nonpos_of_nonpos_of_nonneg h (by positivity)⟩
  rw [toInt] at h
  by_cases hmax : 2 ^ 63 - 1 < y
  · have hmid : max (-2 ^ 63) (min y (2 ^ 63 - 1)) = 2 ^ 63 - 1 := by omega
    rw [hmid] at h
    have hminus : Int.bmod (2 ^ 63 - 1) (2 ^ 32) = -1 := by decide
    omega
  · by_cases hmin : y < -2 ^ 63
    · have hmid : max (-2 ^ 63) (min y (2 ^ 63 - 1)) = -2 ^ 63 := by omega
      rw [hmid] at h
      have hzero : Int.bmod (-2 ^ 63) (2 ^ 32) = 0 := by decide
      omega
    · have hmid : max (-2 ^ 63) (min y (2 ^ 63 - 1)) = y := by omega
      rw [hmid] at h
      have hdvd : (2 ^ 32 : ℤ) ∣ v * (10 ^ k - 1) := by
        have hmod : (2 ^ 32 : ℤ) ∣ y - Int.bmod y (2 ^ 32) := Int.dvd_self_sub_bmod
        rw [h, ← hy] at hmod
        rw [mul_sub, mul_one]
        exact hmod
      have hodd : IsCoprime (2 ^ 32 : ℤ) (10 ^ k - 1) := by
        apply IsCoprime.pow_left
        obtain ⟨j, rfl⟩ := Nat.exists_eq_succ_of_ne_zero hk
        exact ⟨5 * 10 ^ j, -1, by rw [pow_succ]; ring⟩
      obtain ⟨w, hw⟩ := hodd.dvd_of_dvd_mul_right hdvd
      omega

/-- A number is read as its value only where the digits at its beginning say it. -/
theorem toInt_denotes {sign : ℤ} (hsign : sign = 1 ∨ sign = -1) {k : ℕ} (h0 : 0 ≤ f) (h1 : f < 1)
    (h : (toInt (sign * k) : ℚ) = sign * ((k + f) * 10 ^ e)) : toInt (sign * k) = sign * k := by
  obtain ⟨hlow, hhigh⟩ := toInt_inInt (sign * k)
  rcases le_or_gt 0 e with he | he
  · obtain ⟨j, rfl⟩ := Int.eq_ofNat_of_zero_le he
    -- the number is no smaller than its digits, which an int then holds
    have hle : (k : ℚ) ≤ (k + f) * 10 ^ (j : ℤ) := by
      have hpow : (1 : ℚ) ≤ 10 ^ (j : ℤ) := by
        rw [zpow_natCast]
        exact one_le_pow₀ (by norm_num)
      nlinarith
    apply toInt_eq
    rcases hsign with rfl | rfl
    · have hk : (k : ℤ) ≤ toInt (1 * k) := by
        have hq : (k : ℚ) ≤ toInt (1 * k) := by
          rw [h]
          push_cast
          linarith
        exact_mod_cast hq
      exact ⟨by omega, by omega⟩
    · have hk : toInt (-1 * k) ≤ -(k : ℤ) := by
        have hq : (toInt (-1 * k) : ℚ) ≤ -(k : ℚ) := by
          rw [h]
          push_cast
          linarith
        exact_mod_cast hq
      exact ⟨by omega, by omega⟩
  · obtain ⟨j, rfl⟩ : ∃ j : ℕ, e = -(j : ℤ) := ⟨e.natAbs, by omega⟩
    generalize hv : toInt (sign * k) = v at h
    have hpow : (10 : ℚ) ^ j ≠ 0 := by positivity
    have hone : (sign : ℚ) ^ 2 = 1 := by rcases hsign with rfl | rfl <;> norm_num
    have hmul : (sign * (v * 10 ^ j) : ℚ) = k + f := by
      rw [h, zpow_neg, zpow_natCast]
      field_simp
      rw [hone, one_mul]
    -- so that the fraction is a whole number
    have hf : f = ((sign * (v * 10 ^ j) - k : ℤ) : ℚ) := by
      push_cast
      linarith
    have hzero : sign * (v * 10 ^ j) - k = 0 := by
      rw [hf] at h0 h1
      have hnonneg : (0 : ℤ) ≤ sign * (v * 10 ^ j) - k := by exact_mod_cast h0
      have hlt : sign * (v * 10 ^ j) - k < 1 := by exact_mod_cast h1
      omega
    have hk : sign * (k : ℤ) = v * 10 ^ j := by
      rcases hsign with rfl | rfl <;> omega
    have hv0 : v = 0 := toInt_mul_pow (by omega) (hk ▸ hv)
    rw [hk, hv0, zero_mul]

end Numbers

/-- The overloads of `fetch` that return a value. -/
inductive FetchType where
  | bool | int | double | string
  deriving DecidableEq

inductive FetchValue (F : Type*) where
  | bool (v : Bool)
  | int (v : ℤ)
  | double (v : F)
  | string (v : Text)

section Answers

variable {F δ : Type*} [Double F]

namespace EigerParam

def fetchAs (api : RestAPI δ) (d : δ) (p : EigerParam F) :
    FetchType → Option (FetchValue F) × EigerParam F
  | .bool => let (v, p) := p.fetchBool api d; (v.map .bool, p)
  | .int => let (v, p) := p.fetchInt api d; (v.map .int, p)
  | .double => let (v, p) := p.fetchDouble api d; (v.map .double, p)
  | .string => let (v, p) := p.fetchString api d; (v.map .string, p)

/-- The value in the answer to a fetch; about a parameter that is only written nothing is asked. -/
def answer (api : RestAPI δ) (d : δ) (p : EigerParam F) : Option Token :=
  if p.accessMode = .wo then none
  else (api.get d p.subSystem p.name).bind fun r => r "value".toList

/-- A value in the unit that the driver has for it. -/
def inUnit (api : RestAPI δ) (p : EigerParam F) (v : F) : F :=
  if p.asynName = "FW_FREE".toList then
    if api.version = .v1_6_0 then Double.kilobytesToGB v else Double.bytesToGB v
  else v

end EigerParam

/-- The answer is true or false. -/
def ReportsBool (p : EigerParam F) (t : Token) (v : Bool) : Prop :=
  if p.type = .enum then p.enumValues.length = 2 ∧ ∃ i, p.getEnumIndex t.text = some i ∧ v = (i ≠ 0)
  else t.type = .other ∧ t.text = (if v then "true" else "false").toList

/-- The answer is an integer: the index of a choice, a bool, or a number. -/
def ReportsInt (p : EigerParam F) (t : Token) (v : ℤ) : Prop :=
  if p.type = .enum then ∃ i, p.getEnumIndex t.text = some i ∧ v = i
  else t.type = .other ∧ (t.text = "true".toList ∧ v = 1 ∨ t.text = "false".toList ∧ v = 0 ∨
    Denotes t.text v)

/-- The answer is a number. An integer has to be the same as a double. -/
def ReportsDouble (api : RestAPI δ) (ofInt : ℤ → Option F) (p : EigerParam F) (t : Token) (v : F) :
    Prop :=
  t.type = .other ∧ Json.Number t.text ∧ ∃ x, Double.scan t.text = some x ∧ v = p.inUnit api x ∧
    ∀ n, IntLiteral n t.text → ofInt n = some x

/-- The answer is a string. -/
def ReportsString (t : Token) (v : Text) : Prop := t.type = .string ∧ Json.Decodes t.text v

def Reports (api : RestAPI δ) (ofInt : ℤ → Option F) (p : EigerParam F) (t : Token) :
    FetchValue F → Prop
  | .bool v => ReportsBool p t v
  | .int v => ReportsInt p t v
  | .double v => ReportsDouble api ofInt p t v
  | .string v => ReportsString t v

def ReportsAsyn (api : RestAPI δ) (ofInt : ℤ → Option F) (p : EigerParam F) (t : Token) :
    AsynValue F → Prop
  | .int32 v => ReportsInt p t v
  | .float64 v => ReportsDouble api ofInt p t v
  | .octet v => ReportsString t v

/-- A fetch that succeeds returns and stores what the detector reports, another keeps the value. -/
def FetchReports (api : RestAPI δ) (d : δ) (ofInt : ℤ → Option F) (p : EigerParam F)
    (o : FetchType) : Prop :=
  (∀ v ∈ (p.fetchAs api d o).1, ∃ t, p.answer api d = some t ∧
    Reports api ofInt (p.fetchAs api d o).2 t v ∧
    ReportsAsyn api ofInt (p.fetchAs api d o).2 t (p.fetchAs api d o).2.asyn) ∧
  ((p.fetchAs api d o).1 = none → (p.fetchAs api d o).2.asyn = p.asyn)

/-- The overload makes a value of this text. `p` is the parameter before the answer is read,
`q` with the type and the table that are then known. -/
def Takes (p q : EigerParam F) (raw : Text) : FetchType → Prop
  | .bool => q.type = .bool ∧ (scanBool raw).isSome ∧ q.getBool.isSome ∨
      q.type = .enum ∧ q.enumValues.length = 2 ∧ raw ∈ q.enumValues ∧ q.asynType = .int32
  | .int => (q.intOfRaw raw).isSome ∧ q.asynType = .int32
  | .double => p.type ∈ [.double, .int, .uint, .uninit] ∧ (Double.scan (F := F) raw).isSome ∧
      q.asynType = .float64
  | .string => p.type ∈ [.string, .enum, .uninit] ∧ q.asynType = .octet

/-- What the overload expects of an answer that it takes. A bool is not stored, so that the
parameter library has to have it. -/
def Expects (ofInt : ℤ → Option F) (q : EigerParam F) (t : Token) : FetchType → Prop
  | .bool => q.type = .bool → t.type = .other ∧
      ∃ b, scanBool t.text = some b ∧ q.asyn = .int32 (if b then 1 else 0)
  | .int => (q.type = .bool → t.type = .other) ∧ (q.type = .int ∨ q.type = .uint →
      t.type = .other ∧ ∃ n, InInt n ∧ scanInt t.text = some n ∧ Denotes t.text n)
  | .double => t.type = .other ∧ Json.Number t.text ∧ ∀ n, IntLiteral n t.text → (ofInt n).isSome
  | .string => t.type = .string ∧ Json.Plain t.text

def AnswerFits (api : RestAPI δ) (d : δ) (ofInt : ℤ → Option F) (p : EigerParam F)
    (o : FetchType) : Prop :=
  ∀ raw q, p.baseFetch api d = (some raw, q) → Takes p q raw o →
    ∃ t, p.answer api d = some t ∧ Expects ofInt q t o

section Overloads

variable {api : RestAPI δ} {d : δ} {p q : EigerParam F} {raw : Text} {t : Token} {o : FetchType}
  {ofInt : ℤ → Option F} {x : FetchValue F} {v : AsynValue F}

/-- What an overload returns and leaves in the parameter library for a text. -/
def EigerParam.made (api : RestAPI δ) (p q : EigerParam F) (raw : Text) :
    FetchType → Option (FetchValue F × AsynValue F)
  | .bool =>
    if q.type = .bool then
      (scanBool raw).bind fun _ => q.getBool.map fun b => (.bool b, q.asyn)
    else if q.type = .enum ∧ q.enumValues.length = 2 ∧ q.asynType = .int32 then
      (q.getEnumIndex raw).map fun i : ℕ => (.bool (i ≠ 0), .int32 i)
    else none
  | .int =>
    if q.asynType = .int32 then (q.intOfRaw raw).map fun v => (.int v, .int32 v) else none
  | .double =>
    if p.type ∈ [.double, .int, .uint, .uninit] ∧ q.asynType = .float64 then
      (q.doubleOfRaw api raw).map fun v => (.double v, .float64 v)
    else none
  | .string =>
    if p.type ∈ [.string, .enum, .uninit] ∧ q.asynType = .octet then
      some (.string raw, .octet raw)
    else none

omit [Double F] in
theorem setParam_type {v : AsynValue F} (h : q.asynType = v.type) :
    q.setParam v = some { q with asyn := v } := if_pos h.symm

theorem baseFetch_asyn (hb : p.baseFetch api d = (some raw, q)) : q.asyn = p.asyn := by
  have hkeeps := (baseFetch_keeps api d p).2
  rwa [hb] at hkeeps

theorem answer_text (hb : p.baseFetch api d = (some raw, q)) (ht : p.answer api d = some t) :
    raw = t.text := by
  rcases baseFetch_raw (congrArg Prod.fst hb) with ⟨ha, -⟩ | ⟨ha, r, hr, hraw⟩
  · rw [EigerParam.answer, if_pos ha] at ht
    cases ht
  · rw [EigerParam.answer, if_neg ha, hr, Option.bind_some] at ht
    rw [parseValue, ht] at hraw
    exact (Option.some.inj hraw).symm

theorem fetchAs_some (hr : p.remote = true) (hc : p.type ≠ .command)
    (hb : p.baseFetch api d = (some raw, q)) (hm : p.made api q raw o = some (x, v)) :
    p.fetchAs api d o = (some x, { q with asyn := v }) := by
  have hcond : (p.remote && decide (p.type ≠ .command)) = true := by simp [hr, hc]
  cases o with
  | bool =>
    rw [EigerParam.made] at hm
    split_ifs at hm with ht he
    · obtain ⟨b, hscan, hm⟩ := Option.bind_eq_some_iff.mp hm
      obtain ⟨w, hget, hw⟩ := Option.map_eq_some_iff.mp hm
      obtain ⟨rfl, rfl⟩ := Prod.mk.inj hw
      rw [EigerParam.fetchAs, EigerParam.fetchBool, if_pos hcond, hb]
      simp only [ht, hscan, hget]
      rw [← ht]
      rfl
    · obtain ⟨i, hi, hw⟩ := Option.map_eq_some_iff.mp hm
      obtain ⟨rfl, rfl⟩ := Prod.mk.inj hw
      have hset : q.setParam (.int32 i) = some { q with asyn := .int32 i } :=
        setParam_type he.2.2
      rw [EigerParam.fetchAs, EigerParam.fetchBool, if_pos hcond, hb]
      simp [he.1, he.2.1, hi, hset, EigerParam.getBool]
  | int =>
    rw [EigerParam.made] at hm
    split_ifs at hm with ha
    obtain ⟨n, hn, hw⟩ := Option.map_eq_some_iff.mp hm
    obtain ⟨rfl, rfl⟩ := Prod.mk.inj hw
    have hset : q.setParam (.int32 n) = some { q with asyn := .int32 n } := setParam_type ha
    rw [EigerParam.fetchAs, EigerParam.fetchInt, if_pos hcond, hb]
    simp [hn, hset, EigerParam.getInt]
  | double =>
    rw [EigerParam.made] at hm
    split_ifs at hm with ha
    obtain ⟨n, hn, hw⟩ := Option.map_eq_some_iff.mp hm
    obtain ⟨rfl, rfl⟩ := Prod.mk.inj hw
    have hset : q.setParam (.float64 n) = some { q with asyn := .float64 n } := setParam_type ha.2
    rw [EigerParam.fetchAs, EigerParam.fetchDouble, if_pos hcond, if_neg (not_not.mpr ha.1), hb]
    simp [hn, hset, EigerParam.getDouble]
  | string =>
    rw [EigerParam.made] at hm
    split_ifs at hm with ha
    obtain ⟨rfl, rfl⟩ := Prod.mk.inj (Option.some.inj hm)
    have hset : q.setParam (.octet raw) = some { q with asyn := .octet raw } := setParam_type ha.2
    rw [EigerParam.fetchAs, EigerParam.fetchString, if_pos hcond, if_neg (not_not.mpr ha.1), hb]
    simp [hset]

theorem fetchAs_unread (hr : p.remote = true) (hc : p.type ≠ .command)
    (hb : p.baseFetch api d = (none, q)) :
    (p.fetchAs api d o).1 = none ∧ (p.fetchAs api d o).2.asyn = p.asyn := by
  have hcond : (p.remote && decide (p.type ≠ .command)) = true := by simp [hr, hc]
  have hasyn := (baseFetch_keeps api d p).2
  rw [hb] at hasyn
  cases o with
  | bool =>
    rw [EigerParam.fetchAs, EigerParam.fetchBool, if_pos hcond, hb]
    exact ⟨rfl, hasyn⟩
  | int =>
    rw [EigerParam.fetchAs, EigerParam.fetchInt, if_pos hcond, hb]
    exact ⟨rfl, hasyn⟩
  | double =>
    rw [EigerParam.fetchAs, EigerParam.fetchDouble, if_pos hcond]
    split_ifs
    · rw [hb]
      exact ⟨rfl, hasyn⟩
    · exact ⟨rfl, rfl⟩
  | string =>
    rw [EigerParam.fetchAs, EigerParam.fetchString, if_pos hcond]
    split_ifs
    · rw [hb]
      exact ⟨rfl, hasyn⟩
    · exact ⟨rfl, rfl⟩

omit [Double F] in
theorem setParam_other {v : AsynValue F} (h : q.asynType ≠ v.type) : q.setParam v = none :=
  if_neg (Ne.symm h)

theorem fetchBool_refused (hr : p.remote = true) (hc : p.type ≠ .command)
    (hb : p.baseFetch api d = (some raw, q)) (hm : p.made api q raw .bool = none) :
    (p.fetchBool api d).1 = none ∧ (p.fetchBool api d).2.asyn = q.asyn := by
  have hcond : (p.remote && decide (p.type ≠ .command)) = true := by simp [hr, hc]
  rw [EigerParam.made] at hm
  rw [EigerParam.fetchBool, if_pos hcond, hb]
  cases ht : q.type with
  | bool =>
    rw [if_pos ht] at hm
    cases hscan : scanBool raw with
    | none => simp [ht, hscan]
    | some b =>
      rw [hscan, Option.bind_some] at hm
      simp [ht, hscan, Option.map_eq_none_iff.mp hm]
  | enum =>
    rw [if_neg (by simp [ht])] at hm
    by_cases hlen : q.enumValues.length = 2
    · cases hi : q.getEnumIndex raw with
      | none => simp [ht, hlen, hi]
      | some i =>
        rw [hi] at hm
        by_cases ha : q.asynType = .int32
        · simp [ht, hlen, ha] at hm
        · have hset : q.setParam (.int32 i) = none := setParam_other ha
          simp [ht, hlen, hi, hset]
    · simp [ht, hlen]
  | uninit | int | uint | double | string | command => simp [ht]

theorem fetchAs_refused (hr : p.remote = true) (hc : p.type ≠ .command)
    (hb : p.baseFetch api d = (some raw, q)) (hm : p.made api q raw o = none) :
    (p.fetchAs api d o).1 = none ∧ (p.fetchAs api d o).2.asyn = p.asyn := by
  have hcond : (p.remote && decide (p.type ≠ .command)) = true := by simp [hr, hc]
  have hasyn : q.asyn = p.asyn := baseFetch_asyn hb
  cases o with
  | bool =>
    obtain ⟨hvalue, hkept⟩ := fetchBool_refused hr hc hb hm
    rw [EigerParam.fetchAs]
    exact ⟨Option.map_eq_none_iff.mpr hvalue, hkept.trans hasyn⟩
  | int =>
    rw [EigerParam.made] at hm
    rw [EigerParam.fetchAs, EigerParam.fetchInt, if_pos hcond, hb]
    cases hn : q.intOfRaw raw with
    | none => simp [hn, hasyn]
    | some n =>
      by_cases ha : q.asynType = .int32
      · simp [hn, ha] at hm
      · have hset : q.setParam (.int32 n) = none := setParam_other ha
        simp [hn, hset, hasyn]
  | double =>
    rw [EigerParam.made] at hm
    rw [EigerParam.fetchAs, EigerParam.fetchDouble, if_pos hcond]
    split_ifs with ht
    · rw [hb]
      cases hn : q.doubleOfRaw api raw with
      | none => simp [hn, hasyn]
      | some n =>
        by_cases ha : q.asynType = .float64
        · simp [hn, ha, ht] at hm
        · have hset : q.setParam (.float64 n) = none := setParam_other ha
          simp [hn, hset, hasyn]
    · exact ⟨rfl, rfl⟩
  | string =>
    rw [EigerParam.made] at hm
    rw [EigerParam.fetchAs, EigerParam.fetchString, if_pos hcond]
    split_ifs with ht
    · rw [hb]
      by_cases ha : q.asynType = .octet
      · rw [if_pos ⟨ht, ha⟩] at hm
        cases hm
      · have hset : q.setParam (.octet raw) = none := setParam_other ha
        simp [hset, hasyn]
    · exact ⟨rfl, rfl⟩

theorem fetchAs_none (hr : p.remote = true) (hc : p.type ≠ .command)
    (h : ∀ raw q, p.baseFetch api d = (some raw, q) → p.made api q raw o = none) :
    (p.fetchAs api d o).1 = none ∧ (p.fetchAs api d o).2.asyn = p.asyn := by
  rcases hb : p.baseFetch api d with ⟨_ | raw, q⟩
  · exact fetchAs_unread hr hc hb
  · exact fetchAs_refused hr hc hb (h raw q hb)

omit [Double F] in
theorem getEnumIndex_isSome : (q.getEnumIndex raw).isSome ↔ raw ∈ q.enumValues := by
  rw [EigerParam.getEnumIndex, List.findIdx?_isSome, List.any_eq_true]
  constructor
  · rintro ⟨x, hx, heq⟩
    rwa [← beq_iff_eq.mp heq]
  · intro h
    exact ⟨raw, h, beq_self_eq_true raw⟩

theorem takes_iff (api : RestAPI δ) : Takes p q raw o ↔ (p.made api q raw o).isSome := by
  cases o with
  | bool =>
    rw [Takes, EigerParam.made]
    by_cases hb : q.type = .bool
    · rw [if_pos hb]
      cases scanBool raw <;> simp [hb]
    · by_cases he : q.type = .enum ∧ q.enumValues.length = 2 ∧ q.asynType = .int32
      · rw [if_neg hb, if_pos he, Option.isSome_map, getEnumIndex_isSome]
        obtain ⟨ht, hlen, ha⟩ := he
        simp [ht, hlen, ha]
      · rw [if_neg hb, if_neg he]
        simp only [hb, false_and, false_or, Option.isSome_none, Bool.false_eq_true, iff_false]
        rintro ⟨ht, hlen, -, ha⟩
        exact he ⟨ht, hlen, ha⟩
  | int =>
    rw [Takes, EigerParam.made]
    split_ifs with ha
    · simp [ha]
    · simp [ha]
  | double =>
    rw [Takes, EigerParam.made]
    split_ifs with ha
    · rw [Option.isSome_map, EigerParam.doubleOfRaw, Option.isSome_map]
      exact ⟨fun h => h.2.1, fun h => ⟨ha.1, h, ha.2⟩⟩
    · simp only [Option.isSome_none, Bool.false_eq_true, iff_false]
      rintro ⟨ht, -, h⟩
      exact ha ⟨ht, h⟩
  | string =>
    rw [Takes, EigerParam.made]
    split_ifs with ha
    · simpa using ha
    · simpa using ha

theorem scanBool_iff {u : Text} {b : Bool} :
    scanBool u = some b ↔ u = (if b then "true" else "false").toList := by
  rw [scanBool]
  constructor
  · intro h
    split_ifs at h with h₁ h₂
    · rw [← Option.some.inj h]
      exact h₁
    · rw [← Option.some.inj h]
      exact h₂
  · rintro rfl
    cases b <;> rfl

/-- An integer begins with a digit or a sign. -/
theorem scanInt_bool {u : Text} {b : Bool} (h : scanBool u = some b) : scanInt u = none := by
  rw [scanBool_iff.mp h]
  cases b <;> rfl

theorem not_denotes_bool {u : Text} {b : Bool} (h : scanBool u = some b) (x : ℚ) :
    ¬ Denotes u x := by
  intro hx
  obtain ⟨sign, n, f, e, -, -, -, -, hscan⟩ := hx.scanInt
  rw [scanInt_bool h] at hscan
  cases hscan

omit [Double F] in
theorem reportsInt_bool {n : ℤ} {b : Bool} (ht : q.type ≠ .enum) (h : scanBool t.text = some b) :
    ReportsInt q t n ↔ t.type = .other ∧ n = if b then 1 else 0 := by
  have hnot := not_denotes_bool h n
  have htext := scanBool_iff.mp h
  rw [ReportsInt, if_neg ht]
  cases b with
  | false =>
    have hne : t.text ≠ "true".toList := by rw [htext]; decide
    simp_all
  | true =>
    have hne : t.text ≠ "false".toList := by rw [htext]; decide
    simp_all

omit [Double F] in
theorem reportsInt_number {n : ℤ} (ht : q.type ≠ .enum) (h : sscanfInt t.text = some n) :
    ReportsInt q t n ↔ t.type = .other ∧
      ∃ m, InInt m ∧ scanInt t.text = some m ∧ Denotes t.text m := by
  obtain ⟨m, hm, rfl⟩ := Option.map_eq_some_iff.mp h
  have hbool : ∀ b : Bool, t.text ≠ (if b then "true" else "false").toList := by
    intro b htext
    rw [scanInt_bool (scanBool_iff.mpr htext)] at hm
    cases hm
  rw [ReportsInt, if_neg ht]
  refine and_congr_right fun _ => ⟨fun hreports => ?_, ?_⟩
  · rcases hreports with ⟨heq, -⟩ | ⟨heq, -⟩ | hden
    · exact absurd heq (hbool true)
    · exact absurd heq (hbool false)
    · obtain ⟨sign, k, f, e, hsign, h0, h1, hx, hscan⟩ := hden.scanInt
      obtain rfl := Option.some.inj (hm.symm.trans hscan)
      have hkept := toInt_denotes hsign h0 h1 hx
      have hin := toInt_inInt (sign * k)
      rw [hkept] at hden hin
      exact ⟨_, hin, hm, hden⟩
  · rintro ⟨m', hin, hm', hden⟩
    obtain rfl := Option.some.inj (hm.symm.trans hm')
    rw [toInt_eq hin]
    exact .inr (.inr hden)

theorem decodes_self_iff {u : Text} : Json.Decodes u u ↔ Json.Plain u :=
  ⟨fun h => (h.length.2 rfl).2, Json.Plain.decodes⟩

/-- A bool is returned from the parameter library, which has to hold it. -/
theorem reports_bool {b w : Bool} (ht : q.type = .bool) (hb : scanBool t.text = some b)
    (hget : q.getBool = some w) :
    ReportsBool q t w ∧ ReportsAsyn api ofInt q t q.asyn ↔ Expects ofInt q t .bool := by
  have hne : q.type ≠ .enum := by simp [ht]
  rw [Expects, ReportsBool, if_neg hne]
  cases ha : q.asyn with
  | float64 y =>
    rw [EigerParam.getBool, ha] at hget
    cases hget
  | octet u =>
    constructor
    · rintro ⟨⟨hother, -⟩, hstring, -⟩
      cases hother.symm.trans hstring
    · intro hexpects
      obtain ⟨-, _, -, hint⟩ := hexpects ht
      cases hint
  | int32 n =>
    obtain rfl : decide (n ≠ 0) = w := by
      rw [EigerParam.getBool, ha] at hget
      exact Option.some.inj hget
    change _ ∧ ReportsInt q t n ↔ _
    rw [reportsInt_bool hne hb]
    constructor
    · rintro ⟨-, hother, rfl⟩ -
      exact ⟨hother, b, hb, rfl⟩
    · intro hexpects
      obtain ⟨hother, b', hb', hn⟩ := hexpects ht
      obtain rfl := Option.some.inj (hb.symm.trans hb')
      obtain rfl := AsynValue.int32.inj hn
      refine ⟨⟨hother, ?_⟩, hother, rfl⟩
      rw [scanBool_iff.mp hb]
      cases b <;> rfl

omit [Double F] in
theorem reports_int {n : ℤ} (hn : q.intOfRaw t.text = some n) :
    ReportsInt q t n ↔ Expects ofInt q t .int := by
  rw [Expects]
  cases ht : q.type with
  | enum =>
    rw [EigerParam.intOfRaw, ht] at hn
    obtain ⟨i, hi, rfl⟩ := Option.map_eq_some_iff.mp hn
    rw [ReportsInt, if_pos ht]
    exact iff_of_true ⟨i, hi, rfl⟩ ⟨by simp, by simp⟩
  | bool =>
    rw [EigerParam.intOfRaw, ht] at hn
    obtain ⟨b, hb, rfl⟩ := Option.map_eq_some_iff.mp hn
    rw [reportsInt_bool (by simp [ht]) hb]
    simp
  | int | uint =>
    rw [EigerParam.intOfRaw, ht] at hn
    rw [reportsInt_number (by simp [ht]) hn]
    simp
  | uninit | double | string | command =>
    rw [EigerParam.intOfRaw, ht] at hn
    cases hn

theorem reports_double {y : F}
    (hscan : ∀ n u x, IntLiteral n u → ofInt n = some x → Double.scan u = some x)
    (hy : Double.scan t.text = some y) :
    ReportsDouble api ofInt q t (q.inUnit api y) ↔ Expects ofInt q t .double := by
  rw [ReportsDouble, Expects]
  refine and_congr_right fun _ => and_congr_right fun _ => ⟨?_, fun hexact => ?_⟩
  · rintro ⟨y', -, -, hn⟩ n hlit
    rw [hn n hlit]
    rfl
  · refine ⟨y, hy, rfl, fun n hlit => ?_⟩
    obtain ⟨y', hy'⟩ := Option.isSome_iff_exists.mp (hexact n hlit)
    have hsame := hscan n _ y' hlit hy'
    rw [hy', Option.some.inj (hy.symm.trans hsame)]

/-- An overload that takes the text of an answer gives its value where it is as expected. -/
theorem reports_made (hscan : ∀ n u x, IntLiteral n u → ofInt n = some x → Double.scan u = some x)
    (hm : p.made api q t.text o = some (x, v)) :
    Reports api ofInt { q with asyn := v } t x ∧ ReportsAsyn api ofInt { q with asyn := v } t v ↔
      Expects ofInt q t o := by
  cases o with
  | bool =>
    rw [EigerParam.made] at hm
    split_ifs at hm with ht he
    · obtain ⟨b, hb, hm⟩ := Option.bind_eq_some_iff.mp hm
      obtain ⟨w, hget, hw⟩ := Option.map_eq_some_iff.mp hm
      obtain ⟨rfl, rfl⟩ := Prod.mk.inj hw
      exact reports_bool ht hb hget
    · obtain ⟨i, hi, hw⟩ := Option.map_eq_some_iff.mp hm
      obtain ⟨rfl, rfl⟩ := Prod.mk.inj hw
      have hexpects : Expects ofInt q t .bool := fun hbool => absurd hbool ht
      refine iff_of_true ⟨?_, ?_⟩ hexpects
      · change ReportsBool _ t _
        rw [ReportsBool, if_pos he.1]
        exact ⟨he.2.1, i, hi, by simp⟩
      · change ReportsInt _ t _
        rw [ReportsInt, if_pos he.1]
        exact ⟨i, hi, rfl⟩
  | int =>
    rw [EigerParam.made] at hm
    split_ifs at hm with ha
    obtain ⟨n, hn, hw⟩ := Option.map_eq_some_iff.mp hm
    obtain ⟨rfl, rfl⟩ := Prod.mk.inj hw
    have hint : ReportsInt q t n ↔ Expects ofInt q t .int := reports_int hn
    exact and_self_iff.trans hint
  | double =>
    rw [EigerParam.made] at hm
    split_ifs at hm with ha
    obtain ⟨n, hn, hw⟩ := Option.map_eq_some_iff.mp hm
    obtain ⟨rfl, rfl⟩ := Prod.mk.inj hw
    obtain ⟨y, hy, rfl⟩ := Option.map_eq_some_iff.mp hn
    exact and_self_iff.trans (reports_double hscan hy)
  | string =>
    rw [EigerParam.made] at hm
    split_ifs at hm with ha
    obtain ⟨rfl, rfl⟩ := Prod.mk.inj (Option.some.inj hm)
    change ReportsString t t.text ∧ ReportsString t t.text ↔ _
    rw [and_self, ReportsString, Expects, decodes_self_iff]

end Overloads

/-- What `fetch` returns and stores is what the detector reports, where the answer is as the
overload expects it. -/
theorem fetch_reports_iff (api : RestAPI δ) (d : δ) (p : EigerParam F) (o : FetchType)
    (ofInt : ℤ → Option F) (hr : p.remote = true) (hc : p.type ≠ .command)
    (hscan : ∀ n u x, IntLiteral n u → ofInt n = some x → Double.scan u = some x) :
    FetchReports api d ofInt p o ↔ AnswerFits api d ofInt p o := by
  by_cases h : ∃ raw q, p.baseFetch api d = (some raw, q) ∧ Takes p q raw o
  · obtain ⟨raw, q, hb, htakes⟩ := h
    obtain ⟨⟨x, v⟩, hm⟩ := Option.isSome_iff_exists.mp ((takes_iff api).mp htakes)
    have hfetch := fetchAs_some hr hc hb hm
    have hmade : ∀ t, p.answer api d = some t →
        (Reports api ofInt { q with asyn := v } t x ∧
          ReportsAsyn api ofInt { q with asyn := v } t v ↔ Expects ofInt q t o) := by
      intro t ht
      rw [answer_text hb ht] at hm
      exact reports_made hscan hm
    rw [FetchReports, hfetch]
    constructor
    · rintro ⟨hvalue, -⟩ raw' q' hb' -
      obtain ⟨-, rfl⟩ := Prod.mk.inj (hb'.symm.trans hb)
      obtain ⟨t, ht, hreports⟩ := hvalue x rfl
      exact ⟨t, ht, (hmade t ht).mp hreports⟩
    · intro hfits
      obtain ⟨t, ht, hexpects⟩ := hfits raw q hb htakes
      refine ⟨fun x' hx' => ?_, fun hnone => ?_⟩
      · obtain rfl := Option.mem_some_iff.mp hx'
        exact ⟨t, ht, (hmade t ht).mpr hexpects⟩
      · cases hnone
  · have hnot : ∀ raw q, p.baseFetch api d = (some raw, q) → ¬ Takes p q raw o :=
      fun raw q hb ht => h ⟨raw, q, hb, ht⟩
    obtain ⟨hvalue, hasyn⟩ := fetchAs_none (o := o) hr hc fun raw q hb =>
      Option.not_isSome_iff_eq_none.mp fun hm => hnot raw q hb ((takes_iff api).mpr hm)
    refine iff_of_true ⟨fun x hx => ?_, fun _ => hasyn⟩ fun raw q hb ht => ?_
    · rw [hvalue] at hx
      cases hx
    · exact absurd ht (hnot raw q hb)

/-- An answer about the messages that were dropped, and the parameter for them. -/
def droppedResponse (value key : Text) : Option Token :=
  if key = "value".toList then some ⟨.other, value, []⟩
  else if key = "value_type".toList then some ⟨.string, "uint".toList, []⟩
  else if key = "access_mode".toList then some ⟨.string, "r".toList, []⟩
  else none

def droppedDetector : RestAPI Text where
  version := .v1_8_0
  get d _ _ := some (droppedResponse d)
  put _ _ _ _ := none

def streamDropped : EigerParam ℤ :=
  .new "STREAM_DROPPED".toList (.int32 0) .streamStatus "dropped".toList

theorem fetch_reports_streamDropped :
    FetchReports droppedDetector "2147483647".toList some streamDropped .int ↔
      AnswerFits droppedDetector "2147483647".toList some streamDropped .int := by
  apply fetch_reports_iff
  · rfl
  · decide
  · intro n u x hlit hx
    obtain rfl := Option.some.inj hx
    exact scanInt_literal hlit

/-- From 2^32 + 1 dropped messages the driver makes 1. -/
theorem dropped_not_reported : ¬ ∀ (api : RestAPI Text) (d : Text) (p : EigerParam ℤ)
    (o : FetchType), p.remote = true → p.type ≠ .command → FetchReports api d some p o := by
  intro h
  have hfetch : (streamDropped.fetchAs droppedDetector "4294967297".toList .int).1 =
      some (.int 1) := rfl
  obtain ⟨t, ht, hreports, -⟩ := (h droppedDetector "4294967297".toList streamDropped .int rfl
    (by decide)).1 _ hfetch
  obtain rfl : (⟨.other, "4294967297".toList, []⟩ : Token) = t := Option.some.inj ht
  have hscan : scanInt "4294967297".toList = some 4294967297 := by decide +kernel
  obtain ⟨-, m, hm, hread, -⟩ := (reportsInt_number (by decide) rfl).mp hreports
  rw [← Option.some.inj (hscan.symm.trans hread)] at hm
  exact absurd hm (by decide)

section Again

variable {api : RestAPI δ} {d : δ} {p q b c : EigerParam F} {raw : Text} {a : AsynType}
  {S : EigerParamSet F} {k : ℕ} {names : List Text}

/-- The overload that `fetch` without a value calls. -/
def fetchType : AsynType → FetchType
  | .int32 => .int
  | .float64 => .double
  | .octet => .string

theorem fetch_fetchAs (api : RestAPI δ) (d : δ) (p : EigerParam F) :
    (p.fetch api d).2 = (p.fetchAs api d (fetchType p.asynType)).2 := by
  rw [EigerParam.fetch]
  cases p.asynType <;> rfl

theorem Takes.decode {x : FetchValue F} {v : AsynValue F} (ha : q.asynType = a)
    (hm : p.made api q raw (fetchType a) = some (x, v)) : q.decode api raw = some v := by
  rw [EigerParam.decode, ha]
  cases a with
  | int32 =>
    rw [fetchType, EigerParam.made, if_pos ha] at hm
    obtain ⟨n, hn, hw⟩ := Option.map_eq_some_iff.mp hm
    rw [← (Prod.mk.inj hw).2]
    simp [hn]
  | float64 =>
    rw [fetchType, EigerParam.made] at hm
    split_ifs at hm
    obtain ⟨n, hn, hw⟩ := Option.map_eq_some_iff.mp hm
    rw [← (Prod.mk.inj hw).2]
    simp [hn]
  | octet =>
    rw [fetchType, EigerParam.made] at hm
    split_ifs at hm
    rw [← (Prod.mk.inj (Option.some.inj hm)).2]

/-- Whether a text is taken depends on nothing that a fetch changes. -/
theorem Keeps.takes (hq : Keeps p q) (hb : Keeps p b) (hp : p.type ≠ .uninit) :
    Takes q b raw (fetchType a) ↔ Takes p p raw (fetchType a) := by
  obtain ⟨ht, -, -⟩ := hq.known hp
  obtain ⟨htb, -, heb⟩ := hb.known hp
  cases a with
  | int32 =>
    have hint : b.intOfRaw raw = p.intOfRaw raw := by
      simp only [EigerParam.intOfRaw, EigerParam.getEnumIndex, htb, heb]
    rw [fetchType, Takes, Takes, hint, hb.asynType]
  | float64 => rw [fetchType, Takes, Takes, ht, hb.asynType]
  | octet => rw [fetchType, Takes, Takes, ht, hb.asynType]

theorem fetch_local (h : ¬ (p.remote = true ∧ p.type ≠ .command)) : (p.fetch api d).2 = p := by
  have hcond : ¬ (p.remote && decide (p.type ≠ .command)) = true := by simpa using h
  rw [EigerParam.fetch]
  cases p.asynType with
  | int32 => rw [EigerParam.fetchInt, if_neg hcond]
  | float64 => rw [EigerParam.fetchDouble, if_neg hcond]
  | octet => rw [EigerParam.fetchString, if_neg hcond]

/-- A fetch stores what the raw value means, if its overload takes it. -/
theorem fetch_cases (api : RestAPI δ) (d : δ) (hr : p.remote = true) (hc : p.type ≠ .command) :
    (∃ raw v, (p.baseFetch api d).1 = some raw ∧
      Takes p (p.baseFetch api d).2 raw (fetchType p.asynType) ∧
      (p.baseFetch api d).2.decode api raw = some v ∧ (p.fetch api d).2.asyn = v) ∨
    (∀ raw, (p.baseFetch api d).1 = some raw →
      ¬ Takes p (p.baseFetch api d).2 raw (fetchType p.asynType)) ∧
      (p.fetch api d).2.asyn = p.asyn := by
  have htype := (baseFetch_keeps api d p).1.asynType
  by_cases h : ∃ raw, (p.baseFetch api d).1 = some raw ∧
      Takes p (p.baseFetch api d).2 raw (fetchType p.asynType)
  · left
    obtain ⟨raw, hraw, htakes⟩ := h
    obtain ⟨⟨x, v⟩, hm⟩ := Option.isSome_iff_exists.mp ((takes_iff api).mp htakes)
    have hb : p.baseFetch api d = (some raw, (p.baseFetch api d).2) := Prod.ext hraw rfl
    refine ⟨raw, v, hraw, htakes, Takes.decode htype hm, ?_⟩
    rw [fetch_fetchAs, fetchAs_some hr hc hb hm]
  · right
    have hnot : ∀ raw, (p.baseFetch api d).1 = some raw →
        ¬ Takes p (p.baseFetch api d).2 raw (fetchType p.asynType) :=
      fun raw hraw ht => h ⟨raw, hraw, ht⟩
    refine ⟨hnot, ?_⟩
    rw [fetch_fetchAs]
    refine (fetchAs_none hr hc fun raw q hb => ?_).2
    apply Option.not_isSome_iff_eq_none.mp
    intro hm
    have htakes := (takes_iff api).mpr hm
    rw [hb] at hnot
    exact hnot raw rfl htakes

/-- The detector gives a parameter of known type the same value again. -/
theorem fetch_again (api : RestAPI δ) (d : δ) (hu : p.type ≠ .uninit) :
    ((p.fetch api d).2.fetch api d).2.asyn = (p.fetch api d).2.asyn := by
  by_cases hrc : p.remote = true ∧ p.type ≠ .command
  · obtain ⟨hr, hc⟩ := hrc
    have hk : Keeps p (p.fetch api d).2 := (fetch_fetched p).keeps
    generalize hq : (p.fetch api d).2 = q at hk
    have hrq : q.remote = true := hk.remote.trans hr
    have hcq : q.type ≠ .command := by rwa [(hk.known hu).1]
    have hkb := (baseFetch_keeps api d p).1
    have hkc := hk.trans (baseFetch_keeps api d q).1
    rcases fetch_cases api d hrq hcq with ⟨raw, v, hraw, htakes, hv, hstored⟩ |
      ⟨-, hasyn⟩
    · rw [hk.baseFetch hu] at hraw
      rw [hk.asynType, hk.takes hkc hu] at htakes
      rw [hkc.decode hu] at hv
      rcases fetch_cases api d hr hc with ⟨raw', v', hraw', -, hv', hstored'⟩ |
        ⟨hnot, -⟩
      · obtain rfl := Option.some.inj (hraw.symm.trans hraw')
        rw [hkb.decode hu, hv] at hv'
        rw [hstored, ← hq, hstored']
        exact Option.some.inj hv'
      · exact absurd (((Keeps.refl p).takes hkb hu).mpr htakes) (hnot raw hraw)
    · exact hasyn
  · have hsame : (p.fetch api d).2 = p := fetch_local hrc
    rw [hsame, hsame]

end Again

end Answers

end EigerParams
