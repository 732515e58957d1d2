import ADEiger.EigerParamPut

/-! The limits of integer parameters.
They come as text, are kept as `int`, and are applied one after the other by `put` of an int. -/
namespace EigerParams

open CString (Text digitsValue)

/-- A number that an `int` can hold. -/
def InInt (n : ℤ) : Prop := -2 ^ 31 ≤ n ∧ n < 2 ^ 31

instance (n : ℤ) : Decidable (InInt n) := inferInstanceAs (Decidable (_ ∧ _))

section Nearest

/-- A missing limit leaves a value as it is. -/
def atLeast : Option ℤ → ℤ → ℤ
  | none, v => v
  | some a, v => max a v

def atMost : Option ℤ → ℤ → ℤ
  | none, v => v
  | some b, v => min b v

/-- The point between two limits that is nearest to `v`. -/
def nearest (lo hi : Option ℤ) (v : ℤ) : ℤ := atMost hi (atLeast lo v)

def Within (lo hi : Option ℤ) (n : ℤ) : Prop := (∀ a ∈ lo, a ≤ n) ∧ ∀ b ∈ hi, n ≤ b

def Ordered (lo hi : Option ℤ) : Prop := ∀ a ∈ lo, ∀ b ∈ hi, a ≤ b

variable {lo hi : Option ℤ} {v y n : ℤ}

/-- An unsigned parameter takes nothing below 0. -/
def target (type : ParamType) (lo hi : Option ℤ) (v : ℤ) : ℤ :=
  if type = .uint then max 0 (nearest lo hi v) else nearest lo hi v

end Nearest

section Kept

variable {type : ParamType} {lo hi : Option ℤ} {a b v m n : ℤ}

theorem toInt_eq (h : InInt n) : toInt n = n := by
  obtain ⟨hlow, hhigh⟩ := h
  have hmid : max (-2 ^ 63) (min n (2 ^ 63 - 1)) = n := by omega
  rw [toInt, hmid]
  rw [Int.bmod_eq_of_le] <;> omega

theorem toInt_inInt (n : ℤ) : InInt (toInt n) := by
  have hlow := Int.le_bmod (x := max (-2 ^ 63) (min n (2 ^ 63 - 1))) (m := 2 ^ 32) (by decide)
  have hhigh := Int.bmod_lt (x := max (-2 ^ 63) (min n (2 ^ 63 - 1))) (m := 2 ^ 32) (by decide)
  rw [← toInt] at hlow hhigh
  exact ⟨by omega, by omega⟩

/-- Clamping to the limits as they are kept comes to the nearest point. -/
def Exact (type : ParamType) (lo hi : Option ℤ) : Prop :=
  ∀ v, InInt v → InInt (target type lo hi v) →
    target type (lo.map toInt) (hi.map toInt) v = target type lo hi v

/-- A missing limit is no other than the last number that an `int` holds. -/
theorem atLeast_getD (lo : Option ℤ) (hv : -2 ^ 31 ≤ v) :
    atLeast lo v = max (lo.getD (-2 ^ 31)) v := by
  cases lo with
  | none => exact (Int.max_eq_right hv).symm
  | some a => rfl

theorem atMost_getD (hi : Option ℤ) (h : hi = none → v < 2 ^ 31) :
    atMost hi v = min (hi.getD (2 ^ 31 - 1)) v := by
  cases hi with
  | none => exact (Int.min_eq_right (Int.le_sub_one_of_lt (h rfl))).symm
  | some b => rfl

theorem target_getD (hv : -2 ^ 31 ≤ v) (h : hi = none → atLeast lo v < 2 ^ 31) :
    target type lo hi v =
      if type = .uint then max 0 (min (hi.getD (2 ^ 31 - 1)) (max (lo.getD (-2 ^ 31)) v))
      else min (hi.getD (2 ^ 31 - 1)) (max (lo.getD (-2 ^ 31)) v) := by
  rw [target, nearest, atMost_getD hi h, atLeast_getD lo hv]

theorem target_kept (hv : InInt v) : target type (lo.map toInt) (hi.map toInt) v =
    if type = .uint then
      max 0 (min (toInt (hi.getD (2 ^ 31 - 1))) (max (toInt (lo.getD (-2 ^ 31))) v))
    else min (toInt (hi.getD (2 ^ 31 - 1))) (max (toInt (lo.getD (-2 ^ 31))) v) := by
  have hlo : (lo.map toInt).getD (-2 ^ 31) = toInt (lo.getD (-2 ^ 31)) := by
    cases lo with
    | none => exact (toInt_eq (by decide)).symm
    | some a => rfl
  have hhi : (hi.map toInt).getD (2 ^ 31 - 1) = toInt (hi.getD (2 ^ 31 - 1)) := by
    cases hi with
    | none => exact (toInt_eq (by decide)).symm
    | some b => rfl
  rw [← hlo, ← hhi]
  refine target_getD hv.1 fun _ => ?_
  rw [atLeast_getD _ hv.1, hlo]
  exact Int.max_lt.mpr ⟨(toInt_inInt _).2, hv.2⟩

/-- What the kept limits make of a value, where the nearest point is known. -/
theorem Exact.kept (h : Exact type lo hi) (hv : InInt v) (htarget : target type lo hi v = n)
    (hn : InInt n) :
    (if type = .uint then
      max 0 (min (toInt (hi.getD (2 ^ 31 - 1))) (max (toInt (lo.getD (-2 ^ 31))) v))
    else min (toInt (hi.getD (2 ^ 31 - 1))) (max (toInt (lo.getD (-2 ^ 31))) v)) = n := by
  rw [← target_kept hv, ← htarget]
  exact h v hv (by rwa [htarget])

end Kept

section Limits

variable {F δ : Type*} [Double F] {api : RestAPI δ} {d : δ} {p q : EigerParam F}
  {S : EigerParamSet F} {i : ℕ} {r : Response} {key text : Text} {limit lo hi : Option ℤ}
  {n v : ℤ}

/-- An integer written out, of any magnitude. -/
def IntLiteral (n : ℤ) (text : Text) : Prop :=
  ∃ ds : Text, ds ≠ [] ∧ (∀ c ∈ ds, c.isDigit = true) ∧
    (text = ds ∧ n = digitsValue ds ∨ text = '-' :: ds ∧ n = -digitsValue ds)

theorem scanInt_literal (h : IntLiteral n text) : scanInt text = some n := by
  obtain ⟨ds, hne, hdigit, ⟨rfl, rfl⟩ | ⟨rfl, rfl⟩⟩ := h
  · exact scanInt_digits hne hdigit
  · have hall := takeWhile_digits hdigit
    have hds : ds.takeWhile Char.isDigit ≠ [] := by rwa [hall]
    rw [scanInt_minus hds, hall]

def Gives (r : Response) (key : Text) : Option ℤ → Prop
  | none => r key = none
  | some n => ∃ t, r key = some t ∧ IntLiteral n t.text

end Limits

section Puts

variable {F δ : Type*} [Double F] {api : RestAPI δ} {d d' : δ} {p q : EigerParam F}
  {S : EigerParamSet F} {i : ℕ} {r : Response} {raw : Text} {value : AsynValue F}
  {names : List Text} {lo hi : Option ℤ} {n v : ℤ}
  {encode : EigerParam F → Option (Text × AsynValue F)}

end Puts

/-- The answer about a count that the detector keeps between two limits. -/
def countResponse (lo hi value : ℤ) (key : Text) : Option Token :=
  if key = "value".toList then some ⟨.other, RestNames.decimal value, []⟩
  else if key = "value_type".toList then some ⟨.string, "uint".toList, []⟩
  else if key = "access_mode".toList then some ⟨.string, "rw".toList, []⟩
  else if key = "min".toList then some ⟨.other, RestNames.decimal lo, []⟩
  else if key = "max".toList then some ⟨.other, RestNames.decimal hi, []⟩
  else none

def countDetector (lo hi : ℤ) : RestAPI ℤ where
  version := .v1_8_0
  get d ss n :=
    if ss = .detConfig ∧ n = "ntrigger".toList then some (countResponse lo hi d) else none
  put d ss n raw :=
    if ss = .detConfig ∧ n = "ntrigger".toList then
      some ((scanInt raw).getD d, some ["ntrigger".toList])
    else none

def ntrigger : EigerParam ℤ :=
  .new "NUM_TRIGGERS".toList (.int32 0) .detConfig "ntrigger".toList

/-- The number of triggers once the driver has read it. -/
def triggers (lo hi : ℤ) : EigerParam ℤ :=
  { (ntrigger.baseFetch (countDetector lo hi) 1).2 with asyn := .int32 1 }

end EigerParams
