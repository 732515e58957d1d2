import ADEiger.EigerParamEnum
import ADEiger.EigerParamTable

/-! What a failed fetch leaves behind.
`baseFetch` stores what it finds in an answer as it goes along, the type first; an answer that is
refused later on has changed the parameter up to there. -/
namespace EigerParams

open CString (Text)

variable {F δ : Type*} [Double F]

section Limits

/-- The first character of the type of the value. -/
def typeHead (r : Response) : Option (Option Char) :=
  (r "value_type".toList).map (·.text.head?)

def IntHead (c : Option Char) : Prop := c = some 'i' ∨ c = some 'u'

/-- The limit of this name is missing, or is what its type says it is. -/
def LimitReads (F : Type*) [Double F] (r : Response) (key : Text) : Prop :=
  ∀ t, r key = some t → ∃ head, typeHead r = some head ∧
    (IntHead head → sscanfInt t.text ≠ none) ∧
      (head = some 'f' → (Double.scan t.text : Option F) ≠ none)

/-- What the answer says of the limit is what the parameter has. -/
def LimitKept (F : Type*) [Double F] (r : Response) (key : Text) (m : MinMax) : Prop :=
  (m.found = (r key).isSome) ∧ ∀ t, r key = some t → ∀ head, typeHead r = some head →
    (IntHead head → ∀ v, sscanfInt t.text = some v → m.valInt = v) ∧
      (head = some 'f' → ∀ v : F, Double.scan t.text = some v → m.setDouble v = m)

variable {r : Response} {key : Text} {m : MinMax}

theorem parseMinMax_iff (r : Response) (key : Text) (m : MinMax) :
    ((parseMinMax F r key m).1 = true ↔ LimitReads F r key) ∧
      ((parseMinMax F r key m).2 = m ↔ LimitKept F r key m) := by
  obtain ⟨found, valInt, high⟩ := m
  unfold parseMinMax LimitReads LimitKept typeHead
  cases ht : r key with
  | none => simp [eq_comm]
  | some t =>
    cases htype : r "value_type".toList with
    | none => simp [eq_comm]
    | some type =>
      simp only [Option.map_some, Option.some.injEq, exists_eq_left', forall_eq', IntHead]
      by_cases hint : type.text.head? = some 'i' ∨ type.text.head? = some 'u'
      · have hnot : type.text.head? ≠ some 'f' := by
          rcases hint with h | h <;> simp [h]
        rw [if_pos hint]
        cases sscanfInt t.text <;> simp [hint, hnot, eq_comm]
      · rw [if_neg hint]
        by_cases hf : type.text.head? = some 'f'
        · rw [if_pos hf]
          cases (Double.scan t.text : Option F) <;> simp [hf, MinMax.setDouble, eq_comm]
        · rw [if_neg hf]
          simp [hint, hf, eq_comm]

end Limits

section Fetches

/-- Whether a parameter of this type has limits to read from an answer. -/
def HasLimits (type : ParamType) : Prop := type = .int ∨ type = .uint ∨ type = .double

/-- Nothing of the answer that a parameter of this type looks at is refused. -/
structure Unrefused (F : Type*) [Double F] (type : ParamType) (r : Response) : Prop where
  min : HasLimits type → LimitReads F r "min".toList
  max : HasLimits type → LimitReads F r "max".toList
  value : r "value".toList ≠ none

/-- The limits of the answer, as far as they are read, are those that the parameter has. -/
structure LimitsKept (p : EigerParam F) (r : Response) : Prop where
  min : HasLimits p.type → LimitKept F r "min".toList p.min
  max : HasLimits p.type → LimitReads F r "min".toList → LimitKept F r "max".toList p.max
  enum : p.type = .enum → p.min.found = true ∧ p.min.valInt = 0 ∧ p.max.found = true ∧
    p.max.valInt = (p.enumValues.length : ℤ) - 1

variable {p q : EigerParam F} {r : Response} {api : RestAPI δ} {d : δ}

theorem parseLimits_limits (h : HasLimits p.type) : p.parseLimits r =
    if (parseMinMax F r "min".toList p.min).1 then
      ((parseMinMax F r "max".toList p.max).1, { p with
        min := (parseMinMax F r "min".toList p.min).2
        max := (parseMinMax F r "max".toList p.max).2 })
    else (false, { p with min := (parseMinMax F r "min".toList p.min).2 }) := by
  rcases hmin : parseMinMax F r "min".toList p.min with ⟨_ | _, m⟩
  · rcases h with ht | ht | ht <;>
      simp only [EigerParam.parseLimits, ht, hmin, Bool.false_eq_true, if_false]
  · rcases h with ht | ht | ht <;> simp only [EigerParam.parseLimits, ht, hmin, if_true]

theorem parseLimits_other (h : ¬ HasLimits p.type) (he : p.type ≠ .enum) :
    p.parseLimits r = (true, p) := by
  simp only [HasLimits, not_or] at h
  rw [EigerParam.parseLimits]
  split
  · exact absurd ‹_› h.1
  · exact absurd ‹_› h.2.1
  · exact absurd ‹_› h.2.2
  · exact absurd ‹_› he
  · rfl

theorem not_hasLimits_enum : ¬ HasLimits .enum := by
  rintro (h | h | h) <;> cases h

theorem parseLimits_true_iff (p : EigerParam F) (r : Response) :
    (p.parseLimits r).1 = true ↔
      (HasLimits p.type → LimitReads F r "min".toList ∧ LimitReads F r "max".toList) := by
  obtain ⟨hmin, -⟩ := parseMinMax_iff (F := F) r "min".toList p.min
  obtain ⟨hmax, -⟩ := parseMinMax_iff (F := F) r "max".toList p.max
  by_cases hl : HasLimits p.type
  · rw [parseLimits_limits hl, ← hmin, ← hmax]
    split_ifs with h
    · exact ⟨fun hmax _ => ⟨h, hmax⟩, fun hboth => (hboth hl).2⟩
    · exact iff_of_false (fun h => h) fun hboth => h (hboth hl).1
  · by_cases he : p.type = .enum
    · exact iff_of_true ((parseLimits_spec p r).2.1 he) fun h => absurd h hl
    · rw [parseLimits_other hl he]
      exact iff_of_true rfl fun h => absurd h hl

omit [Double F] in
theorem withLimits_eq_iff {m n : MinMax} :
    { p with min := m, max := n } = p ↔ m = p.min ∧ n = p.max := by
  obtain ⟨asynName, subSystem, name, type, accessMode, min, max, values, critical, epsilon,
    custom, asyn⟩ := p
  simp

theorem parseLimits_same_iff (p : EigerParam F) (r : Response) :
    (p.parseLimits r).2 = p ↔ LimitsKept p r := by
  obtain ⟨hminReads, hmin⟩ := parseMinMax_iff (F := F) r "min".toList p.min
  obtain ⟨-, hmax⟩ := parseMinMax_iff (F := F) r "max".toList p.max
  by_cases hl : HasLimits p.type
  · have henum : p.type ≠ .enum := fun he => not_hasLimits_enum (he ▸ hl)
    rw [parseLimits_limits hl]
    by_cases hread : (parseMinMax F r "min".toList p.min).1 = true
    · rw [if_pos hread]
      refine withLimits_eq_iff.trans ⟨fun h => ⟨fun _ => hmin.mp h.1, fun _ _ => hmax.mp h.2,
        fun he => absurd he henum⟩, fun h => ⟨hmin.mpr (h.min hl),
          hmax.mpr (h.max hl (hminReads.mp hread))⟩⟩
    · rw [if_neg hread]
      have hsame (m : MinMax) := withLimits_eq_iff (p := p) (m := m) (n := p.max)
      refine (hsame _).trans ⟨fun h => ⟨fun _ => hmin.mp h.1,
        fun _ hreads => absurd (hminReads.mpr hreads) hread, fun he => absurd he henum⟩,
          fun h => ⟨hmin.mpr (h.min hl), rfl⟩⟩
  · by_cases he : p.type = .enum
    · have hsame : (p.parseLimits r).2 = { p with
          min := { p.min with found := true, valInt := 0 }
          max := { p.max with found := true, valInt := (p.enumValues.length : ℤ) - 1 } } := by
        simp only [EigerParam.parseLimits, he]
      have hlimit : ∀ (m : MinMax) (v : ℤ), { m with found := true, valInt := v } = m ↔
          m.found = true ∧ m.valInt = v := fun m v => by
        obtain ⟨found, valInt, high⟩ := m
        simp [eq_comm]
      rw [hsame, withLimits_eq_iff, hlimit, hlimit]
      constructor
      · rintro ⟨⟨hf, hv⟩, hf', hv'⟩
        exact ⟨fun h => absurd h hl, fun h => absurd h hl, fun _ => ⟨hf, hv, hf', hv'⟩⟩
      · intro h
        obtain ⟨hf, hv, hf', hv'⟩ := h.enum he
        exact ⟨⟨hf, hv⟩, hf', hv'⟩
    · rw [parseLimits_other hl he]
      exact iff_of_true rfl ⟨fun h => absurd h hl, fun h => absurd h hl, fun h => absurd h he⟩

/-- What a fetch is to leave as it was. -/
structure Unchanged (p q : EigerParam F) : Prop where
  type : q.type = p.type
  accessMode : q.accessMode = p.accessMode
  min : q.min = p.min
  max : q.max = p.max
  enumValues : q.enumValues = p.enumValues
  criticalValues : q.criticalValues = p.criticalValues

/-- When baseFetch fails, nothing has changed, and a put finds it so. -/
def FailsUnchanged (api : RestAPI δ) (d : δ) (p : EigerParam F) : Prop :=
  (p.baseFetch api d).1 = none → Unchanged p (p.baseFetch api d).2 ∧
    ∀ (api' : RestAPI δ) (d' : δ) (params : EigerParamSet F) (i : ℕ) (value : PutValue F),
      put api' d' (params.set i (p.baseFetch api d).2) i value =
        put api' d' (params.set i p) i value

/-- The condition on the parameter and the answer to its fetch. The type is set for good with the
first answer that has one: such an answer must not be refused after that. -/
def KeptOnFailure (p : EigerParam F) (r : Response) : Prop :=
  if p.type = .uninit then
    ∀ type, parseType r = some type → Unrefused F (if p.customEnum then .enum else type) r
  else Unrefused F p.type r ∨ LimitsKept p r

theorem baseFetch_of_get (hr : p.remote = true) (ha : p.accessMode ≠ .wo)
    (hget : api.get d p.subSystem p.name = some r) : p.baseFetch api d =
      match p.initType r with
      | none => (none, p)
      | some q => (if (q.parseLimits r).1 then parseValue r else none, (q.parseLimits r).2) := by
  rw [EigerParam.baseFetch]
  simp only [hr, Bool.not_true, Bool.false_eq_true, if_false, if_neg ha, hget]
  cases p.initType r with
  | none => rfl
  | some q => rcases hl : q.parseLimits r with ⟨_ | _, s⟩ <;> simp [hl]

theorem baseFetch_unanswered (h : p.remote = true → p.accessMode ≠ .wo →
    api.get d p.subSystem p.name = none) : (p.baseFetch api d).2 = p := by
  rw [EigerParam.baseFetch]
  split_ifs with hr ha
  · rfl
  · rfl
  · rw [h (by simpa using hr) ha]

/-- Only the members that are to stay are written. -/
theorem baseFetch_writes (api : RestAPI δ) (d : δ) (p : EigerParam F) :
    ∃ type accessMode min max values critical, (p.baseFetch api d).2 = { p with
      type := type, accessMode := accessMode, min := min, max := max, enumValues := values,
      criticalValues := critical } := by
  by_cases hanswer : p.remote = true → p.accessMode ≠ .wo → api.get d p.subSystem p.name = none
  · rw [baseFetch_unanswered hanswer]
    exact ⟨_, _, _, _, _, _, rfl⟩
  · simp only [Classical.not_imp, ← ne_eq, Option.ne_none_iff_exists'] at hanswer
    obtain ⟨hr, ha, r, hget⟩ := hanswer
    rw [baseFetch_of_get hr ha hget]
    cases hq : p.initType r with
    | none => exact ⟨_, _, _, _, _, _, rfl⟩
    | some q =>
      obtain ⟨⟨min, max, hlimits⟩, -⟩ := parseLimits_spec q r
      rw [hlimits]
      rw [EigerParam.initType] at hq
      by_cases hknown : p.type ≠ .uninit
      · rw [if_pos hknown] at hq
        obtain rfl := Option.some.inj hq
        exact ⟨_, _, _, _, _, _, rfl⟩
      · rw [if_neg hknown] at hq
        cases htype : parseType r with
        | none => simp [htype] at hq
        | some type =>
          rw [htype] at hq
          obtain rfl := Option.some.inj hq
          exact ⟨_, _, _, _, _, _, rfl⟩

theorem failsUnchanged_iff (api : RestAPI δ) (d : δ) (p : EigerParam F) :
    FailsUnchanged api d p ↔ ((p.baseFetch api d).1 = none → (p.baseFetch api d).2 = p) := by
  constructor
  · intro h hfail
    obtain ⟨hu, -⟩ := h hfail
    obtain ⟨type, accessMode, min, max, values, critical, hq⟩ := baseFetch_writes api d p
    rw [hq] at hu ⊢
    obtain ⟨rfl, rfl, rfl, rfl, rfl, rfl⟩ := hu
    rfl
  · intro h hfail
    rw [h hfail]
    exact ⟨⟨rfl, rfl, rfl, rfl, rfl, rfl⟩, fun _ _ _ _ _ => rfl⟩

theorem baseFetch_none_iff (hr : p.remote = true) (ha : p.accessMode ≠ .wo)
    (hget : api.get d p.subSystem p.name = some r) (hq : p.initType r = some q) :
    (p.baseFetch api d).1 = none ↔ ¬ Unrefused F q.type r := by
  rw [baseFetch_of_get hr ha hget, hq]
  have hunrefused : Unrefused F q.type r ↔ (q.parseLimits r).1 = true ∧ parseValue r ≠ none := by
    rw [parseLimits_true_iff, parseValue, Ne, Option.map_eq_none_iff]
    exact ⟨fun h => ⟨fun hl => ⟨h.min hl, h.max hl⟩, h.value⟩,
      fun h => ⟨fun hl => (h.1 hl).1, fun hl => (h.1 hl).2, h.2⟩⟩
  rw [hunrefused]
  by_cases hl : (q.parseLimits r).1 = true
  · simp [hl]
  · simp [hl]

/-- With an answer in hand, by whether the type was known before. -/
theorem fetch_kept_iff (hr : p.remote = true) (ha : p.accessMode ≠ .wo)
    (hget : api.get d p.subSystem p.name = some r) :
    ((p.baseFetch api d).1 = none → (p.baseFetch api d).2 = p) ↔ KeptOnFailure p r := by
  rw [KeptOnFailure]
  cases hq : p.initType r with
  | none =>
    have hu : p.type = .uninit := by
      by_contra hu
      rw [EigerParam.initType, if_pos hu] at hq
      cases hq
    have htype : parseType r = none := by
      rw [EigerParam.initType, if_neg (not_not.mpr hu)] at hq
      cases htype : parseType r with
      | none => rfl
      | some type =>
        rw [htype] at hq
        cases hq
    rw [if_pos hu, baseFetch_of_get hr ha hget, hq]
    exact iff_of_true (fun _ => rfl) fun type h => by cases htype.symm.trans h
  | some q =>
    have hlimits : (p.baseFetch api d).2 = (q.parseLimits r).2 := by
      rw [baseFetch_of_get hr ha hget, hq]
    rw [baseFetch_none_iff hr ha hget hq, hlimits]
    by_cases hu : p.type = .uninit
    · rw [if_pos hu]
      have hknown := initType_known hq
      obtain ⟨⟨min, max, hwrites⟩, -⟩ := parseLimits_spec q r
      have hchanged : (q.parseLimits r).2 ≠ p := by
        intro h
        have htype := congrArg EigerParam.type h
        rw [hwrites] at htype
        exact hknown (htype.trans hu)
      rw [EigerParam.initType, if_neg (not_not.mpr hu)] at hq
      cases htype : parseType r with
      | none => simp [htype] at hq
      | some type =>
        rw [htype] at hq
        obtain rfl := Option.some.inj hq
        simp only [hchanged, imp_false, not_not, Option.some.injEq, forall_eq']
    · rw [if_neg hu]
      rw [EigerParam.initType, if_pos hu] at hq
      obtain rfl := Option.some.inj hq
      rw [parseLimits_same_iff]
      exact ⟨fun h => Classical.byCases Or.inl fun hnot => Or.inr (h hnot),
        fun h hnot => h.resolve_left hnot⟩

/-- For every state of a parameter and every answer. -/
theorem fails_unchanged_iff (api : RestAPI δ) (d : δ) (p : EigerParam F) :
    FailsUnchanged api d p ↔ (p.remote = true → p.accessMode ≠ .wo →
      ∀ r, api.get d p.subSystem p.name = some r → KeptOnFailure p r) := by
  rw [failsUnchanged_iff]
  by_cases hanswer : p.remote = true → p.accessMode ≠ .wo → api.get d p.subSystem p.name = none
  · refine iff_of_true (fun _ => baseFetch_unanswered hanswer) fun hr ha r hget => ?_
    cases (hanswer hr ha).symm.trans hget
  · simp only [Classical.not_imp, ← ne_eq, Option.ne_none_iff_exists'] at hanswer
    obtain ⟨hr, ha, r, hget⟩ := hanswer
    have hkept := fetch_kept_iff hr ha hget
    constructor
    · rintro h - - r' hr'
      obtain rfl := Option.some.inj (hget.symm.trans hr')
      exact hkept.mp h
    · intro h
      exact hkept.mpr (h hr ha r hget)

/-- An answer without a value. -/
def typeOnly (key : Text) : Option Token :=
  if key = "value_type".toList then some ⟨.string, "uint".toList, []⟩
  else if key = "access_mode".toList then some ⟨.string, "rw".toList, []⟩
  else none

def typeOnlyDetector : RestAPI Unit where
  version := .v1_8_0
  get _ _ _ := some typeOnly
  put _ _ _ _ := none

theorem type_kept_after_failure : ¬ ∀ (api : RestAPI Unit) (d : Unit) (p : EigerParam ℤ),
    FailsUnchanged api d p := by
  intro h
  have hunchanged := (h typeOnlyDetector () (.new "NIMAGES".toList (.int32 0) .detConfig
    "nimages".toList) (by decide +kernel)).1.type
  exact absurd hunchanged (by decide +kernel)

end Fetches

end EigerParams
