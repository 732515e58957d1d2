import ADEiger.EigerParamPut

/-! Where the tables of strings are indexed.
The index of a choice is computed by one function and used by another; between them stand the
type, the limits and the table of a parameter and the value in the parameter library. -/
namespace EigerParams

open CString (Text)
open TransitionSystem

variable {F δ : Type*} [Double F] {api : RestAPI δ} {d d' : δ} {p q : EigerParam F}
  {S T : EigerParamSet F} {i k : ℕ} {r : Response} {table : List Text}

/-- An index with the length of the table that it is used on. -/
abbrev Access := ℤ × ℕ

def Access.InRange (a : Access) : Prop := 0 ≤ a.1 ∧ a.1 < a.2

instance (a : Access) : Decidable a.InRange := inferInstanceAs (Decidable (_ ∧ _))

/-- `mEnumValues[index]` in `get` of a string. -/
def EigerParam.getAccesses (p : EigerParam F) : List Access :=
  match p.asyn with
  | .int32 v => if p.type = .enum then [(v, p.enumValues.length)] else []
  | _ => []

/-- The tables that `put` of a bool and of an int index, before and after the request. -/
def accesses (api : RestAPI δ) (w : World δ F) : Event δ F → List Access
  | .fetchString i =>
    match w.params[i]? with
    | none => []
    | some p => if p.remote && p.type ≠ .command then [] else p.getAccesses
  | .putBool i value =>
    match w.params[i]? with
    | none => []
    | some p =>
      if p.remote then
        match w.params.ready api w.detector i with
        | (false, _) => []
        | (true, params) =>
          match params[i]? with
          | none => []
          | some q =>
            if q.type = .enum ∧ q.enumValues.length = 2 then
              [(((!value).toNat : ℤ), q.enumValues.length)]
            else []
      else []
  | .putInt i value =>
    match w.params[i]? with
    | none => []
    | some p =>
      if p.remote then
        match w.params.ready api w.detector i with
        | (false, _) => []
        | (true, params) =>
          match params[i]?.bind fun q => (q.encodeInt value).map (q, ·) with
          | none => []
          | some (q, raw, _) =>
            let o := basePut api w.detector params i raw
            (if q.type = .enum then [(q.clampInt value, q.enumValues.length)] else []) ++
              if o.status = true ∧ q.asynType ≠ .int32 then
                (o.params[i]?.map fun r => (q.clampInt value, r.enumValues.length)).toList
              else []
      else if p.asynType = .int32 then []
      else [(value, p.enumValues.length)]
  | _ => []

section Replies

/-- The overloads of `fetch`. -/
inductive Overload where
  | void | bool | int | double | string
  deriving DecidableEq

def EigerParam.fetched (api : RestAPI δ) (d : δ) (p : EigerParam F) : Overload → EigerParam F
  | .void => (p.fetch api d).2
  | .bool => (p.fetchBool api d).2
  | .int => (p.fetchInt api d).2
  | .double => (p.fetchDouble api d).2
  | .string => (p.fetchString api d).2

/-- The overloads that store the index of a choice in an int parameter. -/
def Overload.storesIndex (table : List Text) : Overload → Bool
  | .void | .int => true
  | .bool => table.length = 2
  | .double | .string => false

/-- The table of a parameter that its first reply makes an enumeration. -/
def EigerParam.firstTable (p : EigerParam F) (r : Response) : Option (List Text) :=
  match parseType r with
  | none => none
  | some type =>
    if p.customEnum then some p.enumValues
    else if type = .enum then some (parseArray (r "allowed_values".toList))
    else none

/-- A first reply that makes an enumeration of `p` has a choice at least, and the value in the
parameter library is one, or the fetch stores one. -/
def FirstFits (p : EigerParam F) (o : Overload) (r : Response) : Prop :=
  ∀ table ∈ p.firstTable r, table ≠ [] ∧ ∀ v, p.asyn = .int32 v →
    Access.InRange (v, table.length) ∨
      o.storesIndex table = true ∧ ∃ raw, parseValue r = some raw ∧ raw ∈ table

def Fitting (api : RestAPI δ) (d : δ) (o : Overload) (p : EigerParam F) : Prop :=
  p.type = .uninit → ∀ r, api.get d p.subSystem p.name = some r → FirstFits p o r

/-- All first replies of a put: that of the parameter itself, and those of the parameters that
the answer to the request names. -/
structure PutFits (api : RestAPI δ) (w : World δ F) (i : ℕ) (value : PutValue F) : Prop where
  own : ∀ p ∈ w.params[i]?, p.unchanged value = false → Fitting api w.detector .void p
  named : ∀ T q v d' names, Request api w.detector w.params i value T q v d' names →
    ∀ name ∈ names, ∀ k, w.params.getByName name = some k → k ≠ i →
      ∀ p ∈ w.params[k]?, Fitting api d' .void p

/-- A put of an int stores a string of the table where the parameter is no int: an enumeration
has one for each index that the limits allow, for others the value has to be an index. -/
structure IntFits (api : RestAPI δ) (w : World δ F) (i : ℕ) (value : ℤ) : Prop where
  here : ∀ p ∈ w.params[i]?, p.remote = false →
    p.asynType = .int32 ∨ Access.InRange (value, p.enumValues.length)
  there : ∀ T q v d' names, Request api w.detector w.params i (.int value) T q v d' names →
    q.asynType = .int32 ∨ q.type = .enum ∨
      Access.InRange (q.clampInt value, q.enumValues.length)

def StepFits (api : RestAPI δ) (w : World δ F) : Event δ F → Prop
  | .fetch i => ∀ p ∈ w.params[i]?, Fitting api w.detector .void p
  | .fetchBool i => ∀ p ∈ w.params[i]?, Fitting api w.detector .bool p
  | .fetchInt i => ∀ p ∈ w.params[i]?, Fitting api w.detector .int p
  | .fetchDouble i => ∀ p ∈ w.params[i]?, Fitting api w.detector .double p
  | .fetchString i => ∀ p ∈ w.params[i]?, Fitting api w.detector .string p
  | .fetchAll => ∀ p ∈ w.params, Fitting api w.detector .void p
  | .putBool i value => PutFits api w i (.bool value)
  | .putInt i value => PutFits api w i (.int value) ∧ IntFits api w i value
  | .putDouble i value => PutFits api w i (.double value)
  | .putString i unset value => PutFits api w i (.string unset value)
  | _ => True

end Replies

section Fetching

variable {o : Overload}

theorem fetched_fetched (api : RestAPI δ) (d : δ) (p : EigerParam F) (o : Overload) :
    Fetched api d p (p.fetched api d o) := by
  cases o with
  | void => exact fetch_fetched p
  | bool => exact fetchBool_fetched p
  | int => exact fetchInt_fetched p
  | double => exact fetchDouble_fetched p
  | string => exact fetchString_fetched p

/-- What an enumeration promises to the functions that index its table. -/
structure Fits (p : EigerParam F) : Prop where
  remote : p.type = .enum → p.remote = true
  choices : p.type = .enum → p.enumValues ≠ []
  index : p.type = .enum → ∀ v, p.asyn = .int32 v → Access.InRange (v, p.enumValues.length)

omit [Double F] in
theorem Fits.of_type (h : p.type ≠ .enum) : Fits p :=
  ⟨fun ht => absurd ht h, fun ht => absurd ht h, fun ht => absurd ht h⟩

theorem baseFetch_uninit (h : (p.baseFetch api d).2.type = .uninit) :
    (p.baseFetch api d).2 = p := by
  rw [EigerParam.baseFetch] at h ⊢
  split_ifs at h ⊢
  · rfl
  · rfl
  · cases hg : api.get d p.subSystem p.name with
    | none => rfl
    | some x =>
      rw [hg] at h
      dsimp only at h ⊢
      cases hq : p.initType x with
      | none => rfl
      | some q =>
        rw [hq] at h
        obtain ⟨⟨min, max, hs⟩, -, -⟩ := parseLimits_spec q x
        have ht : (q.parseLimits x).2.type = q.type := by rw [hs]
        rcases hl : q.parseLimits x with ⟨_ | _, s⟩ <;> rw [hl] at ht
        · simp only [hl] at h
          exact absurd (ht.symm.trans h) (initType_known hq)
        · simp only [hl] at h
          exact absurd (ht.symm.trans h) (initType_known hq)

/-- The reply that made an enumeration of a parameter. -/
theorem baseFetch_first (hu : p.type = .uninit) (ht : (p.baseFetch api d).2.type = .enum) :
    p.remote = true ∧ ∃ r, api.get d p.subSystem p.name = some r ∧
      p.firstTable r = some (p.baseFetch api d).2.enumValues ∧
      (p.baseFetch api d).1 = parseValue r := by
  rw [EigerParam.baseFetch] at ht ⊢
  split_ifs at ht ⊢ with hr hwo
  · rw [hu] at ht
    cases ht
  · rw [hu] at ht
    cases ht
  · refine ⟨by simpa using hr, ?_⟩
    cases hg : api.get d p.subSystem p.name with
    | none =>
      rw [hg] at ht
      cases hu.symm.trans ht
    | some x =>
      rw [hg] at ht
      dsimp only at ht ⊢
      cases hq : p.initType x with
      | none =>
        rw [hq] at ht
        cases hu.symm.trans ht
      | some q =>
        rw [hq] at ht
        obtain ⟨⟨min, max, hs⟩, hok, -⟩ := parseLimits_spec q x
        have htype : (q.parseLimits x).2.type = q.type := by rw [hs]
        have hvalues : (q.parseLimits x).2.enumValues = q.enumValues := by rw [hs]
        have htable : q.type = .enum → p.firstTable x = some q.enumValues := by
          intro htq
          rw [EigerParam.initType, if_neg (not_not.mpr hu)] at hq
          rw [EigerParam.firstTable]
          cases hparse : parseType x with
          | none => simp [hparse] at hq
          | some type =>
            rw [hparse] at hq
            obtain rfl := Option.some.inj hq
            dsimp only at htq ⊢
            by_cases hc : p.customEnum = true
            · rw [if_pos hc, if_pos hc]
            · rw [if_neg hc] at htq
              rw [if_neg hc, if_pos htq, if_neg hc]
        rcases hl : q.parseLimits x with ⟨ok, s⟩
        rw [hl] at htype hvalues hok
        have hts : s.type = .enum := by
          cases ok <;> simpa [hl] using ht
        have htq : q.type = .enum := htype.symm.trans hts
        obtain rfl : ok = true := hok htq
        refine ⟨x, rfl, ?_⟩
        simp only [hl]
        rw [htable htq]
        exact ⟨congrArg some hvalues.symm, trivial⟩

theorem fetched_stores {raw : Text} (hr : p.remote = true) (hu : p.type = .uninit)
    (hasyn : p.asynType = .int32) (ht : (p.baseFetch api d).2.type = .enum)
    (hraw : (p.baseFetch api d).1 = some raw) (hmem : raw ∈ (p.baseFetch api d).2.enumValues)
    (ho : o.storesIndex (p.baseFetch api d).2.enumValues = true) :
    ∃ index, index < (p.baseFetch api d).2.enumValues.length ∧
      p.fetched api d o = { (p.baseFetch api d).2 with asyn := .int32 (index : ℕ) } := by
  have hcond : (p.remote && decide (p.type ≠ .command)) = true := by simp [hr, hu]
  have hb : (p.baseFetch api d).2.asynType = .int32 :=
    (baseFetch_keeps api d p).1.asynType.trans hasyn
  obtain ⟨index, hindex⟩ : ∃ index, (p.baseFetch api d).2.getEnumIndex raw = some index := by
    rw [EigerParam.getEnumIndex]
    refine Option.isSome_iff_exists.mp (List.findIdx?_isSome.trans ?_)
    exact List.any_eq_true.mpr ⟨raw, hmem, beq_self_eq_true raw⟩
  refine ⟨index, (getEnumIndex_spec hindex).1, ?_⟩
  rcases hfetch : p.baseFetch api d with ⟨x, b⟩
  rw [hfetch] at hb ht hraw hindex ho
  dsimp only at hb ht hindex ho
  obtain rfl : x = some raw := hraw
  have hset : b.setParam (.int32 (index : ℤ)) = some { b with asyn := .int32 index } :=
    if_pos hb.symm
  have hint : (p.fetchInt api d).2 = { b with asyn := .int32 index } := by
    rw [EigerParam.fetchInt, if_pos hcond, hfetch]
    simp [EigerParam.intOfRaw, ht, hindex, hset]
  cases o with
  | void => rw [EigerParam.fetched, EigerParam.fetch, hasyn]; exact hint
  | int => exact hint
  | bool =>
    have hlen : b.enumValues.length = 2 := by simpa [Overload.storesIndex] using ho
    rw [EigerParam.fetched, EigerParam.fetchBool, if_pos hcond, hfetch]
    simp [ht, hlen, hindex, hset]
  | double => cases ho
  | string => cases ho

omit [Double F] in
/-- What an int fetch makes of a raw value is an index of the table. -/
theorem intOfRaw_inRange {raw : Text} {v : ℤ} (ht : p.type = .enum)
    (h : p.intOfRaw raw = some v) : Access.InRange (v, p.enumValues.length) := by
  rw [EigerParam.intOfRaw, ht] at h
  obtain ⟨index, hindex, rfl⟩ := Option.map_eq_some_iff.mp h
  have hlt := (getEnumIndex_spec hindex).1
  exact ⟨Int.natCast_nonneg _, Int.ofNat_lt.mpr hlt⟩

/-- After any fetch an enumeration keeps its promise, when its first reply did. -/
theorem fits_fetched (hp : Fits p) (hf : Fitting api d o p) : Fits (p.fetched api d o) := by
  have hfetched := fetched_fetched api d p o
  obtain ⟨hkeeps, hasyn⟩ := baseFetch_keeps api d p
  by_cases htb : (p.baseFetch api d).2.type = .enum
  · have hbase : (p.baseFetch api d).2.remote = true ∧ (p.baseFetch api d).2.enumValues ≠ [] ∧
        (p.fetched api d o = (p.baseFetch api d).2 → ∀ v, p.asyn = .int32 v →
          Access.InRange (v, (p.baseFetch api d).2.enumValues.length)) := by
      rw [hkeeps.remote]
      by_cases hu : p.type = .uninit
      · obtain ⟨hr, r, hget, htable, hraw⟩ := baseFetch_first hu htb
        obtain ⟨hne, hindex⟩ := hf hu r hget _ htable
        refine ⟨hr, hne, fun hsame v hv => ?_⟩
        rcases hindex v hv with hin | ⟨ho, raw, hvalue, hmem⟩
        · exact hin
        · have hint : p.asynType = .int32 := by rw [EigerParam.asynType, hv]; rfl
          obtain ⟨index, hlt, hstored⟩ :=
            fetched_stores hr hu hint htb (hraw.trans hvalue) hmem ho
          have hindex : (p.baseFetch api d).2.asyn = .int32 (index : ℕ) := by
            rw [← hsame, hstored]
          rw [hasyn, hv] at hindex
          obtain rfl := AsynValue.int32.inj hindex
          exact ⟨Int.natCast_nonneg _, Int.ofNat_lt.mpr hlt⟩
      · obtain ⟨ht, -, hvalues⟩ := hkeeps.known hu
        have htp : p.type = .enum := ht.symm.trans htb
        rw [hvalues]
        exact ⟨hp.remote htp, hp.choices htp, fun _ => hp.index htp⟩
    obtain ⟨hr, hne, hindex⟩ := hbase
    generalize p.fetched api d o = q at hfetched hindex
    cases hfetched with
    | same => exact hp
    | failed =>
      refine ⟨fun _ => hr, fun _ => hne, fun _ v hv => ?_⟩
      rw [hasyn] at hv
      exact hindex rfl v hv
    | stored hraw hv ht =>
      refine ⟨fun _ => hr, fun _ => hne, fun _ v hv' => ?_⟩
      cases hv with
      | int h =>
        obtain rfl := AsynValue.int32.inj hv'
        exact intOfRaw_inRange htb h
      | double h => cases hv'
      | string => cases hv'
  · generalize p.fetched api d o = q at hfetched
    cases hfetched with
    | same => exact hp
    | failed => exact .of_type htb
    | stored hraw hv ht => exact .of_type htb

/-- A parameter whose type a fetch leaves open may be fetched again. -/
theorem fitting_fetched (o' : Overload) (hf : Fitting api d o p) :
    Fitting api d o (p.fetched api d o') := by
  have hfetched := fetched_fetched api d p o'
  generalize p.fetched api d o' = q at hfetched
  cases hfetched with
  | same => exact hf
  | failed =>
    intro hu
    have hsame : (p.baseFetch api d).2 = p := baseFetch_uninit hu
    rw [hsame] at hu ⊢
    exact hf hu
  | stored hraw hv ht =>
    intro hu
    have hsame : (p.baseFetch api d).2 = p := baseFetch_uninit hu
    rw [hsame] at hu hv ⊢
    intro r hget table htable
    obtain ⟨hne, -⟩ := hf hu r hget table htable
    refine ⟨hne, fun v hv' => ?_⟩
    cases hv with
    | int h =>
      have hopen : p.type = .uninit := hu
      rw [EigerParam.intOfRaw, hopen] at h
      cases h
    | double h => cases hv'
    | string => cases hv'

end Fetching

section Sets

variable {names : List Text}

/-- Every enumeration of a set keeps its promise. -/
def AllFit (S : EigerParamSet F) : Prop := ∀ p ∈ S, Fits p

omit [Double F] in
theorem AllFit.set (h : AllFit S) (hq : Fits q) : AllFit (S.set i q) := by
  intro p hp
  rcases List.mem_or_eq_of_mem_set hp with hp | rfl
  · exact h p hp
  · exact hq

omit [Double F] in
theorem AllFit.modify {f : EigerParam F → EigerParam F} (h : AllFit S)
    (hf : ∀ p ∈ S[i]?, Fits p → Fits (f p)) : AllFit (S.modify i f) := by
  intro p hp
  obtain ⟨k, hk⟩ := List.getElem?_of_mem hp
  rw [List.getElem?_modify] at hk
  obtain ⟨q, hq, rfl⟩ := Option.map_eq_some_iff.mp hk
  have hfits := h q (List.mem_of_getElem? hq)
  split_ifs with hik
  · subst hik
    exact hf q hq hfits
  · exact hfits

theorem allFit_fetchAt (h : AllFit S) (hf : ∀ p ∈ S[i]?, Fitting api d .void p) :
    AllFit (S.fetchAt api d i).2 := by
  rw [EigerParamSet.fetchAt]
  cases hp : S[i]? with
  | none => exact h
  | some p => exact h.set (fits_fetched (h p (List.mem_of_getElem? hp)) (hf p hp))

theorem allFit_fetchParams (h : AllFit S)
    (hf : ∀ name ∈ names, ∀ k, S.getByName name = some k →
      ∀ p ∈ S[k]?, Fitting api d .void p) : AllFit (S.fetchParams api d names).2 := by
  induction names generalizing S with
  | nil => exact h
  | cons name names ih =>
    rw [EigerParamSet.fetchParams]
    have hrest : ∀ n ∈ names, ∀ k, S.getByName n = some k → ∀ p ∈ S[k]?, Fitting api d .void p :=
      fun n hn => hf n (List.mem_cons_of_mem _ hn)
    cases hi : S.getByName name with
    | none => exact ih h hrest
    | some i =>
      have hkeeps : KeepsAll S (S.fetchAt api d i).2 := fetchAt_keepsAll S i
      apply ih (allFit_fetchAt h (hf name List.mem_cons_self i hi))
      intro n hn k hk q hq
      rw [hkeeps.getByName] at hk
      rw [EigerParamSet.fetchAt] at hq
      cases hp : S[i]? with
      | none =>
        rw [hp] at hq
        exact hrest n hn k hk q hq
      | some p =>
        rw [hp] at hq
        by_cases hik : i = k
        · subst hik
          have hq : (S.set i (p.fetch api d).2)[i]? = some q := hq
          rw [List.getElem?_set_self (List.getElem?_eq_some_iff.mp hp).1] at hq
          rw [← Option.some.inj hq]
          exact fitting_fetched .void (hf name List.mem_cons_self i hi p hp)
        · have hq : (S.set i (p.fetch api d).2)[k]? = some q := hq
          rw [List.getElem?_set_ne hik] at hq
          exact hrest n hn k hk q hq

omit [Double F] in
/-- A stored value is an index when the parameter is an enumeration and an int. -/
theorem allFit_store {out : Outcome δ F} {v : AsynValue F} (h : AllFit out.params)
    (hv : ∀ p ∈ out.params[i]?, p.type = .enum → ∀ n, v = .int32 n →
      Access.InRange (n, p.enumValues.length)) : AllFit (out.store i v).params := by
  rw [Outcome.store]
  cases hs : out.params[i]?.bind (·.setParam v) with
  | none => exact h
  | some s =>
    obtain ⟨p, hp, hset⟩ := Option.bind_eq_some_iff.mp hs
    obtain ⟨-, rfl⟩ := setParam_eq hset
    have hfits := h p (List.mem_of_getElem? hp)
    exact h.set ⟨hfits.remote, hfits.choices, fun ht n hn => hv p hp ht n hn⟩

end Sets

section Puts

variable {w : World δ F} {value : PutValue F} {v : ℤ} {a : Access}

omit [Double F] in
theorem clampInt_inRange (ht : p.type = .enum) (hl : EnumLimits p) (hne : p.enumValues ≠ [])
    (v : ℤ) : Access.InRange (p.clampInt v, p.enumValues.length) := by
  obtain ⟨hminf, hmin, hmaxf, hmax⟩ := hl ht
  have hpos := List.length_pos_of_ne_nil hne
  simp only [EigerParam.clampInt, hminf, hmin, hmaxf, hmax, ht, reduceCtorEq, false_and, if_false,
    true_and, Access.InRange]
  split_ifs <;> omega

theorem encode_inRange {x : Text × AsynValue F} (hfits : Fits p) (hl : EnumLimits p)
    (ht : p.type = .enum) (he : p.encode value = some x) :
    ∀ n, x.2 = .int32 n → Access.InRange (n, p.enumValues.length) := by
  intro n hn
  cases value with
  | bool b =>
    by_cases hlen : p.enumValues.length = 2
    · have henc : p.encode (.bool b) = p.encodeBool b := rfl
      rw [henc, encodeBool_enum ht hlen] at he
      obtain rfl := Option.some.inj he
      obtain rfl := AsynValue.int32.inj hn
      rw [hlen]
      cases b <;> decide
    · simp [EigerParam.encode, EigerParam.encodeBool, ht, hlen] at he
  | int m =>
    have henc : p.encode (.int m) =
        some (p.toStringInt (p.clampInt m), p.intValue (p.clampInt m)) := by
      simp [EigerParam.encode, EigerParam.encodeInt, ht]
    rw [henc] at he
    obtain rfl := Option.some.inj he
    dsimp only [EigerParam.intValue] at hn
    split_ifs at hn
    obtain rfl := AsynValue.int32.inj hn
    exact clampInt_inRange ht hl (hfits.choices ht) m
  | double m => simp [EigerParam.encode, EigerParam.encodeDouble, ht] at he
  | string unset t =>
    simp only [EigerParam.encode, EigerParam.encodeString, ht] at he
    cases hi : p.getEnumIndex t with
    | none => simp [hi] at he
    | some index =>
      rw [hi] at he
      obtain rfl := Option.some.inj he
      dsimp only at hn
      split_ifs at hn
      obtain rfl := AsynValue.int32.inj hn
      exact ⟨Int.natCast_nonneg _, Int.ofNat_lt.mpr (getEnumIndex_spec hi).1⟩

/-- The parameters after the first fetch of a put. -/
theorem allFit_ready (h : AllFit w.params)
    (hf : ∀ p ∈ w.params[i]?, Fitting api w.detector .void p) :
    AllFit (w.params.ready api w.detector i).2 := by
  rw [EigerParamSet.ready]
  cases hp : w.params[i]? with
  | none => exact h
  | some p =>
    dsimp only
    split_ifs
    · exact allFit_fetchAt h hf
    · exact h

theorem ready_other {k : ℕ} (hk : k ≠ i) : (S.ready api d i).2[k]? = S[k]? := by
  rw [EigerParamSet.ready]
  cases hp : S[i]? with
  | none => rfl
  | some p =>
    dsimp only
    split_ifs
    · rw [EigerParamSet.fetchAt, hp]
      exact List.getElem?_set_ne (Ne.symm hk)
    · rfl

theorem allFit_putRemote (h : AllFit w.params) (hl : ∀ p ∈ w.params, EnumLimits p)
    (hchanged : ∀ p ∈ w.params[i]?, p.unchanged value = false) (hf : PutFits api w i value) :
    AllFit (putRemote api w.detector w.params i (·.encode value)).params := by
  have hown : ∀ p ∈ w.params[i]?, Fitting api w.detector .void p :=
    fun p hp => hf.own p hp (hchanged p hp)
  have hready : AllFit (w.params.ready api w.detector i).2 := allFit_ready h hown
  have hkeeps : KeepsAll w.params (w.params.ready api w.detector i).2 := ready_keepsAll w.params i
  have hother : ∀ k, k ≠ i → (w.params.ready api w.detector i).2[k]? = w.params[k]? :=
    fun k hk => ready_other hk
  rw [putRemote]
  rcases hr : w.params.ready api w.detector i with ⟨_ | _, T⟩ <;> rw [hr] at hready hkeeps hother
  · exact hready
  · dsimp only at hready hkeeps hother ⊢
    cases hq : T[i]? with
    | none => exact hready
    | some q =>
      cases he : q.encode value with
      | none => simpa [he, Outcome.refused] using hready
      | some x =>
        obtain ⟨raw, v⟩ := x
        have hlt : i < w.params.length := by
          rw [← hkeeps.length]
          exact (List.getElem?_eq_some_iff.mp hq).1
        obtain ⟨p, hp⟩ : ∃ p, w.params[i]? = some p := ⟨_, List.getElem?_eq_getElem hlt⟩
        have hlq : EnumLimits q :=
          (hkeeps.keeps i p q hp hq).limits (hl p (List.mem_of_getElem? hp))
        have hfq : Fits q := hready q (List.mem_of_getElem? hq)
        have hknown := encode_known he
        have hbase : AllFit (basePut api w.detector T i raw).params := by
          rw [basePut]
          simp only [hq]
          by_cases hro : q.accessMode = .ro
          · rw [if_pos hro]
            exact hready
          · rw [if_neg hro]
            rcases hput : api.put w.detector q.subSystem q.name raw with _ | ⟨d', _ | names⟩
            · exact hready
            · exact hready
            · have hreq : Request api w.detector w.params i value T q v d' names :=
                ⟨hchanged, hr, hq, raw, he, hput⟩
              refine allFit_fetchParams hready fun name hname k hk s hs => ?_
              by_cases hki : k = i
              · subst hki
                obtain rfl := Option.some.inj (hq.symm.trans hs)
                exact fun hu => absurd hu hknown
              · rw [hkeeps.getByName] at hk
                rw [hother k hki] at hs
                exact hf.named T q v d' names hreq name hname k hk hki s hs
        simp only [Option.bind_some, he]
        split_ifs
        · refine allFit_store hbase fun s hs hts n hn => ?_
          have hqs : Keeps q s := (basePut_keepsAll T i raw).keeps i q s hq hs
          obtain ⟨ht, -, hvalues⟩ := hqs.known hknown
          rw [hvalues]
          exact encode_inRange hfq hlq (ht.symm.trans hts) he n hn
        · exact hbase

theorem allFit_put (value : PutValue F) (h : AllFit w.params)
    (hl : ∀ p ∈ w.params, EnumLimits p) (hf : PutFits api w i value) :
    AllFit (put api w.detector w.params i value).params := by
  cases hp : w.params[i]? with
  | none => cases value <;>
      simpa [put, putBool, putInt, putDouble, putString, hp, Outcome.refused] using h
  | some p =>
    by_cases hr : p.remote = true
    · rw [put_remote hp hr value]
      split_ifs with hu
      · exact h
      · refine allFit_putRemote h hl (fun q hq => ?_) hf
        obtain rfl := Option.some.inj (hp.symm.trans hq)
        exact eq_false_of_ne_true hu
    · have hstore : ∀ x : AsynValue F, AllFit (putLocal w.detector w.params i x).params := by
        intro x
        refine allFit_store (i := i) h fun q hq ht => ?_
        obtain rfl := Option.some.inj (hp.symm.trans hq)
        exact absurd ((h p (List.mem_of_getElem? hp)).remote ht) hr
      cases value with
      | bool b => simpa [put, putBool, hp, hr] using hstore _
      | int v => simpa [put, putInt, hp, hr] using hstore _
      | double v =>
        simp only [put, putDouble, hp]
        split_ifs
        · exact h
        · exact hstore _
      | string unset t => simpa [put, putString, hp, hr] using hstore _

theorem basePut_answered {raw : Text} (hq : T[i]? = some q)
    (h : (basePut api d T i raw).status = true) :
    ∃ d' names, api.put d q.subSystem q.name raw = some (d', some names) := by
  rw [basePut] at h
  simp only [hq] at h
  by_cases hro : q.accessMode = .ro
  · simp [hro, Outcome.refused] at h
  · rw [if_neg hro] at h
    rcases hput : api.put d q.subSystem q.name raw with _ | ⟨d', _ | names⟩
    · simp [hput] at h
    · simp [hput] at h
    · exact ⟨d', names, rfl⟩

omit [Double F] in
theorem getAccesses_inRange (hp : Fits p) (ha : a ∈ p.getAccesses) : a.InRange := by
  rw [EigerParam.getAccesses] at ha
  cases hasyn : p.asyn with
  | int32 v =>
    rw [hasyn] at ha
    dsimp only at ha
    split_ifs at ha with ht
    · rw [List.mem_singleton.mp ha]
      exact hp.index ht v hasyn
    · cases ha
  | float64 v => simp [hasyn] at ha
  | octet t => simp [hasyn] at ha

theorem putInt_inRange (h : AllFit w.params) (hl : ∀ p ∈ w.params, EnumLimits p)
    (hf : PutFits api w i (.int v)) (hint : IntFits api w i v)
    (ha : a ∈ accesses api w (.putInt i v)) : a.InRange := by
  rw [accesses] at ha
  cases hp : w.params[i]? with
  | none => simp [hp] at ha
  | some p =>
    rw [hp] at ha
    dsimp only at ha
    by_cases hr : p.remote = true
    · have hchanged : ∀ q ∈ w.params[i]?, q.unchanged (.int v : PutValue F) = false :=
        fun _ _ => rfl
      have hready : AllFit (w.params.ready api w.detector i).2 :=
        allFit_ready h fun q hq => hf.own q hq rfl
      have hkeeps : KeepsAll w.params (w.params.ready api w.detector i).2 := ready_keepsAll _ i
      rw [if_pos hr] at ha
      rcases hT : w.params.ready api w.detector i with ⟨_ | _, T⟩ <;> rw [hT] at ha hready hkeeps
      · cases ha
      · dsimp only at ha hready hkeeps
        cases hq : T[i]? with
        | none => simp [hq] at ha
        | some q =>
          cases he : q.encodeInt v with
          | none => simp [hq, he] at ha
          | some x =>
            obtain ⟨raw, y⟩ := x
            simp only [hq, Option.bind_some, he, Option.map_some] at ha
            have hfq : Fits q := hready q (List.mem_of_getElem? hq)
            have hlq : EnumLimits q :=
              (hkeeps.keeps i p q hp hq).limits (hl p (List.mem_of_getElem? hp))
            have henum : q.type = .enum →
                Access.InRange (q.clampInt v, q.enumValues.length) := fun ht =>
              clampInt_inRange ht hlq (hfq.choices ht) v
            rcases List.mem_append.mp ha with ha | ha
            · split_ifs at ha with ht
              · rw [List.mem_singleton.mp ha]
                exact henum ht
              · cases ha
            · split_ifs at ha with hok
              · obtain ⟨s, hs, rfl⟩ := Option.map_eq_some_iff.mp (Option.mem_toList.mp ha)
                have hqs : Keeps q s := (basePut_keepsAll T i raw).keeps i q s hq hs
                obtain ⟨d', names, hput⟩ := basePut_answered hq hok.1
                have hencode : q.encode (.int v) = some (raw, y) := he
                have hreq : Request api w.detector w.params i (.int v) T q y d' names :=
                  ⟨hchanged, hT, hq, raw, hencode, hput⟩
                rw [(hqs.known (encode_known hencode)).2.2]
                rcases hint.there T q y d' names hreq with hasyn | ht | hin
                · exact absurd hasyn hok.2
                · exact henum ht
                · exact hin
              · cases ha
    · rw [if_neg hr] at ha
      split_ifs at ha with hasyn
      · cases ha
      · rw [List.mem_singleton.mp ha]
        exact (hint.here p hp (eq_false_of_ne_true hr)).resolve_left hasyn

/-- No step that fits indexes a table outside of its range. -/
theorem accesses_inRange {e : Event δ F} (h : AllFit w.params)
    (hl : ∀ p ∈ w.params, EnumLimits p) (hf : StepFits api w e) (ha : a ∈ accesses api w e) :
    a.InRange := by
  cases e with
  | fetchString i =>
    rw [accesses] at ha
    cases hp : w.params[i]? with
    | none => simp [hp] at ha
    | some p =>
      rw [hp] at ha
      dsimp only at ha
      split_ifs at ha
      · cases ha
      · exact getAccesses_inRange (h p (List.mem_of_getElem? hp)) ha
  | putBool i b =>
    rw [accesses] at ha
    cases hp : w.params[i]? with
    | none => simp [hp] at ha
    | some p =>
      rw [hp] at ha
      dsimp only at ha
      split_ifs at ha
      · rcases hT : w.params.ready api w.detector i with ⟨_ | _, T⟩ <;> rw [hT] at ha
        · cases ha
        · dsimp only at ha
          cases hq : T[i]? with
          | none => simp [hq] at ha
          | some q =>
            rw [hq] at ha
            dsimp only at ha
            split_ifs at ha with hcond
            · rw [List.mem_singleton.mp ha, hcond.2]
              cases b <;> decide
            · cases ha
      · cases ha
  | putInt i v => exact putInt_inRange h hl hf.1 hf.2 ha
  | _ => cases ha

theorem allFit_next {e : Event δ F} (h : AllFit w.params) (hl : ∀ p ∈ w.params, EnumLimits p)
    (he : Enabled w e) (hf : StepFits api w e) : AllFit (next api w e).params := by
  cases e with
  | create asynName asyn subSystem name =>
    intro p hp
    rcases List.mem_append.mp hp with hp | hp
    · exact h p hp
    · rw [List.mem_singleton.mp hp]
      apply Fits.of_type
      simp only [EigerParam.new]
      split_ifs
      · cases asyn.type <;> decide
      · decide
      · decide
  | setEnumValues i values =>
    refine h.modify fun p hp _ => .of_type ?_
    have hu : p.type = .uninit := he p hp
    simp [EigerParam.setEnumValues, hu]
  | setEpsilon i epsilon =>
    exact h.modify fun p _ hp => ⟨hp.remote, hp.choices, hp.index⟩
  | fetch i => exact allFit_fetchAt h hf
  | fetchBool i => exact h.modify fun p hp hfits => fits_fetched (o := .bool) hfits (hf p hp)
  | fetchInt i => exact h.modify fun p hp hfits => fits_fetched (o := .int) hfits (hf p hp)
  | fetchDouble i => exact h.modify fun p hp hfits => fits_fetched (o := .double) hfits (hf p hp)
  | fetchString i => exact h.modify fun p hp hfits => fits_fetched (o := .string) hfits (hf p hp)
  | fetchAll =>
    intro p hp
    obtain ⟨q, hq, rfl⟩ := List.mem_map.mp hp
    exact fits_fetched (o := .void) (h q hq) (hf q hq)
  | putBool i b => exact allFit_put (.bool b) h hl hf
  | putInt i v => exact allFit_put (.int v) h hl hf.1
  | putDouble i v => exact allFit_put (.double v) h hl hf
  | putString i unset t => exact allFit_put (.string unset t) h hl hf
  | detector d => exact h

theorem reaches_allFit (h : Reaches (system api) (StepFits api) w) : AllFit w.params := by
  refine h.invariant_of (J := fun w => ∀ p ∈ w.params, EnumLimits p) (I := fun w => AllFit w.params)
    (fun w hw => ?_) (fun w hw p hp => ?_) fun w e hl h he hf => allFit_next h hl he hf
  · exact reachable_enumLimits (hw.mono fun _ _ _ => trivial)
  · have hw : w.params = [] := hw
    rw [hw] at hp
    cases hp

/-- In a run whose steps fit, no table is indexed outside of its range: not by a `get` of a string
in a state that is reached, and not by a step from there. -/
theorem tables_indexed_in_range (h : Reaches (system api) (StepFits api) w) :
    (∀ p ∈ w.params, ∀ a ∈ p.getAccesses, a.InRange) ∧
      ∀ e, StepFits api w e → ∀ a ∈ accesses api w e, a.InRange :=
  ⟨fun p hp _ ha => getAccesses_inRange (reaches_allFit h p hp) ha,
    fun _ hf _ ha => accesses_inRange (reaches_allFit h)
      (reachable_enumLimits (h.mono fun _ _ _ => trivial)) hf ha⟩

end Puts

/-- The mode of the monitor has its table from the driver, and index 0 before the first reply. -/
theorem monitorCreated_fits :
    Reaches (system monitorDetector) (StepFits monitorDetector)
      ⟨"disabled".toList, [monitorEnable]⟩ := by
  have hrun : runTrace (system monitorDetector) ⟨"disabled".toList, []⟩ monitorCreated =
      ⟨"disabled".toList, [monitorEnable]⟩ := by decide +kernel
  rw [← hrun]
  refine ValidTrace.reaches ⟨trivial, trivial, ?_, trivial, trivial, ?_, trivial⟩ (.start rfl)
  · rintro p hp
    rw [← Option.some.inj hp]
    decide
  · intro p hp hu r hr table htable
    rw [← Option.some.inj hp] at hr htable ⊢
    have hget : monitorDetector.get "disabled".toList .monConfig "mode".toList =
        some (stringResponse "disabled".toList) := by
      simp [monitorDetector, oneResource]
    rw [← Option.some.inj (hget.symm.trans hr)] at htable
    have hfirst : table = modeEnum := (Option.some.inj htable).symm
    rw [hfirst]
    refine ⟨by decide, fun v hv => .inl ?_⟩
    rw [← AsynValue.int32.inj hv]
    decide

theorem tables_indexed_monitor :
    (∀ p ∈ [monitorEnable], ∀ a ∈ p.getAccesses, a.InRange) ∧
      ∀ e, StepFits monitorDetector ⟨"disabled".toList, [monitorEnable]⟩ e →
        ∀ a ∈ accesses monitorDetector ⟨"disabled".toList, [monitorEnable]⟩ e, a.InRange :=
  tables_indexed_in_range monitorCreated_fits

/-- The answer about a trigger mode without a choice. -/
def noChoiceResponse (key : Text) : Option Token :=
  if key = "allowed_values".toList then some ⟨.array, "[]".toList, []⟩
  else stringResponse [] key

def noChoiceDetector : RestAPI Text where
  version := .v1_8_0
  get _ ss n :=
    if ss = .detConfig ∧ n = "trigger_mode".toList then some noChoiceResponse else none
  put _ _ _ _ := none

def noChoiceCreated : List (Event Text ℤ) :=
  [.create "TRIGGER_MODE".toList (.int32 0) .detConfig "trigger_mode".toList, .fetch 0]

/-- Without a choice the upper limit is −1, and a put of 0 takes the string at −1. -/
theorem empty_table_indexed :
    ¬ ∀ (api : RestAPI Text) (w : World Text ℤ), Reachable (system api) w →
      (∀ p ∈ w.params, ∀ a ∈ p.getAccesses, a.InRange) ∧
        ∀ e, (system api).Enabled w e → ∀ a ∈ accesses api w e, a.InRange := by
  intro h
  have hreached := reachable_trace (S := system noChoiceDetector) (s := ⟨[], []⟩) rfl
    noChoiceCreated (by decide +kernel)
  have hin := (h noChoiceDetector _ hreached).2 (.putInt 0 0) trivial (-1, 0) (by decide +kernel)
  exact absurd hin (by decide)

end EigerParams
