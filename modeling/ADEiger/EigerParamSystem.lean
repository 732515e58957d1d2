import ADEiger.TransitionSystem
import ADEiger.EigerParam
import Mathlib.Tactic.SplitIfs
import Mathlib.Tactic.ByContra

/-! All runs of a parameter set.
The driver creates parameters, fetches and puts them in any order; the detector may change
between any two steps. -/
namespace EigerParams

open CString (Text)
open TransitionSystem

variable {F δ : Type*}

structure World (δ F : Type*) where
  detector : δ
  params : EigerParamSet F
  deriving DecidableEq

inductive Event (δ F : Type*) where
  | create (asynName : Text) (asyn : AsynValue F) (subSystem : Sys) (name : Text)
  | setEnumValues (i : ℕ) (values : List Text)
  | setEpsilon (i : ℕ) (epsilon : F)
  | fetch (i : ℕ)
  | fetchBool (i : ℕ)
  | fetchInt (i : ℕ)
  | fetchDouble (i : ℕ)
  | fetchString (i : ℕ)
  | fetchAll
  | putBool (i : ℕ) (value : Bool)
  | putInt (i : ℕ) (value : ℤ)
  | putDouble (i : ℕ) (value : F)
  | putString (i : ℕ) (unset : ℤ) (value : Text)
  | detector (d : δ)

/-- A table is installed before the parameter is fetched for the first time. -/
def Enabled (w : World δ F) : Event δ F → Prop
  | .setEnumValues i _ => ∀ p ∈ w.params[i]?, p.type = .uninit
  | _ => True

def World.update (w : World δ F) (i : ℕ) (f : EigerParam F → EigerParam F) : World δ F :=
  { w with params := w.params.modify i f }

def World.after (o : Outcome δ F) : World δ F := ⟨o.detector, o.params⟩

/-- The limits of an enumeration are those of its table. -/
def EnumLimits (p : EigerParam F) : Prop :=
  p.type = .enum → p.min.found = true ∧ p.min.valInt = 0 ∧ p.max.found = true ∧
    p.max.valInt = (p.enumValues.length : ℤ) - 1

/-- What no fetch and no put changes: the identity of a parameter, and its type and table
once they are known. -/
structure Keeps (p q : EigerParam F) : Prop where
  asynName : q.asynName = p.asynName
  subSystem : q.subSystem = p.subSystem
  name : q.name = p.name
  asynType : q.asynType = p.asynType
  known : p.type ≠ .uninit → q.type = p.type ∧ q.accessMode = p.accessMode ∧
    q.enumValues = p.enumValues
  limits : EnumLimits p → EnumLimits q

variable {p q r : EigerParam F}

theorem Keeps.refl (p : EigerParam F) : Keeps p p :=
  ⟨rfl, rfl, rfl, rfl, fun _ => ⟨rfl, rfl, rfl⟩, id⟩

theorem Keeps.trans (h : Keeps p q) (k : Keeps q r) : Keeps p r where
  asynName := k.asynName.trans h.asynName
  subSystem := k.subSystem.trans h.subSystem
  name := k.name.trans h.name
  asynType := k.asynType.trans h.asynType
  known hp := by
    obtain ⟨ht, ha, he⟩ := h.known hp
    obtain ⟨ht', ha', he'⟩ := k.known (by rwa [ht])
    exact ⟨ht'.trans ht, ha'.trans ha, he'.trans he⟩
  limits := k.limits ∘ h.limits

theorem Keeps.remote (h : Keeps p q) : q.remote = p.remote := by
  simp only [EigerParam.remote, h.name]

theorem setParam_eq {v : AsynValue F} (h : p.setParam v = some q) :
    v.type = p.asynType ∧ q = { p with asyn := v } := by
  simp only [EigerParam.setParam] at h
  split_ifs at h with ht
  exact ⟨ht, (Option.some.inj h).symm⟩

theorem keeps_setParam {v : AsynValue F} (h : p.setParam v = some q) : Keeps p q := by
  obtain ⟨ht, rfl⟩ := setParam_eq h
  exact ⟨rfl, rfl, rfl, ht, fun _ => ⟨rfl, rfl, rfl⟩, id⟩

/-- The limits apart, `initType` keeps what is known. -/
theorem initType_spec {x : Response} (h : p.initType x = some q) :
    q.asynName = p.asynName ∧ q.subSystem = p.subSystem ∧ q.name = p.name ∧ q.asyn = p.asyn ∧
      (p.type ≠ .uninit → q = p) := by
  rw [EigerParam.initType] at h
  by_cases ht : p.type ≠ .uninit
  · rw [if_pos ht] at h
    obtain rfl := Option.some.inj h
    exact ⟨rfl, rfl, rfl, rfl, fun _ => rfl⟩
  · rw [if_neg ht] at h
    cases hx : parseType x with
    | none => simp [hx] at h
    | some type =>
      rw [hx] at h
      obtain rfl := Option.some.inj h
      exact ⟨rfl, rfl, rfl, rfl, fun hu => absurd hu ht⟩

/-- Every parameter of a set keeps what `Keeps` says. -/
structure KeepsAll (S T : EigerParamSet F) : Prop where
  length : T.length = S.length
  keeps : ∀ (i : ℕ) (p q : EigerParam F), S[i]? = some p → T[i]? = some q → Keeps p q

variable {S T U : EigerParamSet F} {i j : ℕ}

theorem KeepsAll.refl (S : EigerParamSet F) : KeepsAll S S where
  length := rfl
  keeps i p q hp hq := by
    obtain rfl := Option.some.inj (hp.symm.trans hq)
    exact .refl p

theorem KeepsAll.get (h : KeepsAll S T) (hp : S[i]? = some p) :
    ∃ q, T[i]? = some q ∧ Keeps p q := by
  have hi : i < T.length := by
    rw [h.length]
    exact (List.getElem?_eq_some_iff.mp hp).1
  exact ⟨T[i], List.getElem?_eq_getElem hi, h.keeps i p _ hp (List.getElem?_eq_getElem hi)⟩

theorem KeepsAll.trans (h : KeepsAll S T) (k : KeepsAll T U) : KeepsAll S U where
  length := k.length.trans h.length
  keeps i p r hp hr := by
    obtain ⟨q, hq, hpq⟩ := h.get hp
    exact hpq.trans (k.keeps i q r hq hr)

theorem KeepsAll.set (hp : S[i]? = some p) (h : Keeps p q) : KeepsAll S (S.set i q) where
  length := List.length_set ..
  keeps j a b ha hb := by
    by_cases hj : i = j
    · subst hj
      obtain rfl := Option.some.inj (hp.symm.trans ha)
      rw [List.getElem?_set_self (List.getElem?_eq_some_iff.mp hp).1] at hb
      exact Option.some.inj hb ▸ h
    · rw [List.getElem?_set_ne hj] at hb
      exact (KeepsAll.refl S).keeps j a b ha hb

theorem KeepsAll.modify {f : EigerParam F → EigerParam F}
    (h : ∀ p, S[i]? = some p → Keeps p (f p)) : KeepsAll S (S.modify i f) where
  length := List.length_modify ..
  keeps j a b ha hb := by
    rw [List.getElem?_modify, ha] at hb
    obtain rfl := Option.some.inj hb
    by_cases hj : i = j
    · subst hj
      simpa using h a ha
    · simpa [hj] using Keeps.refl a

theorem store_keepsAll (o : Outcome δ F) (i : ℕ) (v : AsynValue F) :
    KeepsAll o.params (o.store i v).params := by
  rw [Outcome.store]
  cases hp : o.params[i]? with
  | none => exact .refl _
  | some p =>
    cases hq : p.setParam v with
    | none => simpa [hq] using KeepsAll.refl o.params
    | some q => simpa [hq] using KeepsAll.set hp (keeps_setParam hq)

theorem putLocal_keepsAll (d : δ) (S : EigerParamSet F) (i : ℕ) (v : AsynValue F) :
    KeepsAll S (putLocal d S i v).params :=
  store_keepsAll ⟨true, d, S, none, [], true⟩ i v

variable [Double F]

def next (api : RestAPI δ) (w : World δ F) : Event δ F → World δ F
  | .create asynName asyn subSystem name =>
    { w with params := w.params ++ [.new asynName asyn subSystem name] }
  | .setEnumValues i values => w.update i (·.setEnumValues values)
  | .setEpsilon i epsilon => w.update i (·.setEpsilon epsilon)
  | .fetch i => { w with params := (w.params.fetchAt api w.detector i).2 }
  | .fetchBool i => w.update i fun p => (p.fetchBool api w.detector).2
  | .fetchInt i => w.update i fun p => (p.fetchInt api w.detector).2
  | .fetchDouble i => w.update i fun p => (p.fetchDouble api w.detector).2
  | .fetchString i => w.update i fun p => (p.fetchString api w.detector).2
  | .fetchAll => { w with params := (w.params.fetchAll api w.detector).2 }
  | .putBool i value => .after (putBool api w.detector w.params i value)
  | .putInt i value => .after (putInt api w.detector w.params i value)
  | .putDouble i value => .after (putDouble api w.detector w.params i value)
  | .putString i unset value => .after (putString api w.detector w.params i unset value)
  | .detector d => { w with detector := d }

def systemFrom (api : RestAPI δ) (start : World δ F → Prop) : System (World δ F) (Event δ F) where
  Start := start
  Enabled := Enabled
  next := next api

instance (w : World δ F) : (e : Event δ F) → Decidable (Enabled w e) := by
  rintro ⟨⟩ <;> simp only [Enabled] <;> infer_instance

instance (api : RestAPI δ) (start : World δ F → Prop) (w : World δ F) (e : Event δ F) :
    Decidable ((systemFrom api start).Enabled w e) :=
  inferInstanceAs (Decidable (Enabled w e))

/-- The driver starts without parameters. -/
def system (api : RestAPI δ) : System (World δ F) (Event δ F) :=
  systemFrom api fun w => w.params = []

instance (api : RestAPI δ) (w : World δ F) (e : Event δ F) :
    Decidable ((system api).Enabled w e) :=
  inferInstanceAs (Decidable (Enabled w e))

variable {api : RestAPI δ} {d : δ}

/-- `parseLimits` changes nothing but the limits, and sets those of an enumeration. -/
theorem parseLimits_spec (p : EigerParam F) (x : Response) :
    (∃ min max, (p.parseLimits x).2 = { p with min := min, max := max }) ∧
      (p.type = .enum → (p.parseLimits x).1 = true) ∧ EnumLimits (p.parseLimits x).2 := by
  obtain ⟨asynName, subSystem, name, type, accessMode, min, max, values, critical, epsilon,
    custom, asyn⟩ := p
  have limits : ∀ type, type = .int ∨ type = .uint ∨ type = .double → ∃ ok m m',
      EigerParam.parseLimits ⟨asynName, subSystem, name, type, accessMode, min, max, values,
        critical, epsilon, custom, asyn⟩ x =
      (ok, ⟨asynName, subSystem, name, type, accessMode, m, m', values, critical, epsilon,
        custom, asyn⟩) := by
    intro type ht
    rcases hmin : parseMinMax F x "min".toList min with ⟨_ | _, m⟩
    · refine ⟨false, m, max, ?_⟩
      rcases ht with rfl | rfl | rfl <;> simp only [EigerParam.parseLimits, hmin]
    · refine ⟨(parseMinMax F x "max".toList max).1, m, (parseMinMax F x "max".toList max).2, ?_⟩
      rcases ht with rfl | rfl | rfl <;> simp only [EigerParam.parseLimits, hmin]
  -- only an enumeration has anything to show beyond the two limits
  have other : ∀ (type : ParamType) {q : EigerParam F} {ok : Bool}, q.type = type →
      type ≠ .enum → (type = .enum → ok = true) ∧ EnumLimits q := by
    rintro type q ok rfl hne
    exact ⟨fun h => absurd h hne, fun h => absurd h hne⟩
  cases type with
  | enum => exact ⟨⟨_, _, rfl⟩, fun _ => rfl, fun _ => ⟨rfl, rfl, rfl, rfl⟩⟩
  | int =>
    obtain ⟨ok, m, m', hlimits⟩ := limits .int (.inl rfl)
    rw [hlimits]
    exact ⟨⟨m, m', rfl⟩, other .int rfl (by decide)⟩
  | uint =>
    obtain ⟨ok, m, m', hlimits⟩ := limits .uint (.inr (.inl rfl))
    rw [hlimits]
    exact ⟨⟨m, m', rfl⟩, other .uint rfl (by decide)⟩
  | double =>
    obtain ⟨ok, m, m', hlimits⟩ := limits .double (.inr (.inr rfl))
    rw [hlimits]
    exact ⟨⟨m, m', rfl⟩, other .double rfl (by decide)⟩
  | uninit => exact ⟨⟨min, max, rfl⟩, other .uninit rfl (by decide)⟩
  | bool => exact ⟨⟨min, max, rfl⟩, other .bool rfl (by decide)⟩
  | string => exact ⟨⟨min, max, rfl⟩, other .string rfl (by decide)⟩
  | command => exact ⟨⟨min, max, rfl⟩, other .command rfl (by decide)⟩

theorem baseFetch_keeps (api : RestAPI δ) (d : δ) (p : EigerParam F) :
    Keeps p (p.baseFetch api d).2 ∧ (p.baseFetch api d).2.asyn = p.asyn := by
  rw [EigerParam.baseFetch]
  split_ifs
  · exact ⟨.refl p, rfl⟩
  · exact ⟨.refl p, rfl⟩
  · cases api.get d p.subSystem p.name with
    | none => exact ⟨.refl p, rfl⟩
    | some x =>
      dsimp only
      cases hq : p.initType x with
      | none => exact ⟨.refl p, rfl⟩
      | some q =>
        obtain ⟨hasyn, hsub, hname, hv, hknown⟩ := initType_spec hq
        obtain ⟨⟨min, max, hl⟩, -, hlimits⟩ := parseLimits_spec q x
        have hkeeps : Keeps p (q.parseLimits x).2 ∧ (q.parseLimits x).2.asyn = p.asyn := by
          refine ⟨⟨?_, ?_, ?_, ?_, fun hp => ?_, fun _ => hlimits⟩, ?_⟩
          · rw [hl]; exact hasyn
          · rw [hl]; exact hsub
          · rw [hl]; exact hname
          · rw [hl]; exact congrArg AsynValue.type hv
          · rw [hl, hknown hp]; exact ⟨rfl, rfl, rfl⟩
          · rw [hl]; exact hv
        dsimp only
        rcases hx : q.parseLimits x with ⟨_ | _, q'⟩
        · simpa [hx] using hkeeps
        · simpa [hx] using hkeeps

theorem baseFetch_raw {raw : Text} (h : (p.baseFetch api d).1 = some raw) :
    (p.accessMode = .wo ∧ raw = []) ∨
      p.accessMode ≠ .wo ∧
        ∃ x, api.get d p.subSystem p.name = some x ∧ parseValue x = some raw := by
  rw [EigerParam.baseFetch] at h
  split_ifs at h with hr ha
  · exact .inl ⟨ha, (Option.some.inj h).symm⟩
  · right
    cases hg : api.get d p.subSystem p.name with
    | none => simp [hg] at h
    | some x =>
      cases hq : p.initType x with
      | none => simp [hg, hq] at h
      | some q =>
        rcases hx : q.parseLimits x with ⟨_ | _, r⟩
        · simp [hg, hq, hx] at h
        · exact ⟨ha, x, rfl, by simpa [hg, hq, hx] using h⟩

/-- The asyn value that a parameter makes of a raw value. -/
inductive Shows (api : RestAPI δ) (p : EigerParam F) (raw : Text) : AsynValue F → Prop where
  | int {v} : p.intOfRaw raw = some v → Shows api p raw (.int32 v)
  | double {v} : p.doubleOfRaw api raw = some v → Shows api p raw (.float64 v)
  | string : Shows api p raw (.octet raw)

/-- What a fetch makes of a parameter: it fails, with the answer read or not, or stores a
value. -/
inductive Fetched (api : RestAPI δ) (d : δ) (p : EigerParam F) : EigerParam F → Prop where
  | same : Fetched api d p p
  | failed : Fetched api d p (p.baseFetch api d).2
  | stored {raw v} : (p.baseFetch api d).1 = some raw → Shows api (p.baseFetch api d).2 raw v →
      v.type = p.asynType → Fetched api d p { (p.baseFetch api d).2 with asyn := v }

theorem fetched_setParam {raw : Text} {v : AsynValue F} (hraw : (p.baseFetch api d).1 = some raw)
    (hv : Shows api (p.baseFetch api d).2 raw v)
    (h : (p.baseFetch api d).2.setParam v = some q) : Fetched api d p q := by
  obtain ⟨ht, rfl⟩ := setParam_eq h
  refine .stored hraw hv (ht.trans ?_)
  exact congrArg AsynValue.type (baseFetch_keeps api d p).2

theorem fetchBool_fetched (p : EigerParam F) : Fetched api d p (p.fetchBool api d).2 := by
  rw [EigerParam.fetchBool]
  split_ifs
  · rcases hb : p.baseFetch api d with ⟨raw, q⟩
    have hq : (p.baseFetch api d).2 = q := by rw [hb]
    have hfail : Fetched api d p q := hq ▸ .failed
    cases raw with
    | none => exact hfail
    | some raw =>
      have hraw : (p.baseFetch api d).1 = some raw := by rw [hb]
      dsimp only
      cases ht : q.type with
      | bool =>
        dsimp only
        cases scanBool raw with
        | none => exact hfail
        | some b => exact hfail
      | enum =>
        dsimp only
        split_ifs
        · exact hfail
        · cases hi : q.getEnumIndex raw with
          | none => exact hfail
          | some index =>
            dsimp only
            cases hs : q.setParam (.int32 index) with
            | none => exact hfail
            | some p' =>
              refine fetched_setParam hraw (.int ?_) (hq ▸ hs)
              rw [hq]
              simp [EigerParam.intOfRaw, ht, hi]
      | _ => exact hfail
  · exact .same

theorem fetchInt_fetched (p : EigerParam F) : Fetched api d p (p.fetchInt api d).2 := by
  rw [EigerParam.fetchInt]
  split_ifs
  · rcases hb : p.baseFetch api d with ⟨raw, q⟩
    have hq : (p.baseFetch api d).2 = q := by rw [hb]
    have hfail : Fetched api d p q := hq ▸ .failed
    cases raw with
    | none => exact hfail
    | some raw =>
      have hraw : (p.baseFetch api d).1 = some raw := by rw [hb]
      dsimp only
      cases hv : q.intOfRaw raw with
      | none => exact hfail
      | some v =>
        dsimp only
        cases hs : q.setParam (.int32 v) with
        | none => exact hfail
        | some p' => exact fetched_setParam hraw (.int (hq ▸ hv)) (hq ▸ hs)
  · exact .same

theorem fetchDouble_fetched (p : EigerParam F) : Fetched api d p (p.fetchDouble api d).2 := by
  rw [EigerParam.fetchDouble]
  split_ifs
  · rcases hb : p.baseFetch api d with ⟨raw, q⟩
    have hq : (p.baseFetch api d).2 = q := by rw [hb]
    have hfail : Fetched api d p q := hq ▸ .failed
    cases raw with
    | none => exact hfail
    | some raw =>
      have hraw : (p.baseFetch api d).1 = some raw := by rw [hb]
      dsimp only
      cases hv : q.doubleOfRaw api raw with
      | none => exact hfail
      | some v =>
        dsimp only
        cases hs : q.setParam (.float64 v) with
        | none => exact hfail
        | some p' => exact fetched_setParam hraw (.double (hq ▸ hv)) (hq ▸ hs)
  · exact .same
  · exact .same

theorem fetchString_fetched (p : EigerParam F) : Fetched api d p (p.fetchString api d).2 := by
  rw [EigerParam.fetchString]
  split_ifs
  · rcases hb : p.baseFetch api d with ⟨raw, q⟩
    have hq : (p.baseFetch api d).2 = q := by rw [hb]
    have hfail : Fetched api d p q := hq ▸ .failed
    cases raw with
    | none => exact hfail
    | some raw =>
      have hraw : (p.baseFetch api d).1 = some raw := by rw [hb]
      dsimp only
      cases hs : q.setParam (.octet raw) with
      | none => exact hfail
      | some p' => exact fetched_setParam hraw .string (hq ▸ hs)
  · exact .same
  · exact .same

theorem fetch_fetched (p : EigerParam F) : Fetched api d p (p.fetch api d).2 := by
  rw [EigerParam.fetch]
  cases p.asynType with
  | int32 => exact fetchInt_fetched p
  | float64 => exact fetchDouble_fetched p
  | octet => exact fetchString_fetched p

theorem Fetched.keeps (h : Fetched api d p q) : Keeps p q := by
  obtain ⟨hk, hv⟩ := baseFetch_keeps api d p
  cases h with
  | same => exact .refl p
  | failed => exact hk
  | stored hraw hs ht =>
    refine hk.trans ⟨rfl, rfl, rfl, ?_, fun _ => ⟨rfl, rfl, rfl⟩, id⟩
    exact ht.trans hk.asynType.symm

theorem fetchAt_keepsAll (S : EigerParamSet F) (i : ℕ) : KeepsAll S (S.fetchAt api d i).2 := by
  rw [EigerParamSet.fetchAt]
  cases hp : S[i]? with
  | none => exact .refl S
  | some p => exact .set hp (fetch_fetched p).keeps

theorem fetchParams_keepsAll (names : List Text) (S : EigerParamSet F) :
    KeepsAll S (S.fetchParams api d names).2 := by
  induction names generalizing S with
  | nil => exact .refl S
  | cons name names ih =>
    rw [EigerParamSet.fetchParams]
    cases S.getByName name with
    | none => exact ih S
    | some i => exact (fetchAt_keepsAll S i).trans (ih _)

theorem fetchAll_keepsAll (S : EigerParamSet F) : KeepsAll S (S.fetchAll api d).2 where
  length := List.length_map ..
  keeps i p q hp hq := by
    have hq : (S.map fun p => (p.fetch api d).2)[i]? = some q := hq
    rw [List.getElem?_map, hp] at hq
    exact Option.some.inj hq ▸ (fetch_fetched p).keeps

theorem ready_keepsAll (S : EigerParamSet F) (i : ℕ) : KeepsAll S (S.ready api d i).2 := by
  rw [EigerParamSet.ready]
  cases S[i]? with
  | none => exact .refl S
  | some p =>
    dsimp only
    split_ifs
    · exact fetchAt_keepsAll S i
    · exact .refl S

theorem basePut_keepsAll (S : EigerParamSet F) (i : ℕ) (raw : Text) :
    KeepsAll S (basePut api d S i raw).params := by
  rw [basePut]
  cases S[i]? with
  | none => exact .refl S
  | some p =>
    dsimp only
    split_ifs
    · exact .refl S
    · rcases api.put d p.subSystem p.name raw with _ | ⟨d', _ | names⟩
      · exact .refl S
      · exact .refl S
      · exact fetchParams_keepsAll names S

theorem keepsAll_of_fetchParams {names : List Text} {U : EigerParamSet F} {ok : Bool}
    (h : S.fetchParams api d names = (ok, U)) : KeepsAll S U := by
  have hall : KeepsAll S (S.fetchParams api d names).2 := fetchParams_keepsAll names S
  rwa [h] at hall

theorem putRemote_keepsAll (S : EigerParamSet F) (i : ℕ)
    (encode : EigerParam F → Option (Text × AsynValue F)) :
    KeepsAll S (putRemote api d S i encode).params := by
  have hready : KeepsAll S (S.ready api d i).2 := ready_keepsAll S i
  rw [putRemote]
  rcases hr : S.ready api d i with ⟨_ | _, T⟩ <;> rw [hr] at hready
  · exact hready
  · dsimp only
    cases T[i]?.bind encode with
    | none => exact hready
    | some x =>
      dsimp only
      split_ifs
      · exact (hready.trans (basePut_keepsAll T i x.1)).trans (store_keepsAll _ i x.2)
      · exact hready.trans (basePut_keepsAll T i x.1)

theorem putBool_keepsAll (S : EigerParamSet F) (i : ℕ) (value : Bool) :
    KeepsAll S (putBool api d S i value).params := by
  rw [putBool]
  cases S[i]? with
  | none => exact .refl S
  | some p =>
    dsimp only
    split_ifs
    · exact putRemote_keepsAll S i _
    · exact putLocal_keepsAll d S i _
    · exact putLocal_keepsAll d S i _

theorem putInt_keepsAll (S : EigerParamSet F) (i : ℕ) (value : ℤ) :
    KeepsAll S (putInt api d S i value).params := by
  rw [putInt]
  cases S[i]? with
  | none => exact .refl S
  | some p =>
    dsimp only
    split_ifs
    · exact putRemote_keepsAll S i _
    · exact putLocal_keepsAll d S i _

theorem putDouble_keepsAll (S : EigerParamSet F) (i : ℕ) (value : F) :
    KeepsAll S (putDouble api d S i value).params := by
  rw [putDouble]
  cases S[i]? with
  | none => exact .refl S
  | some p =>
    dsimp only
    split_ifs
    · exact .refl S
    · exact putRemote_keepsAll S i _
    · exact putLocal_keepsAll d S i _

theorem putString_keepsAll (S : EigerParamSet F) (i : ℕ) (unset : ℤ) (value : Text) :
    KeepsAll S (putString api d S i unset value).params := by
  rw [putString]
  cases S[i]? with
  | none => exact .refl S
  | some p =>
    dsimp only
    split_ifs
    · exact putRemote_keepsAll S i _
    · exact putLocal_keepsAll d S i _

theorem next_keepsAll {w : World δ F} {e : Event δ F} (he : Enabled w e)
    (hc : ∀ asynName asyn subSystem name, e ≠ .create asynName asyn subSystem name) :
    KeepsAll w.params (next api w e).params := by
  cases e with
  | create asynName asyn subSystem name => exact absurd rfl (hc asynName asyn subSystem name)
  | setEnumValues i values =>
    refine .modify fun p hp => ⟨rfl, rfl, rfl, rfl, fun hu => ?_, fun _ ht => ?_⟩
    · exact absurd (he p hp) hu
    · have hu : p.type = .uninit := he p hp
      have ht : p.type = .enum := ht
      rw [hu] at ht
      cases ht
  | setEpsilon i epsilon =>
    exact .modify fun p _ => ⟨rfl, rfl, rfl, rfl, fun _ => ⟨rfl, rfl, rfl⟩, id⟩
  | fetch i => exact fetchAt_keepsAll w.params i
  | fetchBool i => exact .modify fun p _ => (fetchBool_fetched p).keeps
  | fetchInt i => exact .modify fun p _ => (fetchInt_fetched p).keeps
  | fetchDouble i => exact .modify fun p _ => (fetchDouble_fetched p).keeps
  | fetchString i => exact .modify fun p _ => (fetchString_fetched p).keeps
  | fetchAll => exact fetchAll_keepsAll w.params
  | putBool i value => exact putBool_keepsAll w.params i value
  | putInt i value => exact putInt_keepsAll w.params i value
  | putDouble i value => exact putDouble_keepsAll w.params i value
  | putString i unset value => exact putString_keepsAll w.params i unset value
  | detector d => exact .refl _

/-- In every run the limits of an enumeration are those of its table. -/
theorem reachable_enumLimits {w : World δ F} (h : Reachable (system api) w) :
    ∀ p ∈ w.params, EnumLimits p := by
  refine h.invariant (I := fun w => ∀ p ∈ w.params, EnumLimits p) ?_ ?_
  · intro w hw p hp
    have hw : w.params = [] := hw
    simp [hw] at hp
  · intro w e hw he _ q hq
    by_cases hc : ∀ asynName asyn subSystem name, e ≠ .create asynName asyn subSystem name
    · have hk : KeepsAll w.params (next api w e).params := next_keepsAll he hc
      obtain ⟨i, hi⟩ := List.getElem?_of_mem hq
      have hlt : i < w.params.length := by
        rw [← hk.length]
        exact (List.getElem?_eq_some_iff.mp hi).1
      exact (hk.keeps i _ q (List.getElem?_eq_getElem hlt) hi).limits
        (hw _ (List.getElem_mem hlt))
    · obtain ⟨asynName, asyn, subSystem, name, rfl⟩ :
          ∃ asynName asyn subSystem name, e = .create asynName asyn subSystem name := by
        by_contra hno
        exact hc fun a b c f hf => hno ⟨a, b, c, f, hf⟩
      rcases List.mem_append.mp hq with hq | hq
      · exact hw q hq
      · rw [List.mem_singleton.mp hq]
        intro ht
        simp only [EigerParam.new] at ht
        split_ifs at ht
        cases hasyn : asyn.type <;> simp [hasyn] at ht

end EigerParams
