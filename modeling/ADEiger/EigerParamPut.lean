import ADEiger.EigerParamEnum

/-! After a put.
The names in the reply are fetched again, then the value that was sent is stored. -/
namespace EigerParams

open CString (Text)
open TransitionSystem

variable {F δ : Type*} [Double F] {api : RestAPI δ} {d d' : δ} {p q r : EigerParam F}
  {S T : EigerParamSet F} {i k : ℕ}

/-- The overloads of `put`. -/
inductive PutValue (F : Type*) where
  | bool (value : Bool)
  | int (value : ℤ)
  | double (value : F)
  | string (unset : ℤ) (value : Text)

namespace EigerParam

def encode (p : EigerParam F) : PutValue F → Option (Text × AsynValue F)
  | .bool value => p.encodeBool value
  | .int value => p.encodeInt value
  | .double value => p.encodeDouble value
  | .string unset value => p.encodeString unset value

def unchanged (p : EigerParam F) : PutValue F → Bool
  | .double value => p.withinEpsilon value
  | _ => false

/-- The asyn value that a parameter makes of a raw value. -/
def decode (api : RestAPI δ) (p : EigerParam F) (raw : Text) : Option (AsynValue F) :=
  match p.asynType with
  | .int32 => (p.intOfRaw raw).map .int32
  | .float64 => (p.doubleOfRaw api raw).map .float64
  | .octet => some (.octet raw)

/-- The value the detector reports for a parameter; for one that is only written it reports
nothing. -/
def reported (api : RestAPI δ) (d : δ) (p : EigerParam F) : Option (AsynValue F) :=
  if p.type = .command ∨ p.accessMode = .wo then none
  else (p.baseFetch api d).1.bind ((p.baseFetch api d).2.decode api)

def Current (api : RestAPI δ) (d : δ) (p : EigerParam F) : Prop :=
  ∀ v, p.reported api d = some v → p.asyn = v

/-- A parameter bound to a name of `SSDetConfig` among `names`. -/
def Named (p : EigerParam F) (names : List Text) : Prop :=
  p.subSystem = .detConfig ∧ p.remote = true ∧ p.name ∈ names

instance (p : EigerParam F) (names : List Text) : Decidable (p.Named names) :=
  inferInstanceAs (Decidable (_ ∧ _ ∧ _))

end EigerParam

def put (api : RestAPI δ) (d : δ) (params : EigerParamSet F) (i : ℕ) : PutValue F → Outcome δ F
  | .bool value => putBool api d params i value
  | .int value => putInt api d params i value
  | .double value => putDouble api d params i value
  | .string unset value => putString api d params i unset value

theorem put_remote (hp : S[i]? = some p) (hr : p.remote = true) (value : PutValue F) :
    put api d S i value =
      if p.unchanged value then ⟨true, d, S, none, [], true⟩
      else putRemote api d S i (·.encode value) := by
  cases value with
  | double value => simp only [put, putDouble, hp, hr, EigerParam.unchanged, if_true]; rfl
  | bool value => simp only [put, putBool, hp, hr, if_true]; rfl
  | int value => simp only [put, putInt, hp, hr, if_true]; rfl
  | string unset value => simp only [put, putString, hp, hr, if_true]; rfl

section Known

theorem encode_known {value : PutValue F} {x : Text × AsynValue F}
    (h : p.encode value = some x) : p.type ≠ .uninit := by
  intro hu
  cases value <;> simp [EigerParam.encode, EigerParam.encodeBool, EigerParam.encodeInt,
    EigerParam.encodeDouble, EigerParam.encodeString, hu] at h

/-- Whether the limits can be read depends on the type and the answer alone. -/
theorem parseLimits_status (x : Response) (h : q.type = p.type) :
    (q.parseLimits x).1 = (p.parseLimits x).1 := by
  have hstatus : ∀ (key : Text) (m n : MinMax),
      (parseMinMax F x key m).1 = (parseMinMax F x key n).1 := by
    intro key m n
    unfold parseMinMax
    cases x key with
    | none => rfl
    | some t =>
      cases x "value_type".toList with
      | none => rfl
      | some type =>
        dsimp only
        split_ifs
        · cases sscanfInt t.text <;> rfl
        · cases Double.scan (F := F) t.text <;> rfl
        · rfl
  unfold EigerParam.parseLimits
  rw [h]
  have hmin := hstatus "min".toList q.min p.min
  have hmax := hstatus "max".toList q.max p.max
  rcases hq : parseMinMax F x "min".toList q.min with ⟨_ | _, m⟩ <;>
    rcases hp : parseMinMax F x "min".toList p.min with ⟨_ | _, n⟩ <;>
    rw [hq, hp] at hmin <;> cases hmin <;>
    cases p.type <;> first | rfl | exact hmax

omit [Double F] in
theorem initType_known {x : Response} (h : p.initType x = some q) : q.type ≠ .uninit := by
  have hparse : ∀ type, parseType x = some type → type ≠ .uninit := by
    intro type hx hu
    subst hu
    rw [parseType] at hx
    obtain ⟨token, -, hx⟩ := Option.bind_eq_some_iff.mp hx
    dsimp only at hx
    split at hx <;> cases hx
  rw [EigerParam.initType] at h
  by_cases ht : p.type ≠ .uninit
  · rw [if_pos ht] at h
    exact Option.some.inj h ▸ ht
  · rw [if_neg ht] at h
    cases hx : parseType x with
    | none => simp [hx] at h
    | some type =>
      rw [hx] at h
      obtain rfl := Option.some.inj h
      have hne := hparse type hx
      dsimp only
      split_ifs
      · decide
      · exact hne

theorem Keeps.decode (h : Keeps p q) (hp : p.type ≠ .uninit) (raw : Text) :
    q.decode api raw = p.decode api raw := by
  obtain ⟨ht, -, he⟩ := h.known hp
  simp only [EigerParam.decode, h.asynType, EigerParam.intOfRaw, EigerParam.doubleOfRaw,
    EigerParam.getEnumIndex, ht, he, h.asynName]

theorem Keeps.baseFetch (h : Keeps p q) (hp : p.type ≠ .uninit) :
    (q.baseFetch api d).1 = (p.baseFetch api d).1 := by
  obtain ⟨ht, ha, -⟩ := h.known hp
  have hq : q.type ≠ .uninit := by rwa [ht]
  unfold EigerParam.baseFetch
  rw [h.remote, ha, h.subSystem, h.name]
  split_ifs
  · rfl
  · rfl
  · cases api.get d p.subSystem p.name with
    | none => rfl
    | some x =>
      have hstatus := parseLimits_status x ht
      simp only [EigerParam.initType, if_pos hp, if_pos hq]
      rcases hl : q.parseLimits x with ⟨_ | _, m⟩ <;>
        rcases hl' : p.parseLimits x with ⟨_ | _, n⟩ <;>
        rw [hl, hl'] at hstatus <;> first | rfl | cases hstatus

/-- What the detector reports for a parameter of known type no fetch changes. -/
theorem Keeps.reported (h : Keeps p q) (hp : p.type ≠ .uninit) :
    q.reported api d = p.reported api d := by
  obtain ⟨ht, ha, -⟩ := h.known hp
  have hpb := (baseFetch_keeps api d p).1
  have hqb := (baseFetch_keeps api d q).1
  have hdecode : (q.baseFetch api d).2.decode api = (p.baseFetch api d).2.decode api := by
    funext raw
    rw [hqb.decode (by rwa [ht]), hpb.decode hp, h.decode hp]
  simp only [EigerParam.reported, ht, ha, h.baseFetch hp, hdecode]

end Known

section Fetching

omit [Double F] in
theorem KeepsAll.getByName (h : KeepsAll S T) (name : Text) :
    T.getByName name = S.getByName name := by
  unfold EigerParamSet.getByName
  induction S generalizing T with
  | nil =>
    obtain rfl := List.eq_nil_of_length_eq_zero h.length
    rfl
  | cons p S ih =>
    obtain ⟨q, T, rfl⟩ := List.exists_cons_of_length_eq_add_one h.length
    have hpq : Keeps p q := h.keeps 0 p q rfl rfl
    have hrest : KeepsAll S T :=
      ⟨Nat.succ.inj h.length, fun i p q hp hq => h.keeps (i + 1) p q hp hq⟩
    simp only [List.findIdx?_cons, hpq.subSystem, hpq.remote, hpq.name, ih hrest]

variable {raw : Text} {names : List Text}

/-- After a fetch that read a raw value the type of the parameter is known, and the detector
gives the same raw value again. -/
theorem baseFetch_again (h : (p.baseFetch api d).1 = some raw)
    (ha : (p.baseFetch api d).2.accessMode ≠ .wo) :
    (p.baseFetch api d).2.type ≠ .uninit ∧
      ((p.baseFetch api d).2.baseFetch api d).1 = some raw := by
  have hknown : (p.baseFetch api d).2.type ≠ .uninit ∧
      ∃ x, api.get d p.subSystem p.name = some x ∧ parseValue x = some raw ∧ p.remote = true ∧
        ((p.baseFetch api d).2.parseLimits x).1 = true := by
    rw [EigerParam.baseFetch] at h ha ⊢
    split_ifs at h ha ⊢ with hr hwo
    · exact absurd hwo ha
    · cases hg : api.get d p.subSystem p.name with
      | none => simp [hg] at h
      | some x =>
        simp only [hg] at h ⊢
        cases hq : p.initType x with
        | none => simp [hq] at h
        | some q =>
          simp only [hq] at h ⊢
          rcases hl : q.parseLimits x with ⟨_ | _, s⟩
          · simp [hl] at h
          · obtain ⟨⟨min, max, hs⟩, -, -⟩ := parseLimits_spec q x
            rw [hl] at hs
            have hs : s = { q with min := min, max := max } := hs
            have htype : s.type = q.type := by rw [hs]
            simp only [hl] at h ⊢
            refine ⟨?_, x, rfl, h, by simpa using hr, ?_⟩
            · rw [htype]
              exact initType_known hq
            · rw [parseLimits_status x htype, hl]
  obtain ⟨hu, x, hg, hv, hr, hl⟩ := hknown
  have hk := (baseFetch_keeps api d p).1
  refine ⟨hu, ?_⟩
  generalize hb : (p.baseFetch api d).2 = b at *
  have hrb : b.remote = true := hk.remote.trans hr
  rcases hlb : b.parseLimits x with ⟨_ | _, s⟩
  · simp [hlb] at hl
  · simp [EigerParam.baseFetch, hrb, ha, hk.subSystem, hk.name, hg, EigerParam.initType, hu, hlb,
      hv]

theorem fetch_stores (hr : p.remote = true) (hc : p.type ≠ .command)
    (h : (p.fetch api d).1 = true) :
    ∃ raw v, (p.baseFetch api d).1 = some raw ∧ (p.baseFetch api d).2.decode api raw = some v ∧
      (p.fetch api d).2 = { (p.baseFetch api d).2 with asyn := v } := by
  have hcond : (p.remote && decide (p.type ≠ .command)) = true := by simp [hr, hc]
  have hasyn : (p.baseFetch api d).2.asynType = p.asynType := (baseFetch_keeps api d p).1.asynType
  rw [EigerParam.fetch] at h ⊢
  cases ht : p.asynType with
  | int32 =>
    simp only [ht, EigerParam.fetchInt, hcond, if_true] at h ⊢
    rcases hb : p.baseFetch api d with ⟨_ | raw, b⟩ <;> simp only [hb] at h ⊢
    · simp at h
    · have hb : b.asynType = .int32 := by rw [hb, ht] at hasyn; exact hasyn
      cases hv : b.intOfRaw raw with
      | none => simp [hv] at h
      | some v =>
        have hs : b.setParam (.int32 v) = some { b with asyn := .int32 v } := by
          simp [EigerParam.setParam, AsynValue.type, hb]
        refine ⟨raw, .int32 v, rfl, ?_, ?_⟩
        · simp [EigerParam.decode, hb, hv]
        · simp only [hs]
  | float64 =>
    simp only [ht, EigerParam.fetchDouble, hcond, if_true] at h ⊢
    by_cases hm : p.type ∉ [.double, .int, .uint, .uninit]
    · rw [if_pos hm] at h
      simp at h
    · simp only [if_neg hm] at h ⊢
      rcases hb : p.baseFetch api d with ⟨_ | raw, b⟩ <;> simp only [hb] at h ⊢
      · simp at h
      · have hb : b.asynType = .float64 := by rw [hb, ht] at hasyn; exact hasyn
        cases hv : b.doubleOfRaw api raw with
        | none => simp [hv] at h
        | some v =>
          have hs : b.setParam (.float64 v) = some { b with asyn := .float64 v } := by
            simp [EigerParam.setParam, AsynValue.type, hb]
          refine ⟨raw, .float64 v, rfl, ?_, ?_⟩
          · simp [EigerParam.decode, hb, hv]
          · simp only [hs]
  | octet =>
    simp only [ht, EigerParam.fetchString, hcond, if_true] at h ⊢
    by_cases hm : p.type ∉ [.string, .enum, .uninit]
    · rw [if_pos hm] at h
      simp at h
    · simp only [if_neg hm] at h ⊢
      rcases hb : p.baseFetch api d with ⟨_ | raw, b⟩ <;> simp only [hb] at h ⊢
      · simp at h
      · have hb : b.asynType = .octet := by rw [hb, ht] at hasyn; exact hasyn
        have hs : b.setParam (.octet raw) = some { b with asyn := .octet raw } := by
          simp [EigerParam.setParam, AsynValue.type, hb]
        refine ⟨raw, .octet raw, rfl, ?_, ?_⟩
        · simp [EigerParam.decode, hb]
        · simp only [hs]

/-- After a fetch that succeeds the parameter shows what the detector reports. -/
theorem fetch_current (hr : p.remote = true) (h : (p.fetch api d).1 = true) :
    (p.fetch api d).2.Current api d := by
  intro v hv
  by_cases hc : p.type = .command
  · have hsame : (p.fetch api d).2 = p := by
      rw [EigerParam.fetch]
      cases p.asynType <;> simp [EigerParam.fetchInt, EigerParam.fetchDouble,
        EigerParam.fetchString, hc]
    simp [hsame, EigerParam.reported, hc] at hv
  · obtain ⟨raw, u, hraw, hu, hq⟩ := fetch_stores hr hc h
    have hk : Keeps (p.baseFetch api d).2 (p.fetch api d).2 := by
      have hsame : (p.fetch api d).2.asynType = p.asynType := (fetch_fetched p).keeps.asynType
      rw [hq] at hsame ⊢
      exact ⟨rfl, rfl, rfl, hsame.trans (baseFetch_keeps api d p).1.asynType.symm,
        fun _ => ⟨rfl, rfl, rfl⟩, id⟩
    rw [hq] at hv hk ⊢
    by_cases ha : (p.baseFetch api d).2.accessMode = .wo
    · simp [EigerParam.reported, ha] at hv
    · obtain ⟨hknown, hagain⟩ := baseFetch_again hraw ha
      rw [hk.reported hknown] at hv
      rw [EigerParam.reported] at hv
      split_ifs at hv
      rw [hagain, Option.bind_some, (baseFetch_keeps api d _).1.decode hknown, hu] at hv
      exact Option.some.inj hv

theorem fetchParams_other (h : ∀ n ∈ names, S.getByName n ≠ some k) :
    (S.fetchParams api d names).2[k]? = S[k]? := by
  induction names generalizing S with
  | nil => rfl
  | cons name names ih =>
    rw [EigerParamSet.fetchParams]
    have hrest : ∀ n ∈ names, S.getByName n ≠ some k := fun n hn => h n (List.mem_cons_of_mem _ hn)
    cases hi : S.getByName name with
    | none => exact ih hrest
    | some i =>
      have hne : i ≠ k := fun he => h name List.mem_cons_self (he ▸ hi)
      have hset : (S.fetchAt api d i).2[k]? = S[k]? := by
        rw [EigerParamSet.fetchAt]
        cases S[i]? with
        | none => rfl
        | some p => exact List.getElem?_set_ne hne
      have hafter : KeepsAll S (S.fetchAt api d i).2 := fetchAt_keepsAll S i
      refine Eq.trans (ih fun n hn => ?_) hset
      rw [hafter.getByName]
      exact hrest n hn

omit [Double F] in
theorem getByName_spec {name : Text} (h : S.getByName name = some k) :
    ∃ p, S[k]? = some p ∧ p.subSystem = .detConfig ∧ p.remote = true ∧ p.name = name := by
  obtain ⟨hk, hp, -⟩ := List.findIdx?_eq_some_iff_getElem.mp h
  obtain ⟨⟨hs, hr⟩, hn⟩ :
      (S[k].subSystem = .detConfig ∧ S[k].remote = true) ∧ S[k].name = name := by
    simpa using hp
  exact ⟨S[k], List.getElem?_eq_getElem hk, hs, hr, hn⟩

/-- A parameter that is current, or that a name leads to, is current after the fetches. -/
theorem fetchParams_current (h : (S.fetchParams api d names).1 = true)
    (hk : (∀ q, S[k]? = some q → q.Current api d) ∨ ∃ n ∈ names, S.getByName n = some k)
    (hq : (S.fetchParams api d names).2[k]? = some q) : q.Current api d := by
  induction names generalizing S with
  | nil =>
    rcases hk with hk | ⟨n, hn, -⟩
    · exact hk q hq
    · cases hn
  | cons name names ih =>
    rw [EigerParamSet.fetchParams] at h hq
    cases hi : S.getByName name with
    | none =>
      simp only [hi] at h hq
      refine ih h (hk.imp_right ?_) hq
      rintro ⟨n, hn, hnk⟩
      rcases List.mem_cons.mp hn with rfl | hn
      · cases hi.symm.trans hnk
      · exact ⟨n, hn, hnk⟩
    | some i =>
      simp only [hi, Bool.and_eq_true] at h hq
      refine ih h.2 ?_ hq
      by_cases hik : i = k
      · subst hik
        left
        intro r hr
        obtain ⟨p, hp, -, hremote, -⟩ := getByName_spec hi
        rw [EigerParamSet.fetchAt] at h hr
        simp only [hp] at h hr
        rw [List.getElem?_set_self (List.getElem?_eq_some_iff.mp hp).1] at hr
        exact Option.some.inj hr ▸ fetch_current hremote h.1
      · rcases hk with hk | ⟨n, hn, hnk⟩
        · left
          intro r hr
          refine hk r (Eq.trans (Eq.symm ?_) hr)
          rw [EigerParamSet.fetchAt]
          cases S[i]? with
          | none => rfl
          | some p => exact List.getElem?_set_ne hik
        · right
          have hafter : KeepsAll S (S.fetchAt api d i).2 := fetchAt_keepsAll S i
          rcases List.mem_cons.mp hn with rfl | hn
          · exact absurd (Option.some.inj (hi.symm.trans hnk)) hik
          · exact ⟨n, hn, (hafter.getByName n).trans hnk⟩

/-- What is not the first of its name is not fetched. -/
theorem fetched_second {ok : Bool} {U : EigerParamSet F}
    (hfetch : S.fetchParams api d names = (ok, U)) (hp : S[k]? = some p)
    (hfirst : S.getByName p.name ≠ some k) : U[k]? = some p := by
  have hother : (S.fetchParams api d names).2[k]? = S[k]? := by
    apply fetchParams_other
    intro n _ hn
    obtain ⟨r, hr, -, -, rfl⟩ := getByName_spec hn
    obtain rfl := Option.some.inj (hp.symm.trans hr)
    exact hfirst hn
  rw [hfetch] at hother
  exact hother.trans hp

omit [Double F] in
theorem Keeps.named (h : Keeps p q) : q.Named names ↔ p.Named names := by
  simp only [EigerParam.Named, h.subSystem, h.remote, h.name]

end Fetching

/-- The request a put makes and its answer. `T` are the parameters when it is sent, that is
after the fetch of a parameter whose type was not known. -/
structure Request (api : RestAPI δ) (d : δ) (S : EigerParamSet F) (i : ℕ) (value : PutValue F)
    (T : EigerParamSet F) (q : EigerParam F) (v : AsynValue F) (d' : δ) (names : List Text) :
    Prop where
  changed : ∀ p ∈ S[i]?, p.unchanged value = false
  ready : S.ready api d i = (true, T)
  written : T[i]? = some q
  answered : ∃ raw, q.encode value = some (raw, v) ∧
    api.put d q.subSystem q.name raw = some (d', some names)

/-- A put makes one request. -/
theorem Request.unique {value : PutValue F} {T₁ T₂ : EigerParamSet F} {q₁ q₂ : EigerParam F}
    {v₁ v₂ : AsynValue F} {d₁ d₂ : δ} {names₁ names₂ : List Text}
    (h₁ : Request api d S i value T₁ q₁ v₁ d₁ names₁)
    (h₂ : Request api d S i value T₂ q₂ v₂ d₂ names₂) :
    T₁ = T₂ ∧ q₁ = q₂ ∧ v₁ = v₂ ∧ d₁ = d₂ ∧ names₁ = names₂ := by
  obtain ⟨-, hready₁, hq₁, raw₁, he₁, hput₁⟩ := h₁
  obtain ⟨-, hready₂, hq₂, raw₂, he₂, hput₂⟩ := h₂
  obtain ⟨-, rfl⟩ := Prod.mk.inj (hready₁.symm.trans hready₂)
  obtain rfl := Option.some.inj (hq₁.symm.trans hq₂)
  obtain ⟨rfl, rfl⟩ := Prod.mk.inj (Option.some.inj (he₁.symm.trans he₂))
  obtain ⟨rfl, hnames⟩ := Prod.mk.inj (Option.some.inj (hput₁.symm.trans hput₂))
  exact ⟨rfl, rfl, rfl, rfl, Option.some.inj hnames⟩

/-- What the reply names and no fetch corrects agrees with the detector: the value sent for
the written parameter, and what a parameter holds that is not the first of its name. -/
def ReplyAgrees (api : RestAPI δ) (d : δ) (S : EigerParamSet F) (i : ℕ) (value : PutValue F) :
    Prop :=
  ∀ T q v d' names, Request api d S i value T q v d' names →
    (q.Named names → ∀ u, q.reported api d' = some u → v = u) ∧
    ∀ k r, k ≠ i → T[k]? = some r → r.Named names → T.getByName r.name ≠ some k →
      r.Current api d'

/-- Every parameter bound to a name in the reply shows what the detector reports. -/
def ShowsDetector (api : RestAPI δ) (o : Outcome δ F) : Prop :=
  ∀ q ∈ o.params, q.Named o.reply → q.Current api o.detector

/-- After a put with all fetches done the driver shows what the detector has exactly when
what the reply names agrees already, the fetched ones apart. -/
theorem shows_detector_iff {value : PutValue F} (hp : S[i]? = some p) (hr : p.remote = true)
    (ho : (put api d S i value).status = true) (hf : (put api d S i value).refetched = true) :
    ShowsDetector api (put api d S i value) ↔ ReplyAgrees api d S i value := by
  rw [put_remote hp hr] at ho hf ⊢
  by_cases hu : p.unchanged value = true
  · rw [if_pos hu]
    constructor
    · intro _ T q v d' names hreq
      rw [hreq.changed p hp] at hu
      cases hu
    · exact fun _ q _ hnamed => absurd hnamed.2.2 List.not_mem_nil
  · rw [if_neg hu] at ho hf ⊢
    obtain ⟨T, q, raw, v, d', names, ok, U, r, s, hready, hq, he, hput, hfetch, hr', hs, hout⟩ :=
      putRemote_succeeds ho
    rw [hout] at hf ⊢
    have hreq : Request api d S i value T q v d' names :=
      ⟨fun p' hp' => by
        obtain rfl := Option.some.inj (hp.symm.trans hp')
        exact eq_false_of_ne_true hu, hready, hq, raw, he, hput⟩
    have hknown := encode_known he
    have hkeeps := keepsAll_of_fetchParams hfetch
    have hqs : Keeps q s := (hkeeps.keeps i q r hq hr').trans (keeps_setParam hs)
    have hsv : s.asyn = v := by rw [(setParam_eq hs).2]
    have hself : (U.set i s)[i]? = some s :=
      List.getElem?_set_self (List.getElem?_eq_some_iff.mp hr').1
    constructor
    · intro hshow T₁ q₁ v₁ d₁ names₁ hreq₁
      obtain ⟨rfl, rfl, rfl, rfl, rfl⟩ := hreq.unique hreq₁
      constructor
      · intro hnamed u hu
        rw [← hqs.reported hknown] at hu
        have hcurrent := hshow s (List.mem_of_getElem? hself) (hqs.named.mpr hnamed) u hu
        rw [← hsv, hcurrent]
      · intro k x hk hx hnamed hfirst
        have hsame : (U.set i s)[k]? = some x := by
          rw [List.getElem?_set_ne hk.symm, fetched_second hfetch hx hfirst]
        exact hshow x (List.mem_of_getElem? hsame) hnamed
    · intro hagrees x hx hnamed
      obtain ⟨hwritten, hothers⟩ := hagrees T q v d' names hreq
      obtain ⟨k, hk⟩ := List.getElem?_of_mem hx
      by_cases hki : k = i
      · subst hki
        obtain rfl := Option.some.inj (hself.symm.trans hk)
        intro u hu
        rw [hsv]
        exact hwritten (hqs.named.mp hnamed) u (hqs.reported hknown ▸ hu)
      · have hk : U[k]? = some x := by rwa [List.getElem?_set_ne (Ne.symm hki)] at hk
        have hlt : k < T.length := by
          rw [← hkeeps.length]
          exact (List.getElem?_eq_some_iff.mp hk).1
        have hy : T[k]? = some T[k] := List.getElem?_eq_getElem hlt
        have hyx : Keeps T[k] x := hkeeps.keeps k T[k] x hy hk
        by_cases hfirst : T.getByName T[k].name = some k
        · have hok : (T.fetchParams api d' names).1 = true := by rw [hfetch]; exact hf
          apply fetchParams_current hok (.inr ⟨T[k].name, (hyx.named.mp hnamed).2.2, hfirst⟩)
          rw [hfetch]
          exact hk
        · obtain rfl := Option.some.inj ((fetched_second hfetch hy hfirst).symm.trans hk)
          exact hothers k _ hki hy hnamed hfirst

/-- The answer about a writable resource of type float without limits. -/
def floatResponse (value : ℤ) (key : Text) : Option Token :=
  if key = "value".toList then some ⟨.other, RestNames.decimal value, []⟩
  else if key = "value_type".toList then some ⟨.string, "float".toList, []⟩
  else if key = "access_mode".toList then some ⟨.string, "rw".toList, []⟩
  else none

/-- A detector that rounds the photon energy to tens and sets the threshold to half of it. -/
def energyDetector : RestAPI ℤ where
  version := .v1_8_0
  get d ss n :=
    if ss = .detConfig ∧ n = "photon_energy".toList then some (floatResponse d)
    else if ss = .detConfig ∧ n = "threshold_energy".toList then some (floatResponse (d / 2))
    else none
  put d ss n raw :=
    if ss = .detConfig ∧ n = "photon_energy".toList then
      some ((scanInt raw).getD d / 10 * 10,
        some ["photon_energy".toList, "threshold_energy".toList])
    else none

/-- The driver creates the photon energy and the threshold and fetches them. -/
def energyCreated : List (Event ℤ ℤ) :=
  [.create "PHOTON_ENERGY".toList (.float64 0) .detConfig "photon_energy".toList,
   .create "THRESHOLD".toList (.float64 0) .detConfig "threshold_energy".toList, .fetchAll]

def energy (asynName name : Text) (value : ℤ) : EigerParam ℤ where
  asynName := asynName
  subSystem := .detConfig
  name := name
  type := .double
  accessMode := .rw
  min := ⟨false, 0, 0⟩
  max := ⟨false, 0, 0⟩
  enumValues := []
  criticalValues := []
  epsilon := 0
  customEnum := false
  asyn := .float64 value

def photonEnergy : ℤ → EigerParam ℤ := energy "PHOTON_ENERGY".toList "photon_energy".toList
def threshold : ℤ → EigerParam ℤ := energy "THRESHOLD".toList "threshold_energy".toList

theorem energyCreated_reachable :
    Reachable (system energyDetector) ⟨12000, [photonEnergy 12000, threshold 6000]⟩ := by
  have hrun : runTrace (system energyDetector) ⟨12000, []⟩ energyCreated =
      ⟨12000, [photonEnergy 12000, threshold 6000]⟩ := by decide +kernel
  rw [← hrun]
  exact reachable_trace rfl _ (by decide +kernel)

/-- An energy that needs no rounding: the threshold is shown as the detector changed it. -/
theorem shows_detector_energy :
    ShowsDetector energyDetector
      (put energyDetector 12000 [photonEnergy 12000, threshold 6000] 0 (.double 8000)) := by
  apply (shows_detector_iff (p := photonEnergy 12000) rfl (by decide) (by decide +kernel)
    (by decide +kernel)).mpr
  have hreq : Request energyDetector 12000 [photonEnergy 12000, threshold 6000] 0 (.double 8000)
      [photonEnergy 12000, threshold 6000] (photonEnergy 12000) (.float64 8000) 8000
      ["photon_energy".toList, "threshold_energy".toList] :=
    ⟨by decide +kernel, rfl, rfl, RestNames.decimal 8000, rfl, by decide +kernel⟩
  intro T q v d' names hput
  obtain ⟨rfl, rfl, rfl, rfl, rfl⟩ := hreq.unique hput
  constructor
  · intro _ u hu
    have hreported : (photonEnergy 12000).reported energyDetector 8000 = some (.float64 8000) := by
      decide +kernel
    exact Option.some.inj (hreported.symm.trans hu)
  · intro k x hk hx _ hfirst
    match k, hk with
    | 1, _ =>
      obtain rfl : threshold 6000 = x := Option.some.inj hx
      exact absurd (by decide +kernel) hfirst
    | k + 2, _ => cases hx

/-- The detector has 8000, the driver shows the 8004 that was sent. -/
theorem rounded_energy_not_shown :
    ¬ ∀ (api : RestAPI ℤ) (d : ℤ) (S : EigerParamSet ℤ) (i : ℕ) (p : EigerParam ℤ)
      (value : PutValue ℤ), Reachable (system api) ⟨d, S⟩ → S[i]? = some p → p.remote = true →
      (put api d S i value).status = true → (put api d S i value).refetched = true →
      ShowsDetector api (put api d S i value) := by
  intro h
  have hshows := h energyDetector 12000 [photonEnergy 12000, threshold 6000] 0
    (photonEnergy 12000) (.double 8004) energyCreated_reachable rfl (by decide)
    (by decide +kernel) (by decide +kernel)
  have hshown : (put energyDetector 12000 [photonEnergy 12000, threshold 6000] 0
      (.double 8004)).params[0]? = some (photonEnergy 8004) := by decide +kernel
  have hvalue := hshows _ (List.mem_of_getElem? hshown) (by decide +kernel) (.float64 8000)
    (by decide +kernel)
  exact absurd hvalue (by decide)

end EigerParams
