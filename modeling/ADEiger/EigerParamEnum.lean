import ADEiger.EigerParamSystem

/-! Enumerations.
A table of strings gives each choice an index; three encoders and two decoders use it. -/
namespace EigerParams

open CString (Text)
open TransitionSystem

variable {F δ : Type*} [Double F] {api : RestAPI δ} {d d' : δ} {p q r : EigerParam F}
  {S T : EigerParamSet F} {i k : ℕ}

/-- A put that succeeds: the parameter is of a known type, what is encoded is accepted, the
names in the reply are fetched and the value is stored. -/
theorem putRemote_succeeds {encode : EigerParam F → Option (Text × AsynValue F)}
    (h : (putRemote api d S i encode).status = true) :
    ∃ T q raw v d' names ok U r s, S.ready api d i = (true, T) ∧ T[i]? = some q ∧
      encode q = some (raw, v) ∧ api.put d q.subSystem q.name raw = some (d', some names) ∧
      T.fetchParams api d' names = (ok, U) ∧ U[i]? = some r ∧ r.setParam v = some s ∧
      putRemote api d S i encode = ⟨true, d', U.set i s, some raw, names, ok⟩ := by
  rw [putRemote] at h ⊢
  rcases hr : S.ready api d i with ⟨_ | _, T⟩
  · simp [hr, Outcome.refused] at h
  · rw [hr] at h
    dsimp only at h ⊢
    cases hq : T[i]? with
    | none => simp [hq, Outcome.refused] at h
    | some q =>
      rw [hq] at h
      cases he : encode q with
      | none => simp [he, Outcome.refused] at h
      | some x =>
        obtain ⟨raw, v⟩ := x
        simp only [Option.bind_some, he] at h ⊢
        rw [basePut] at h ⊢
        simp only [hq] at h ⊢
        by_cases ha : q.accessMode = .ro
        · simp [ha, Outcome.refused] at h
        · simp only [if_neg ha] at h ⊢
          rcases hp : api.put d q.subSystem q.name raw with _ | ⟨d', _ | names⟩
          · simp [hp] at h
          · simp [hp] at h
          · rcases hf : T.fetchParams api d' names with ⟨ok, U⟩
            simp only [hp, hf, if_true] at h ⊢
            rw [Outcome.store] at h ⊢
            dsimp only at h ⊢
            cases hu : U[i]?.bind (·.setParam v) with
            | none => simp [hu] at h
            | some s =>
              obtain ⟨r, hr', hs⟩ := Option.bind_eq_some_iff.mp hu
              exact ⟨T, q, raw, v, d', names, ok, U, r, s, rfl, hq, he, hp, hf, hr', hs, rfl⟩

theorem putRemote_sent {encode : EigerParam F → Option (Text × AsynValue F)} {raw : Text}
    (hp : S[i]? = some p) (ht : p.type ≠ .uninit)
    (h : (putRemote api d S i encode).sent = some raw) : ∃ v, encode p = some (raw, v) := by
  have hr : S.ready api d i = (true, S) := by simp [EigerParamSet.ready, hp, ht]
  rw [putRemote] at h
  simp only [hr, hp, Option.bind_some] at h
  cases he : encode p with
  | none => simp [he, Outcome.refused] at h
  | some x =>
    obtain ⟨raw', v⟩ := x
    refine ⟨v, ?_⟩
    have hsent : (basePut api d S i raw').sent = some raw := by
      simp only [he] at h
      split_ifs at h
      · rw [Outcome.store] at h
        cases hs : (basePut api d S i raw').params[i]?.bind (·.setParam v) with
        | none => simpa [hs] using h
        | some s => simpa [hs] using h
      · exact h
    have hraw : raw' = raw := by
      rw [basePut] at hsent
      simp only [hp] at hsent
      split_ifs at hsent
      · cases hsent
      · rcases hx : api.put d p.subSystem p.name raw' with _ | ⟨d', _ | names⟩ <;>
          simpa [hx] using hsent
    rw [hraw]

section Encoders

omit [Double F]

theorem toStringString_injective {a b : Text}
    (h : EigerParam.toStringString a = EigerParam.toStringString b) : a = b :=
  List.append_cancel_right (List.cons.inj h).2

theorem getEnumIndex_spec {v : Text} (h : p.getEnumIndex v = some i) :
    i < p.enumValues.length ∧ p.enumValue i = v ∧ ∀ j, j < i → p.enumValue j ≠ v := by
  obtain ⟨hi, hv, hj⟩ := List.findIdx?_eq_some_iff_getElem.mp h
  have hget : ∀ n (hn : n < p.enumValues.length), p.enumValue n = p.enumValues[n] := fun n hn => by
    simp [EigerParam.enumValue, hn]
  refine ⟨hi, (hget i hi).trans (by simpa using hv), fun j hji => ?_⟩
  rw [hget j (Nat.lt_trans hji hi)]
  simpa using hj j hji

/-- A choice is found again when no choice before it has its string. -/
theorem getEnumIndex_enumValue (hi : i < p.enumValues.length) :
    p.getEnumIndex (p.enumValue i) = some i ↔ ∀ j, j < i → p.enumValue j ≠ p.enumValue i := by
  have hget : ∀ n (hn : n < p.enumValues.length), p.enumValue n = p.enumValues[n] := fun n hn => by
    simp [EigerParam.enumValue, hn]
  constructor
  · exact fun h => (getEnumIndex_spec h).2.2
  · intro h
    refine List.findIdx?_eq_some_iff_getElem.mpr ⟨hi, ?_, fun j hj => ?_⟩
    · simpa using (hget i hi).symm
    · have hne := h j hj
      rw [hget j (Nat.lt_trans hj hi)] at hne
      simpa using hne

theorem clampInt_of_lt (ht : p.type = .enum) (hl : EnumLimits p) (hi : i < p.enumValues.length) :
    p.clampInt i = i := by
  obtain ⟨-, hmin, -, hmax⟩ := hl ht
  simp only [EigerParam.clampInt, hmin, hmax, ht, reduceCtorEq, false_and, if_false]
  split_ifs <;> omega

theorem encodeInt_enum (ht : p.type = .enum) (hl : EnumLimits p)
    (hi : i < p.enumValues.length) :
    p.encodeInt i = some (EigerParam.toStringString (p.enumValue i), p.intValue i) := by
  have hc := clampInt_of_lt ht hl hi
  simp [EigerParam.encodeInt, ht, hc, EigerParam.toStringInt]

/-- To put a choice of a two-valued enumeration as a bool sends the other string. -/
theorem encodeBool_enum (ht : p.type = .enum) (h2 : p.enumValues.length = 2) (b : Bool) :
    p.encodeBool b = some (EigerParam.toStringString (p.enumValue (!b).toNat),
      .int32 (if b then 1 else 0)) := by
  simp [EigerParam.encodeBool, ht, h2, EigerParam.toStringBool]

end Encoders

/-- The three ways to put choice `b` of a two-valued enumeration send one JSON value and
leave one asyn value, and after them a detector that stores the value gives `b` back. -/
structure PutsAgree (api : RestAPI δ) (d : δ) (S : EigerParamSet F) (i : ℕ) (p : EigerParam F)
    (unset : ℤ) (b : Bool) : Prop where
  sent : ∃ raw, (putBool api d S i b).sent = some raw ∧
    (putInt api d S i b.toNat).sent = some raw ∧
    (putString api d S i unset (p.enumValue b.toNat)).sent = some raw
  asyn : (putBool api d S i b).params[i]?.map (·.asyn) =
      (putInt api d S i b.toNat).params[i]?.map (·.asyn) ∧
    (putInt api d S i b.toNat).params[i]?.map (·.asyn) =
      (putString api d S i unset (p.enumValue b.toNat)).params[i]?.map (·.asyn)
  fetched : ∀ o ∈ [putBool api d S i b, putInt api d S i b.toNat,
      putString api d S i unset (p.enumValue b.toNat)], ∀ x,
    api.get o.detector p.subSystem p.name = some x →
    (∀ raw ∈ o.sent, (parseValue x).map EigerParam.toStringString = some raw) →
    ∀ q ∈ o.params[i]?, (q.fetchBool api o.detector).1 = some b ∧
      (q.fetchInt api o.detector).1 = some (b.toNat : ℤ)

/-- `put` of a bool never agrees with the other two. -/
theorem puts_never_agree {t₀ t₁ : Text} (hw : Reachable (system api) ⟨d, S⟩)
    (hp : S[i]? = some p) (hr : p.remote = true) (ht : p.type = .enum)
    (htable : p.enumValues = [t₀, t₁]) (hne : t₀ ≠ t₁) (unset : ℤ) (b : Bool) :
    ¬ PutsAgree api d S i p unset b := by
  intro h
  obtain ⟨raw, hbool, hint, -⟩ := h.sent
  have hl := reachable_enumLimits hw p (List.mem_of_getElem? hp)
  have hknown : p.type ≠ .uninit := by simp [ht]
  have hb : b.toNat < p.enumValues.length := by cases b <;> simp [htable]
  simp only [putBool, putInt, hp, hr, if_true] at hbool hint
  obtain ⟨v, hv⟩ := putRemote_sent hp hknown hbool
  obtain ⟨v', hv'⟩ := putRemote_sent hp hknown hint
  rw [encodeBool_enum ht (by simp [htable])] at hv
  rw [encodeInt_enum ht hl hb] at hv'
  have hraw : p.enumValue ((!b).toNat : ℕ) = p.enumValue (b.toNat : ℕ) := by
    apply toStringString_injective
    rw [(Prod.mk.inj (Option.some.inj hv)).1, (Prod.mk.inj (Option.some.inj hv')).1]
  cases b
  · exact hne.symm (by simpa [EigerParam.enumValue, htable] using hraw)
  · exact hne (by simpa [EigerParam.enumValue, htable] using hraw)

/-- Doubles with whole values. -/
instance wholeNumbers : Double ℤ where
  zero := 0
  isZero v := v = 0
  lt a b := a < b
  distance a b := (a - b).natAbs
  scan := scanInt
  print := RestNames.decimal
  kilobytesToGB v := v * 1024 / 10 ^ 9
  bytesToGB v := v / 10 ^ 9
  halves v := (v.bmod (2 ^ 32), (v - v.bmod (2 ^ 32)) / 2 ^ 32)
  ofHalves h := h.1 + 2 ^ 32 * h.2

/-- The answer about a resource of type string without `allowed_values`. -/
def stringResponse (value key : Text) : Option Token :=
  if key = "value".toList then some ⟨.string, value, []⟩
  else if key = "value_type".toList then some ⟨.string, "string".toList, []⟩
  else if key = "access_mode".toList then some ⟨.string, "rw".toList, []⟩
  else none

/-- A detector with one such resource that stores what it is sent. -/
def oneResource (subSystem : Sys) (name : Text) : RestAPI Text where
  version := .v1_8_0
  get d ss n := if ss = subSystem ∧ n = name then some (stringResponse d) else none
  put _ ss n raw :=
    if ss = subSystem ∧ n = name then some ((raw.drop 1).dropLast, some []) else none

/-- `modeEnum` of the constructor. -/
def modeEnum : List Text := ["disabled".toList, "enabled".toList]

/-- The driver creates the mode of the monitor and fetches it. -/
def monitorCreated : List (Event Text ℤ) :=
  [.create "MONITOR_ENABLE".toList (.int32 0) .monConfig "mode".toList, .setEnumValues 0 modeEnum,
   .fetch 0]

def monitorDetector : RestAPI Text := oneResource .monConfig "mode".toList

def monitorEnable : EigerParam ℤ where
  asynName := "MONITOR_ENABLE".toList
  subSystem := .monConfig
  name := "mode".toList
  type := .enum
  accessMode := .rw
  min := ⟨true, 0, 0⟩
  max := ⟨true, 1, 0⟩
  enumValues := modeEnum
  criticalValues := []
  epsilon := 0
  customEnum := true
  asyn := .int32 0

theorem monitorCreated_reachable :
    Reachable (system monitorDetector) ⟨"disabled".toList, [monitorEnable]⟩ := by
  have hrun : runTrace (system monitorDetector) ⟨"disabled".toList, []⟩ monitorCreated =
      ⟨"disabled".toList, [monitorEnable]⟩ := by decide +kernel
  rw [← hrun]
  exact reachable_trace rfl _ (by decide +kernel)

theorem puts_never_agree_monitorEnable :
    ¬ PutsAgree monitorDetector "disabled".toList [monitorEnable] 0 monitorEnable 0 false :=
  puts_never_agree monitorCreated_reachable rfl (by decide) rfl rfl (by decide +kernel) 0 false

/-- At startup `mMonitorEnable->put(false)` sends "enabled". -/
theorem monitorEnable_puts_disagree :
    ¬ ∀ (api : RestAPI Text) (d : Text) (S : EigerParamSet ℤ) (i : ℕ) (p : EigerParam ℤ)
      (unset : ℤ) (b : Bool), Reachable (system api) ⟨d, S⟩ → S[i]? = some p →
      p.remote = true → p.type = .enum → p.enumValues.length = 2 → p.enumValues.Nodup →
      PutsAgree api d S i p unset b := by
  intro h
  obtain ⟨raw, hbool, hint, -⟩ := (h monitorDetector "disabled".toList [monitorEnable] 0
    monitorEnable 0 false monitorCreated_reachable rfl (by decide) rfl rfl (by decide +kernel)).sent
  exact absurd (hbool.trans hint.symm) (by decide +kernel)

end EigerParams
