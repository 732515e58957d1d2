import ADEiger.EigerParamEnum

/-! What re-reading makes of a choice.
After a choice was put, fetches of any kind and the replies to other puts decode the string
that the detector stored. -/
namespace EigerParams

open CString (Text)
open TransitionSystem

variable {F δ : Type*} [Double F] {api : RestAPI δ} {d d' : δ} {p q r : EigerParam F}
  {S T : EigerParamSet F} {i j k : ℕ} {stored : δ → Text} {subSystem : Sys} {name : Text}

/-- A detector that stores the strings it is sent for one resource: it answers with what it
stores, and after it accepted a string it does answer. -/
structure Stores (api : RestAPI δ) (subSystem : Sys) (name : Text) (stored : δ → Text) :
    Prop where
  get : ∀ d x, api.get d subSystem name = some x → parseValue x = some (stored d)
  put : ∀ d v d' reply, api.put d subSystem name (EigerParam.toStringString v) = some (d', reply) →
    stored d' = v ∧ (api.get d' subSystem name).isSome
  other : ∀ d ss n raw d' reply, (ss, n) ≠ (subSystem, name) →
    api.put d ss n raw = some (d', reply) → stored d' = stored d

/-- The steps that leave the choice to the detector: fetches, puts of other resources, and
changes of the detector that do not concern it. -/
def LeavesResource (subSystem : Sys) (name : Text) (stored : δ → Text) (w : World δ F) :
    Event δ F → Prop
  | .putBool i _ | .putInt i _ | .putDouble i _ | .putString i _ _ =>
    ∀ q ∈ w.params[i]?, (q.subSystem, q.name) ≠ (subSystem, name)
  | .detector d => stored d = stored w.detector
  | _ => True

/-- The text that a fetch reads after choice `i` was put: nothing from a write-only
parameter. -/
def EigerParam.readBack (p : EigerParam F) (i : ℕ) : Text :=
  if p.accessMode = .wo then [] else p.enumValue i

/-- The first index of the table with the text read back is `i`. -/
def ChoiceKept (p : EigerParam F) (i : ℕ) : Prop :=
  match p.asynType with
  | .octet => p.getEnumIndex (p.enumValue i) = some i ∧ p.getEnumIndex (p.readBack i) = some i
  | _ => ∀ j, p.getEnumIndex (p.readBack i) = some j → j = i

section Tables

omit [Double F]

/-- For a parameter that can be read, no choice before `i` has its string. -/
theorem choiceKept_readable (ha : p.accessMode ≠ .wo) (hi : i < p.enumValues.length) :
    ChoiceKept p i ↔ ∀ j, j < i → p.enumValue j ≠ p.enumValue i := by
  have hread : p.readBack i = p.enumValue i := if_neg ha
  rw [← getEnumIndex_enumValue hi, ChoiceKept, hread]
  have hsome : ∃ j, p.getEnumIndex (p.enumValue i) = some j := by
    have hmem : p.enumValue i ∈ p.enumValues := by
      simp [EigerParam.enumValue, hi]
    exact Option.isSome_iff_exists.mp (List.findIdx?_isSome.trans
      (List.any_eq_true.mpr ⟨_, hmem, by simp⟩))
  obtain ⟨j, hj⟩ := hsome
  cases p.asynType with
  | octet => exact and_self_iff
  | int32 => simp [hj]
  | float64 => simp [hj]

theorem Keeps.enumValue (h : Keeps p q) (ht : p.type = .enum) (n : ℤ) :
    q.enumValue n = p.enumValue n := by
  have he : q.enumValues = p.enumValues := (h.known (by simp [ht])).2.2
  simp [EigerParam.enumValue, he]

theorem Keeps.getEnumIndex (h : Keeps p q) (ht : p.type = .enum) (v : Text) :
    q.getEnumIndex v = p.getEnumIndex v := by
  have he : q.enumValues = p.enumValues := (h.known (by simp [ht])).2.2
  simp [EigerParam.getEnumIndex, he]

theorem Keeps.choiceKept (h : Keeps p q) (ht : p.type = .enum) :
    ChoiceKept q i ↔ ChoiceKept p i := by
  have ha : q.accessMode = p.accessMode := (h.known (by simp [ht])).2.1
  simp only [ChoiceKept, EigerParam.readBack, h.asynType, ha, h.enumValue ht, h.getEnumIndex ht]

end Tables

/-- Parameter `k` of the set has property `P`. -/
def At (S : EigerParamSet F) (k : ℕ) (P : EigerParam F → Prop) : Prop := ∃ q, S[k]? = some q ∧ P q

/-- A property that every fetch of the parameter keeps. -/
def KeptByFetch (api : RestAPI δ) (d : δ) (P : EigerParam F → Prop) : Prop :=
  ∀ q q', P q → Fetched api d q q' → P q'

section Sets

variable {P : EigerParam F → Prop} (hP : KeptByFetch api d P)

include hP

theorem fetchAt_at (h : At S k P) : At (S.fetchAt api d i).2 k P := by
  obtain ⟨q, hq, hpq⟩ := h
  rw [EigerParamSet.fetchAt]
  cases hi : S[i]? with
  | none => exact ⟨q, hq, hpq⟩
  | some p =>
    by_cases hk : i = k
    · subst hk
      obtain rfl := Option.some.inj (hi.symm.trans hq)
      exact ⟨_, List.getElem?_set_self (List.getElem?_eq_some_iff.mp hi).1,
        hP p _ hpq (fetch_fetched p)⟩
    · exact ⟨q, (List.getElem?_set_ne hk).trans hq, hpq⟩

theorem fetchParams_at (names : List Text) (h : At S k P) :
    At (S.fetchParams api d names).2 k P := by
  induction names generalizing S with
  | nil => exact h
  | cons name names ih =>
    rw [EigerParamSet.fetchParams]
    cases S.getByName name with
    | none => exact ih h
    | some i => exact ih (fetchAt_at hP h)

theorem modify_at {f : EigerParam F → EigerParam F} (hf : ∀ q, Fetched api d q (f q))
    (h : At S k P) : At (S.modify i f) k P := by
  obtain ⟨q, hq, hpq⟩ := h
  by_cases hk : i = k
  · exact ⟨f q, by simp [hk, hq], hP q _ hpq (hf q)⟩
  · exact ⟨q, by simp [hk, hq], hpq⟩

theorem fetchAll_at (h : At S k P) : At (S.fetchAll api d).2 k P := by
  obtain ⟨q, hq, hpq⟩ := h
  have hget : (S.map fun p => (p.fetch api d).2)[k]? = some (q.fetch api d).2 := by
    rw [List.getElem?_map, hq]
    rfl
  exact ⟨_, hget, hP q _ hpq (fetch_fetched q)⟩

theorem ready_at (h : At S k P) : At (S.ready api d i).2 k P := by
  rw [EigerParamSet.ready]
  cases S[i]? with
  | none => exact h
  | some p =>
    dsimp only
    split_ifs
    · exact fetchAt_at hP h
    · exact h

end Sets

omit [Double F] in
theorem store_at {P : EigerParam F → Prop} {o : Outcome δ F} {v : AsynValue F} (hk : i ≠ k)
    (h : At o.params k P) : At (o.store i v).params k P := by
  obtain ⟨q, hq, hpq⟩ := h
  rw [Outcome.store]
  cases o.params[i]?.bind (·.setParam v) with
  | none => exact ⟨q, hq, hpq⟩
  | some s => exact ⟨q, (List.getElem?_set_ne hk).trans hq, hpq⟩

/-- A put of another parameter fetches parameter `k` before and after the detector took the
value. -/
theorem putRemote_at {P : EigerParam F → Prop}
    {encode : EigerParam F → Option (Text × AsynValue F)} (hk : i ≠ k)
    (hP : KeptByFetch api d P)
    (hP' : ∀ q raw d' names, (S.ready api d i).2[i]? = some q →
      api.put d q.subSystem q.name raw = some (d', names) → KeptByFetch api d' P)
    (h : At S k P) : At (putRemote api d S i encode).params k P := by
  have hready := ready_at (i := i) hP h
  rw [putRemote]
  rcases hr : S.ready api d i with ⟨_ | _, T⟩ <;> rw [hr] at hready hP'
  · exact hready
  · dsimp only at hready hP' ⊢
    cases he : T[i]?.bind encode with
    | none => exact hready
    | some x =>
      obtain ⟨raw, v⟩ := x
      dsimp only
      have hput : At (basePut api d T i raw).params k P := by
        rw [basePut]
        cases hq : T[i]? with
        | none => exact hready
        | some q =>
          dsimp only
          split_ifs
          · exact hready
          · rcases hx : api.put d q.subSystem q.name raw with _ | ⟨d', _ | names⟩
            · exact hready
            · exact hready
            · exact fetchParams_at (hP' q raw d' (some names) hq hx) names hready
      split_ifs
      · exact store_at hk hput
      · exact hput

/-- Parameter `q` is `p` after some fetches and shows choice `i`. -/
structure Chosen (p : EigerParam F) (i : ℕ) (q : EigerParam F) : Prop where
  keeps : Keeps p q
  value : q.getInt = some (i : ℤ)

/-- The raw value of a fetch is the text of the choice that the detector stored. -/
theorem baseFetch_readBack {raw : Text} (hs : Stores api p.subSystem p.name stored)
    (hd : stored d = p.enumValue i) (h : (p.baseFetch api d).1 = some raw) :
    raw = p.readBack i := by
  rcases baseFetch_raw h with ⟨ha, rfl⟩ | ⟨ha, x, hx, hraw⟩
  · exact (if_pos ha).symm
  · have hstored := hs.get d x hx
    rw [hraw, hd] at hstored
    exact (Option.some.inj hstored).trans (if_neg ha).symm

theorem chosen_keptByFetch (hs : Stores api p.subSystem p.name stored) (ht : p.type = .enum)
    (hk : ChoiceKept p i) (hd : stored d = p.enumValue i) : KeptByFetch api d (Chosen p i) := by
  intro q q' ⟨hkeeps, hvalue⟩ hf
  refine ⟨hkeeps.trans hf.keeps, ?_⟩
  have htq : q.type = .enum := (hkeeps.known (by simp [ht])).1.trans ht
  have hknown : q.type ≠ .uninit := by simp [htq]
  obtain ⟨hkb, hvb⟩ := baseFetch_keeps api d q
  have htb : (q.baseFetch api d).2.type = .enum := (hkb.known hknown).1.trans htq
  have hvalues : (q.baseFetch api d).2.enumValues = q.enumValues := (hkb.known hknown).2.2
  cases hf with
  | same => exact hvalue
  | failed => simpa [EigerParam.getInt, EigerParam.getEnumIndex, hvb, hvalues] using hvalue
  | stored hraw hv hasyn =>
    have hs' : Stores api q.subSystem q.name stored := by
      rw [hkeeps.subSystem, hkeeps.name]
      exact hs
    have hd' : stored d = q.enumValue i := hd.trans (hkeeps.enumValue ht i).symm
    obtain rfl := baseFetch_readBack hs' hd' hraw
    have hkept := (hkeeps.choiceKept ht).mpr hk
    rw [ChoiceKept] at hkept
    cases hv with
    | @int v hn =>
      rw [← hasyn] at hkept
      obtain ⟨j, hj, hjv⟩ : ∃ j, (q.baseFetch api d).2.getEnumIndex (q.readBack i) = some j ∧
          (j : ℤ) = v := by
        simpa [EigerParam.intOfRaw, htb] using hn
      rw [hkb.getEnumIndex htq] at hj
      have hji : j = i := hkept j hj
      simp [EigerParam.getInt, ← hjv, hji]
    | double hn =>
      cases hq : q.asyn with
      | float64 x => simp [EigerParam.getInt, hq] at hvalue
      | _ =>
        rw [EigerParam.asynType, hq] at hasyn
        cases hasyn
    | string =>
      rw [← hasyn] at hkept
      have hindex : q.getEnumIndex (q.readBack i) = some i := hkept.2
      have hne : q.enumValues ≠ [] := by
        have hlt := (getEnumIndex_spec hindex).1
        exact List.ne_nil_of_length_pos (Nat.zero_lt_of_lt hlt)
      have hne' : (q.baseFetch api d).2.enumValues ≠ [] := hvalues ▸ hne
      rw [← hkb.getEnumIndex htq] at hindex
      have hget : { (q.baseFetch api d).2 with asyn := AsynValue.octet (q.readBack i) }.getEnumIndex
          (q.readBack i) = some i := hindex
      simp [EigerParam.getInt, hne', hget]

/-- The detector still stores choice `i` and the parameter shows it. -/
structure ShowsChoice (p : EigerParam F) (i k : ℕ) (stored : δ → Text) (w : World δ F) : Prop where
  stored : stored w.detector = p.enumValue i
  param : At w.params k (Chosen p i)

theorem putRemote_detector (api : RestAPI δ) (d : δ) (S : EigerParamSet F) (j : ℕ)
    (encode : EigerParam F → Option (Text × AsynValue F)) :
    (putRemote api d S j encode).detector = d ∨
      ∃ q raw d' reply, (S.ready api d j).2[j]? = some q ∧
        api.put d q.subSystem q.name raw = some (d', reply) ∧
        (putRemote api d S j encode).detector = d' := by
  rw [putRemote]
  rcases S.ready api d j with ⟨_ | _, T⟩
  · exact .inl rfl
  · dsimp only
    cases hq : T[j]? with
    | none => exact .inl rfl
    | some q =>
      cases he : encode q with
      | none => exact .inl (by simp [he, Outcome.refused])
      | some x =>
        obtain ⟨raw, v⟩ := x
        have hstore : ∀ o : Outcome δ F,
            (if o.status then o.store j v else o).detector = o.detector := by
          intro o
          rw [Outcome.store]
          split_ifs
          · cases o.params[j]?.bind (·.setParam v) <;> rfl
          · rfl
        simp only [Option.bind_some, he, hstore]
        rw [basePut]
        simp only [hq]
        split_ifs
        · exact .inl rfl
        · rcases hx : api.put d q.subSystem q.name raw with _ | ⟨d', _ | names⟩
          · exact .inl rfl
          · exact .inr ⟨q, raw, d', none, rfl, hx, rfl⟩
          · exact .inr ⟨q, raw, d', some names, rfl, hx, rfl⟩

section Later

variable {w : World δ F} (hs : Stores api p.subSystem p.name stored) (ht : p.type = .enum)
  (hc : ChoiceKept p i) (h : ShowsChoice p i k stored w)

include hs ht hc h

theorem showsChoice_fetch {S : EigerParamSet F}
    (hS : KeptByFetch api w.detector (Chosen p i) → At S k (Chosen p i)) :
    ShowsChoice p i k stored { w with params := S } :=
  ⟨h.stored, hS (chosen_keptByFetch hs ht hc h.stored)⟩

theorem showsChoice_put {encode : EigerParam F → Option (Text × AsynValue F)}
    (hne : ∀ q ∈ w.params[j]?, (q.subSystem, q.name) ≠ (p.subSystem, p.name)) :
    ShowsChoice p i k stored (.after (putRemote api w.detector w.params j encode)) := by
  have hjk : j ≠ k := by
    rintro rfl
    obtain ⟨q, hq, hchosen⟩ := h.param
    exact hne q hq (by rw [hchosen.keeps.subSystem, hchosen.keeps.name])
  have hother : ∀ q raw d' reply, (w.params.ready api w.detector j).2[j]? = some q →
      api.put w.detector q.subSystem q.name raw = some (d', reply) →
      stored d' = p.enumValue i := by
    intro q raw d' reply hq hput
    refine (hs.other _ _ _ raw d' reply ?_ hput).trans h.stored
    have hkeeps : KeepsAll w.params (w.params.ready api w.detector j).2 :=
      ready_keepsAll w.params j
    have hlt : j < w.params.length := by
      rw [← hkeeps.length]
      exact (List.getElem?_eq_some_iff.mp hq).1
    have hget : w.params[j]? = some w.params[j] := List.getElem?_eq_getElem hlt
    have hk := hkeeps.keeps j _ q hget hq
    rw [hk.subSystem, hk.name]
    exact hne _ hget
  constructor
  · rcases putRemote_detector api w.detector w.params j encode with
      hd | ⟨q, raw, d', reply, hq, hput, hd⟩
    · exact (congrArg stored hd).trans h.stored
    · exact (congrArg stored hd).trans (hother q raw d' reply hq hput)
  · refine putRemote_at hjk (chosen_keptByFetch hs ht hc h.stored) ?_ h.param
    intro q raw d' names hq hput
    exact chosen_keptByFetch hs ht hc (hother q raw d' names hq hput)

omit [Double F] hs ht hc in
theorem showsChoice_putLocal {v : AsynValue F}
    (hne : ∀ q ∈ w.params[j]?, (q.subSystem, q.name) ≠ (p.subSystem, p.name)) :
    ShowsChoice p i k stored (.after (putLocal w.detector w.params j v)) := by
  have hjk : j ≠ k := by
    rintro rfl
    obtain ⟨q, hq, hchosen⟩ := h.param
    exact hne q hq (by rw [hchosen.keeps.subSystem, hchosen.keeps.name])
  refine ⟨?_, store_at hjk h.param⟩
  have hd : (putLocal w.detector w.params j v).detector = w.detector := by
    unfold putLocal Outcome.store
    cases w.params[j]?.bind (·.setParam v) <;> rfl
  exact (congrArg stored hd).trans h.stored

theorem showsChoice_step {e : Event δ F} (he : Enabled w e)
    (hl : LeavesResource p.subSystem p.name stored w e) :
    ShowsChoice p i k stored (next api w e) := by
  cases e with
  | create asynName asyn subSystem name =>
    obtain ⟨q, hq, hchosen⟩ := h.param
    refine ⟨h.stored, q, ?_, hchosen⟩
    exact (List.getElem?_append_left (List.getElem?_eq_some_iff.mp hq).1).trans hq
  | setEnumValues j values =>
    obtain ⟨q, hq, hchosen⟩ := h.param
    have hjk : j ≠ k := by
      rintro rfl
      have hu : q.type = .uninit := he q hq
      have hknown : p.type ≠ .uninit := by simp [ht]
      exact hknown ((hchosen.keeps.known hknown).1.symm.trans hu)
    exact ⟨h.stored, q, by simp [next, World.update, hjk, hq], hchosen⟩
  | setEpsilon j epsilon =>
    obtain ⟨q, hq, hchosen⟩ := h.param
    refine ⟨h.stored, ?_⟩
    by_cases hjk : j = k
    · have hset : Keeps q (q.setEpsilon epsilon) :=
        ⟨rfl, rfl, rfl, rfl, fun _ => ⟨rfl, rfl, rfl⟩, id⟩
      exact ⟨q.setEpsilon epsilon, by simp [next, World.update, hjk, hq],
        hchosen.keeps.trans hset, hchosen.value⟩
    · exact ⟨q, by simp [next, World.update, hjk, hq], hchosen⟩
  | fetch j => exact showsChoice_fetch hs ht hc h fun hP => fetchAt_at hP h.param
  | fetchBool j =>
    exact showsChoice_fetch hs ht hc h fun hP => modify_at hP fetchBool_fetched h.param
  | fetchInt j =>
    exact showsChoice_fetch hs ht hc h fun hP => modify_at hP fetchInt_fetched h.param
  | fetchDouble j =>
    exact showsChoice_fetch hs ht hc h fun hP => modify_at hP fetchDouble_fetched h.param
  | fetchString j =>
    exact showsChoice_fetch hs ht hc h fun hP => modify_at hP fetchString_fetched h.param
  | fetchAll => exact showsChoice_fetch hs ht hc h fun hP => fetchAll_at hP h.param
  | putBool j value =>
    simp only [next, putBool]
    cases hq : w.params[j]? with
    | none => exact h
    | some q =>
      dsimp only
      split_ifs
      · exact showsChoice_put hs ht hc h hl
      · exact showsChoice_putLocal h hl
      · exact showsChoice_putLocal h hl
  | putInt j value =>
    simp only [next, putInt]
    cases hq : w.params[j]? with
    | none => exact h
    | some q =>
      dsimp only
      split_ifs
      · exact showsChoice_put hs ht hc h hl
      · exact showsChoice_putLocal h hl
  | putDouble j value =>
    simp only [next, putDouble]
    cases hq : w.params[j]? with
    | none => exact h
    | some q =>
      dsimp only
      split_ifs
      · exact h
      · exact showsChoice_put hs ht hc h hl
      · exact showsChoice_putLocal h hl
  | putString j unset value =>
    simp only [next, putString]
    cases hq : w.params[j]? with
    | none => exact h
    | some q =>
      dsimp only
      split_ifs
      · exact showsChoice_put hs ht hc h hl
      · exact showsChoice_putLocal h hl
  | detector d => exact ⟨hl.trans h.stored, h.param⟩

end Later

/-- After a choice was put successfully, every step that leaves the resource alone leaves the
parameter at that choice. -/
def SurvivesRereading (api : RestAPI δ) (w : World δ F) (k i : ℕ) (p : EigerParam F)
    (stored : δ → Text) : Prop :=
  ∀ w', Reaches (systemFrom api (· = w)) (LeavesResource p.subSystem p.name stored) w' →
    ∃ q, w'.params[k]? = some q ∧ q.getInt = some (i : ℤ)

/-- What a successful put of a choice leaves in the detector and in the parameter. -/
theorem putInt_choice {w : World δ F} (hw : Reachable (system api) w)
    (ho : (putInt api w.detector w.params k i).status = true)
    (hp : (putInt api w.detector w.params k i).params[k]? = some p) (hr : p.remote = true)
    (ht : p.type = .enum) (hi : i < p.enumValues.length)
    (hs : Stores api p.subSystem p.name stored) :
    stored (putInt api w.detector w.params k i).detector = p.enumValue i ∧
      (api.get (putInt api w.detector w.params k i).detector p.subSystem p.name).isSome ∧
      p.asyn = p.intValue i := by
  have hkeeps : KeepsAll w.params (putInt api w.detector w.params k i).params :=
    putInt_keepsAll w.params k i
  cases hp₀ : w.params[k]? with
  | none => simp [putInt, hp₀, Outcome.refused] at ho
  | some p₀ =>
    have hr₀ : p₀.remote = true := (hkeeps.keeps k p₀ p hp₀ hp).remote ▸ hr
    simp only [putInt, hp₀, hr₀, if_true] at ho hp ⊢
    obtain ⟨T, q, raw, v, d', names, ok, U, r, s, hready, hq, he, hput, hf, hr', hset, ho'⟩ :=
      putRemote_succeeds ho
    rw [ho'] at hp ⊢
    have hlt : k < U.length := (List.getElem?_eq_some_iff.mp hr').1
    obtain rfl : s = p := by
      simpa [List.getElem?_set_self hlt] using hp
    have hqr : Keeps q r := (keepsAll_of_fetchParams hf).keeps k q r hq hr'
    have hqs : Keeps q s := hqr.trans (keeps_setParam hset)
    have hknown : q.type ≠ .uninit := by
      intro hu
      simp [EigerParam.encodeInt, hu] at he
    have htq : q.type = .enum := (hqs.known hknown).1.symm.trans ht
    have hlq : EnumLimits q := by
      have hkr : KeepsAll w.params (w.params.ready api w.detector k).2 :=
        ready_keepsAll w.params k
      rw [hready] at hkr
      exact (hkr.keeps k p₀ q hp₀ hq).limits
        (reachable_enumLimits hw p₀ (List.mem_of_getElem? hp₀))
    have hiq : i < q.enumValues.length := by
      rw [← (hqs.known hknown).2.2]
      exact hi
    rw [encodeInt_enum htq hlq hiq] at he
    obtain ⟨rfl, rfl⟩ := Prod.mk.inj (Option.some.inj he)
    rw [← hqs.subSystem, ← hqs.name] at hput
    obtain ⟨hstored, hget⟩ := hs.put _ _ _ _ hput
    refine ⟨hstored.trans (hqs.enumValue htq i).symm, hget, ?_⟩
    have hasyn : s.asyn = q.intValue i := by rw [(setParam_eq hset).2]
    rw [hasyn]
    simp only [EigerParam.intValue, hqs.asynType, hqs.enumValue htq]

theorem baseFetch_enum (hr : p.remote = true) (ht : p.type = .enum)
    (hs : Stores api p.subSystem p.name stored) (hd : stored d = p.enumValue i)
    (hg : (api.get d p.subSystem p.name).isSome) :
    (p.baseFetch api d).1 = some (p.readBack i) := by
  unfold EigerParam.baseFetch EigerParam.readBack
  simp only [hr, Bool.not_true, Bool.false_eq_true, if_false]
  by_cases ha : p.accessMode = .wo
  · simp [ha]
  · obtain ⟨x, hx⟩ := Option.isSome_iff_exists.mp hg
    have hq : p.initType x = some p := by simp [EigerParam.initType, ht]
    have hok := (parseLimits_spec p x).2.1 ht
    rcases hl : p.parseLimits x with ⟨ok, q⟩
    rw [hl] at hok
    obtain rfl : ok = true := hok
    simp [ha, hx, hq, hl, hs.get d x hx, hd]

theorem fetch_enum_int {j : ℕ} (hr : p.remote = true) (ht : p.type = .enum)
    (ha : p.asynType = .int32) {raw : Text} (hraw : (p.baseFetch api d).1 = some raw)
    (hj : p.getEnumIndex raw = some j) : (p.fetch api d).2.getInt = some (j : ℤ) := by
  obtain ⟨hk, hv⟩ := baseFetch_keeps api d p
  have hknown : p.type ≠ .uninit := by simp [ht]
  rcases hb : p.baseFetch api d with ⟨raw', q⟩
  rw [hb] at hk hv hraw
  obtain rfl : raw' = some raw := hraw
  have htq : q.type = .enum := (hk.known hknown).1.trans ht
  have hjq : q.getEnumIndex raw = some j := (hk.getEnumIndex ht raw).trans hj
  have haq : q.asynType = .int32 := hk.asynType.trans ha
  simp [EigerParam.fetch, ha, EigerParam.fetchInt, hr, ht, hb, EigerParam.intOfRaw, htq, hjq,
    EigerParam.setParam, haq, AsynValue.type, EigerParam.getInt]

theorem fetch_enum_octet (hr : p.remote = true) (ht : p.type = .enum)
    (ha : p.asynType = .octet) {raw : Text} (hraw : (p.baseFetch api d).1 = some raw) :
    (p.fetch api d).2.asyn = .octet raw := by
  obtain ⟨hk, hv⟩ := baseFetch_keeps api d p
  rcases hb : p.baseFetch api d with ⟨raw', q⟩
  rw [hb] at hk hv hraw
  obtain rfl : raw' = some raw := hraw
  have haq : q.asynType = .octet := hk.asynType.trans ha
  simp [EigerParam.fetch, ha, EigerParam.fetchString, hr, ht, hb, EigerParam.setParam, haq,
    AsynValue.type]

omit [Double F] in
/-- A choice that was put is an index or its text. -/
theorem asyn_intValue (h : p.asyn = p.intValue i) :
    p.asynType = .int32 ∧ p.asyn = .int32 i ∨
      p.asynType = .octet ∧ p.asyn = .octet (p.enumValue i) := by
  by_cases ha : p.asynType = .int32
  · rw [EigerParam.intValue, if_pos ha] at h
    exact .inl ⟨ha, h⟩
  · rw [EigerParam.intValue, if_neg ha] at h
    exact .inr ⟨congrArg AsynValue.type h, h⟩

/-- The next fetch, if it is to give the choice, finds it in the table. -/
theorem choiceKept_of_fetch (hr : p.remote = true) (ht : p.type = .enum)
    (hi : i < p.enumValues.length) (hraw : (p.baseFetch api d).1 = some (p.readBack i))
    (hasyn : p.asyn = p.intValue i) (hbefore : p.getInt = some (i : ℤ))
    (hafter : (p.fetch api d).2.getInt = some (i : ℤ)) : ChoiceKept p i := by
  have hne : p.enumValues ≠ [] := List.ne_nil_of_length_pos (Nat.zero_lt_of_lt hi)
  rcases asyn_intValue hasyn with ⟨ha, -⟩ | ⟨ha, hoctet⟩
  · rw [ChoiceKept, ha]
    intro j hj
    have hj' := fetch_enum_int hr ht ha hraw hj
    exact_mod_cast Option.some.inj (hj'.symm.trans hafter)
  · rw [ChoiceKept, ha]
    have hread := fetch_enum_octet hr ht ha hraw
    have hk : Keeps p (p.fetch api d).2 := (fetch_fetched p).keeps
    have hne' := (hk.known (by simp [ht])).2.2.symm ▸ hne
    rw [EigerParam.getInt, hread] at hafter
    constructor
    · obtain ⟨j, hj, hji⟩ : ∃ j, p.getEnumIndex (p.enumValue i) = some j ∧ (j : ℤ) = i := by
        simpa [EigerParam.getInt, hoctet, hne] using hbefore
      rwa [show j = i by exact_mod_cast hji] at hj
    · obtain ⟨j, hj, hji⟩ : ∃ j, p.getEnumIndex (p.readBack i) = some j ∧ (j : ℤ) = i := by
        simpa [hne', hk.getEnumIndex ht] using hafter
      rwa [show j = i by exact_mod_cast hji] at hj

omit [Double F] in
theorem ChoiceKept.getInt (h : ChoiceKept p i) (hi : i < p.enumValues.length)
    (hasyn : p.asyn = p.intValue i) : p.getInt = some (i : ℤ) := by
  have hne : p.enumValues ≠ [] := List.ne_nil_of_length_pos (Nat.zero_lt_of_lt hi)
  rcases asyn_intValue hasyn with ⟨-, hint⟩ | ⟨ha, hoctet⟩
  · simp [EigerParam.getInt, hint]
  · rw [ChoiceKept, ha] at h
    simp [EigerParam.getInt, hoctet, hne, h.1]

/-- A choice survives re-reading exactly when the text that is read back has no smaller
index in the table. -/
theorem choice_survives_iff {w : World δ F} (hw : Reachable (system api) w)
    (ho : (putInt api w.detector w.params k i).status = true)
    (hp : (putInt api w.detector w.params k i).params[k]? = some p) (hr : p.remote = true)
    (ht : p.type = .enum) (hi : i < p.enumValues.length)
    (hs : Stores api p.subSystem p.name stored) :
    SurvivesRereading api (.after (putInt api w.detector w.params k i)) k i p stored ↔
      ChoiceKept p i := by
  obtain ⟨hd, hget, hasyn⟩ := putInt_choice hw ho hp hr ht hi hs
  have hraw := baseFetch_enum hr ht hs hd hget
  constructor
  · intro h
    have hstart := h _ (.start rfl)
    have hfetch := h (next api (.after (putInt api w.detector w.params k i)) (.fetch k))
      (.step (e := Event.fetch k) (.start rfl) trivial trivial)
    have hself : (putInt api w.detector w.params k i).params[k]? = some p := hp
    have hafter : (next api (.after (putInt api w.detector w.params k i)) (.fetch k)).params[k]? =
        some (p.fetch api (putInt api w.detector w.params k i).detector).2 := by
      simp only [next, World.after, EigerParamSet.fetchAt, hself]
      exact List.getElem?_set_self (List.getElem?_eq_some_iff.mp hself).1
    obtain ⟨q, hq, hvalue⟩ := hfetch
    obtain rfl := Option.some.inj (hq.symm.trans hafter)
    obtain ⟨q, hq, hbefore⟩ := hstart
    obtain rfl := Option.some.inj (hq.symm.trans hself)
    exact choiceKept_of_fetch hr ht hi hraw hasyn hbefore hvalue
  · intro hc w' hreach
    have hshows : ShowsChoice p i k stored w' := by
      refine hreach.invariant (I := ShowsChoice p i k stored) ?_
        fun _ _ h he hl => showsChoice_step hs ht hc h he hl
      rintro _ rfl
      exact ⟨hd, p, hp, .refl p, hc.getInt hi hasyn⟩
    obtain ⟨q, hq, hchosen⟩ := hshows.param
    exact ⟨q, hq, hchosen.value⟩

theorem oneResource_stores (subSystem : Sys) (name : Text) :
    Stores (oneResource subSystem name) subSystem name id where
  get d x hx := by
    have hx : some (stringResponse d) = some x := (if_pos ⟨rfl, rfl⟩).symm.trans hx
    obtain rfl := Option.some.inj hx
    rfl
  put d v d' reply h := by
    have h : some (((EigerParam.toStringString v).drop 1).dropLast, some []) = some (d', reply) :=
      (if_pos ⟨rfl, rfl⟩).symm.trans h
    obtain ⟨rfl, -⟩ := Prod.mk.inj (Option.some.inj h)
    refine ⟨?_, Option.isSome_iff_exists.mpr ⟨_, if_pos ⟨rfl, rfl⟩⟩⟩
    simp [EigerParam.toStringString]
  other d ss n raw d' reply hne h := by
    have hno : ¬ (ss = subSystem ∧ n = name) := fun he => hne (by rw [he.1, he.2])
    have h : none = some (d', reply) := (if_neg hno).symm.trans h
    cases h

/-- `triggerModeEnum` of the constructor, without the gated mode. -/
def triggerModeEnum : List Text :=
  ["ints".toList, "inte".toList, "exts".toList, "exte".toList, "ints".toList, []]

def TRIGGER_MODE_INTE : ℕ := 1
def TRIGGER_MODE_CONTINUOUS : ℕ := 4

/-- The driver creates the trigger mode and fetches it. -/
def triggerModeCreated : List (Event Text ℤ) :=
  [.create "TRIGGER_MODE".toList (.int32 0) .detConfig "trigger_mode".toList,
   .setEnumValues 0 triggerModeEnum, .fetch 0]

def triggerDetector : RestAPI Text := oneResource .detConfig "trigger_mode".toList

def triggerMode (choice : ℤ) : EigerParam ℤ where
  asynName := "TRIGGER_MODE".toList
  subSystem := .detConfig
  name := "trigger_mode".toList
  type := .enum
  accessMode := .rw
  min := ⟨true, 0, 0⟩
  max := ⟨true, 5, 0⟩
  enumValues := triggerModeEnum
  criticalValues := []
  epsilon := 0
  customEnum := true
  asyn := .int32 choice

theorem triggerModeCreated_reachable :
    Reachable (system triggerDetector) ⟨"ints".toList, [triggerMode 0]⟩ := by
  have hrun : runTrace (system triggerDetector) ⟨"ints".toList, []⟩ triggerModeCreated =
      ⟨"ints".toList, [triggerMode 0]⟩ := by decide +kernel
  rw [← hrun]
  exact reachable_trace rfl _ (by decide +kernel)

/-- The mode "inte" survives. -/
theorem choice_survives_inte :
    SurvivesRereading triggerDetector
      (.after (putInt triggerDetector "ints".toList [triggerMode 0] 0 TRIGGER_MODE_INTE)) 0
      TRIGGER_MODE_INTE (triggerMode TRIGGER_MODE_INTE) id := by
  have hstores : Stores triggerDetector (triggerMode TRIGGER_MODE_INTE).subSystem
      (triggerMode TRIGGER_MODE_INTE).name id :=
    oneResource_stores .detConfig "trigger_mode".toList
  apply (choice_survives_iff triggerModeCreated_reachable (by decide +kernel) (by decide +kernel)
    (by decide) rfl (by decide) hstores).mpr
  exact (choiceKept_readable (by decide) (by decide)).mpr (by decide +kernel)

/-- The continuous mode is sent as "ints" and read back as the mode of that name. -/
theorem continuous_reread_as_ints :
    ¬ ∀ (api : RestAPI Text) (w : World Text ℤ) (k i : ℕ) (p : EigerParam ℤ)
      (stored : Text → Text), Reachable (system api) w →
      (putInt api w.detector w.params k i).status = true →
      (putInt api w.detector w.params k i).params[k]? = some p → p.remote = true →
      p.type = .enum → i < p.enumValues.length → Stores api p.subSystem p.name stored →
      SurvivesRereading api (.after (putInt api w.detector w.params k i)) k i p stored := by
  intro h
  have hsurvives := h triggerDetector _ 0 TRIGGER_MODE_CONTINUOUS
    (triggerMode TRIGGER_MODE_CONTINUOUS) id triggerModeCreated_reachable (by decide +kernel)
    (by decide +kernel) (by decide) rfl (by decide)
    (oneResource_stores .detConfig "trigger_mode".toList)
  obtain ⟨q, hq, hvalue⟩ := hsurvives (next triggerDetector _ (.fetch 0))
    (.step (e := Event.fetch 0) (.start rfl) trivial trivial)
  have hints : (next triggerDetector (.after (putInt triggerDetector "ints".toList
      [triggerMode 0] 0 TRIGGER_MODE_CONTINUOUS)) (.fetch 0)).params[0]? =
      some (triggerMode 0) := by decide +kernel
  obtain rfl := Option.some.inj (hq.symm.trans hints)
  exact absurd hvalue (by decide)

end EigerParams
