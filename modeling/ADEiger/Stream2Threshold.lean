import ADEiger.Stream2Api
import ADEiger.StreamMessages
import Mathlib.Tactic.ByContra

/-! The thresholds of the second stream interface.
The start message gives an energy to each channel and an image message an array; getFrame takes
the attributes of an array from the energy that stands at its place. -/
namespace Stream2Api

open CString (Text)
open TinyCbor (Bytes)
open Stream2
open StreamApi (Err)

variable {env : Env} {api api' : Stream2API} {calls : ℕ → Call} {extract : Bool} {n thresh i : ℕ}
  {sm : StartMsg} {im : ImageMsg} {channel : Text} {mda : MultidimArray}

def channelName (n : ℕ) : Text := "threshold_".toList ++ Nat.toDigits 10 n

/-- The images that came before, each with all of its thresholds. -/
inductive Series (env : Env) (api : Stream2API) : Stream2API → Prop where
  | start : Series env api api
  | image {before waiting after : Stream2API} {numThresholds : ℕ} {message : Bytes}
      {waited : Waited} {extract : Bool} {calls : ℕ → Call}
      {outcomes : List Outcome} :
      Series env api before → waitFrame before numThresholds message = .ok (waited, waiting) →
      thresholdLoop env extract calls waited.numThresholds 0 waiting = (outcomes, .ok after) →
      Series env api after

/-- What the arrays of an image are to say, and where the energies are read. -/
def Attributed (sm : StartMsg) (im : ImageMsg) (outcomes : List Outcome) : Prop :=
  ∀ (i : ℕ) (outcome : Outcome), outcomes[i]? = some outcome → outcome ≠ .error .outOfRange ∧
    ∀ err a channel mda energy n, outcome = .ok (err, some a) → im.data[i]? = some (channel, mda) →
      (channel, energy) ∈ sm.thresholdEnergy → channel = channelName n →
        a.thresholdNumber = some (n : ℤ) ∧ a.thresholdEnergy = energy

/-- A time stamp can be taken from the message, if one is asked for. -/
def HasTime (extract : Bool) (im : ImageMsg) : Prop :=
  extract = true → im.seriesDate ≠ none ∧ im.startTime.2 ≠ 0

/-- An array is built from the channel at `i`. -/
def Builds (calls : ℕ → Call) (i : ℕ) (mda : MultidimArray) : Prop :=
  dataTypeOf mda.array.tag ≠ none ∧ (calls i).alloc = true

/-- Each channel with an array stands where its energy stands, and no array has no energy. -/
def InStep (sm : StartMsg) (im : ImageMsg) (extract : Bool) (calls : ℕ → Call) : Prop :=
  HasTime extract im → ∀ i channel mda, im.data[i]? = some (channel, mda) → Builds calls i mda →
    i < sm.thresholdEnergy.length ∧ ∀ energy, (channel, energy) ∈ sm.thresholdEnergy →
      sm.thresholdEnergy[i]? = some (channel, energy) ∧
        ∀ n, channel = channelName n → n < 2 ^ 31

def Named {α : Type} (entries : List (Text × α)) : Prop :=
  ∀ entry ∈ entries, ∃ n, entry.1 = channelName n

section Names

theorem digits_value (n : ℕ) : EigerParams.scanInt (Nat.toDigits 10 n) = some (n : ℤ) := by
  have hdigit : ∀ c ∈ Nat.toDigits 10 n, c.isDigit = true := fun c hc =>
    CString.isDigit_of_mem_digits hc
  have hvalue : CString.digitsValue (Nat.toDigits 10 n) = n := by
    have h := Nat.ofDigitChars_ten_toDigits (n := n)
    rwa [Nat.ofDigitChars_eq_foldl] at h
  rw [EigerParams.scanInt_digits Nat.toDigits_ne_nil hdigit, hvalue]

theorem scanThreshold_name (n : ℕ) :
    scanThreshold (channelName n) = if n < 2 ^ 31 then some (n : ℤ) else none := by
  have hprefix : "threshold_".toList.isPrefixOf (channelName n) = true := by
    rw [List.isPrefixOf_iff_prefix]
    exact List.prefix_append _ _
  have hdrop : (channelName n).drop 10 = Nat.toDigits 10 n := List.drop_left' rfl
  rw [scanThreshold, if_pos hprefix, hdrop, digits_value]
  by_cases hn : n < 2 ^ 31
  · have hint : -2 ^ 31 ≤ (n : ℤ) ∧ (n : ℤ) < 2 ^ 31 := by omega
    rw [if_pos hn, Option.filter_some, if_pos (by simpa using hint)]
  · have hint : ¬ (-2 ^ 31 ≤ (n : ℤ) ∧ (n : ℤ) < 2 ^ 31) := by omega
    rw [if_neg hn, Option.filter_some, if_neg (by simpa using hint)]

theorem channelName_injective {n m : ℕ} (h : channelName n = channelName m) : n = m := by
  have hdigits := congrArg (fun t => EigerParams.scanInt (t.drop 10)) h
  have hdrop : ∀ k, (channelName k).drop 10 = Nat.toDigits 10 k := fun k => List.drop_left' rfl
  exact Int.ofNat_inj.mp (by simpa [hdrop, digits_value] using hdigits)

end Names

section Frame

/-- The state while the arrays of an image are built, before the call at `thresh`. -/
structure Serves (sm : StartMsg) (im : ImageMsg) (thresh : ℕ) (api : Stream2API) : Prop where
  message : thresh < im.data.length → api.mImageMsg = some im
  thresholds : api.mThresholdEnergy = sm.thresholdEnergy
  number : api.mNumThresholds = im.data.length

theorem Serves.cached (h : Serves sm im thresh api) (cached : Text × EpicsTimeStamp) :
    Serves sm im thresh { api with mCachedTs := cached } :=
  ⟨h.message, h.thresholds, h.number⟩

theorem Serves.release (h : Serves sm im thresh api) :
    Serves sm im (thresh + 1) (api.release thresh) := by
  rw [Stream2API.release]
  by_cases hlast : thresh + 1 = api.mNumThresholds
  · rw [if_pos hlast]
    have hn := h.number
    exact ⟨fun hlt => absurd hlt (by omega), h.thresholds, h.number⟩
  · rw [if_neg hlast]
    exact ⟨fun hlt => h.message (Nat.lt_of_succ_lt hlt), h.thresholds, h.number⟩

variable (env extract)

theorem frameTimeStamp_hasTime (ht : HasTime extract im) (api : Stream2API) : ∃ ts cached,
    frameTimeStamp env api extract im = .ok (ts, { api with mCachedTs := cached }) := by
  cases extract with
  | false => exact ⟨none, api.mCachedTs, rfl⟩
  | true =>
    obtain ⟨hdate, hbase⟩ := ht rfl
    obtain ⟨date, hsome⟩ := Option.ne_none_iff_exists'.mp hdate
    have hextract : extractTimeStampFromMessage env api im = .ok
        (frameTime (cacheTs env api.mCachedTs date).2 im.startTime.1 im.startTime.2,
          { api with mCachedTs := cacheTs env api.mCachedTs date }) := by
      simp only [extractTimeStampFromMessage, hsome, if_neg hbase]
    rw [frameTimeStamp, if_pos rfl, hextract]
    exact ⟨_, _, rfl⟩

theorem frameTimeStamp_noTime (ht : ¬ HasTime extract im) (api : Stream2API) :
    ∃ fault, fault ≠ .outOfRange ∧ frameTimeStamp env api extract im = .error fault := by
  cases extract with
  | false => exact absurd (fun h => by cases h) ht
  | true =>
    rw [HasTime] at ht
    rw [frameTimeStamp, if_pos rfl, extractTimeStampFromMessage]
    cases hdate : im.seriesDate with
    | none => exact ⟨.nullPointer, by decide, rfl⟩
    | some date =>
      have hbase : im.startTime.2 = 0 := by simpa [hdate] using ht
      refine ⟨.divisionByZero, by decide, ?_⟩
      simp only [if_pos hbase]
      rfl

variable (hs : Serves sm im thresh api) (hentry : im.data[thresh]? = some (channel, mda))

include hs hentry

theorem getFrame_eq : getFrame env api thresh extract (calls thresh) =
    frameOf env api thresh extract (calls thresh) im mda := by
  have hlt : thresh < im.data.length := (List.getElem?_eq_some_iff.mp hentry).1
  simp only [getFrame, hs.message hlt, hentry]

theorem getFrame_skips (hb : ¬ Builds calls thresh mda) :
    getFrame env api thresh extract (calls thresh) = .ok ((.error, none), api.release thresh) := by
  rw [getFrame_eq env extract hs hentry, frameOf]
  cases htype : dataTypeOf mda.array.tag with
  | none => rfl
  | some type =>
    have halloc : (calls thresh).alloc = false := by
      by_contra h
      exact hb ⟨by rw [htype]; exact Option.some_ne_none type, by simpa using h⟩
    exact if_pos halloc

theorem getFrame_fills (hb : Builds calls thresh mda) : ∃ type,
    getFrame env api thresh extract (calls thresh) =
      (fillFrame env api thresh (calls thresh).decompress extract im mda type).map fun r =>
        ((.success, some r.1), r.2.release thresh) := by
  obtain ⟨type, htype⟩ := Option.ne_none_iff_exists'.mp hb.1
  refine ⟨type, ?_⟩
  rw [getFrame_eq env extract hs hentry, frameOf, htype]
  exact if_neg (by rw [hb.2]; exact Bool.noConfusion)

theorem getFrame_noTime (hb : Builds calls thresh mda) (ht : ¬ HasTime extract im) :
    ∃ fault, fault ≠ .outOfRange ∧
      getFrame env api thresh extract (calls thresh) = .error fault := by
  obtain ⟨type, hfill⟩ := getFrame_fills env extract hs hentry hb
  obtain ⟨fault, hne, hfault⟩ := frameTimeStamp_noTime env extract ht api
  refine ⟨fault, hne, ?_⟩
  rw [hfill, fillFrame, hfault]
  rfl

theorem getFrame_beyond (hb : Builds calls thresh mda) (ht : HasTime extract im)
    (hnone : sm.thresholdEnergy[thresh]? = none) :
    getFrame env api thresh extract (calls thresh) = .error .outOfRange := by
  obtain ⟨type, hfill⟩ := getFrame_fills env extract hs hentry hb
  obtain ⟨ts, cached, hts⟩ := frameTimeStamp_hasTime env extract ht api
  have hout : fillFrame env api thresh (calls thresh).decompress extract im mda type =
      .error .outOfRange := by
    simp only [fillFrame, hts, bind, Except.bind, hs.thresholds, hnone]
  rw [hfill, hout]
  rfl

theorem getFrame_builds (hb : Builds calls thresh mda) (ht : HasTime extract im) {c : Text} {e : ℕ}
    (hsome : sm.thresholdEnergy[thresh]? = some (c, e)) :
    ∃ a api', getFrame env api thresh extract (calls thresh) = .ok ((.success, some a), api') ∧
      Serves sm im (thresh + 1) api' ∧ a.thresholdNumber = scanThreshold c ∧
        a.thresholdEnergy = e := by
  obtain ⟨type, hfill⟩ := getFrame_fills env extract hs hentry hb
  obtain ⟨ts, cached, hts⟩ := frameTimeStamp_hasTime env extract ht api
  have hout : ∃ a, fillFrame env api thresh (calls thresh).decompress extract im mda type =
      .ok (a, { api with mCachedTs := cached }) ∧ a.thresholdNumber = scanThreshold c ∧
        a.thresholdEnergy = e := by
    simp only [fillFrame, hts, bind, Except.bind, hs.thresholds, hsome]
    exact ⟨_, rfl, rfl, rfl⟩
  obtain ⟨a, ha, hnumber, henergy⟩ := hout
  refine ⟨a, _, ?_, (hs.cached cached).release, hnumber, henergy⟩
  rw [hfill, ha]
  rfl

theorem getFrame_serves {result : Err × Option NDArray}
    (h : getFrame env api thresh extract (calls thresh) = .ok (result, api')) :
    Serves sm im (thresh + 1) api' := by
  by_cases hb : Builds calls thresh mda
  · by_cases ht : HasTime extract im
    · cases hthr : sm.thresholdEnergy[thresh]? with
      | none =>
        rw [getFrame_beyond env extract hs hentry hb ht hthr] at h
        cases h
      | some entry =>
        obtain ⟨a, after, hget, hserves, -⟩ := getFrame_builds env extract hs hentry hb ht hthr
        rw [hget] at h
        obtain ⟨-, rfl⟩ := Prod.mk.inj (Except.ok.inj h)
        exact hserves
    · obtain ⟨fault, -, hfault⟩ := getFrame_noTime env extract hs hentry hb ht
      rw [hfault] at h
      cases h
  · rw [getFrame_skips env extract hs hentry hb] at h
    obtain ⟨-, rfl⟩ := Prod.mk.inj (Except.ok.inj h)
    exact hs.release

end Frame

section Loop

/-- Each outcome is that of a call in the state that the loop has reached. -/
theorem thresholdLoop_outcome {outcome : Outcome} (hs : Serves sm im thresh api)
    (hn : thresh + n ≤ im.data.length)
    (h : (thresholdLoop env extract calls n thresh api).1[i]? = some outcome) :
    ∃ api', Serves sm im (thresh + i) api' ∧ i < n ∧
      outcome = (getFrame env api' (thresh + i) extract (calls (thresh + i))).map Prod.fst := by
  induction n generalizing thresh api i with
  | zero => simp [thresholdLoop] at h
  | succ n ih =>
    have hlt : thresh < im.data.length := by omega
    have hentry := List.getElem?_eq_getElem hlt
    rw [thresholdLoop] at h
    cases hget : getFrame env api thresh extract (calls thresh) with
    | error fault =>
      simp only [hget] at h
      obtain ⟨hi, ho⟩ := List.getElem?_eq_some_iff.mp h
      have hzero : i = 0 := by simpa using hi
      subst hzero
      refine ⟨api, hs, Nat.succ_pos n, ?_⟩
      rw [Nat.add_zero, hget, ← ho]
      rfl
    | ok r =>
      obtain ⟨result, after⟩ := r
      simp only [hget] at h
      cases i with
      | zero =>
        refine ⟨api, hs, Nat.succ_pos n, ?_⟩
        rw [Nat.add_zero, hget, ← Option.some.inj h]
        rfl
      | succ i =>
        have hafter := getFrame_serves env extract hs hentry hget
        obtain ⟨at', hat, hi, ho⟩ := ih hafter (by omega) h
        rw [show thresh + 1 + i = thresh + (i + 1) by omega] at hat ho
        exact ⟨at', hat, Nat.succ_lt_succ hi, ho⟩

theorem thresholdLoop_length
    (h : ∀ fault, .error fault ∉ (thresholdLoop env extract calls n thresh api).1) :
    (thresholdLoop env extract calls n thresh api).1.length = n := by
  induction n generalizing thresh api with
  | zero => rfl
  | succ n ih =>
    rw [thresholdLoop] at h ⊢
    cases hget : getFrame env api thresh extract (calls thresh) with
    | error fault =>
      simp only [hget] at h
      exact absurd List.mem_cons_self (h fault)
    | ok r =>
      simp only [hget] at h ⊢
      rw [List.length_cons, ih fun fault hmem => h fault (List.mem_cons_of_mem _ hmem)]

end Loop

section Attribution

variable (hs : Serves sm im 0 api)

include hs

theorem attributed_of_inStep (h : InStep sm im extract calls) :
    Attributed sm im (thresholdLoop env extract calls im.data.length 0 api).1 := by
  intro i outcome ho
  obtain ⟨at', hat, hi, rfl⟩ := thresholdLoop_outcome hs (Nat.le_of_eq (Nat.zero_add _)) ho
  rw [Nat.zero_add] at hat ⊢
  obtain ⟨⟨channel, mda⟩, hentry⟩ : ∃ entry, im.data[i]? = some entry :=
    ⟨_, List.getElem?_eq_getElem hi⟩
  by_cases hb : Builds calls i mda
  · by_cases ht : HasTime extract im
    · obtain ⟨hlt, hplace⟩ := h ht i channel mda hentry hb
      obtain ⟨⟨c, e⟩, hthr⟩ : ∃ entry, sm.thresholdEnergy[i]? = some entry :=
        ⟨_, List.getElem?_eq_getElem hlt⟩
      obtain ⟨a, after, hget, -, hnumber, henergy⟩ :=
        getFrame_builds env extract hat hentry hb ht hthr
      rw [hget]
      constructor
      · intro hf
        cases hf
      intro err b channel' mda' energy n hb hchannel hmem hname
      obtain ⟨-, hab⟩ := Prod.mk.inj (Except.ok.inj hb)
      obtain rfl := Option.some.inj hab
      obtain ⟨rfl, rfl⟩ := Prod.mk.inj (Option.some.inj (hentry.symm.trans hchannel))
      obtain ⟨hplaced, hint⟩ := hplace energy hmem
      obtain ⟨rfl, rfl⟩ := Prod.mk.inj (Option.some.inj (hthr.symm.trans hplaced))
      rw [hnumber, henergy]
      refine ⟨?_, rfl⟩
      rw [hname, scanThreshold_name, if_pos (hint n hname)]
    · obtain ⟨fault, hne, hfault⟩ := getFrame_noTime env extract hat hentry hb ht
      rw [hfault]
      refine ⟨fun hf => hne (Except.error.inj hf), ?_⟩
      intro err b channel mda energy n hb
      cases hb
  · rw [getFrame_skips env extract hat hentry hb]
    constructor
    · intro hf
      cases hf
    intro err b channel mda energy n hb
    cases congrArg Prod.snd (Except.ok.inj hb)

theorem no_fault (ht : HasTime extract im)
    (h : Attributed sm im (thresholdLoop env extract calls im.data.length 0 api).1)
    (fault : Fault) :
    .error fault ∉ (thresholdLoop env extract calls im.data.length 0 api).1 := by
  intro hmem
  obtain ⟨i, hi⟩ := List.getElem?_of_mem hmem
  have hrange := (h i _ hi).1
  obtain ⟨at', hat, hlt, ho⟩ := thresholdLoop_outcome hs (Nat.le_of_eq (Nat.zero_add _)) hi
  rw [Nat.zero_add] at hat ho
  have hentry := List.getElem?_eq_getElem hlt
  by_cases hb : Builds calls i im.data[i].2
  · cases hthr : sm.thresholdEnergy[i]? with
    | none =>
      rw [getFrame_beyond env extract hat hentry hb ht hthr] at ho
      exact hrange ho
    | some entry =>
      obtain ⟨a, after, hget, -⟩ := getFrame_builds env extract hat hentry hb ht hthr
      rw [hget] at ho
      cases ho
  · rw [getFrame_skips env extract hat hentry hb] at ho
    cases ho

theorem inStep_of_attributed (hnamed : Named sm.thresholdEnergy)
    (h : Attributed sm im (thresholdLoop env extract calls im.data.length 0 api).1) :
    InStep sm im extract calls := by
  intro ht i channel mda hchannel hb
  have hlen := thresholdLoop_length (no_fault hs ht h)
  have hi := (List.getElem?_eq_some_iff.mp hchannel).1
  have houtcome := List.getElem?_eq_getElem (hlen.symm ▸ hi)
  obtain ⟨hrange, hsays⟩ := h i _ houtcome
  obtain ⟨at', hat, -, ho⟩ := thresholdLoop_outcome hs (Nat.le_of_eq (Nat.zero_add _)) houtcome
  rw [Nat.zero_add] at hat ho
  cases hthr : sm.thresholdEnergy[i]? with
  | none =>
    rw [getFrame_beyond env extract hat hchannel hb ht hthr] at ho
    exact absurd ho hrange
  | some entry =>
    obtain ⟨hlt, hget⟩ := List.getElem?_eq_some_iff.mp hthr
    refine ⟨hlt, fun energy hmem => ?_⟩
    obtain ⟨a, after, hframe, -, hnumber, henergy⟩ :=
      getFrame_builds env extract hat hchannel hb ht hthr
    rw [hframe] at ho
    obtain ⟨n, hn⟩ := hnamed _ hmem
    obtain ⟨m, hm⟩ := hnamed entry (hget ▸ List.getElem_mem hlt)
    obtain ⟨hsaid, hsaid'⟩ := hsays _ a channel mda energy n ho hchannel hmem hn
    rw [hnumber, hm, scanThreshold_name] at hsaid
    -- the number that was read is that of the channel at the same place
    have hsame : m = n ∧ n < 2 ^ 31 := by
      by_cases hint : m < 2 ^ 31
      · rw [if_pos hint] at hsaid
        have hmn : m = n := Int.ofNat_inj.mp (Option.some.inj hsaid)
        exact ⟨hmn, hmn ▸ hint⟩
      · rw [if_neg hint] at hsaid
        cases hsaid
    refine ⟨congrArg some (Prod.ext ?_ ?_), fun k hk => ?_⟩
    · rw [hm, hsame.1]
      exact hn.symm
    · exact henergy.symm.trans hsaid'
    · rw [← channelName_injective (hn.symm.trans hk)]
      exact hsame.2

end Attribution

section Start

theorem frameTimeStamp_thresholds {ts : Option EpicsTimeStamp}
    (h : frameTimeStamp env api extract im = .ok (ts, api')) :
    api'.mThresholdEnergy = api.mThresholdEnergy := by
  by_cases ht : HasTime extract im
  · obtain ⟨ts', cached, hts⟩ := frameTimeStamp_hasTime env extract ht api
    rw [hts] at h
    obtain ⟨-, rfl⟩ := Prod.mk.inj (Except.ok.inj h)
    rfl
  · obtain ⟨fault, -, hfault⟩ := frameTimeStamp_noTime env extract ht api
    rw [hfault] at h
    cases h

theorem release_thresholds (api : Stream2API) (thresh : ℕ) :
    (api.release thresh).mThresholdEnergy = api.mThresholdEnergy := by
  rw [Stream2API.release]
  split_ifs <;> rfl

theorem fillFrame_thresholds {decompress : Bool} {type : StreamFraming.DataType × ℕ} {a : NDArray}
    (h : fillFrame env api thresh decompress extract im mda type = .ok (a, api')) :
    api'.mThresholdEnergy = api.mThresholdEnergy := by
  obtain ⟨⟨ts, stamped⟩, hts, h⟩ := Loop.bind_ok h
  have hsame := frameTimeStamp_thresholds hts
  cases hthr : stamped.mThresholdEnergy[thresh]? with
  | none => simp [hthr] at h
  | some entry =>
    simp only [hthr] at h
    obtain ⟨-, rfl⟩ := Prod.mk.inj (Except.ok.inj h)
    exact hsame

theorem getFrame_thresholds {call : Call} {result : Err × Option NDArray}
    (h : getFrame env api thresh extract call = .ok (result, api')) :
    api'.mThresholdEnergy = api.mThresholdEnergy := by
  rw [getFrame] at h
  cases hmsg : api.mImageMsg with
  | none => simp [hmsg] at h
  | some msg =>
    cases hentry : msg.data[thresh]? with
    | none => simp [hmsg, hentry] at h
    | some entry =>
      simp only [hmsg, hentry, frameOf] at h
      cases htype : dataTypeOf entry.2.array.tag with
      | none =>
        simp only [htype] at h
        obtain ⟨-, rfl⟩ := Prod.mk.inj (Except.ok.inj h)
        exact release_thresholds api thresh
      | some type =>
        simp only [htype] at h
        split_ifs at h
        · obtain ⟨-, rfl⟩ := Prod.mk.inj (Except.ok.inj h)
          exact release_thresholds api thresh
        · cases hfill : fillFrame env api thresh call.decompress extract msg entry.2 type with
          | error fault =>
            rw [hfill] at h
            cases h
          | ok r =>
            rw [hfill] at h
            obtain ⟨-, rfl⟩ := Prod.mk.inj (Except.ok.inj h)
            exact (release_thresholds r.2 thresh).trans (fillFrame_thresholds hfill)

theorem thresholdLoop_thresholds {outcomes : List Outcome}
    (h : thresholdLoop env extract calls n thresh api = (outcomes, .ok api')) :
    api'.mThresholdEnergy = api.mThresholdEnergy := by
  induction n generalizing thresh api outcomes with
  | zero =>
    obtain ⟨-, hapi⟩ := Prod.mk.inj h
    rw [Except.ok.inj hapi]
  | succ n ih =>
    rw [thresholdLoop] at h
    cases hget : getFrame env api thresh extract (calls thresh) with
    | error fault =>
      simp only [hget] at h
      cases congrArg Prod.snd h
    | ok r =>
      simp only [hget] at h
      obtain ⟨-, hrest⟩ := Prod.mk.inj h
      exact (ih (Prod.ext rfl hrest)).trans (getFrame_thresholds hget)

theorem waitFrame_thresholds {numThresholds : ℕ} {message : Bytes} {waited : Waited}
    (h : waitFrame api numThresholds message = .ok (waited, api')) :
    api'.mThresholdEnergy = api.mThresholdEnergy := by
  rw [waitFrame] at h
  split at h
  · cases h
  all_goals
    obtain ⟨-, rfl⟩ := Prod.mk.inj (Except.ok.inj h)
    rfl

/-- The thresholds of the start message stay until the next one. -/
theorem Series.thresholds (h : Series env api api') :
    api'.mThresholdEnergy = api.mThresholdEnergy := by
  induction h with
  | start => rfl
  | image _ hwait hloop ih =>
    exact (thresholdLoop_thresholds hloop).trans ((waitFrame_thresholds hwait).trans ih)

theorem getHeader_thresholds {message : Bytes} (hsm : stream2ParseMsg message = .ok (.start sm))
    (h : getHeader api message = .ok (.success, api')) :
    api'.mThresholdEnergy = sm.thresholdEnergy := by
  rw [getHeader, hsm] at h
  cases hdtype : sm.imageDtype with
  | none => simp [hdtype] at h
  | some imageDtype =>
    simp only [hdtype] at h
    obtain ⟨-, rfl⟩ := Prod.mk.inj (Except.ok.inj h)
    rfl

theorem waitFrame_serves {numThresholds : ℕ} {message : Bytes} {waited : Waited}
    (him : stream2ParseMsg message = .ok (.image im))
    (hthr : api.mThresholdEnergy = sm.thresholdEnergy)
    (h : waitFrame api numThresholds message = .ok (waited, api')) :
    waited.numThresholds = im.data.length ∧ Serves sm im 0 api' := by
  rw [waitFrame, him] at h
  obtain ⟨rfl, rfl⟩ := Prod.mk.inj (Except.ok.inj h)
  exact ⟨rfl, fun _ => rfl, hthr, rfl⟩

end Start

/-- An image of a series that its start message began. -/
theorem threshold_attribution (env : Env) {started before waiting : Stream2API}
    {start image : Bytes} {sm : StartMsg} {im : ImageMsg} {numThresholds : ℕ} {waited : Waited}
    (hsm : stream2ParseMsg start = .ok (.start sm))
    (hstart : getHeader api start = .ok (.success, started)) (hseries : Series env started before)
    (him : stream2ParseMsg image = .ok (.image im))
    (hwait : waitFrame before numThresholds image = .ok (waited, waiting))
    (hnamed : Named sm.thresholdEnergy) (extract : Bool) (calls : ℕ → Call) :
    Attributed sm im (thresholdLoop env extract calls waited.numThresholds 0 waiting).1 ↔
      InStep sm im extract calls := by
  have hthr := hseries.thresholds.trans (getHeader_thresholds hsm hstart)
  obtain ⟨hn, hserves⟩ := waitFrame_serves him hthr hwait
  rw [hn]
  constructor
  · intro h
    exact inStep_of_attributed hserves hnamed h
  · intro h
    exact attributed_of_inStep hserves h

section Examples

/-- A start message with the energies 1 and 2. -/
def startBytes : Bytes :=
  [217, 217, 247, 163, 100, 116, 121, 112, 101, 101, 115, 116, 97, 114, 116, 107, 105, 109, 97,
    103, 101, 95, 100, 116, 121, 112, 101, 101, 117, 105, 110, 116, 56, 112, 116, 104, 114, 101,
    115, 104, 111, 108, 100, 95, 101, 110, 101, 114, 103, 121, 162, 107, 116, 104, 114, 101, 115,
    104, 111, 108, 100, 95, 49, 249, 60, 0, 107, 116, 104, 114, 101, 115, 104, 111, 108, 100, 95,
    50, 249, 64, 0]

/-- The channels of an image in the order of the start message. -/
def imageBytes : Bytes :=
  [217, 217, 247, 162, 100, 116, 121, 112, 101, 101, 105, 109, 97, 103, 101, 100, 100, 97, 116,
    97, 162, 107, 116, 104, 114, 101, 115, 104, 111, 108, 100, 95, 49, 216, 40, 130, 130, 1, 1,
    216, 64, 65, 7, 107, 116, 104, 114, 101, 115, 104, 111, 108, 100, 95, 50, 216, 40, 130, 130,
    1, 1, 216, 64, 65, 8]

/-- The channels in the other order. -/
def swappedBytes : Bytes :=
  [217, 217, 247, 162, 100, 116, 121, 112, 101, 101, 105, 109, 97, 103, 101, 100, 100, 97, 116,
    97, 162, 107, 116, 104, 114, 101, 115, 104, 111, 108, 100, 95, 50, 216, 40, 130, 130, 1, 1,
    216, 64, 65, 7, 107, 116, 104, 114, 101, 115, 104, 111, 108, 100, 95, 49, 216, 40, 130, 130,
    1, 1, 216, 64, 65, 8]

def startMsg : StartMsg :=
  { imageDtype := some "uint8".toList
    thresholdEnergy := [(channelName 1, 0x3ff0000000000000), (channelName 2, 0x4000000000000000)] }

def imageMsg (first second : ℕ) : ImageMsg :=
  { data := [(channelName first, ⟨(1, 1), ⟨64, ⟨[7], 1, none⟩⟩⟩),
      (channelName second, ⟨(1, 1), ⟨64, ⟨[8], 1, none⟩⟩⟩)] }

def newApi : Stream2API := ⟨0, none, 0, 0, 0, none, 0, [], ([], ⟨0, 0⟩)⟩

/-- Nothing is compressed in the examples. -/
def plainEnv : Env := ⟨fun _ => ⟨0, 0⟩, fun _ _ => none, fun _ _ _ => none⟩

theorem startBytes_parsed : stream2ParseMsg startBytes = .ok (.start startMsg) := by
  decide +kernel

theorem startMsg_named : Named startMsg.thresholdEnergy := by
  intro entry h
  rcases List.mem_cons.mp h with rfl | h
  · exact ⟨1, rfl⟩
  · obtain rfl := List.mem_singleton.mp h
    exact ⟨2, rfl⟩

theorem imageBytes_parsed : stream2ParseMsg imageBytes = .ok (.image (imageMsg 1 2)) := by
  decide +kernel

theorem swappedBytes_parsed : stream2ParseMsg swappedBytes = .ok (.image (imageMsg 2 1)) := by
  decide +kernel

/-- The state in which the arrays of an image with these channels are built. -/
def servingApi (first second : ℕ) : Stream2API :=
  { newApi.readStart startMsg "uint8".toList with
    mImageMsg := some (imageMsg first second)
    mNumThresholds := 2 }

theorem getHeader_startBytes : getHeader newApi startBytes =
    .ok (.success, newApi.readStart startMsg "uint8".toList) := by
  rw [getHeader, startBytes_parsed]
  rfl

theorem waitFrame_imageBytes : waitFrame (newApi.readStart startMsg "uint8".toList) 1 imageBytes =
    .ok (⟨.success, false, 2⟩, servingApi 1 2) := by
  rw [waitFrame, imageBytes_parsed]
  rfl

theorem threshold_attribution_in_order :
    Attributed startMsg (imageMsg 1 2)
        (thresholdLoop plainEnv false (fun _ => ⟨false, true⟩) 2 0 (servingApi 1 2)).1 ↔
      InStep startMsg (imageMsg 1 2) false fun _ => ⟨false, true⟩ :=
  threshold_attribution plainEnv startBytes_parsed getHeader_startBytes .start imageBytes_parsed
    waitFrame_imageBytes startMsg_named false fun _ => ⟨false, true⟩

/-- The array of the second channel gets the number and the energy of the first. -/
theorem threshold_misattribution :
    stream2ParseMsg startBytes = .ok (.start startMsg) ∧
      stream2ParseMsg swappedBytes = .ok (.image (imageMsg 2 1)) ∧
      Named startMsg.thresholdEnergy ∧ Named (imageMsg 2 1).data ∧
      getHeader newApi startBytes = .ok (.success, newApi.readStart startMsg "uint8".toList) ∧
      waitFrame (newApi.readStart startMsg "uint8".toList) 1 swappedBytes =
        .ok (⟨.success, false, 2⟩, servingApi 2 1) ∧
      ¬ Attributed startMsg (imageMsg 2 1)
        (thresholdLoop plainEnv false (fun _ => ⟨false, true⟩) 2 0 (servingApi 2 1)).1 := by
  refine ⟨startBytes_parsed, swappedBytes_parsed, startMsg_named, ?_, getHeader_startBytes, ?_, ?_⟩
  · intro entry h
    rcases List.mem_cons.mp h with rfl | h
    · exact ⟨2, rfl⟩
    · obtain rfl := List.mem_singleton.mp h
      exact ⟨1, rfl⟩
  · rw [waitFrame, swappedBytes_parsed]
    rfl
  · intro h
    have hfirst := (h 0 _ rfl).2 _ _ (channelName 2) _ 0x4000000000000000 2 rfl rfl (by decide) rfl
    exact absurd hfirst.2 (by decide)

end Examples

end Stream2Api
