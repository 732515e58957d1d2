import ADEiger.Driver
import ADEiger.EigerParamFetch
import ADEiger.EigerParamReread
import ADEiger.ParseH5File
import Mathlib.Data.Int.Bitwise

/-! The writes of clients.
`writeInt32`, `writeFloat64` and `writeOctet` find the parameter that a client writes, do what
it needs beside the put, and return a status. Functions of the base class are left out. -/
namespace ClientWrites

open CString (Text)
open Driver (STREAM_VERSION_STREAM)
open EigerParams TransitionSystem
open ParseH5File (EigerModel)

def SOURCE_STREAM : ℤ := 2
def TRIGGER_MODE_EXTE : ℕ := 3

section Constructor

/-- The arguments of `mParams.create`, with the table of `setEnumValues`. -/
structure Created where
  asynName : Text
  asynType : AsynType
  subSystem : Sys
  name : Text
  enumValues : Option (List Text)

def createLocal (asynName : String) (asynType : AsynType) : Created :=
  ⟨asynName.toList, asynType, .apiVersion, [], none⟩

def create (asynName : String) (asynType : AsynType) (subSystem : Sys) (name : String) : Created :=
  ⟨asynName.toList, asynType, subSystem, name.toList, none⟩

def Created.setEnumValues (c : Created) (values : List Text) : Created :=
  { c with enumValues := some values }

def linkEnum : List Text := ["down".toList, "up".toList]

/-- `extg` stands for `HAVE_EXTG_FIRMWARE`. -/
def triggerModes (model : EigerModel) (extg : Bool) : List Text :=
  if extg && model ≠ .eiger1 then triggerModeEnum.set 5 "extg".toList else triggerModeEnum

/-- The parameters that every detector has. -/
def createdAlways (triggerModes : List Text) : List Created :=
  [create "STATE" .octet .detStatus "state",
   createLocal "DATA_SOURCE" .int32,
   createLocal "AUTO_REMOVE" .int32,
   createLocal "TRIGGER" .int32,
   createLocal "MANUAL_TRIGGER" .int32,
   createLocal "ARMED" .int32,
   createLocal "SEQ_ID" .int32,
   createLocal "PENDING_FILES" .int32,
   createLocal "SAVE_FILES" .int32,
   createLocal "FILE_OWNER" .octet,
   createLocal "FILE_OWNER_GROUP" .octet,
   createLocal "FILE_PERMISSIONS" .int32,
   createLocal "MONITOR_TIMEOUT" .int32,
   createLocal "RESTART" .int32,
   createLocal "INITIALIZE" .int32,
   createLocal "STREAM_DECOMPRESS" .int32,
   createLocal "WAVELENGTH_EPSILON" .float64,
   createLocal "ENERGY_EPSILON" .float64,
   createLocal "SIGNED_DATA" .int32,
   createLocal "STREAM_AS_TIMESTAMP_SOURCE" .int32,
   create "DESCRIPTION" .octet .detConfig "description",
   create "WAVELENGTH" .float64 .detConfig "wavelength",
   create "PHOTON_ENERGY" .float64 .detConfig "photon_energy",
   create "THRESHOLD" .float64 .detConfig "threshold_energy",
   create "NUM_TRIGGERS" .int32 .detConfig "ntrigger",
   create "COMPRESSION_ALGO" .int32 .detConfig "compression",
   create "ROI_MODE" .int32 .detConfig "roi_mode",
   create "AUTO_SUMMATION" .int32 .detConfig "auto_summation",
   create "ERROR" .octet .detStatus "error",
   create "TH_TEMP_0" .float64 .detStatus "board_000/th0_temp",
   create "TH_HUMID_0" .float64 .detStatus "board_000/th0_humidity",
   (create "FW_ENABLE" .int32 .fwConfig "mode").setEnumValues modeEnum,
   create "COMPRESSION" .int32 .fwConfig "compression_enabled",
   create "NAME_PATTERN" .octet .fwConfig "name_pattern",
   create "NIMAGES_PER_FILE" .int32 .fwConfig "nimages_per_file",
   create "FW_IMG_NUM_START" .int32 .fwConfig "image_nr_start",
   create "FW_STATE" .octet .fwStatus "state",
   create "FW_FREE" .float64 .fwStatus "buffer_free",
   (create "MONITOR_ENABLE" .int32 .monConfig "mode").setEnumValues modeEnum,
   create "MONITOR_BUF_SIZE" .int32 .monConfig "buffer_size",
   create "MONITOR_STATE" .octet .monStatus "state",
   (create "STREAM_ENABLE" .int32 .streamConfig "mode").setEnumValues modeEnum,
   create "STREAM_STATE" .octet .streamStatus "state",
   create "STREAM_DROPPED" .int32 .streamStatus "dropped",
   create "STREAM_VERSION" .int32 .streamConfig "format",
   create "ACQ_TIME" .float64 .detConfig "count_time",
   create "ACQ_PERIOD" .float64 .detConfig "frame_time",
   create "NIMAGES" .int32 .detConfig "nimages",
   (create "TRIGGER_MODE" .int32 .detConfig "trigger_mode").setEnumValues triggerModes,
   create "SDK_VERSION" .octet .detConfig "software_version",
   create "FIRMWARE_VERSION" .octet .detConfig "eiger_fw_version",
   create "SERIAL_NUMBER" .octet .detConfig "detector_number",
   create "TEMPERATURE_ACTUAL" .float64 .detStatus "board_000/th0_temp",
   create "ARRAY_SIZE_X" .int32 .detConfig "x_pixels_in_detector",
   create "ARRAY_SIZE_Y" .int32 .detConfig "y_pixels_in_detector"]

def createdForVersion (version : ApiVersion) (model : EigerModel) (extg : Bool) : List Created :=
  if version = .v1_6_0 then
    [(create "LINK_0" .int32 .detStatus "link_0").setEnumValues linkEnum,
     (create "LINK_1" .int32 .detStatus "link_1").setEnumValues linkEnum,
     (create "LINK_2" .int32 .detStatus "link_2").setEnumValues linkEnum,
     (create "LINK_3" .int32 .detStatus "link_3").setEnumValues linkEnum,
     create "DCU_BUF_FREE" .float64 .detStatus "builder/dcu_buffer_free",
     create "CLEAR" .int32 .fwCommand "clear"]
  else if model = .eiger1 then []
  else
    [(create "THRESHOLD1_ENABLE" .int32 .detConfig "threshold/1/mode").setEnumValues modeEnum,
     create "TRIGGER_START_DELAY" .float64 .detConfig "trigger_start_delay",
     create "THRESHOLD2" .float64 .detConfig "threshold/2/energy",
     (create "THRESHOLD2_ENABLE" .int32 .detConfig "threshold/2/mode").setEnumValues modeEnum,
     (create "THRESHOLD_DIFF_ENABLE" .int32 .detConfig "threshold/difference/mode").setEnumValues
       modeEnum,
     create "HV_STATE" .octet .detStatus "high_voltage/state",
     createLocal "HV_RESET_TIME" .float64,
     createLocal "HV_RESET" .int32,
     create "FWHDF5_FORMAT" .int32 .fwConfig "format"] ++
    if extg then
      [create "EXT_GATE_MODE" .int32 .detConfig "extg_mode",
       create "NEXPOSURES" .int32 .detConfig "nexpi"]
    else []

def createdForModel (model : EigerModel) : List Created :=
  if model = .pilatus4 then
    [create "THRESHOLD3" .float64 .detConfig "threshold/3/energy",
     (create "THRESHOLD3_ENABLE" .int32 .detConfig "threshold/3/mode").setEnumValues modeEnum,
     create "THRESHOLD4" .float64 .detConfig "threshold/4/energy",
     (create "THRESHOLD4_ENABLE" .int32 .detConfig "threshold/4/mode").setEnumValues modeEnum]
  else []

/-- The parameters in the order in which the constructor creates them. -/
def created (version : ApiVersion) (model : EigerModel) (extg : Bool) : List Created :=
  createdAlways (triggerModes model extg) ++
    (createdForVersion version model extg ++ createdForModel model)

end Constructor

/-- What the driver is told from outside: the model of the detector, the conversion of a double to
an int, and the users and groups of the system. -/
structure Site (F : Type*) where
  model : EigerModel
  extg : Bool
  toInt : F → ℤ
  getuid : ℕ
  getpwuid : ℕ → Option Text
  getpwnam : Text → Option ℕ
  getgid : ℕ
  getgrgid : ℕ → Option Text
  getgrnam : Text → Option ℕ

/-- The parameters with the detector, and what else a write changes. -/
structure State (δ F : Type*) where
  world : World δ F
  fsUid : ℕ
  fsGid : ℕ
  statusMessage : Text
  triggerEvent : Bool
  restartEvent : Bool
  initializeEvent : Bool
  streamAPI : Bool
  stream2API : Bool

/-- The put of the value that a client writes, with the state before it. -/
structure PutCall (δ F : Type*) where
  start : World δ F
  value : PutValue F

structure Written (δ F : Type*) where
  status : Bool
  state : State δ F
  call : Option (PutCall δ F)

variable {F δ : Type*} [Double F]

def PutCall.outcome (api : RestAPI δ) (c : PutCall δ F) (i : ℕ) : Outcome δ F :=
  put api c.start.detector c.start.params i c.value

namespace State

/-- The parameter behind a member of the driver, such as `mNumImages`. -/
def member (s : State δ F) (asynName : String) : Option ℕ :=
  s.world.params.findIdx? fun p => p.asynName = asynName.toList

/-- A put whose status is dropped. -/
def put (api : RestAPI δ) (s : State δ F) (asynName : String) (value : PutValue F) : State δ F :=
  match s.member asynName with
  | none => s
  | some k =>
    { s with world := .after (EigerParams.put api s.world.detector s.world.params k value) }

def fetch (api : RestAPI δ) (s : State δ F) (asynName : String) : State δ F :=
  match s.member asynName with
  | none => s
  | some k =>
    { s with world.params := (s.world.params.fetchAt api s.world.detector k).2 }

def setEpsilon (s : State δ F) (asynName : String) (epsilon : F) : State δ F :=
  match s.member asynName with
  | none => s
  | some k => { s with world := s.world.update k (·.setEpsilon epsilon) }

/-- `get` of a member into a variable that is not set before. -/
def getInt (s : State δ F) (asynName : String) (unset : ℤ) : ℤ :=
  (((s.member asynName).bind (s.world.params[·]?)).bind (·.getInt)).getD unset

def getDouble (s : State δ F) (asynName : String) (unset : F) : F :=
  (((s.member asynName).bind (s.world.params[·]?)).bind (·.getDouble)).getD unset

def setIntegerParam (s : State δ F) (i : ℕ) (value : ℤ) : State δ F :=
  { s with world := s.world.update i fun p => { p with asyn := .int32 value } }

/-- `status = p->put(value)`. -/
def putWritten (api : RestAPI δ) (s : State δ F) (i : ℕ) (value : PutValue F) : Written δ F :=
  let o := PutCall.outcome api ⟨s.world, value⟩ i
  ⟨o.status, { s with world := .after o }, some ⟨s.world, value⟩⟩

/-- The receivers follow the data source, and the stream is disabled and enabled again. -/
def switchStream (api : RestAPI δ) (s : State δ F) (unset : ℤ) : State δ F :=
  if s.getInt "DATA_SOURCE" unset = SOURCE_STREAM then
    let s :=
      if s.getInt "STREAM_VERSION" unset = STREAM_VERSION_STREAM then { s with streamAPI := true }
      else { s with stream2API := true }
    (s.put api "STREAM_ENABLE" (.int 0)).put api "STREAM_ENABLE" (.int 1)
  else { s with streamAPI := false, stream2API := false }

end State

/-- `mApi.hvReset`, whose status is dropped. -/
def hvReset (api : RestAPI δ) (d : δ) (resetTime : ℤ) : δ :=
  match api.put d .command "hv_reset".toList (RestNames.decimal resetTime) with
  | none => d
  | some (d, _) => d

section Dispatchers

variable (api : RestAPI δ) (site : Site F) (s : State δ F) (i : ℕ)

/-- `unset` is what the variables contain that a failing `get` does not set. -/
def writeInt32 (unset : ℤ) (value : ℤ) : Written δ F :=
  match s.world.params[i]? with
  | none => ⟨true, s, none⟩
  | some p =>
    if api.version = .v1_6_0 ∧ p.asynName = "CLEAR".toList then
      let r := s.putWritten api i (.int 1)
      { r with state := r.state.fetch api "FW_FREE" }
    else if p.asynName = "RESTART".toList ∧ value = 1 then
      ⟨true, { s.setIntegerParam i 1 with restartEvent := true }, none⟩
    else if p.asynName = "INITIALIZE".toList ∧ value = 1 then
      ⟨true, { s.setIntegerParam i 1 with initializeEvent := true }, none⟩
    else if p.asynName = "TRIGGER".toList then ⟨true, { s with triggerEvent := true }, none⟩
    else if p.asynName = "FILE_PERMISSIONS".toList then
      s.putWritten api i (.int (Int.land value 0o666))
    else if site.model ≠ .eiger1 ∧ p.asynName = "HV_RESET".toList then
      let resetTime := site.toInt (s.getDouble "HV_RESET_TIME" Double.zero)
      ⟨true, { s with world.detector := hvReset api s.world.detector resetTime }, none⟩
    else if p.asynName = "TRIGGER_MODE".toList then
      let s :=
        if value = TRIGGER_MODE_INTE ∨ value = TRIGGER_MODE_EXTE then s.put api "NIMAGES" (.int 1)
        else s
      s.putWritten api i (.int value)
    else
      let r := s.putWritten api i (.int value)
      if p.asynName = "DATA_SOURCE".toList ∨ p.asynName = "STREAM_VERSION".toList then
        { r with state := r.state.switchStream api unset }
      else r

/-- The statuses of five puts are dropped. -/
def writeFloat64 (value : F) : Written δ F :=
  match s.world.params[i]? with
  | none => ⟨true, s, none⟩
  | some p =>
    let r := s.putWritten api i (.double value)
    if p.asynName = "PHOTON_ENERGY".toList then
      { r with status := true, state.statusMessage := "Photon Energy set".toList }
    else if p.asynName = "THRESHOLD".toList then
      { r with status := true, state.statusMessage := "Threshold Energy set".toList }
    else if p.asynName = "WAVELENGTH".toList then
      { r with status := true, state.statusMessage := "Wavelength set".toList }
    else if p.asynName = "WAVELENGTH_EPSILON".toList then
      { r with status := true, state := r.state.setEpsilon "WAVELENGTH" value }
    else if p.asynName = "ENERGY_EPSILON".toList then
      let s := (r.state.setEpsilon "PHOTON_ENERGY" value).setEpsilon "THRESHOLD" value
      let s := if site.model ≠ .eiger1 then s.setEpsilon "THRESHOLD2" value else s
      let s :=
        if site.model = .pilatus4 then
          (s.setEpsilon "THRESHOLD3" value).setEpsilon "THRESHOLD4" value
        else s
      { r with status := true, state := s }
    else r

/-- A user is written by name, or by nothing for the one that the driver runs as. -/
def writeOctet (unset : ℤ) (value : Text) : Written δ F :=
  match s.world.params[i]? with
  | none => ⟨true, s, none⟩
  | some p =>
    if p.asynName = "FILE_OWNER".toList then
      if value = [] then
        let s := { s with fsUid := site.getuid }
        match site.getpwuid site.getuid with
        | none => ⟨false, s, none⟩
        | some name => { s.putWritten api i (.string unset name) with status := true }
      else match site.getpwnam value with
        | none => ⟨false, s, none⟩
        | some uid =>
          { ({ s with fsUid := uid }).putWritten api i (.string unset value) with status := true }
    else if p.asynName = "FILE_OWNER_GROUP".toList then
      if value = [] then
        let s := { s with fsGid := site.getgid }
        match site.getgrgid site.getgid with
        | none => ⟨false, s, none⟩
        | some name => { s.putWritten api i (.string unset name) with status := true }
      else match site.getgrnam value with
        | none => ⟨false, s, none⟩
        | some gid =>
          { ({ s with fsGid := gid }).putWritten api i (.string unset value) with status := true }
    else s.putWritten api i (.string unset value)

end Dispatchers

/-- A write to the `i`-th parameter. `unset` stands for the variables that are not set. -/
inductive Write (F : Type*) where
  | int32 (value : ℤ)
  | float64 (value : F)
  | octet (value : Text)

def write (api : RestAPI δ) (site : Site F) (unset : ℤ) (s : State δ F) (i : ℕ) :
    Write F → Written δ F
  | .int32 value => writeInt32 api site s i unset value
  | .float64 value => writeFloat64 api site s i value
  | .octet value => writeOctet api site s i unset value

section Refused

variable {api : RestAPI δ} {d d' : δ} {S T : EigerParamSet F} {i k : ℕ} {p q : EigerParam F}
  {value : PutValue F} {names : List Text} {a : AsynValue F}

/-- The value of the `i`-th parameter in the parameter library. -/
def asynAt (S : EigerParamSet F) (i : ℕ) : Option (AsynValue F) := S[i]?.map (·.asyn)

/-- Where the put of a value fails, only a fetch can have changed the parameter: the one of a
parameter of unknown type, and the one that the reply to an accepted request asks for. What the
last of them reads is the value `a`. -/
structure Undisturbed (api : RestAPI δ) (d : δ) (S : EigerParamSet F) (i : ℕ) (value : PutValue F)
    (a : AsynValue F) : Prop where
  again : ∀ T q v d' names, Request api d S i value T q v d' names → q.accessMode ≠ .ro →
    (∃ n ∈ names, T.getByName n = some i) → (q.fetch api d').2.asyn = a
  first : (∀ T q v d' names, Request api d S i value T q v d' names → q.accessMode ≠ .ro →
    ∀ n ∈ names, T.getByName n ≠ some i) → ∀ p ∈ S[i]?,
      (if p.type = .uninit then (p.fetch api d).2.asyn else p.asyn) = a

theorem fetchAt_self (hq : T[i]? = some q) :
    (T.fetchAt api d i).2[i]? = some (q.fetch api d).2 := by
  rw [EigerParamSet.fetchAt, hq]
  exact List.getElem?_set_self (List.getElem?_eq_some_iff.mp hq).1

theorem fetchAt_other (h : k ≠ i) : (T.fetchAt api d k).2[i]? = T[i]? := by
  rw [EigerParamSet.fetchAt]
  cases T[k]? with
  | none => rfl
  | some r => exact List.getElem?_set_ne h

/-- However often a reply names a parameter, its value is that of one fetch. -/
theorem fetchParams_named (hq : T[i]? = some q) (hu : q.type ≠ .uninit)
    (h : (∃ n ∈ names, T.getByName n = some i) ∨ (q.fetch api d).2.asyn = q.asyn) :
    asynAt (T.fetchParams api d names).2 i = some (q.fetch api d).2.asyn := by
  induction names generalizing T q with
  | nil =>
    rcases h with ⟨n, hn, -⟩ | hsame
    · cases hn
    · rw [EigerParamSet.fetchParams, asynAt, hq, hsame]
      rfl
  | cons name names ih =>
    rw [EigerParamSet.fetchParams]
    cases hk : T.getByName name with
    | none =>
      refine ih hq hu (h.imp_left ?_)
      rintro ⟨n, hn, hni⟩
      rcases List.mem_cons.mp hn with rfl | hn
      · cases hk.symm.trans hni
      · exact ⟨n, hn, hni⟩
    | some k =>
      have hkeeps : KeepsAll T (T.fetchAt api d k).2 := fetchAt_keepsAll T k
      by_cases hki : k = i
      · subst hki
        have hknown : (q.fetch api d).2.type ≠ .uninit := by
          rwa [((fetch_fetched q).keeps.known hu).1]
        have hagain := fetch_again api d hu
        rw [← hagain]
        exact ih (fetchAt_self hq) hknown (.inr hagain)
      · refine ih ((fetchAt_other hki).trans hq) hu (h.imp_left ?_)
        rintro ⟨n, hn, hni⟩
        rcases List.mem_cons.mp hn with rfl | hn
        · exact absurd (Option.some.inj (hk.symm.trans hni)) hki
        · exact ⟨n, hn, (hkeeps.getByName n).trans hni⟩

theorem ready_asyn (api : RestAPI δ) (d : δ) (hp : S[i]? = some p) : asynAt (S.ready api d i).2 i =
    some (if p.type = .uninit then (p.fetch api d).2.asyn else p.asyn) := by
  rw [EigerParamSet.ready, hp]
  dsimp only
  split_ifs
  · rw [asynAt, fetchAt_self hp]
    rfl
  · rw [asynAt, hp]
    rfl

/-- A put that fails at the detector, or whose value is refused in the end. -/
theorem putRemote_failed {encode : EigerParam F → Option (Text × AsynValue F)}
    (hf : (putRemote api d S i encode).status = false) :
    (∃ T q raw v d' names, S.ready api d i = (true, T) ∧ T[i]? = some q ∧
      encode q = some (raw, v) ∧ q.accessMode ≠ .ro ∧
      api.put d q.subSystem q.name raw = some (d', some names) ∧
      (putRemote api d S i encode).params = (T.fetchParams api d' names).2) ∨
    (putRemote api d S i encode).params = (S.ready api d i).2 ∧
      ∀ T q raw v d' names, S.ready api d i = (true, T) → T[i]? = some q →
        encode q = some (raw, v) → q.accessMode ≠ .ro →
        api.put d q.subSystem q.name raw ≠ some (d', some names) := by
  rw [putRemote] at hf ⊢
  rcases hready : S.ready api d i with ⟨_ | _, T⟩
  · right
    refine ⟨rfl, fun T q raw v d' names h => ?_⟩
    cases (Prod.mk.inj h).1
  · rw [hready] at hf
    dsimp only at hf ⊢
    cases hx : T[i]?.bind encode with
    | none =>
      right
      refine ⟨rfl, fun T' q raw v d' names h hq he => ?_⟩
      obtain ⟨-, rfl⟩ := Prod.mk.inj h
      rw [hq, Option.bind_some, he] at hx
      cases hx
    | some x =>
      obtain ⟨raw, v⟩ := x
      obtain ⟨q, hq, he⟩ := Option.bind_eq_some_iff.mp hx
      rw [hx] at hf
      dsimp only at hf ⊢
      -- the request is made by `q`, which there is only one of
      have hunique : ∀ T' q' raw' v' d' names, (true, T) = (true, T') → T'[i]? = some q' →
          encode q' = some (raw', v') → q'.accessMode ≠ .ro →
          api.put d q'.subSystem q'.name raw' = some (d', some names) →
          q.accessMode ≠ .ro ∧ api.put d q.subSystem q.name raw = some (d', some names) := by
        intro T' q' raw' v' d' names hT hq' he' ha hput
        obtain ⟨-, rfl⟩ := Prod.mk.inj hT
        obtain rfl := Option.some.inj (hq.symm.trans hq')
        obtain ⟨rfl, -⟩ := Prod.mk.inj (Option.some.inj (he.symm.trans he'))
        exact ⟨ha, hput⟩
      by_cases ha : q.accessMode = .ro
      · right
        refine ⟨?_, fun T' q' raw' v' d' names hT hq' he' ha' hput => ?_⟩
        · simp [basePut, hq, ha, Outcome.refused]
        · exact (hunique T' q' raw' v' d' names hT hq' he' ha' hput).1 ha
      · rcases hput : api.put d q.subSystem q.name raw with _ | ⟨d', _ | names⟩
        · right
          refine ⟨?_, fun T' q' raw' v' d' names hT hq' he' ha' h => ?_⟩
          · simp [basePut, hq, ha, hput]
          · cases hput.symm.trans (hunique T' q' raw' v' d' names hT hq' he' ha' h).2
        · right
          refine ⟨?_, fun T' q' raw' v' d' names hT hq' he' ha' h => ?_⟩
          · simp [basePut, hq, ha, hput]
          · cases hput.symm.trans (hunique T' q' raw' v' d' names hT hq' he' ha' h).2
        · left
          refine ⟨T, q, raw, v, d', names, rfl, hq, he, ha, hput, ?_⟩
          simp only [basePut, hq, if_neg ha, hput, if_true] at hf ⊢
          rw [Outcome.store] at hf ⊢
          dsimp only at hf ⊢
          cases hs : (T.fetchParams api d' names).2[i]?.bind (·.setParam v) with
          | none => rfl
          | some r => simp [hs] at hf

/-- Of a parameter without a copy in the detector a put that fails leaves all. -/
theorem put_local_failed (hp : S[i]? = some p) (hr : p.remote = false)
    (hf : (put api d S i value).status = false) : (put api d S i value).params = S := by
  have hstore : ∀ v, (putLocal d S i v).status = false → (putLocal d S i v).params = S := by
    intro v h
    rw [putLocal, Outcome.store] at h ⊢
    dsimp only at h ⊢
    cases hs : S[i]?.bind (·.setParam v) with
    | none => rfl
    | some q => simp [hs] at h
  cases value with
  | bool b => simp [put, putBool, hp, hr] at hf
  | string unset t => simp [put, putString, hp, hr] at hf
  | int n =>
    simp only [put, putInt, hp, hr, Bool.false_eq_true, if_false] at hf ⊢
    exact hstore _ hf
  | double x =>
    simp only [put, putDouble, hp, hr, Bool.false_eq_true, if_false] at hf ⊢
    split_ifs at hf ⊢
    exact hstore _ hf

/-- Where no reply names the parameter, it is fetched at most once. -/
theorem undisturbed_unnamed (hp : S[i]? = some p)
    (h : ∀ T q v d' names, Request api d S i value T q v d' names → q.accessMode ≠ .ro →
      ∀ n ∈ names, T.getByName n ≠ some i) :
    Undisturbed api d S i value a ↔
      (if p.type = .uninit then (p.fetch api d).2.asyn else p.asyn) = a := by
  constructor
  · intro hkept
    exact hkept.first h p hp
  · intro ha
    refine ⟨fun T q v d' names hreq hro ⟨n, hn, hni⟩ => ?_, fun _ p' hp' => ?_⟩
    · exact absurd hni (h T q v d' names hreq hro n hn)
    · obtain rfl := Option.some.inj (hp.symm.trans hp')
      exact ha

theorem put_refused (hp : S[i]? = some p) (hf : (put api d S i value).status = false) :
    asynAt (put api d S i value).params i = some a ↔ Undisturbed api d S i value a := by
  have hready := ready_asyn api d hp
  have hkeeps : KeepsAll S (S.ready api d i).2 := ready_keepsAll S i
  cases hr : p.remote with
  | false =>
    rw [undisturbed_unnamed hp, fetch_local (by simp [hr]), ite_self, put_local_failed hp hr hf,
      asynAt, hp, Option.map_some, Option.some.injEq]
    intro T q v d' names hreq _ n _ hn
    obtain ⟨q', hq', -, hremote, -⟩ := getByName_spec hn
    rw [hreq.ready] at hkeeps
    rw [(hkeeps.keeps i p q' hp hq').remote, hr] at hremote
    cases hremote
  | true =>
    rw [put_remote hp hr] at hf ⊢
    by_cases hu : p.unchanged value = true
    · rw [if_pos hu] at hf
      cases hf
    · rw [if_neg hu] at hf ⊢
      have hchanged : ∀ p' ∈ S[i]?, p'.unchanged value = false := by
        intro p' hp'
        obtain rfl := Option.some.inj (hp.symm.trans hp')
        exact eq_false_of_ne_true hu
      rcases putRemote_failed hf with
        ⟨T, q, raw, v, d', names, hT, hq, he, ha, hput, hparams⟩ | ⟨hparams, hnone⟩
      · have hreq : Request api d S i value T q v d' names := ⟨hchanged, hT, hq, raw, he, hput⟩
        rw [hparams]
        by_cases hnamed : ∃ n ∈ names, T.getByName n = some i
        · rw [fetchParams_named hq (encode_known he) (.inl hnamed), Option.some.injEq]
          constructor
          · intro hfetched
            refine ⟨fun T' q' v' d'' names' hreq' _ _ => ?_, fun hno => ?_⟩
            · obtain ⟨rfl, rfl, rfl, rfl, rfl⟩ := hreq.unique hreq'
              exact hfetched
            · obtain ⟨n, hn, hni⟩ := hnamed
              exact absurd hni (hno T q v d' names hreq ha n hn)
          · intro hkept
            exact hkept.again T q v d' names hreq ha hnamed
        · have hother : ∀ n ∈ names, T.getByName n ≠ some i :=
            fun n hn hni => hnamed ⟨n, hn, hni⟩
          have hsame : asynAt (T.fetchParams api d' names).2 i = asynAt T i := by
            rw [asynAt, fetchParams_other hother, asynAt]
          rw [hT] at hready
          rw [hsame, hready, Option.some.injEq, undisturbed_unnamed hp]
          intro T' q' v' d'' names' hreq' _
          obtain ⟨rfl, -, -, -, rfl⟩ := hreq.unique hreq'
          exact hother
      · rw [hparams, hready, Option.some.injEq, undisturbed_unnamed hp]
        intro T q v d' names hreq hro
        obtain ⟨raw, he, hput⟩ := hreq.answered
        exact absurd hput (hnone T q raw v d' names hreq.ready hreq.written he hro)

end Refused

section Others

variable {api : RestAPI δ} {d : δ} {S : EigerParamSet F} {i k : ℕ} {p : EigerParam F}
  {value : PutValue F} {s : State δ F} {asynName : String}

omit [Double F] in
theorem store_other (o : Outcome δ F) (h : k ≠ i) (v : AsynValue F) :
    (o.store k v).params[i]? = o.params[i]? := by
  rw [Outcome.store]
  cases o.params[k]?.bind (·.setParam v) with
  | none => rfl
  | some r => exact List.getElem?_set_ne h

theorem basePut_other (hn : ∀ name, S.getByName name ≠ some i) (raw : Text) :
    (basePut api d S k raw).params[i]? = S[i]? := by
  rw [basePut]
  cases S[k]? with
  | none => rfl
  | some r =>
    dsimp only
    split_ifs
    · rfl
    · rcases api.put d r.subSystem r.name raw with _ | ⟨d', _ | names⟩
      · rfl
      · rfl
      · exact fetchParams_other fun n _ => hn n

theorem putRemote_other (h : k ≠ i) (hn : ∀ name, S.getByName name ≠ some i)
    (encode : EigerParam F → Option (Text × AsynValue F)) :
    (putRemote api d S k encode).params[i]? = S[i]? := by
  have hready : (S.ready api d k).2[i]? = S[i]? := by
    rw [EigerParamSet.ready]
    cases S[k]? with
    | none => rfl
    | some r =>
      dsimp only
      split_ifs
      · exact fetchAt_other h
      · rfl
  have hkeeps : KeepsAll S (S.ready api d k).2 := ready_keepsAll S k
  rw [putRemote]
  rcases hr : S.ready api d k with ⟨_ | _, T⟩ <;> rw [hr] at hready hkeeps
  · exact hready
  · dsimp only at hready ⊢
    cases T[k]?.bind encode with
    | none => exact hready
    | some x =>
      have hbase : (basePut api d T k x.1).params[i]? = S[i]? := by
        rw [basePut_other fun name => ?_, hready]
        rw [hkeeps.getByName]
        exact hn name
      dsimp only
      split_ifs
      · rw [store_other _ h, hbase]
      · exact hbase

theorem put_other (h : k ≠ i) (hn : ∀ name, S.getByName name ≠ some i) (value : PutValue F) :
    (put api d S k value).params[i]? = S[i]? := by
  have hlocal : ∀ v, (putLocal d S k v).params[i]? = S[i]? := fun v => store_other _ h v
  cases hp : S[k]? with
  | none => cases value <;> simp [put, putBool, putInt, putDouble, putString, hp, Outcome.refused]
  | some p =>
    cases hr : p.remote with
    | true =>
      rw [put_remote hp hr]
      split_ifs
      · rfl
      · exact putRemote_other h hn _
    | false =>
      cases value with
      | bool b => simpa [put, putBool, hp, hr] using hlocal _
      | int n => simpa [put, putInt, hp, hr] using hlocal _
      | string unset t => simpa [put, putString, hp, hr] using hlocal _
      | double x =>
        simp only [put, putDouble, hp, hr, Bool.false_eq_true, if_false]
        split_ifs
        · rfl
        · exact hlocal _

omit [Double F] in
theorem member_ne (hp : s.world.params[i]? = some p) (hk : s.member asynName = some k)
    (hne : p.asynName ≠ asynName.toList) : k ≠ i := by
  rintro rfl
  obtain ⟨hlt, hname, -⟩ := List.findIdx?_eq_some_iff_getElem.mp hk
  obtain ⟨_, hget⟩ := List.getElem?_eq_some_iff.mp hp
  rw [hget] at hname
  exact hne (of_decide_eq_true hname)

theorem State.put_other (hp : s.world.params[i]? = some p) (hne : p.asynName ≠ asynName.toList)
    (hn : p.subSystem ≠ .detConfig) (value : PutValue F) :
    (s.put api asynName value).world.params[i]? = some p := by
  rw [State.put]
  cases hk : s.member asynName with
  | none => exact hp
  | some k =>
    refine Eq.trans (ClientWrites.put_other (member_ne hp hk hne) (fun name hname => ?_) value) hp
    obtain ⟨q, hq, hss, -, -⟩ := getByName_spec hname
    obtain rfl := Option.some.inj (hp.symm.trans hq)
    exact hn hss

theorem State.fetch_other (hp : s.world.params[i]? = some p) (hne : p.asynName ≠ asynName.toList) :
    (s.fetch api asynName).world.params[i]? = some p := by
  rw [State.fetch]
  cases hk : s.member asynName with
  | none => exact hp
  | some k => exact (fetchAt_other (member_ne hp hk hne)).trans hp

theorem State.switchStream_other (hp : s.world.params[i]? = some p)
    (hne : p.asynName ≠ "STREAM_ENABLE".toList) (hn : p.subSystem ≠ .detConfig) (unset : ℤ) :
    (s.switchStream api unset).world.params[i]? = some p := by
  have htwice : ∀ t : State δ F, t.world.params[i]? = some p →
      ((t.put api "STREAM_ENABLE" (.int 0)).put api "STREAM_ENABLE" (.int 1)).world.params[i]? =
        some p :=
    fun t ht => State.put_other (State.put_other ht hne hn _) hne hn _
  rw [State.switchStream]
  split_ifs
  · exact htwice _ hp
  · exact htwice _ hp
  · exact hp

end Others

section Constructed

/-- A parameter as `mParams.create` and `setEnumValues` leave it. -/
def Created.param (c : Created) : EigerParam F :=
  let p := .new c.asynName
    (match c.asynType with
      | .int32 => .int32 0
      | .float64 => .float64 Double.zero
      | .octet => .octet []) c.subSystem c.name
  match c.enumValues with
  | none => p
  | some values => p.setEnumValues values

def constructed (version : ApiVersion) (model : EigerModel) (extg : Bool) : EigerParamSet F :=
  (created version model extg).map Created.param

variable {version : ApiVersion} {model : EigerModel} {extg : Bool} {S : EigerParamSet F} {i : ℕ}
  {p : EigerParam F} {c : Created}

theorem param_spec (c : Created) : (c.param : EigerParam F).asynName = c.asynName ∧
    (c.param : EigerParam F).subSystem = c.subSystem ∧ (c.param : EigerParam F).name = c.name ∧
      (c.param : EigerParam F).asynType = c.asynType := by
  obtain ⟨asynName, asynType, subSystem, name, values⟩ := c
  cases values <;> cases asynType <;> exact ⟨rfl, rfl, rfl, rfl⟩

def PREFIX : Text := "EIG_".toList

/-- The parameters of the constructor, whatever fetches and puts made of them, and behind them
those that records asked for. -/
structure Populated (version : ApiVersion) (model : EigerModel) (extg : Bool)
    (S : EigerParamSet F) : Prop where
  kept : KeepsAll (constructed version model extg) (S.take (created version model extg).length)
  asked : ∀ p ∈ S.drop (created version model extg).length, p.asynName.take 4 = PREFIX

theorem length_constructed :
    (constructed (F := F) version model extg).length = (created version model extg).length :=
  List.length_map _

theorem KeepsAll.populated (hS : KeepsAll (constructed version model extg) S) :
    Populated version model extg S where
  kept := by
    rw [← length_constructed (F := F), ← hS.length, List.take_length]
    exact hS
  asked p hp := by
    rw [← length_constructed (F := F), ← hS.length, List.drop_length] at hp
    cases hp

/-- Fetches and puts leave of a parameter what it was created with. -/
theorem exists_created (hS : KeepsAll (constructed version model extg) S) (hp : S[i]? = some p) :
    ∃ c ∈ created version model extg, p.asynName = c.asynName ∧ p.subSystem = c.subSystem ∧
      p.name = c.name ∧ p.asynType = c.asynType := by
  have hlt : i < (constructed (F := F) version model extg).length := by
    rw [← hS.length]
    exact (List.getElem?_eq_some_iff.mp hp).1
  have hq : (constructed version model extg)[i]? = some (constructed version model extg)[i] :=
    List.getElem?_eq_getElem hlt
  obtain ⟨c, hc, hparam⟩ := List.mem_map.mp (List.mem_of_getElem? hq)
  have hkeeps := hS.keeps i _ p hq hp
  rw [← hparam] at hkeeps
  obtain ⟨hasyn, hss, hname, htype⟩ := param_spec (F := F) c
  exact ⟨c, hc, hkeeps.asynName.trans hasyn, hkeeps.subSystem.trans hss,
    hkeeps.name.trans hname, hkeeps.asynType.trans htype⟩

/-- What the names of some parameters say about them. -/
structure Created.Named (c : Created) : Prop where
  epsilon : c.asynName = "WAVELENGTH_EPSILON".toList ∨ c.asynName = "ENERGY_EPSILON".toList →
    c.name = [] ∧ c.asynType = .float64
  owner : c.asynName = "FILE_OWNER".toList ∨ c.asynName = "FILE_OWNER_GROUP".toList → c.name = []
  source : c.asynName = "DATA_SOURCE".toList ∨ c.asynName = "STREAM_VERSION".toList →
    c.subSystem ≠ .detConfig

instance (c : Created) : Decidable c.Named :=
  decidable_of_iff ((c.asynName = "WAVELENGTH_EPSILON".toList ∨
      c.asynName = "ENERGY_EPSILON".toList → c.name = [] ∧ c.asynType = .float64) ∧
    (c.asynName = "FILE_OWNER".toList ∨ c.asynName = "FILE_OWNER_GROUP".toList → c.name = []) ∧
    (c.asynName = "DATA_SOURCE".toList ∨ c.asynName = "STREAM_VERSION".toList →
      c.subSystem ≠ .detConfig))
    ⟨fun h => ⟨h.1, h.2.1, h.2.2⟩, fun h => ⟨h.epsilon, h.owner, h.source⟩⟩

theorem createdAlways_named (triggerModes : List Text) :
    ∀ c ∈ createdAlways triggerModes, c.Named := by
  have hall : (createdAlways triggerModes).all (fun c => decide c.Named) = true := rfl
  simpa using hall

theorem createdForVersion_named : ∀ c ∈ createdForVersion version model extg, c.Named := by
  cases version <;> cases model <;> cases extg <;> decide

theorem createdForModel_named : ∀ c ∈ createdForModel model, c.Named := by
  cases model <;> decide

theorem created_named {c : Created} (hc : c ∈ created version model extg) : c.Named := by
  rcases List.mem_append.mp hc with hc | hc
  · exact createdAlways_named _ c hc
  · rcases List.mem_append.mp hc with hc | hc
    · exact createdForVersion_named c hc
    · exact createdForModel_named c hc

/-- None of those names begins like the name of a parameter that a record asked for. -/
theorem named_of_prefix (h : c.asynName.take 4 = PREFIX) : c.Named := by
  have hne : ∀ name : Text, name.take 4 ≠ PREFIX → c.asynName ≠ name := by
    rintro name hname rfl
    exact hname h
  refine ⟨fun hc => ?_, fun hc => ?_, fun hc => ?_⟩ <;> rcases hc with hc | hc <;>
    exact absurd hc (hne _ (by decide))

theorem exists_named (hS : Populated version model extg S) (hp : S[i]? = some p) :
    ∃ c : Created, c.Named ∧ p.asynName = c.asynName ∧ p.subSystem = c.subSystem ∧
      p.name = c.name ∧ p.asynType = c.asynType := by
  by_cases hi : i < (created version model extg).length
  · have hp' : (S.take (created version model extg).length)[i]? = some p := by
      rw [List.getElem?_take_of_lt hi, hp]
    obtain ⟨c, hc, hparam⟩ := exists_created hS.kept hp'
    exact ⟨c, created_named hc, hparam⟩
  · have hmem : p ∈ S.drop (created version model extg).length := by
      obtain ⟨j, rfl⟩ := Nat.exists_eq_add_of_le (Nat.le_of_not_lt hi)
      exact List.mem_of_getElem? (List.getElem?_drop.trans hp)
    exact ⟨⟨p.asynName, p.asynType, p.subSystem, p.name, none⟩,
      named_of_prefix (hS.asked p hmem), rfl, rfl, rfl, rfl⟩

end Constructed

section Writes

variable {api : RestAPI δ} {site : Site F} {unset : ℤ} {s : State δ F} {i : ℕ} {p : EigerParam F}
  {w : Write F} {c : PutCall δ F} {r : Written δ F}

/-- These writes return success whatever the put returns. -/
def Write.DropsStatus (w : Write F) (asynName : Text) : Prop :=
  match w with
  | .float64 _ => asynName = "PHOTON_ENERGY".toList ∨ asynName = "THRESHOLD".toList ∨
      asynName = "WAVELENGTH".toList
  | _ => False

theorem put_keepsAll (api : RestAPI δ) (d : δ) (S : EigerParamSet F) (k : ℕ) (value : PutValue F) :
    KeepsAll S (EigerParams.put api d S k value).params := by
  cases value with
  | bool b => exact putBool_keepsAll S k b
  | int n => exact putInt_keepsAll S k n
  | double x => exact putDouble_keepsAll S k x
  | string unset t => exact putString_keepsAll S k unset t

theorem State.put_keepsAll (s : State δ F) (asynName : String) (value : PutValue F) :
    KeepsAll s.world.params (s.put api asynName value).world.params := by
  rw [State.put]
  cases s.member asynName with
  | none => exact .refl _
  | some k => exact ClientWrites.put_keepsAll api _ _ k value

/-- The write returns the status of the put and leaves the parameter as the put did. -/
structure Passes (api : RestAPI δ) (i : ℕ) (c : PutCall δ F) (r : Written δ F) : Prop where
  written : ∃ q, c.start.params[i]? = some q
  status : r.status = (c.outcome api i).status
  asyn : asynAt r.state.world.params i = asynAt (c.outcome api i).params i

def PassesOn (api : RestAPI δ) (i : ℕ) (r : Written δ F) : Prop :=
  ∀ c, r.call = some c → Passes api i c r

theorem passesOn_none {status : Bool} : PassesOn api i ⟨status, s, none⟩ := by
  intro c hc
  cases hc

theorem putWritten_passesOn {t : State δ F} (h : KeepsAll s.world.params t.world.params)
    (hp : s.world.params[i]? = some p) {value : PutValue F} :
    PassesOn api i (t.putWritten api i value) := by
  intro c hc
  obtain rfl := Option.some.inj hc
  obtain ⟨q, hq, -⟩ := h.get hp
  exact ⟨⟨q, hq⟩, rfl, rfl⟩

theorem PassesOn.andThen (h : PassesOn api i r) {t : State δ F}
    (ht : t.world.params[i]? = r.state.world.params[i]?) :
    PassesOn api i { r with state := t } := by
  intro c hc
  obtain ⟨hwritten, hstatus, hasyn⟩ := h c hc
  refine ⟨hwritten, hstatus, ?_⟩
  rw [← hasyn, asynAt, ht, asynAt]

theorem writeInt32_passesOn {value : ℤ}
    (hS : Populated api.version site.model site.extg s.world.params)
    (hp : s.world.params[i]? = some p) : PassesOn api i (writeInt32 api site s i unset value) := by
  have hput : ∀ v, PassesOn api i (s.putWritten api i v) :=
    fun v => putWritten_passesOn (.refl s.world.params) hp
  have hafter : ∀ v, ∃ q, ((s.putWritten api i v).state.world.params)[i]? = some q ∧ Keeps p q :=
    fun v => (put_keepsAll api s.world.detector s.world.params i v).get hp
  rw [writeInt32, hp]
  dsimp only
  split_ifs with h₁ h₂ h₃ h₄ h₅ h₆ h₇ h₈ h₉
  · obtain ⟨q, hq, hpq⟩ := hafter (.int 1)
    apply (hput (.int 1)).andThen
    rw [hq]
    apply State.fetch_other hq
    rw [hpq.asynName, h₁.2]
    decide
  · exact passesOn_none
  · exact passesOn_none
  · exact passesOn_none
  · exact hput _
  · exact passesOn_none
  · exact putWritten_passesOn (State.put_keepsAll s _ _) hp
  · exact hput _
  · obtain ⟨q, hq, hpq⟩ := hafter (.int value)
    obtain ⟨b, hb, hname, hss, -⟩ := exists_named hS hp
    apply (hput (.int value)).andThen
    rw [hq]
    apply State.switchStream_other hq
    · rw [hpq.asynName]
      rcases h₉ with h | h
      · rw [h]
        decide
      · rw [h]
        decide
    · rw [hpq.subSystem, hss]
      apply hb.source
      rwa [← hname]
  · exact hput _

omit [Double F] in
theorem local_of_name (h : p.name = []) : p.remote = false := by
  rw [EigerParam.remote, h]
  rfl

theorem putDouble_local (api : RestAPI δ) (d : δ) {S : EigerParamSet F} (hp : S[i]? = some p)
    (hr : p.remote = false) (ha : p.asynType = .float64) (value : F) :
    (EigerParams.put api d S i (.double value)).status = true := by
  have hset : p.setParam (.float64 value) = some { p with asyn := .float64 value } :=
    setParam_type ha
  simp only [put, putDouble, hp, hr, Bool.false_eq_true, if_false]
  split_ifs
  · rfl
  · simp [putLocal, Outcome.store, hp, hset]

theorem writeFloat64_call {value : F} (hp : s.world.params[i]? = some p) :
    (writeFloat64 api site s i value).call = some ⟨s.world, .double value⟩ := by
  rw [writeFloat64, hp]
  dsimp only
  split_ifs <;> rfl

theorem writeFloat64_cases {value : F}
    (hS : Populated api.version site.model site.extg s.world.params)
    (hp : s.world.params[i]? = some p) (hc : (writeFloat64 api site s i value).call = some c)
    (hf : (c.outcome api i).status = false) :
    (Write.float64 value).DropsStatus p.asynName ∧
        (writeFloat64 api site s i value).status = true ∨
      ¬ (Write.float64 value).DropsStatus p.asynName ∧
        Passes api i c (writeFloat64 api site s i value) := by
  obtain ⟨b, hb, hname, -, hremote, htype⟩ := exists_named hS hp
  rw [writeFloat64_call hp] at hc
  obtain rfl := Option.some.inj hc
  -- the puts of the epsilons do not fail
  have hnot : ¬ (b.asynName = "WAVELENGTH_EPSILON".toList ∨
      b.asynName = "ENERGY_EPSILON".toList) := by
    intro h
    obtain ⟨hlocal, ha⟩ := hb.epsilon h
    have hput := putDouble_local api s.world.detector hp (local_of_name (hremote.trans hlocal))
      (htype.trans ha) value
    rw [PutCall.outcome, hput] at hf
    cases hf
  rw [← hname] at hnot
  rw [writeFloat64, hp]
  dsimp only
  by_cases h₁ : p.asynName = "PHOTON_ENERGY".toList
  · rw [if_pos h₁]
    exact .inl ⟨.inl h₁, rfl⟩
  · by_cases h₂ : p.asynName = "THRESHOLD".toList
    · rw [if_neg h₁, if_pos h₂]
      exact .inl ⟨.inr (.inl h₂), rfl⟩
    · by_cases h₃ : p.asynName = "WAVELENGTH".toList
      · rw [if_neg h₁, if_neg h₂, if_pos h₃]
        exact .inl ⟨.inr (.inr h₃), rfl⟩
      · rw [if_neg h₁, if_neg h₂, if_neg h₃, if_neg fun h => hnot (.inl h),
          if_neg fun h => hnot (.inr h)]
        refine .inr ⟨?_, putWritten_passesOn (.refl s.world.params) hp _ rfl⟩
        rintro (h | h | h)
        · exact h₁ h
        · exact h₂ h
        · exact h₃ h

theorem writeOctet_call {value : Text} (hp : s.world.params[i]? = some p)
    (hc : (writeOctet api site s i unset value).call = some c) :
    ∃ t, c = ⟨s.world, .string unset t⟩ := by
  rw [writeOctet, hp] at hc
  dsimp only at hc
  split_ifs at hc
  · cases hname : site.getpwuid site.getuid with
    | none => simp [hname] at hc
    | some name =>
      rw [hname] at hc
      exact ⟨name, (Option.some.inj hc).symm⟩
  · cases hname : site.getpwnam value with
    | none => simp [hname] at hc
    | some uid =>
      rw [hname] at hc
      exact ⟨value, (Option.some.inj hc).symm⟩
  · cases hname : site.getgrgid site.getgid with
    | none => simp [hname] at hc
    | some name =>
      rw [hname] at hc
      exact ⟨name, (Option.some.inj hc).symm⟩
  · cases hname : site.getgrnam value with
    | none => simp [hname] at hc
    | some gid =>
      rw [hname] at hc
      exact ⟨value, (Option.some.inj hc).symm⟩
  · exact ⟨value, (Option.some.inj hc).symm⟩

theorem writeOctet_passes {value : Text}
    (hS : Populated api.version site.model site.extg s.world.params)
    (hp : s.world.params[i]? = some p) (hc : (writeOctet api site s i unset value).call = some c)
    (hf : (c.outcome api i).status = false) :
    Passes api i c (writeOctet api site s i unset value) := by
  obtain ⟨b, hb, hname, -, hremote, -⟩ := exists_named hS hp
  -- the put of a name that is kept in the driver only does not fail
  have hnot : ¬ (b.asynName = "FILE_OWNER".toList ∨ b.asynName = "FILE_OWNER_GROUP".toList) := by
    intro h
    obtain ⟨t, rfl⟩ := writeOctet_call hp hc
    have hr := local_of_name (hremote.trans (hb.owner h))
    have hput : (PutCall.outcome api ⟨s.world, .string unset t⟩ i).status = true := by
      simp [PutCall.outcome, put, putString, hp, hr]
    rw [hput] at hf
    cases hf
  rw [← hname] at hnot
  have hplain : writeOctet api site s i unset value =
      s.putWritten api i (.string unset value) := by
    rw [writeOctet, hp]
    dsimp only
    rw [if_neg fun h => hnot (.inl h), if_neg fun h => hnot (.inr h)]
  rw [hplain] at hc ⊢
  exact putWritten_passesOn (.refl s.world.params) hp c hc

/-- A write either passes on what its put does, or drops the status of it. -/
theorem write_cases (hS : Populated api.version site.model site.extg s.world.params)
    (hp : s.world.params[i]? = some p) (hc : (write api site unset s i w).call = some c)
    (hf : (c.outcome api i).status = false) :
    w.DropsStatus p.asynName ∧ (write api site unset s i w).status = true ∨
      ¬ w.DropsStatus p.asynName ∧ Passes api i c (write api site unset s i w) := by
  cases w with
  | int32 value => exact .inr ⟨id, writeInt32_passesOn hS hp c hc⟩
  | float64 value => exact writeFloat64_cases hS hp hc hf
  | octet value => exact .inr ⟨id, writeOctet_passes hS hp hc hf⟩

/-- A write whose put fails returns an error and leaves the parameter, but for three energies, and
where a fetch in the course of the put changes the parameter. -/
theorem refused_reported_iff (api : RestAPI δ) (site : Site F) (unset : ℤ) (s : State δ F) (i : ℕ)
    (p : EigerParam F) (w : Write F) (c : PutCall δ F)
    (hS : Populated api.version site.model site.extg s.world.params)
    (hp : s.world.params[i]? = some p) (hc : (write api site unset s i w).call = some c)
    (hf : (c.outcome api i).status = false) :
    (write api site unset s i w).status = false ∧
        asynAt (write api site unset s i w).state.world.params i = some p.asyn ↔
      ¬ w.DropsStatus p.asynName ∧
        Undisturbed api c.start.detector c.start.params i c.value p.asyn := by
  rcases write_cases hS hp hc hf with ⟨hdrops, hstatus⟩ | ⟨hdrops, hpasses⟩
  · rw [hstatus]
    constructor
    · rintro ⟨hfalse, -⟩
      cases hfalse
    · rintro ⟨hnot, -⟩
      exact absurd hdrops hnot
  · obtain ⟨q, hq⟩ := hpasses.written
    have hasyn : asynAt (c.outcome api i).params i = some p.asyn ↔ _ := put_refused hq hf
    rw [hpasses.status, hpasses.asyn, hasyn, hf]
    constructor
    · rintro ⟨-, hkept⟩
      exact ⟨hdrops, hkept⟩
    · rintro ⟨-, hkept⟩
      exact ⟨rfl, hkept⟩

end Writes

/-- A detector that answers about the photon energy and accepts nothing. -/
def refusingDetector : RestAPI Unit where
  version := .v1_8_0
  get _ subSystem name :=
    if subSystem = .detConfig ∧ name = "photon_energy".toList then some (floatResponse 12000)
    else none
  put _ _ _ _ := none

def plainSite : Site ℤ where
  model := .eiger1
  extg := false
  toInt := id
  getuid := 0
  getpwuid _ := none
  getpwnam _ := none
  getgid := 0
  getgrgid _ := none
  getgrnam _ := none

def startState : State Unit ℤ where
  world := ⟨(), ((constructed .v1_8_0 .eiger1 false).fetchAt refusingDetector () 22).2⟩
  fsUid := 0
  fsGid := 0
  statusMessage := []
  triggerEvent := false
  restartEvent := false
  initializeEvent := false
  streamAPI := false
  stream2API := false

theorem startState_params : Populated .v1_8_0 .eiger1 false startState.world.params :=
  KeepsAll.populated (fetchAt_keepsAll _ _)

theorem startState_energy : startState.world.params[22]? = some (photonEnergy 12000) := rfl

/-- The write of the number of images is refused, and says so. -/
theorem refused_reported_numImages :
    (write refusingDetector plainSite 0 startState 47 (.int32 5)).status = false ∧
        asynAt (write refusingDetector plainSite 0 startState 47 (.int32 5)).state.world.params 47 =
          some (.int32 0) ↔
      ¬ (Write.int32 (F := ℤ) 5).DropsStatus "NIMAGES".toList ∧
        Undisturbed refusingDetector () startState.world.params 47 (.int 5) (.int32 0) :=
  refused_reported_iff refusingDetector plainSite 0 startState 47
    (create "NIMAGES" .int32 .detConfig "nimages").param (.int32 5) ⟨startState.world, .int 5⟩
    startState_params rfl rfl rfl

/-- The photon energy is not changed, which the client is not told. -/
theorem refused_energy_not_reported : ¬ ∀ (api : RestAPI Unit) (site : Site ℤ) (unset : ℤ)
    (s : State Unit ℤ) (i : ℕ) (p : EigerParam ℤ) (w : Write ℤ) (c : PutCall Unit ℤ),
    Populated api.version site.model site.extg s.world.params →
    s.world.params[i]? = some p → (write api site unset s i w).call = some c →
    (c.outcome api i).status = false → (write api site unset s i w).status = false ∧
      asynAt (write api site unset s i w).state.world.params i = some p.asyn := by
  intro h
  obtain ⟨hstatus, -⟩ := h refusingDetector plainSite 0 startState 22 (photonEnergy 12000)
    (.float64 13000) ⟨startState.world, .double 13000⟩ startState_params startState_energy rfl rfl
  have hsuccess : (write refusingDetector plainSite 0 startState 22 (.float64 13000)).status =
      true := rfl
  cases hsuccess.symm.trans hstatus

end ClientWrites
