import ADEiger.Stream2FieldOrder
import ADEiger.CborEncode

/-! The messages of the second stream interface as a detector sends them.
What is written of a value is read back as the value, wherever it stands in a message. -/
namespace Stream2

open CString (Text)
open TinyCbor
open Cbor (Head Str Encloses Item WellFormed encodeHead encodeText encodeBytes encodeArray encodeMap
  encodeTag encodeBool encodeDouble)
open Loop (readMany)

variable {α β μ : Type} {it : CborValue} {b t head : Bytes} {bs items rest : List Bytes}
  {m : UInt8} {n : ℕ} {v : α}

section Encoders

def encodeUint64 (n : ℕ) : Bytes := encodeHead Cbor.unsignedInteger n

def encodeTextString (text : Text) : Bytes := encodeText (ascii text)

def encodeArray2Uint64 (v : ℕ × ℕ) : Bytes := encodeArray [encodeUint64 v.1, encodeUint64 v.2]

def ByteString.encode (data : ByteString) : Bytes :=
  match data.compression with
  | none => encodeBytes data.ptr
  | some compression => encodeTag DECTRIS_COMPRESSION (encodeArray
      [encodeTextString compression.algorithm, encodeUint64 compression.elemSize,
        encodeBytes data.ptr])

def TypedArray.encode (array : TypedArray) : Bytes := encodeTag array.tag array.data.encode

def MultidimArray.encode (array : MultidimArray) : Bytes :=
  encodeTag MULTI_DIMENSIONAL_ARRAY_ROW_MAJOR
    (encodeArray [encodeArray2Uint64 array.dim, array.array.encode])

def encodeEntries (entries : List (Bytes × Bytes)) : Bytes := encodeMap (itemsOf entries)

def encodeChannels (encode : α → Bytes) (values : List (Text × α)) : Bytes :=
  encodeEntries (values.map fun v => (encodeTextString v.1, encode v.2))

def encodeChannelNames (names : List Text) : Bytes := encodeArray (names.map encodeTextString)

def entry (key : String) (item : Bytes) : Bytes × Bytes := (encodeTextString key.toList, item)

def optional (key : String) (item : Option Bytes) : List (Bytes × Bytes) :=
  (item.map (entry key)).toList

def GoniometerAxis.entries (axis : GoniometerAxis) : List (Bytes × Bytes) :=
  [entry "increment" (encodeDouble axis.increment), entry "start" (encodeDouble axis.start)]

def GoniometerAxis.encode (axis : GoniometerAxis) : Bytes := encodeEntries axis.entries

def Goniometer.entries (g : Goniometer) : List (Bytes × Bytes) :=
  [entry "chi" g.chi.encode, entry "kappa" g.kappa.encode, entry "omega" g.omega.encode,
    entry "phi" g.phi.encode, entry "two_theta" g.twoTheta.encode]

def Goniometer.encode (g : Goniometer) : Bytes := encodeEntries g.entries

/-- The table of a message in which none was sent. -/
def noTable : TypedArray := ⟨2 ^ 64 - 1, ⟨[], 0, none⟩⟩

/-- A text that is NULL is left out, as are the data of the user and the table if there are
none. -/
def StartMsg.entries (msg : StartMsg) : List (Bytes × Bytes) :=
  [ [entry "series_id" (encodeUint64 msg.seriesId)],
    optional "series_unique_id" (msg.seriesUniqueId.map encodeTextString),
    optional "arm_date" (msg.armDate.map encodeTextString),
    [entry "beam_center_x" (encodeDouble msg.beamCenterX)],
    [entry "beam_center_y" (encodeDouble msg.beamCenterY)],
    [entry "channels" (encodeChannelNames msg.channels)],
    [entry "count_time" (encodeDouble msg.countTime)],
    [entry "countrate_correction_enabled" (encodeBool msg.countrateCorrectionEnabled)],
    optional "countrate_correction_lookup_table"
      (if msg.countrateCorrectionLookupTable = noTable then none
        else some msg.countrateCorrectionLookupTable.encode),
    optional "detector_description" (msg.detectorDescription.map encodeTextString),
    optional "detector_serial_number" (msg.detectorSerialNumber.map encodeTextString),
    [entry "detector_translation" (encodeArray (msg.detectorTranslation.map encodeDouble))],
    [entry "flatfield" (encodeChannels MultidimArray.encode msg.flatfield)],
    [entry "flatfield_enabled" (encodeBool msg.flatfieldEnabled)],
    [entry "frame_time" (encodeDouble msg.frameTime)],
    [entry "goniometer" msg.goniometer.encode],
    optional "image_dtype" (msg.imageDtype.map encodeTextString),
    [entry "image_size_x" (encodeUint64 msg.imageSizeX)],
    [entry "image_size_y" (encodeUint64 msg.imageSizeY)],
    [entry "incident_energy" (encodeDouble msg.incidentEnergy)],
    [entry "incident_wavelength" (encodeDouble msg.incidentWavelength)],
    [entry "number_of_images" (encodeUint64 msg.numberOfImages)],
    [entry "pixel_mask" (encodeChannels MultidimArray.encode msg.pixelMask)],
    [entry "pixel_mask_enabled" (encodeBool msg.pixelMaskEnabled)],
    [entry "pixel_size_x" (encodeDouble msg.pixelSizeX)],
    [entry "pixel_size_y" (encodeDouble msg.pixelSizeY)],
    [entry "saturation_value" (encodeUint64 msg.saturationValue)],
    optional "sensor_material" (msg.sensorMaterial.map encodeTextString),
    [entry "sensor_thickness" (encodeDouble msg.sensorThickness)],
    [entry "threshold_energy" (encodeChannels encodeDouble msg.thresholdEnergy)],
    optional "user_data" (if msg.userData = [] then none else some msg.userData),
    [entry "virtual_pixel_interpolation_enabled"
      (encodeBool msg.virtualPixelInterpolationEnabled)] ].flatten

def ImageMsg.entries (msg : ImageMsg) : List (Bytes × Bytes) :=
  [ [entry "series_id" (encodeUint64 msg.seriesId)],
    optional "series_unique_id" (msg.seriesUniqueId.map encodeTextString),
    [entry "image_id" (encodeUint64 msg.imageId)],
    [entry "real_time" (encodeArray2Uint64 msg.realTime)],
    optional "series_date" (msg.seriesDate.map encodeTextString),
    [entry "start_time" (encodeArray2Uint64 msg.startTime)],
    [entry "stop_time" (encodeArray2Uint64 msg.stopTime)],
    optional "user_data" (if msg.userData = [] then none else some msg.userData),
    [entry "data" (encodeChannels MultidimArray.encode msg.data)] ].flatten

def EndMsg.entries (msg : EndMsg) : List (Bytes × Bytes) :=
  [ [entry "series_id" (encodeUint64 msg.seriesId)],
    optional "series_unique_id" (msg.seriesUniqueId.map encodeTextString) ].flatten

def Msg.type : Msg → String
  | .start _ => "start"
  | .image _ => "image"
  | .seriesEnd _ => "end"

def Msg.entries : Msg → List (Bytes × Bytes)
  | .start msg => msg.entries
  | .image msg => msg.entries
  | .seriesEnd msg => msg.entries

/-- The type of the message goes first. -/
def Msg.encode (msg : Msg) : Bytes :=
  MAGIC ++ encodeEntries (entry "type" (encodeTextString msg.type.toList) :: msg.entries)

end Encoders

section Sendable

/-- Of `uint64_t`, or the bits of a `double`. -/
abbrev Word (n : ℕ) : Prop := n < 2 ^ 64

/-- Characters of one byte each, the NUL not among them. -/
structure IsText (text : Text) : Prop where
  bytes : ∀ c ∈ text, c.toNat < 256
  nul : CString.NUL ∉ text
  length : Word text.length

/-- The size that compressed data had is written in front of them. -/
structure ByteString.Sendable (data : ByteString) : Prop where
  len : data.len = data.ptr.length
  word : Word data.len
  compressed : ∀ c, data.compression = some c → (c.algorithm = BSLZ4 ∨ c.algorithm = LZ4) ∧
    Word c.elemSize ∧ 12 ≤ data.len ∧ c.origSize = bigEndian (data.ptr.take 8)

/-- The bytes of an element of a typed array. -/
def TypedArray.elemSize (array : TypedArray) : ℕ := 2 ^ (array.tag / 16 % 2 + array.tag % 4)

structure TypedArray.Sendable (array : TypedArray) : Prop where
  tag : 64 ≤ array.tag ∧ array.tag ≤ 87
  data : array.data.Sendable
  whole : array.data.size % array.elemSize = 0

structure MultidimArray.Sendable (a : MultidimArray) : Prop where
  dim : Word a.dim.1 ∧ Word a.dim.2
  array : a.array.Sendable
  elements : a.dim.1 * a.dim.2 % 2 ^ 64 = a.array.data.size / a.array.elemSize

/-- As many as tinycbor can count in a map. -/
structure SendableChannels (P : α → Prop) (values : List (Text × α)) : Prop where
  count : values.length ≤ UINT32_MAX / 2
  channel : ∀ v ∈ values, IsText v.1
  value : ∀ v ∈ values, P v.2

structure SendableNames (names : List Text) : Prop where
  count : names.length < UINT32_MAX
  name : ∀ name ∈ names, IsText name

def GoniometerAxis.Sendable (axis : GoniometerAxis) : Prop := Word axis.increment ∧ Word axis.start

structure Goniometer.Sendable (g : Goniometer) : Prop where
  chi : g.chi.Sendable
  kappa : g.kappa.Sendable
  omega : g.omega.Sendable
  phi : g.phi.Sendable
  twoTheta : g.twoTheta.Sendable

def Untagged (b : Bytes) : Prop := ∀ byte ∈ b.head?, Cbor.majorType byte ≠ Cbor.tag

/-- One item that tinycbor can move over, or nothing. -/
def SendableUserData (data : Bytes) : Prop :=
  data = [] ∨ Item Fits CBOR_PARSER_MAX_RECURSIONS data ∧ Untagged data

structure StartMsg.Sendable (msg : StartMsg) : Prop where
  seriesId : Word msg.seriesId
  seriesUniqueId : ∀ text ∈ msg.seriesUniqueId, IsText text
  armDate : ∀ text ∈ msg.armDate, IsText text
  beamCenterX : Word msg.beamCenterX
  beamCenterY : Word msg.beamCenterY
  channels : SendableNames msg.channels
  countTime : Word msg.countTime
  countrateCorrectionLookupTable : msg.countrateCorrectionLookupTable = noTable ∨
    msg.countrateCorrectionLookupTable.Sendable
  detectorDescription : ∀ text ∈ msg.detectorDescription, IsText text
  detectorSerialNumber : ∀ text ∈ msg.detectorSerialNumber, IsText text
  detectorTranslation : msg.detectorTranslation.length = 3 ∧
    ∀ bits ∈ msg.detectorTranslation, Word bits
  flatfield : SendableChannels MultidimArray.Sendable msg.flatfield
  frameTime : Word msg.frameTime
  goniometer : msg.goniometer.Sendable
  imageDtype : ∀ text ∈ msg.imageDtype, IsText text
  imageSizeX : Word msg.imageSizeX
  imageSizeY : Word msg.imageSizeY
  incidentEnergy : Word msg.incidentEnergy
  incidentWavelength : Word msg.incidentWavelength
  numberOfImages : Word msg.numberOfImages
  pixelMask : SendableChannels MultidimArray.Sendable msg.pixelMask
  pixelSizeX : Word msg.pixelSizeX
  pixelSizeY : Word msg.pixelSizeY
  saturationValue : Word msg.saturationValue
  sensorMaterial : ∀ text ∈ msg.sensorMaterial, IsText text
  sensorThickness : Word msg.sensorThickness
  thresholdEnergy : SendableChannels Word msg.thresholdEnergy
  userData : SendableUserData msg.userData

structure ImageMsg.Sendable (msg : ImageMsg) : Prop where
  seriesId : Word msg.seriesId
  seriesUniqueId : ∀ text ∈ msg.seriesUniqueId, IsText text
  imageId : Word msg.imageId
  realTime : Word msg.realTime.1 ∧ Word msg.realTime.2
  seriesDate : ∀ text ∈ msg.seriesDate, IsText text
  startTime : Word msg.startTime.1 ∧ Word msg.startTime.2
  stopTime : Word msg.stopTime.1 ∧ Word msg.stopTime.2
  userData : SendableUserData msg.userData
  data : SendableChannels MultidimArray.Sendable msg.data

structure EndMsg.Sendable (msg : EndMsg) : Prop where
  seriesId : Word msg.seriesId
  seriesUniqueId : ∀ text ∈ msg.seriesUniqueId, IsText text

def Msg.Sendable : Msg → Prop
  | .start msg => msg.Sendable
  | .image msg => msg.Sendable
  | .seriesEnd msg => msg.Sendable

end Sendable

section Texts

variable {text : Text}

theorem cstring_ascii (h : IsText text) : cstring (ascii text) = text := by
  have hchars : (ascii text).map (fun b => Char.ofNat b.toNat) = text := by
    rw [ascii, List.map_map]
    refine (List.map_congr_left fun c hc => ?_).trans (List.map_id text)
    have hbyte : (UInt8.ofNat c.toNat).toNat = c.toNat :=
      UInt8.toNat_ofNat'.trans (Nat.mod_eq_of_lt (h.bytes c hc))
    rw [Function.comp_apply, hbyte]
    exact Char.ofNat_toNat c
  rw [cstring, hchars, CString.cstr_of_not_mem h.nul]

theorem encodeTextString_str (h : IsText text) :
    Str Cbor.textString (ascii text) (encodeTextString text) := by
  refine Cbor.encodeText_str ?_
  rw [ascii, List.length_map]
  exact h.length

theorem Str.wellFormed {content : Bytes} (hm : m = Cbor.byteString ∨ m = Cbor.textString)
    (hs : Str m content b) : WellFormed b := ⟨0, .string hm hs⟩

theorem encodeTextString_wellFormed (h : IsText text) : WellFormed (encodeTextString text) :=
  Str.wellFormed (.inr rfl) (encodeTextString_str h)

end Texts

section Values

/-- The value is read of the items, wherever they are. -/
structure ReadsBack (read : CborValue → Except Stream2Error (α × CborValue)) (bs : List Bytes)
    (v : α) : Prop where
  yields : Yields read bs v

variable {read : CborValue → Except Stream2Error (α × CborValue)}

theorem ReadsBack.bind {g : α → CborValue → Except Stream2Error (β × CborValue)}
    {bs' : List Bytes} {w : β} (h : ReadsBack read bs v) (h' : ReadsBack (g v) bs' w) :
    ReadsBack (fun it => read it >>= fun x => g x.1 x.2) (bs ++ bs') w := by
  constructor
  intro it rest t hbefore
  rw [List.append_assoc] at hbefore
  obtain ⟨mid, hread, hmid⟩ := h.yields hbefore
  obtain ⟨last, hmore, hlast⟩ := h'.yields hmid
  refine ⟨last, ?_, hlast⟩
  dsimp only
  rw [hread, Loop.ok_bind]
  exact hmore

theorem ReadsBack.pure (v : α) : ReadsBack (fun it => .ok (v, it)) [] v :=
  ⟨fun hbefore => ⟨_, rfl, hbefore⟩⟩

theorem ReadsBack.map (h : ReadsBack read bs v) (f : α → β) :
    ReadsBack (fun it => read it >>= fun x => .ok (f x.1, x.2)) bs (f v) := by
  have hmapped := h.bind (g := fun v it => .ok (f v, it)) (ReadsBack.pure (f v))
  rwa [List.append_nil] at hmapped

theorem ReadsBack.many {f : α → List Bytes} (vs : List α)
    (h : ∀ v ∈ vs, ReadsBack read (f v) v) :
    ReadsBack (readMany read vs.length) (vs.map f).flatten vs := by
  induction vs with
  | nil => exact ReadsBack.pure []
  | cons v vs ih =>
    obtain ⟨hv, hvs⟩ := List.forall_mem_cons.mp h
    exact hv.bind (g := fun v it => readMany read vs.length it >>= fun x =>
      .ok (v :: x.1, x.2)) ((ih hvs).map (v :: ·))

/-- A number or a simple value, known from its head. -/
theorem fixedValue_back {look : CborValue → Except Stream2Error α} (hh : Head m n b)
    (hlook : ∀ {it t}, Primed it → it.ptr = b ++ t →
      look it = .ok v ∧ isFixedType it.type = true ∧ it.type ≠ CborTagType) :
    ReadsBack (fixedValue look) [b] v := by
  constructor
  intro it rest t hbefore
  obtain ⟨hprimed, u, hptr, ⟨last, hlast⟩, hstep⟩ := hbefore.step
  obtain ⟨hvalue, hfixed, htag⟩ := hlook hprimed hptr
  obtain ⟨moved, hmoved, hfollows⟩ := advanceInternal_follows hprimed hh hptr htag hlast
  refine ⟨moved, ?_, hstep moved hfollows⟩
  rw [fixedValue, hvalue, Loop.ok_bind, advanceFixed_eq hprimed hfixed, hmoved]
  rfl

theorem encodeUint64_head (hn : Word n) : Head Cbor.unsignedInteger n (encodeUint64 n) :=
  Cbor.encodeHead_head (by decide) hn

theorem parseUint64_back (hn : Word n) : ReadsBack parseUint64 [encodeUint64 n] n := by
  have hh := encodeUint64_head hn
  rw [parseUint64_eq]
  refine fixedValue_back hh fun {it t} hprimed hptr => ?_
  obtain ⟨htype, hvalue, hnegative, -⟩ := primed_head hprimed.read hptr hh (by decide)
  rw [CborValue.isUnsignedInteger, htype, hvalue, hnegative]
  exact ⟨rfl, rfl, by decide⟩

theorem parseBool_back (v : Bool) : ReadsBack parseBool [encodeBool v] v := by
  have hh : ∃ n, Head Cbor.simpleOrFloat n (encodeBool v) := by
    cases v <;> exact ⟨_, .of rfl rfl (by decide) rfl⟩
  obtain ⟨n, hh⟩ := hh
  rw [parseBool_eq]
  refine fixedValue_back hh fun {it t} hprimed hptr => ?_
  have hread : it.type = CborBooleanType ∧ (it.extra != 0) = v := by
    have hread : (preparseValue it).2 = it := congrArg Prod.snd hprimed.read
    rw [preparseValue, hptr] at hread
    rw [← hread]
    cases v <;> exact ⟨rfl, rfl⟩
  rw [if_neg (not_not.mpr hread.1), hread.1, hread.2]
  exact ⟨rfl, rfl, by decide⟩

theorem parseDouble_back (hn : Word n) : ReadsBack parseDouble [encodeDouble n] n := by
  have hh := Cbor.encodeDouble_head hn
  show ReadsBack (fixedValue doubleBits) _ _
  refine fixedValue_back hh fun {it t} hprimed hptr => ?_
  obtain ⟨u, hu, hread⟩ := preparse_simple hprimed.read hptr rfl (by decide)
  have htype : it.type = CborDoubleType := by
    rw [← (Prod.mk.inj hread).2]
    rfl
  have hbits : it.decodeInt64 = n := by
    rw [CborValue.decodeInt64, hptr]
    show bigEndian ((Cbor.bytesOf 8 n ++ t).take 8) = n
    rw [List.take_left' (Cbor.bytesOf_length 8 n)]
    exact Cbor.bigEndian_bytesOf hn
  rw [doubleBits, htype, hbits]
  exact ⟨rfl, rfl, by decide⟩

theorem parseTextString_back {text : Text} (h : IsText text) :
    ReadsBack parseTextString [encodeTextString text] text := by
  constructor
  intro it rest t hbefore
  obtain ⟨htype, moved, hcopy, hafter⟩ :=
    hbefore.copyString (encodeTextString_str h) (.inl rfl)
  have htype' : it.type = CborTextStringType := htype
  refine ⟨moved, ?_, hafter⟩
  rw [parseTextString, if_neg (not_not.mpr htype'), hcopy]
  exact congrArg (fun text => Except.ok (text, moved)) (cstring_ascii h)

end Values

section Containers

variable {type : UInt8} {read : CborValue → Except Stream2Error (α × CborValue)}

/-- A container of known length is entered at its items and left behind them. -/
theorem Before.counted (h : Before it ((head ++ items.flatten) :: rest) t) (hc : IsContainer m)
    (hh : Head m n head) (hfits : Fits m n) (hcount : items.length = Cbor.itemCount m n)
    (hwf : ∀ item ∈ items, WellFormed item) : it.type = m ∧ it.getLength = .ok n ∧
      ∃ elt u, enterContainer it = .ok elt ∧ Before elt (items ++ []) u ∧
        ∀ last, Before last [] u → ∃ it', leaveContainer it last = .ok it' ∧ Before it' rest t := by
  obtain ⟨hprimed, htype, u, elt, hptr, henter, hitems, hleave⟩ :=
    h.enter hc (.counted hh hfits hcount) hwf
  have hsimple : m ≠ CborSimpleType := by rcases hc with rfl | rfl <;> decide
  rw [List.append_assoc] at hptr
  obtain ⟨-, hlen, -, hknown⟩ := primed_head hprimed.read hptr hh hsimple
  refine ⟨htype, ?_, elt, u, henter, ?_, fun last hlast => ?_⟩
  · rw [CborValue.getLength, hknown, hlen]
    rfl
  · rwa [List.append_nil]
  · obtain ⟨hended, hptr'⟩ := before_nil_iff.mp hlast
    exact hleave last hended hptr'

theorem knownContainer_back {read : ℕ → CborValue → Except Stream2Error (α × CborValue)}
    (hc : IsContainer type) (hh : Head type n head) (hfits : Fits type n)
    (hcount : items.length = Cbor.itemCount type n) (hwf : ∀ item ∈ items, WellFormed item)
    (h : ReadsBack (read n) items v) :
    ReadsBack (knownContainer type read) [head ++ items.flatten] v := by
  constructor
  intro it rest t hbefore
  obtain ⟨htype, hlen, elt, u, henter, hitems, hleave⟩ :=
    Before.counted hbefore hc hh hfits hcount hwf
  obtain ⟨last, hread, hlast⟩ := h.yields hitems
  obtain ⟨moved, hmoved, hafter⟩ := hleave last hlast
  refine ⟨moved, ?_, hafter⟩
  rw [knownContainer, if_neg (not_not.mpr htype), hlen, henter]
  show (read n elt >>= _) = _
  rw [hread, Loop.ok_bind]
  dsimp only
  rw [hmoved]
  rfl

theorem parseArray_back (hn : items.length = n) (hmax : n < UINT32_MAX)
    (hwf : ∀ item ∈ items, WellFormed item) (h : ReadsBack read items v) :
    ReadsBack (parseArray n read) [encodeArray items] v := by
  subst hn
  have hh : Head Cbor.array items.length (encodeHead Cbor.array items.length) :=
    Cbor.encodeHead_head (by decide) (hmax.trans (by decide))
  constructor
  intro it rest t hbefore
  obtain ⟨htype, hlen, elt, u, henter, hitems, hleave⟩ := Before.counted hbefore (.inl rfl) hh
    ⟨hmax, fun h => absurd h (by decide)⟩ (if_neg (by decide)).symm hwf
  have htype' : it.type = CborArrayType := htype
  obtain ⟨last, hread, hlast⟩ := h.yields hitems
  obtain ⟨moved, hmoved, hafter⟩ := hleave last hlast
  refine ⟨moved, ?_, hafter⟩
  rw [parseArray, if_neg (not_not.mpr htype'), hlen]
  show (if items.length ≠ items.length then _ else _) = _
  rw [if_neg (not_not.mpr rfl), henter]
  show (read elt >>= _) = _
  rw [hread, Loop.ok_bind]
  dsimp only
  rw [hmoved]
  rfl

theorem encodeArray_wellFormed (hmax : items.length < UINT32_MAX)
    (hwf : ∀ item ∈ items, WellFormed item) : WellFormed (encodeArray items) := by
  have he : Encloses (fun _ _ => True) Cbor.array items (encodeArray items) :=
    Cbor.encodeArray_encloses (hmax.trans (by decide)) trivial
  exact Cbor.wellFormed_container (.inl rfl) he hwf

theorem encodeUint64_wellFormed (hn : Word n) : WellFormed (encodeUint64 n) :=
  ⟨0, .number (.inl rfl) (encodeUint64_head hn)⟩

theorem encodeDouble_wellFormed (hn : Word n) : WellFormed (encodeDouble n) :=
  ⟨0, .simple (Cbor.encodeDouble_head hn) fun hlen => by
    rw [encodeDouble, List.length_cons, Cbor.bytesOf_length] at hlen
    cases hlen⟩

theorem encodeArray2Uint64_wellFormed {v : ℕ × ℕ} (h : Word v.1 ∧ Word v.2) :
    WellFormed (encodeArray2Uint64 v) :=
  encodeArray_wellFormed (by decide : 2 < UINT32_MAX) (List.forall_mem_cons.mpr
    ⟨encodeUint64_wellFormed h.1, List.forall_mem_singleton.mpr (encodeUint64_wellFormed h.2)⟩)

theorem parseArray2Uint64_back {v : ℕ × ℕ} (h : Word v.1 ∧ Word v.2) :
    ReadsBack parseArray2Uint64 [encodeArray2Uint64 v] v := by
  refine parseArray_back rfl (by decide) ?_ ?_
  · exact List.forall_mem_cons.mpr ⟨encodeUint64_wellFormed h.1,
      List.forall_mem_singleton.mpr (encodeUint64_wellFormed h.2)⟩
  · exact (parseUint64_back h.1).bind (g := fun a elt => parseUint64 elt >>= fun x =>
      .ok ((a, x.1), x.2)) ((parseUint64_back h.2).map fun b => (v.1, b))

theorem parseChannelNames_back {names : List Text} (h : SendableNames names) :
    ReadsBack parseChannelNames [encodeChannelNames names] names := by
  have hlen : (names.map encodeTextString).length = names.length := List.length_map _
  have hmax : (names.map encodeTextString).length < UINT32_MAX := hlen ▸ h.count
  have hh := Cbor.encodeHead_head (m := Cbor.array) (by decide) (hmax.trans (by decide))
  have hread : ReadsBack (readMany parseTextString names.length) (names.map encodeTextString)
      names := by
    have hmany := ReadsBack.many (f := fun name => [encodeTextString name]) names
      fun name hname => parseTextString_back (h.name name hname)
    rwa [← List.flatMap_def, ← List.map_eq_flatMap] at hmany
  show ReadsBack (knownContainer CborArrayType (readMany parseTextString)) _ names
  refine knownContainer_back (.inl rfl) hh ⟨hmax, fun h => absurd h (by decide)⟩
    (if_neg (by decide)).symm ?_ (hlen ▸ hread)
  exact List.forall_mem_map.mpr fun name hname => encodeTextString_wellFormed (h.name name hname)

theorem itemsOf_half (entries : List (Bytes × Bytes)) :
    (itemsOf entries).length / 2 = entries.length := by
  rw [itemsOf_length, Nat.mul_div_cancel_left _ (by decide)]

theorem encodeEntries_eq (entries : List (Bytes × Bytes)) : encodeEntries entries =
    encodeHead Cbor.map entries.length ++ (itemsOf entries).flatten := by
  rw [encodeEntries, encodeMap, itemsOf_half]

/-- A map of entries is one that tinycbor can count. -/
theorem encodeEntries_definite {entries : List (Bytes × Bytes)}
    (h : entries.length ≤ UINT32_MAX / 2) : Definite Fits entries (encodeEntries entries) := by
  rw [encodeEntries_eq]
  exact .mk (Cbor.encodeHead_head (by decide) (Nat.lt_of_le_of_lt h (by decide)))
    ⟨Nat.lt_of_le_of_lt h (by decide), fun _ => h⟩

theorem encodeEntries_wellFormed {entries : List (Bytes × Bytes)}
    (h : entries.length ≤ UINT32_MAX / 2) (hkeyed : TextKeyed entries) :
    WellFormed (encodeEntries entries) :=
  Cbor.wellFormed_container (.inr rfl) (encodeEntries_definite h).encloses hkeyed.wellFormed

variable {encode : α → Bytes} {Q : α → Prop} {values : List (Text × α)}

theorem channels_count (encode : α → Bytes) (h : SendableChannels Q values) :
    (values.map fun v => (encodeTextString v.1, encode v.2)).length ≤ UINT32_MAX / 2 := by
  rw [List.length_map]
  exact h.count

theorem channels_keyed (h : SendableChannels Q values) (hwf : ∀ {v}, Q v → WellFormed (encode v)) :
    TextKeyed (values.map fun v => (encodeTextString v.1, encode v.2)) := by
  intro e he
  obtain ⟨v, hv, rfl⟩ := List.mem_map.mp he
  exact ⟨⟨_, encodeTextString_str (h.channel v hv)⟩, hwf (h.value v hv)⟩

/-- The keys and the values of a map of known length. -/
theorem parseChannels_back (h : SendableChannels Q values)
    (hread : ∀ {v}, Q v → ReadsBack read [encode v] v ∧ WellFormed (encode v)) :
    ReadsBack (parseChannels read) [encodeChannels encode values] values := by
  have hentry : ∀ v ∈ values, ReadsBack (channelEntry read)
      [encodeTextString v.1, encode v.2] v := by
    intro v hv
    exact (parseTextString_back (h.channel v hv)).bind (g := fun channel field =>
      read field >>= fun x => .ok ((channel, x.1), x.2))
      ((hread (h.value v hv)).1.map fun value => (v.1, value))
  have hmany := ReadsBack.many values hentry
  have hitems : (values.map fun v => [encodeTextString v.1, encode v.2]).flatten =
      itemsOf (values.map fun v => (encodeTextString v.1, encode v.2)) := by
    rw [itemsOf, List.map_map]
    rfl
  have hcount := channels_count encode h
  have hlen : (values.map fun v => (encodeTextString v.1, encode v.2)).length = values.length :=
    List.length_map _
  rw [hitems, ← hlen] at hmany
  show ReadsBack (knownContainer CborMapType (readMany (channelEntry read))) _ values
  rw [encodeChannels, encodeEntries_eq]
  refine knownContainer_back (.inr rfl) (Cbor.encodeHead_head (by decide)
    (Nat.lt_of_le_of_lt hcount (by decide))) ⟨Nat.lt_of_le_of_lt hcount (by decide), fun _ =>
      hcount⟩ ((itemsOf_length _).trans (if_pos rfl).symm) ?_ hmany
  exact (channels_keyed h fun hv => (hread hv).2).wellFormed

end Containers

section Arrays

variable {read : CborValue → Except Stream2Error (α × CborValue)}
  {g : ℕ → CborValue → Except Stream2Error (α × CborValue)}

theorem parseTag_back (hn : Word n) (hb : WellFormed b) (h : ReadsBack (g n) [b] v) :
    ReadsBack (fun it => parseTag it >>= fun x => g x.1 x.2) [encodeTag n b] v := by
  constructor
  intro it rest t hbefore
  have hh : Head Cbor.tag n (encodeHead Cbor.tag n) := Cbor.encodeHead_head (by decide) hn
  obtain ⟨htype, hvalue, mid, hmoved, hmid⟩ := Before.untag hbefore hh hb
  obtain ⟨last, hread, hlast⟩ := h.yields hmid
  refine ⟨last, ?_, hlast⟩
  dsimp only
  rw [parseTag, if_neg (not_not.mpr htype), advanceFixed_eq hbefore.step.1 (by rw [htype]; rfl),
    hmoved, hvalue]
  exact hread

theorem expected_back (hn : Word n) (hb : WellFormed b) (h : ReadsBack read [b] v) :
    ReadsBack (fun it => parseTag it >>= fun x =>
      if x.1 ≠ n then .error .parse else read x.2) [encodeTag n b] v := by
  refine parseTag_back (g := fun tag it => if tag ≠ n then .error .parse else read it) hn hb ?_
  simpa only [ne_eq, not_true_eq_false, if_false] using h

theorem encodeBytes_str {content : Bytes} (h : Word content.length) :
    Str Cbor.byteString content (encodeBytes content) := .known (Cbor.encodeBytes_head h) rfl

theorem knownBytes_back {content : Bytes} (h : Word content.length) :
    ReadsBack knownBytes [encodeBytes content] (content, content.length) := by
  constructor
  intro it rest t hbefore
  have hh := Cbor.encodeBytes_head h
  have hitem : Item Fits CBOR_PARSER_MAX_RECURSIONS (encodeBytes content) :=
    .string (.inl rfl) (encodeBytes_str h)
  obtain ⟨hprimed, u, hptr, ⟨next, hnext⟩, hstep⟩ := hbefore.step
  have hptr' : it.ptr = encodeHead Cbor.byteString content.length ++ (content ++ u) := by
    rw [hptr, encodeBytes, List.append_assoc]
  obtain ⟨htype, hvalue, -, hknown⟩ := primed_head hprimed.read hptr' hh (by decide)
  have htype' : it.type = CborByteStringType := htype
  have hlen : it.getLength = .ok content.length := by
    rw [CborValue.getLength, hknown, hvalue]
    rfl
  obtain ⟨moved, hmoved, hfollows⟩ :=
    advance_complete hitem hprimed hptr (by rw [htype']; decide) hnext
  refine ⟨moved, ?_, hstep moved hfollows⟩
  rw [knownBytes, if_neg (not_not.mpr htype'), consumeByteString_eq hh hptr' hlen, hmoved]
  rfl

theorem encodeBytes_wellFormed {content : Bytes} (h : Word content.length) :
    WellFormed (encodeBytes content) := Str.wellFormed (.inl rfl) (encodeBytes_str h)

theorem ReadsBack.check {x : Except Stream2Error α} (h : x = .ok v) :
    ReadsBack (fun it => x >>= fun v => .ok (v, it)) [] v := by
  rw [h]
  exact ReadsBack.pure v

variable {data : ByteString} {c : Compression}

theorem ByteString.Sendable.compressed_ok (h : data.Sendable) (hc : data.compression = some c) :
    Stream2.compressed c.algorithm c.elemSize (data.ptr, data.ptr.length) = .ok data := by
  obtain ⟨halgorithm, -, hlen, horig⟩ := h.compressed c hc
  have hshort : ¬ data.ptr.length < 12 := by
    rw [← h.len]
    exact Nat.not_lt.mpr hlen
  rw [Stream2.compressed, if_pos halgorithm]
  dsimp only
  rw [if_neg hshort, ← horig, ← h.len, ← hc]

theorem algorithm_isText {algorithm : Text} (h : algorithm = BSLZ4 ∨ algorithm = LZ4) :
    IsText algorithm := by
  rcases h with rfl | rfl <;> exact ⟨by decide, by decide, by decide⟩

theorem ByteString.Sendable.ptr_word (h : data.Sendable) : Word data.ptr.length := h.len ▸ h.word

theorem ByteString.Sendable.items_wellFormed (h : data.Sendable) (hc : data.compression = some c) :
    ∀ item ∈ [encodeTextString c.algorithm, encodeUint64 c.elemSize, encodeBytes data.ptr],
      WellFormed item := by
  obtain ⟨halgorithm, helem, -, -⟩ := h.compressed c hc
  exact List.forall_mem_cons.mpr ⟨encodeTextString_wellFormed (algorithm_isText halgorithm),
    List.forall_mem_cons.mpr ⟨encodeUint64_wellFormed helem,
      List.forall_mem_singleton.mpr (encodeBytes_wellFormed h.ptr_word)⟩⟩

theorem ByteString.Sendable.array_wellFormed (h : data.Sendable) (hc : data.compression = some c) :
    WellFormed (encodeArray [encodeTextString c.algorithm, encodeUint64 c.elemSize,
      encodeBytes data.ptr]) :=
  encodeArray_wellFormed (by decide : 3 < UINT32_MAX) (h.items_wellFormed hc)

theorem compressionItems_back (h : data.Sendable) (hc : data.compression = some c) :
    ReadsBack compressionItems
      [encodeTextString c.algorithm, encodeUint64 c.elemSize, encodeBytes data.ptr] data := by
  obtain ⟨halgorithm, helem, -, -⟩ := h.compressed c hc
  rw [compressionItems_eq]
  refine (parseTextString_back (algorithm_isText halgorithm)).bind
    (g := fun algorithm it => parseUint64 it >>= fun y => knownBytes y.2 >>= fun z =>
      Stream2.compressed algorithm y.1 z.1 >>= fun data => .ok (data, z.2)) ?_
  refine (parseUint64_back helem).bind (g := fun elemSize it => knownBytes it >>= fun z =>
    Stream2.compressed c.algorithm elemSize z.1 >>= fun data => .ok (data, z.2)) ?_
  exact (knownBytes_back h.ptr_word).bind (g := fun bytes it =>
    Stream2.compressed c.algorithm c.elemSize bytes >>= fun data => .ok (data, it))
    (ReadsBack.check (h.compressed_ok hc))

theorem ByteString.Sendable.wellFormed (h : data.Sendable) : WellFormed data.encode := by
  rw [ByteString.encode]
  cases hc : data.compression with
  | none => exact encodeBytes_wellFormed h.ptr_word
  | some c =>
    exact Cbor.encodeTag_wellFormed (by decide : Word DECTRIS_COMPRESSION) (h.array_wellFormed hc)

theorem parseBytes_back (h : data.Sendable) : ReadsBack parseBytes [data.encode] data := by
  constructor
  intro it rest t hbefore
  rw [ByteString.encode] at hbefore
  cases hc : data.compression with
  | none =>
    rw [hc] at hbefore
    obtain ⟨moved, hread, hafter⟩ := (knownBytes_back h.ptr_word).yields hbefore
    obtain ⟨htype, -⟩ := Loop.guard_ok hread
    have htag : ¬ it.type = CborTagType := by
      rw [not_not.mp htype]
      decide
    rw [knownBytes, if_neg htype] at hread
    refine ⟨moved, ?_, hafter⟩
    rw [parseBytes, if_neg htag, if_neg htype, hread, ← h.len, ← hc]
    rfl
  | some c =>
    rw [hc] at hbefore
    have hwf := h.array_wellFormed hc
    have hback : ReadsBack parseDectrisCompression [encodeTag DECTRIS_COMPRESSION _] data :=
      expected_back (by decide) hwf
        (parseArray_back rfl (by decide) (h.items_wellFormed hc) (compressionItems_back h hc))
    obtain ⟨htag, hvalue, -⟩ :=
      Before.untag hbefore (Cbor.encodeHead_head (by decide) (by decide)) hwf
    obtain ⟨moved, hread, hafter⟩ := hback.yields hbefore
    refine ⟨moved, ?_, hafter⟩
    rw [parseBytes, if_pos htag, if_pos hvalue, hread]

variable {array : TypedArray} {a : MultidimArray}

theorem TypedArray.Sendable.typed_ok (h : array.Sendable) :
    typed array.tag array.data = .ok (array, array.data.size / array.elemSize) := by
  have helem : typedArrayElemSize array.tag = .ok array.elemSize := if_pos h.tag
  rw [typed, helem, Loop.ok_bind, if_neg (not_not.mpr h.whole)]

theorem TypedArray.Sendable.tag_word (h : array.Sendable) : Word array.tag :=
  Nat.lt_of_le_of_lt h.tag.2 (by decide)

theorem parseTypedArray_back (h : array.Sendable) :
    ReadsBack parseTypedArray [array.encode] (array, array.data.size / array.elemSize) := by
  rw [parseTypedArray_eq]
  refine parseTag_back (g := fun tag it => parseBytes it >>= fun y =>
    typed tag y.1 >>= fun array => .ok (array, y.2)) h.tag_word h.data.wellFormed ?_
  exact (parseBytes_back h.data).bind (g := fun data it =>
    typed array.tag data >>= fun array => .ok (array, it)) (ReadsBack.check h.typed_ok)

theorem TypedArray.Sendable.wellFormed (h : array.Sendable) : WellFormed array.encode :=
  Cbor.encodeTag_wellFormed h.tag_word h.data.wellFormed

theorem MultidimArray.Sendable.items_wellFormed (h : a.Sendable) :
    ∀ item ∈ [encodeArray2Uint64 a.dim, a.array.encode], WellFormed item :=
  List.forall_mem_cons.mpr ⟨encodeArray2Uint64_wellFormed h.dim,
    List.forall_mem_singleton.mpr h.array.wellFormed⟩

theorem MultidimArray.Sendable.wellFormed (h : a.Sendable) : WellFormed a.encode :=
  Cbor.encodeTag_wellFormed (by decide : Word MULTI_DIMENSIONAL_ARRAY_ROW_MAJOR)
    (encodeArray_wellFormed (by decide : 2 < UINT32_MAX) h.items_wellFormed)

theorem parseMultidimArray_back (h : a.Sendable) : ReadsBack parseMultidimArray [a.encode] a := by
  have hshaped : shaped a.dim (a.array, a.array.data.size / a.array.elemSize) = .ok a :=
    if_neg (not_not.mpr h.elements)
  have hitems : ReadsBack multidimItems [encodeArray2Uint64 a.dim, a.array.encode] a := by
    rw [multidimItems_eq]
    refine (parseArray2Uint64_back h.dim).bind (g := fun dim it => parseTypedArray it >>=
      fun y => shaped dim y.1 >>= fun array => .ok (array, y.2)) ?_
    exact (parseTypedArray_back h.array).bind (g := fun array it =>
      shaped a.dim array >>= fun array => .ok (array, it)) (ReadsBack.check hshaped)
  exact expected_back (by decide)
    (encodeArray_wellFormed (by decide : 2 < UINT32_MAX) h.items_wellFormed)
    (parseArray_back rfl (by decide) h.items_wellFormed hitems)

end Arrays

end Stream2
