import ADEiger.TinyCbor
import ADEiger.CString

/-! The messages of the second stream interface, as `stream2_parse_msg` reads them.
Allocations are taken to succeed. A message that is not accepted is freed, so that nothing of it
is kept here. -/
namespace Stream2

open CString (Text)
open TinyCbor
open Loop (whileLoop readMany)

/-- The errors of `stream2_result`; `aborted` is no result. -/
inductive Stream2Error where
  | outOfMemory | signature | decode | parse | notImplemented | aborted
  deriving DecidableEq, Repr

def cborResult : CborError → Stream2Error
  | .unknownLength => .parse
  | .dataTooLarge => .parse
  | .outOfMemory => .outOfMemory
  | .aborted => .aborted
  | _ => .decode

def lift {α : Type} (x : Except CborError α) : Except Stream2Error α := x.mapError cborResult

/-- A text as its users see it, who take the first NUL for its end. -/
def cstring (bytes : Bytes) : Text := CString.cstr (bytes.map fun b => Char.ofNat b.toNat)

section Values

def MAX_KEY_LEN : ℕ := 64

/-- A key that cannot be read is the empty key as well, for `key_len` is then still
`MAX_KEY_LEN`. -/
def parseKey (it : CborValue) : Except Stream2Error (Text × CborValue) :=
  if it.type ≠ CborTextStringType then .error .parse
  else match copyString it with
    | (.error _, it) => .ok ([], it)
    | (.ok key, it) => .ok (if key.length < MAX_KEY_LEN then cstring key else [], it)

def parseTag (it : CborValue) : Except Stream2Error (ℕ × CborValue) := do
  if it.type ≠ CborTagType then .error .parse
  else
    let next ← lift (advanceFixed it)
    .ok (it.extractInt64, next)

def parseBool (it : CborValue) : Except Stream2Error (Bool × CborValue) := do
  if it.type ≠ CborBooleanType then .error .parse
  else
    let next ← lift (advanceFixed it)
    .ok (it.extra != 0, next)

/-- The bits of the `double` that a shorter floating point number is converted to. -/
def widen (expBits manBits bits : ℕ) : ℕ :=
  let sign := bits / 2 ^ (expBits + manBits) % 2
  let exp := bits / 2 ^ manBits % 2 ^ expBits
  let man := bits % 2 ^ manBits
  let bias := 2 ^ (expBits - 1) - 1
  let magnitude :=
    if exp = 2 ^ expBits - 1 then
      -- an infinity, or a NaN, which is made quiet
      2047 * 2 ^ 52 + (if man = 0 then 0 else man % 2 ^ (manBits - 1) * 2 ^ (52 - manBits) + 2 ^ 51)
    else if exp = 0 then
      if man = 0 then 0
      else (1024 + man.log2 - bias - manBits) * 2 ^ 52 +
        (man - 2 ^ man.log2) * 2 ^ (52 - man.log2)
    else (exp + 1023 - bias) * 2 ^ 52 + man * 2 ^ (52 - manBits)
  sign * 2 ^ 63 + magnitude

/-- The bits of the number at the cursor. -/
def doubleBits (it : CborValue) : Except Stream2Error ℕ :=
  if it.type = CborHalfFloatType then .ok (widen 5 10 (bigEndian (it.ptr.tail.take 2)))
  else if it.type = CborFloatType then .ok (widen 8 23 it.decodeInt64)
  else if it.type = CborDoubleType then .ok it.decodeInt64
  else .error .parse

def parseDouble (it : CborValue) : Except Stream2Error (ℕ × CborValue) := do
  let value ← doubleBits it
  let next ← lift (advanceFixed it)
  .ok (value, next)

def parseUint64 (it : CborValue) : Except Stream2Error (ℕ × CborValue) := do
  if it.isUnsignedInteger = false then .error .parse
  else
    let next ← lift (advanceFixed it)
    .ok (it.extractInt64, next)

def parseTextString (it : CborValue) : Except Stream2Error (Text × CborValue) :=
  if it.type ≠ CborTextStringType then .error .parse
  else match copyString it with
    | (.error err, _) => .error (cborResult err)
    | (.ok text, it) => .ok (cstring text, it)

/-- What `read` finds in an array of `n` items. -/
def parseArray {α : Type} (n : ℕ)
    (read : CborValue → Except Stream2Error (α × CborValue)) (it : CborValue) :
    Except Stream2Error (α × CborValue) := do
  if it.type ≠ CborArrayType then .error .parse
  else
    let len ← lift it.getLength
    if len ≠ n then .error .parse
    else
      let elt ← lift (enterContainer it)
      let (value, elt) ← read elt
      let it ← lift (leaveContainer it elt)
      .ok (value, it)

def twoUint64 (elt : CborValue) : Except Stream2Error ((ℕ × ℕ) × CborValue) := do
  let (a, elt) ← parseUint64 elt
  let (b, elt) ← parseUint64 elt
  .ok ((a, b), elt)

def parseArray2Uint64 : CborValue → Except Stream2Error ((ℕ × ℕ) × CborValue) :=
  parseArray 2 twoUint64

end Values

section Arrays

def MULTI_DIMENSIONAL_ARRAY_ROW_MAJOR : ℕ := 40
def DECTRIS_COMPRESSION : ℕ := 56500

structure Compression where
  algorithm : Text
  elemSize : ℕ
  origSize : ℕ
  deriving DecidableEq, Repr

/-- `stream2_bytes`; `algorithm` is NULL where there is no compression. -/
structure ByteString where
  ptr : Bytes
  len : ℕ
  compression : Option Compression
  deriving DecidableEq, Repr

structure TypedArray where
  tag : ℕ
  data : ByteString
  deriving DecidableEq, Repr

structure MultidimArray where
  dim : ℕ × ℕ
  array : TypedArray
  deriving DecidableEq, Repr

/-- The bytes of the length behind the first byte of a byte string. -/
def lengthBytes (byte : UInt8) : ℕ :=
  if byte = 0x58 then 1 else if byte = 0x59 then 2 else if byte = 0x5a then 4
  else if byte = 0x5b then 8 else 0

def consumeByteString (it : CborValue) : Except Stream2Error ((Bytes × ℕ) × CborValue) := do
  let len ← lift it.getLength
  match it.ptr with
  | [] => .error .aborted
  | byte :: rest =>
    if byte < 0x40 ∨ 0x5b < byte then .error .aborted
    else
      let next ← lift (advance it)
      .ok (((rest.drop (lengthBytes byte)).take len, len), next)

def BSLZ4 : Text := "bslz4".toList
def LZ4 : Text := "lz4".toList

/-- The three items of compressed data; the size they had begins the byte string. -/
def compressionItems (elt : CborValue) : Except Stream2Error (ByteString × CborValue) := do
  let (algorithm, elt) ← parseTextString elt
  let (elemSize, elt) ← parseUint64 elt
  if elt.type ≠ CborByteStringType then .error .parse
  else
    let ((bstr, len), elt) ← consumeByteString elt
    if algorithm = BSLZ4 ∨ algorithm = LZ4 then
      if len < 12 then .error .decode
      else .ok (⟨bstr, len, some ⟨algorithm, elemSize, bigEndian (bstr.take 8)⟩⟩, elt)
    else .error .notImplemented

def parseDectrisCompression (it : CborValue) : Except Stream2Error (ByteString × CborValue) := do
  let (tag, it) ← parseTag it
  if tag ≠ DECTRIS_COMPRESSION then .error .parse else parseArray 3 compressionItems it

def parseBytes (it : CborValue) : Except Stream2Error (ByteString × CborValue) := do
  if it.type = CborTagType then
    if it.extractInt64 = DECTRIS_COMPRESSION then parseDectrisCompression it
    else .error .parse
  else if it.type ≠ CborByteStringType then .error .parse
  else
    let ((bstr, len), it) ← consumeByteString it
    .ok (⟨bstr, len, none⟩, it)

def typedArrayElemSize (tag : ℕ) : Except Stream2Error ℕ :=
  if 64 ≤ tag ∧ tag ≤ 87 then .ok (2 ^ (tag / 16 % 2 + tag % 4)) else .error .notImplemented

/-- The size of what is in the array when it is not compressed. -/
def ByteString.size (data : ByteString) : ℕ :=
  match data.compression with
  | none => data.len
  | some compression => compression.origSize

/-- With the number of elements. -/
def parseTypedArray (it : CborValue) : Except Stream2Error ((TypedArray × ℕ) × CborValue) := do
  let (tag, it) ← parseTag it
  let (data, it) ← parseBytes it
  let elemSize ← typedArrayElemSize tag
  if data.size % elemSize ≠ 0 then .error .parse
  else .ok ((⟨tag, data⟩, data.size / elemSize), it)

/-- The product of the dimensions is one of `uint64_t`. -/
def multidimItems (elt : CborValue) : Except Stream2Error (MultidimArray × CborValue) := do
  let (dim, elt) ← parseArray2Uint64 elt
  let ((array, len), elt) ← parseTypedArray elt
  if dim.1 * dim.2 % 2 ^ 64 ≠ len then .error .parse else .ok (⟨dim, array⟩, elt)

def parseMultidimArray (it : CborValue) : Except Stream2Error (MultidimArray × CborValue) := do
  let (tag, it) ← parseTag it
  if tag ≠ MULTI_DIMENSIONAL_ARRAY_ROW_MAJOR then .error .parse
  else parseArray 2 multidimItems it

end Arrays

section Maps

def channelEntry {α : Type} (read : CborValue → Except Stream2Error (α × CborValue))
    (field : CborValue) : Except Stream2Error ((Text × α) × CborValue) := do
  let (channel, field) ← parseTextString field
  let (value, field) ← read field
  .ok ((channel, value), field)

/-- The values of a map of known length by their channels. -/
def parseChannels {α : Type} (read : CborValue → Except Stream2Error (α × CborValue))
    (it : CborValue) : Except Stream2Error (List (Text × α) × CborValue) := do
  if it.type ≠ CborMapType then .error .parse
  else
    let len ← lift it.getLength
    let field ← lift (enterContainer it)
    let (values, field) ← readMany (channelEntry read) len field
    let it ← lift (leaveContainer it field)
    .ok (values, it)

def parseChannelNames (it : CborValue) : Except Stream2Error (List Text × CborValue) := do
  if it.type ≠ CborArrayType then .error .parse
  else
    let len ← lift it.getLength
    let elt ← lift (enterContainer it)
    let (names, elt) ← readMany parseTextString len elt
    let it ← lift (leaveContainer it elt)
    .ok (names, it)

/-- The tags before a value, which are looked at only for the key `verified`. -/
def skipTags (verified : Option Text) (key : Text) (it : CborValue) :
    Except Stream2Error CborValue :=
  if verified = some key then .ok it else lift (skipTag it)

/-- An entry of a map: its key and its value. -/
def parseEntry {μ : Type} (verified : Option Text)
    (field : Text → μ → CborValue → Except Stream2Error (μ × CborValue)) (s : μ × CborValue) :
    Except Stream2Error (μ × CborValue) := do
  let (key, it) ← parseKey s.2
  let it ← skipTags verified key it
  field key s.1 it

/-- The loop over the entries: the value of each key is stored in `msg`. -/
def parseEntries {μ : Type} (verified : Option Text)
    (field : Text → μ → CborValue → Except Stream2Error (μ × CborValue)) (msg : μ)
    (it : CborValue) : Except Stream2Error (μ × CborValue) :=
  whileLoop (fun s => s.2.isValid)
    (parseEntry verified field) .aborted (fun s => s.2.ptr.length) (msg, it)

/-- The value of a key, put where it belongs. -/
def store {μ α : Type} (read : CborValue → Except Stream2Error (α × CborValue)) (put : α → μ)
    (it : CborValue) : Except Stream2Error (μ × CborValue) := do
  let (value, it) ← read it
  .ok (put value, it)

/-- The value of a key that is not known. -/
def skip {μ : Type} (msg : μ) (it : CborValue) : Except Stream2Error (μ × CborValue) := do
  let it ← lift (advance it)
  .ok (msg, it)

/-- A map inside the message. -/
def parseMap {μ : Type} (field : Text → μ → CborValue → Except Stream2Error (μ × CborValue))
    (msg : μ) (it : CborValue) : Except Stream2Error (μ × CborValue) := do
  if it.type ≠ CborMapType then .error .parse
  else
    let entries ← lift (enterContainer it)
    let (msg, entries) ← parseEntries none field msg entries
    let it ← lift (leaveContainer it entries)
    .ok (msg, it)

end Maps

section Messages

structure GoniometerAxis where
  increment : ℕ := 0
  start : ℕ := 0
  deriving DecidableEq, Repr

structure Goniometer where
  chi : GoniometerAxis := {}
  kappa : GoniometerAxis := {}
  omega : GoniometerAxis := {}
  phi : GoniometerAxis := {}
  twoTheta : GoniometerAxis := {}
  deriving DecidableEq, Repr

def parseGoniometerAxis (axis : GoniometerAxis) :
    CborValue → Except Stream2Error (GoniometerAxis × CborValue) :=
  parseMap (fun key axis =>
    if key = "increment".toList then store parseDouble fun v => { axis with increment := v }
    else if key = "start".toList then store parseDouble fun v => { axis with start := v }
    else skip axis) axis

def parseGoniometer (goniometer : Goniometer) :
    CborValue → Except Stream2Error (Goniometer × CborValue) :=
  parseMap (fun key g =>
    if key = "chi".toList then store (parseGoniometerAxis g.chi) fun v => { g with chi := v }
    else if key = "kappa".toList then
      store (parseGoniometerAxis g.kappa) fun v => { g with kappa := v }
    else if key = "omega".toList then
      store (parseGoniometerAxis g.omega) fun v => { g with omega := v }
    else if key = "phi".toList then store (parseGoniometerAxis g.phi) fun v => { g with phi := v }
    else if key = "two_theta".toList then
      store (parseGoniometerAxis g.twoTheta) fun v => { g with twoTheta := v }
    else skip g) goniometer

/-- The bytes of a value of any kind. -/
def parseUserData (it : CborValue) : Except Stream2Error (Bytes × CborValue) := do
  let next ← lift (advance it)
  .ok (it.ptr.take (it.ptr.length - next.ptr.length), next)

def parseTranslation : CborValue → Except Stream2Error (List ℕ × CborValue) :=
  parseArray 3 (readMany parseDouble 3)

/-- The fields that no entry has set are zero, and the texts NULL. -/
structure StartMsg where
  seriesId : ℕ := 0
  seriesUniqueId : Option Text := none
  armDate : Option Text := none
  beamCenterX : ℕ := 0
  beamCenterY : ℕ := 0
  channels : List Text := []
  countTime : ℕ := 0
  countrateCorrectionEnabled : Bool := false
  countrateCorrectionLookupTable : TypedArray := ⟨2 ^ 64 - 1, ⟨[], 0, none⟩⟩
  detectorDescription : Option Text := none
  detectorSerialNumber : Option Text := none
  detectorTranslation : List ℕ := [0, 0, 0]
  flatfield : List (Text × MultidimArray) := []
  flatfieldEnabled : Bool := false
  frameTime : ℕ := 0
  goniometer : Goniometer := {}
  imageDtype : Option Text := none
  imageSizeX : ℕ := 0
  imageSizeY : ℕ := 0
  incidentEnergy : ℕ := 0
  incidentWavelength : ℕ := 0
  numberOfImages : ℕ := 0
  pixelMask : List (Text × MultidimArray) := []
  pixelMaskEnabled : Bool := false
  pixelSizeX : ℕ := 0
  pixelSizeY : ℕ := 0
  saturationValue : ℕ := 0
  sensorMaterial : Option Text := none
  sensorThickness : ℕ := 0
  thresholdEnergy : List (Text × ℕ) := []
  userData : Bytes := []
  virtualPixelInterpolationEnabled : Bool := false
  deriving DecidableEq, Repr

structure ImageMsg where
  seriesId : ℕ := 0
  seriesUniqueId : Option Text := none
  imageId : ℕ := 0
  realTime : ℕ × ℕ := (0, 0)
  seriesDate : Option Text := none
  startTime : ℕ × ℕ := (0, 0)
  stopTime : ℕ × ℕ := (0, 0)
  userData : Bytes := []
  data : List (Text × MultidimArray) := []
  deriving DecidableEq, Repr

structure EndMsg where
  seriesId : ℕ := 0
  seriesUniqueId : Option Text := none
  deriving DecidableEq, Repr

inductive Msg where
  | start (msg : StartMsg)
  | image (msg : ImageMsg)
  | seriesEnd (msg : EndMsg)
  deriving DecidableEq, Repr

def startField (key : Text) (msg : StartMsg) :
    CborValue → Except Stream2Error (StartMsg × CborValue) :=
  if key = "series_id".toList then store parseUint64 fun v => { msg with seriesId := v }
  else if key = "series_unique_id".toList then
    store parseTextString fun v => { msg with seriesUniqueId := some v }
  else if key = "arm_date".toList then
    store parseTextString fun v => { msg with armDate := some v }
  else if key = "beam_center_x".toList then
    store parseDouble fun v => { msg with beamCenterX := v }
  else if key = "beam_center_y".toList then
    store parseDouble fun v => { msg with beamCenterY := v }
  else if key = "channels".toList then
    store parseChannelNames fun v => { msg with channels := v }
  else if key = "count_time".toList then store parseDouble fun v => { msg with countTime := v }
  else if key = "countrate_correction_enabled".toList then
    store parseBool fun v => { msg with countrateCorrectionEnabled := v }
  else if key = "countrate_correction_lookup_table".toList then
    store parseTypedArray fun v => { msg with countrateCorrectionLookupTable := v.1 }
  else if key = "detector_description".toList then
    store parseTextString fun v => { msg with detectorDescription := some v }
  else if key = "detector_serial_number".toList then
    store parseTextString fun v => { msg with detectorSerialNumber := some v }
  else if key = "detector_translation".toList then
    store parseTranslation fun v => { msg with detectorTranslation := v }
  else if key = "flatfield".toList then
    store (parseChannels parseMultidimArray) fun v => { msg with flatfield := v }
  else if key = "flatfield_enabled".toList then
    store parseBool fun v => { msg with flatfieldEnabled := v }
  else if key = "frame_time".toList then store parseDouble fun v => { msg with frameTime := v }
  else if key = "goniometer".toList then
    store (parseGoniometer msg.goniometer) fun v => { msg with goniometer := v }
  else if key = "image_dtype".toList then
    store parseTextString fun v => { msg with imageDtype := some v }
  else if key = "image_size_x".toList then
    store parseUint64 fun v => { msg with imageSizeX := v }
  else if key = "image_size_y".toList then
    store parseUint64 fun v => { msg with imageSizeY := v }
  else if key = "incident_energy".toList then
    store parseDouble fun v => { msg with incidentEnergy := v }
  else if key = "incident_wavelength".toList then
    store parseDouble fun v => { msg with incidentWavelength := v }
  else if key = "number_of_images".toList then
    store parseUint64 fun v => { msg with numberOfImages := v }
  else if key = "pixel_mask".toList then
    store (parseChannels parseMultidimArray) fun v => { msg with pixelMask := v }
  else if key = "pixel_mask_enabled".toList then
    store parseBool fun v => { msg with pixelMaskEnabled := v }
  else if key = "pixel_size_x".toList then
    store parseDouble fun v => { msg with pixelSizeX := v }
  else if key = "pixel_size_y".toList then
    store parseDouble fun v => { msg with pixelSizeY := v }
  else if key = "saturation_value".toList then
    store parseUint64 fun v => { msg with saturationValue := v }
  else if key = "sensor_material".toList then
    store parseTextString fun v => { msg with sensorMaterial := some v }
  else if key = "sensor_thickness".toList then
    store parseDouble fun v => { msg with sensorThickness := v }
  else if key = "threshold_energy".toList then
    store (parseChannels parseDouble) fun v => { msg with thresholdEnergy := v }
  else if key = "user_data".toList then store parseUserData fun v => { msg with userData := v }
  else if key = "virtual_pixel_interpolation_enabled".toList then
    store parseBool fun v => { msg with virtualPixelInterpolationEnabled := v }
  else skip msg

def imageField (key : Text) (msg : ImageMsg) :
    CborValue → Except Stream2Error (ImageMsg × CborValue) :=
  if key = "series_id".toList then store parseUint64 fun v => { msg with seriesId := v }
  else if key = "series_unique_id".toList then
    store parseTextString fun v => { msg with seriesUniqueId := some v }
  else if key = "image_id".toList then store parseUint64 fun v => { msg with imageId := v }
  else if key = "real_time".toList then
    store parseArray2Uint64 fun v => { msg with realTime := v }
  else if key = "series_date".toList then
    store parseTextString fun v => { msg with seriesDate := some v }
  else if key = "start_time".toList then
    store parseArray2Uint64 fun v => { msg with startTime := v }
  else if key = "stop_time".toList then
    store parseArray2Uint64 fun v => { msg with stopTime := v }
  else if key = "user_data".toList then store parseUserData fun v => { msg with userData := v }
  else if key = "data".toList then
    store (parseChannels parseMultidimArray) fun v => { msg with data := v }
  else skip msg

def endField (key : Text) (msg : EndMsg) :
    CborValue → Except Stream2Error (EndMsg × CborValue) :=
  if key = "series_id".toList then store parseUint64 fun v => { msg with seriesId := v }
  else if key = "series_unique_id".toList then
    store parseTextString fun v => { msg with seriesUniqueId := some v }
  else skip msg

/-- The correction table is the one value whose tag is looked at. -/
def parseStartMsg : CborValue → Except Stream2Error (StartMsg × CborValue) :=
  parseEntries (some "countrate_correction_lookup_table".toList) startField {}

def parseImageMsg : CborValue → Except Stream2Error (ImageMsg × CborValue) :=
  parseEntries none imageField {}

def parseEndMsg : CborValue → Except Stream2Error (EndMsg × CborValue) :=
  parseEntries none endField {}

def parseMsgType (it : CborValue) : Except Stream2Error (Text × CborValue) := do
  let (key, it) ← parseKey it
  if key ≠ "type".toList then .error .parse
  else
    let it ← lift (skipTag it)
    parseKey it

/-- The bytes that say that CBOR follows. -/
def MAGIC : Bytes := [0xd9, 0xd9, 0xf7]

def parseFields (type : Text) (field : CborValue) : Except Stream2Error (Msg × CborValue) :=
  if type = "start".toList then store parseStartMsg .start field
  else if type = "image".toList then store parseImageMsg .image field
  else if type = "end".toList then store parseEndMsg .seriesEnd field
  else .error .parse

def parseMsg (buffer : Bytes) : Except Stream2Error Msg := do
  if buffer.take 3 ≠ MAGIC then .error .signature
  else
    let it ← lift (parserInit (buffer.drop 3)).check
    if it.type ≠ CborMapType then .error .parse
    else
      let field ← lift (enterContainer it)
      let (type, field) ← parseMsgType field
      let (msg, field) ← parseFields type field
      let _ ← lift (leaveContainer it field)
      .ok msg

def stream2ParseMsg (buffer : Bytes) : Except Stream2Error Msg := parseMsg buffer

end Messages

end Stream2
