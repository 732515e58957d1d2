import ADEiger.Stream2
import ADEiger.Rfc3339
import ADEiger.StreamFraming

/-! The class Stream2API: what its functions make of the messages and of its members.
The pool, the two libraries that uncompress and the time of EPICS are parameters. -/
namespace Stream2Api

open CString (Text)
open TinyCbor (Bytes)
open Stream2
open StreamApi (Err)
open StreamFraming (DataType)
open Rfc3339 (GmTmNanoSec parseRfc3339Timestamp)

structure EpicsTimeStamp where
  secPastEpoch : ℕ
  nsec : ℕ
  deriving DecidableEq, Repr

/-- `stamp` converts a `gm_tm_nano_sec` by way of an `epicsTime`. -/
structure Env where
  stamp : GmTmNanoSec → EpicsTimeStamp
  lz4 : Bytes → ℕ → Option Bytes
  bshuf : Bytes → ℕ → ℕ → Option Bytes

/-- Where the functions do not return: a NULL that is read, an element behind the end of a vector,
a division by zero, a message on which the parser does not return. -/
inductive Fault where
  | nullPointer | outOfRange | divisionByZero | aborted
  deriving DecidableEq, Repr

/-- `mCachedTs` holds a text and the time stamp that it was converted to. -/
structure Stream2API where
  mSeriesId : ℕ
  mImageDtype : Option Text
  mImageSizeX : ℕ
  mImageSizeY : ℕ
  mNumberOfImages : ℕ
  mImageMsg : Option ImageMsg
  mNumThresholds : ℕ
  mThresholdEnergy : List (Text × ℕ)
  mCachedTs : Text × EpicsTimeStamp
  deriving DecidableEq, Repr

def resultCode : Stream2Error → ℕ
  | .outOfMemory => 1
  | .signature => 2
  | .decode => 3
  | .parse => 4
  | .notImplemented => 5
  | .aborted => 6

section Messages

def Stream2API.readStart (api : Stream2API) (msg : StartMsg) (imageDtype : Text) : Stream2API :=
  { api with
    mSeriesId := msg.seriesId
    mImageDtype := some imageDtype
    mImageSizeX := msg.imageSizeX
    mImageSizeY := msg.imageSizeY
    mNumberOfImages := msg.numberOfImages
    mThresholdEnergy := msg.thresholdEnergy }

/-- On a message received; `image_dtype` is copied without a look at it. -/
def getHeader (api : Stream2API) (message : Bytes) : Except Fault (Err × Stream2API) :=
  match stream2ParseMsg message with
  | .error .aborted => .error .aborted
  | .error err => .ok (.ofInt (resultCode err), api)
  | .ok (.start msg) =>
    match msg.imageDtype with
    | none => .error .nullPointer
    | some imageDtype => .ok (.success, api.readStart msg imageDtype)
  | .ok _ => .ok (.error, api)

/-- `numThresholds` is left as it was when the message is no image. -/
structure Waited where
  err : Err
  endFrames : Bool
  numThresholds : ℕ
  deriving DecidableEq, Repr

def waitFrame (api : Stream2API) (numThresholds : ℕ) (message : Bytes) :
    Except Fault (Waited × Stream2API) :=
  match stream2ParseMsg message with
  | .error .aborted => .error .aborted
  | .error err => .ok (⟨.ofInt (resultCode err), false, numThresholds⟩, api)
  | .ok (.image msg) => .ok (⟨.success, false, msg.data.length⟩,
      { api with mImageMsg := some msg, mNumThresholds := msg.data.length })
  | .ok (.seriesEnd _) => .ok (⟨.success, true, numThresholds⟩, api)
  | .ok (.start _) => .ok (⟨.error, false, numThresholds⟩, api)

end Messages

section Times

def NSEC_PER_SEC : ℕ := 1000000000

/-- The time of the series, converted again only when its text is another one. -/
def cacheTs (env : Env) (cached : Text × EpicsTimeStamp) (seriesDate : Text) :
    Text × EpicsTimeStamp :=
  if cached.1 ≠ seriesDate then (seriesDate, env.stamp (parseRfc3339Timestamp seriesDate))
  else cached

/-- Products and sums are those of `epicsUInt64`, the seconds are cast to 32 bits. -/
def frameTime (seriesTs : EpicsTimeStamp) (ticks timeBase : ℕ) : EpicsTimeStamp :=
  let elapsedNs := NSEC_PER_SEC * ticks % 2 ^ 64 / timeBase
  let frameNsec := (seriesTs.nsec + elapsedNs) % 2 ^ 64
  ⟨(seriesTs.secPastEpoch + frameNsec / NSEC_PER_SEC) % 2 ^ 32, frameNsec % NSEC_PER_SEC⟩

def extractTimeStampFromMessage (env : Env) (api : Stream2API) (msg : ImageMsg) :
    Except Fault (EpicsTimeStamp × Stream2API) :=
  match msg.seriesDate with
  | none => .error .nullPointer
  | some seriesDate =>
    if msg.startTime.2 = 0 then .error .divisionByZero
    else
      let cached := cacheTs env api.mCachedTs seriesDate
      .ok (frameTime cached.2 msg.startTime.1 msg.startTime.2, { api with mCachedTs := cached })

end Times

section Frames

/-- The types of the typed arrays that are taken, with their sizes. -/
def dataTypeOf (tag : ℕ) : Option (DataType × ℕ) :=
  if tag = 64 then some (.uint8, 1)
  else if tag = 69 then some (.uint16, 2)
  else if tag = 70 then some (.uint32, 4)
  else none

inductive Codec where
  | none | lz4hdf5 | bslz4
  deriving DecidableEq, Repr

/-- What is put into the buffer of an array: a number of bytes from a place in the message, or
what uncompressing gives. -/
inductive Copy where
  | memcpy (source : Bytes) (size : ℕ)
  | uncompress (result : Option Bytes)
  deriving DecidableEq, Repr

def uncompress (env : Env) (input : Bytes) (encoding : Text) (uncompressedSize elemSize : ℕ) :
    Option Bytes :=
  if encoding = LZ4 then env.lz4 input uncompressedSize
  else if encoding = BSLZ4 then
    env.bshuf (input.drop 12) (uncompressedSize / elemSize) elemSize
  else none

/-- The codec, the compressed size and the bytes of an array, of elements of `elemSize`. -/
def frameData (env : Env) (decompress : Bool) (data : ByteString) (elemSize : ℕ) :
    Codec × Option ℕ × Copy :=
  match data.compression with
  | none => (.none, none, .memcpy data.ptr data.len)
  | some compression =>
    if decompress then (.none, none,
      .uncompress (uncompress env data.ptr compression.algorithm compression.origSize elemSize))
    else if compression.algorithm = LZ4 then
      (.lz4hdf5, some data.len, .memcpy data.ptr data.len)
    else if compression.algorithm = BSLZ4 then
      let compressedSize := (data.len + (2 ^ 64 - 12)) % 2 ^ 64
      (.bslz4, some compressedSize, .memcpy (data.ptr.drop 12) compressedSize)
    else (.none, some data.len, .memcpy data.ptr data.len)

/-- `sscanf` with `threshold_%d`; nothing can be said of a number that is no `int`. -/
def scanThreshold (channel : Text) : Option ℤ :=
  if "threshold_".toList.isPrefixOf channel then
    (EigerParams.scanInt (channel.drop 10)).filter fun n => -2 ^ 31 ≤ n ∧ n < 2 ^ 31
  else none

/-- A `thresholdNumber` that was not read is whatever the variable held. -/
structure NDArray where
  dims : ℕ × ℕ
  dataType : DataType
  codec : Codec
  compressedSize : Option ℕ
  data : Copy
  epicsTS : Option EpicsTimeStamp
  thresholdNumber : Option ℤ
  thresholdEnergy : ℕ
  deriving DecidableEq, Repr

/-- The setting at a call of getFrame, and whether the pool has an array for it. -/
structure Call where
  decompress : Bool
  alloc : Bool
  deriving DecidableEq, Repr

/-- The message is freed after its last threshold. -/
def Stream2API.release (api : Stream2API) (thresh : ℕ) : Stream2API :=
  if thresh + 1 = api.mNumThresholds then { api with mImageMsg := none } else api

/-- The time stamp of an array, if the setting asks for one. -/
def frameTimeStamp (env : Env) (api : Stream2API) (extractTimeStamp : Bool) (msg : ImageMsg) :
    Except Fault (Option EpicsTimeStamp × Stream2API) :=
  if extractTimeStamp then
    (extractTimeStampFromMessage env api msg).map fun r => (some r.1, r.2)
  else .ok (none, api)

/-- The array that is made once there is one in the pool. -/
def fillFrame (env : Env) (api : Stream2API) (thresh : ℕ) (decompress extractTimeStamp : Bool)
    (msg : ImageMsg) (mda : MultidimArray) (type : DataType × ℕ) :
    Except Fault (NDArray × Stream2API) := do
  let (codec, compressedSize, data) := frameData env decompress mda.array.data type.2
  let (epicsTS, api) ← frameTimeStamp env api extractTimeStamp msg
  match api.mThresholdEnergy[thresh]? with
  | none => .error .outOfRange
  | some (channel, energy) =>
    .ok (⟨(mda.dim.2, mda.dim.1), type.1, codec, compressedSize, data, epicsTS,
      scanThreshold channel, energy⟩, api)

/-- The status, and the array where one is stored. -/
abbrev Outcome := Except Fault (Err × Option NDArray)

/-- getFrame, once the data of the threshold is found. -/
def frameOf (env : Env) (api : Stream2API) (thresh : ℕ) (extractTimeStamp : Bool) (call : Call)
    (msg : ImageMsg) (mda : MultidimArray) : Except Fault ((Err × Option NDArray) × Stream2API) :=
  match dataTypeOf mda.array.tag with
  | none => .ok ((.error, none), api.release thresh)
  | some type =>
    if call.alloc = false then .ok ((.error, none), api.release thresh)
    else (fillFrame env api thresh call.decompress extractTimeStamp msg mda type).map fun r =>
      ((.success, some r.1), r.2.release thresh)

def getFrame (env : Env) (api : Stream2API) (thresh : ℕ) (extractTimeStamp : Bool) (call : Call) :
    Except Fault ((Err × Option NDArray) × Stream2API) :=
  match api.mImageMsg with
  | none => .error .nullPointer
  | some msg =>
    match msg.data[thresh]? with
    | none => .error .outOfRange
    | some (_, mda) => frameOf env api thresh extractTimeStamp call msg mda

/-- The loop of streamTask over the thresholds, from `thresh` on, until a call does not return. -/
def thresholdLoop (env : Env) (extractTimeStamp : Bool) (calls : ℕ → Call) :
    ℕ → ℕ → Stream2API → List Outcome × Except Fault Stream2API
  | 0, _, api => ([], .ok api)
  | n + 1, thresh, api =>
    match getFrame env api thresh extractTimeStamp (calls thresh) with
    | .error fault => ([.error fault], .error fault)
    | .ok (result, api) =>
      let rest := thresholdLoop env extractTimeStamp calls n (thresh + 1) api
      (.ok result :: rest.1, rest.2)

end Frames

end Stream2Api
