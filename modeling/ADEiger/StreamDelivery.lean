import ADEiger.Inevitable
import ADEiger.Stream2RoundTrip
import ADEiger.Stream2Times
import ADEiger.StreamTask
import Mathlib.Data.List.Nodup
import Mathlib.Data.Prod.Lex

/-! A series on the second stream interface, from the messages that the detector writes to the
arrays that streamTask hands on.
Every step takes a message off the socket or builds the array of a threshold; what the messages
hold is known from the round trip of their format. -/
namespace StreamTask

open CString (Text)
open TransitionSystem
open TinyCbor (Bytes)
open StreamApi (Err)
open Stream2 (StartMsg ImageMsg EndMsg Msg MultidimArray)
open Stream2Api (Stream2API EpicsTimeStamp CacheValid Converts ExactStamp Serves channelName
  dataTypeOf)

section Series

/-- A series as the detector sends it. The start message gives an energy to each channel, and an
image has its channels in the same order, with arrays of the types that are taken. -/
structure SentSeries where
  start : StartMsg
  imageDtype : Text
  images : List ImageMsg
  last : EndMsg
  hasType : start.imageDtype = some imageDtype
  startSendable : start.Sendable
  imagesSendable : ∀ msg ∈ images, msg.Sendable
  lastSendable : last.Sendable
  named : ∀ entry ∈ start.thresholdEnergy, ∃ n, n < 2 ^ 31 ∧ entry.1 = channelName n
  distinct : (start.thresholdEnergy.map Prod.fst).Nodup
  channels : ∀ msg ∈ images, msg.data.map Prod.fst <+: start.thresholdEnergy.map Prod.fst
  typed : ∀ msg ∈ images, ∀ entry ∈ msg.data, dataTypeOf entry.2.array.tag ≠ none

/-- The messages on a socket, whatever seconds pass between them. -/
def sent : List Item → List Bytes
  | [] => []
  | .wait :: s => sent s
  | .message bytes :: s => bytes :: sent s

/-- The messages of a series from some image on. -/
def SentSeries.after (series : SentSeries) (images : List ImageMsg) : List Bytes :=
  images.map (fun msg => (Msg.image msg).encode) ++ [(Msg.seriesEnd series.last).encode]

def SentSeries.messages (series : SentSeries) : List Bytes :=
  (Msg.start series.start).encode :: series.after series.images

/-- The first `n` thresholds of an image. -/
def thresholdsOf (msg : ImageMsg) (n : ℕ) : List (ImageMsg × ℕ) :=
  (List.range n).map fun thresh => (msg, thresh)

/-- The arrays of some images, threshold by threshold. -/
def framesOf (images : List ImageMsg) : List (ImageMsg × ℕ) :=
  images.flatMap fun msg => thresholdsOf msg msg.data.length

/-- What the array of a channel is to be: the number is that in the name of the channel, the energy
is the one that the start message gives it, and the time is that of the image. -/
structure ArrayOf (env : Env) (start : StartMsg) (msg : ImageMsg) (channel : Text)
    (mda : MultidimArray) (decompress : Bool) (a : Stream2Api.NDArray) : Prop where
  dims : a.dims = (mda.dim.2, mda.dim.1)
  data : ∃ type, dataTypeOf mda.array.tag = some type ∧ a.dataType = type.1 ∧
    (a.codec, a.compressedSize, a.data) =
      Stream2Api.frameData env.stream2 decompress mda.array.data type.2
  number : ∃ n, channel = channelName n ∧ a.thresholdNumber = some (n : ℤ)
  energy : ∀ energy, (channel, energy) ∈ start.thresholdEnergy ↔ a.thresholdEnergy = energy
  time : env.streamAsTsSource = true → ∃ (f : Stream2Api.Frame) (ts : EpicsTimeStamp),
    f.msg = msg ∧ a.epicsTS = some ts ∧ ExactStamp f ts

/-- The call of getFrame for a threshold of an image gave the array of that threshold. -/
structure Delivered (env : Env) (start : StartMsg) (f : ImageMsg × ℕ) (c : Called) : Prop where
  thresh : c.thresh = f.2
  err : c.err = .success
  stored : ∃ channel mda a, f.1.data[f.2]? = some (channel, mda) ∧
    c.stored = some (.stream2 a) ∧ ArrayOf env start f.1 channel mda c.settings.decompress a

/-- Each threshold of each image was handed on once, in the order they were sent, and nothing of
what follows the series was read. -/
structure SeriesDelivered (env : Env) (series : SentSeries) (later : List Bytes) (counted : ℕ)
    (t : Task) : Prop where
  finished : t.pc = .finished
  calls : List.Forall₂ (Delivered env series.start) (framesOf series.images) t.calls
  count : t.numImagesCounter = counted + (framesOf series.images).length
  left : ∃ api socket, t.source = .stream2 api socket ∧ sent socket = later

end Series

section Frames

variable {env : Env} {api : Stream2API} {series : SentSeries} {msg : ImageMsg} {thresh : ℕ}
  {settings : Settings} {channel : Text} {mda : MultidimArray}

end Frames

section Socket

variable {socket : List Item} {bytes : Bytes} {queue : List Bytes}

end Socket

section Phases

variable {env : Env} {series : SentSeries} {later : List Bytes} {counted : ℕ} {t t' : Task}
  {settings : Settings} {frames : List (ImageMsg × ℕ)}

/-- What was done with these frames so far. -/
structure Behind (env : Env) (series : SentSeries) (counted : ℕ) (frames : List (ImageMsg × ℕ))
    (t : Task) : Prop where
  calls : List.Forall₂ (Delivered env series.start) frames t.calls
  count : t.numImagesCounter = counted + frames.length

/-- The object between two images. -/
structure Started (env : Env) (series : SentSeries) (api : Stream2API) : Prop where
  thresholds : api.mThresholdEnergy = series.start.thresholdEnergy
  cached : CacheValid env.stream2 api.mCachedTs

/-- Where the task stands in the series. -/
inductive Phase (env : Env) (series : SentSeries) (later : List Bytes) (counted : ℕ) (t : Task) :
    Prop where
  | header (api : Stream2API) (socket : List Item) : t.pc = .header →
      t.source = .stream2 api socket → sent socket = series.messages ++ later →
      CacheValid env.stream2 api.mCachedTs → Behind env series counted [] t →
      Phase env series later counted t
  | frame (api : Stream2API) (socket : List Item) (done images : List ImageMsg) : t.pc = .frame →
      t.source = .stream2 api socket → sent socket = series.after images ++ later →
      series.images = done ++ images → Started env series api →
      Behind env series counted (framesOf done) t → Phase env series later counted t
  | thresholds (api : Stream2API) (socket : List Item) (done images : List ImageMsg)
      (msg : ImageMsg) (thresh : ℕ) : t.pc = .thresholds thresh → thresh ≤ msg.data.length →
      t.numThresholds = msg.data.length → t.source = .stream2 api socket →
      sent socket = series.after images ++ later → series.images = done ++ msg :: images →
      Serves series.start msg thresh api → CacheValid env.stream2 api.mCachedTs →
      Behind env series counted (framesOf done ++ thresholdsOf msg thresh) t →
      Phase env series later counted t
  | finished : SeriesDelivered env series later counted t → Phase env series later counted t

/-- The seconds and messages on the socket, and the thresholds of the image that is being read. -/
def Task.left (t : Task) : ℕ × ℕ :=
  (match t.source with
    | .stream2 _ socket => socket.length
    | .stream _ => 0,
  match t.pc with
    | .thresholds thresh => 1 + (t.numThresholds - thresh)
    | _ => 0)

def Shorter : ℕ × ℕ → ℕ × ℕ → Prop := Prod.Lex (· < ·) (· < ·)

theorem Behind.publish (h : Behind env series counted frames t) {msg : ImageMsg} {thresh : ℕ}
    {channel : Text} {mda : MultidimArray} {a : Stream2Api.NDArray} {source : Source}
    (hentry : msg.data[thresh]? = some (channel, mda))
    (ha : ArrayOf env series.start msg channel mda settings.decompress a) :
    Behind env series counted (frames ++ [(msg, thresh)])
      (t.publish thresh settings .success (some (.stream2 a)) source) := by
  refine ⟨?_, ?_⟩
  · exact List.rel_append h.calls (.cons ⟨rfl, rfl, channel, mda, a, hentry, rfl, ha⟩ .nil)
  · rw [Task.publish, h.count, List.length_append]
    rfl

theorem Behind.moved (h : Behind env series counted frames t) {pc : Pc} {source : Source} {n : ℕ} :
    Behind env series counted frames { t with pc := pc, source := source, numThresholds := n } :=
  ⟨h.calls, h.count⟩

/-- A step from this state leads on in the series, and leaves less to be read. -/
def Advances (env : Env) (series : SentSeries) (later : List Bytes) (counted : ℕ) (t : Task)
    (settings : Settings) : Prop :=
  ∃ t', step env t settings = some t' ∧ Phase env series later counted t' ∧
    Shorter t'.left t.left

variable {api : Stream2API} {socket : List Item} {done images : List ImageMsg} {msg : ImageMsg}
  {thresh : ℕ}

end Phases

end StreamTask
