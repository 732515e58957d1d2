import ADEiger.Stream2Arrays

/-! What getFrame copies into an array, in both stream interfaces.
The array has room for its dimensions; the number of bytes that are copied comes from another
field of the message when the data stay compressed. -/
namespace FrameCopy

open TinyCbor (Bytes CborValue bigEndian bigEndian_lt extractInt64_lt)
open Stream2
open Stream2Arrays

section Accepted

variable {it it' : CborValue} {mda : MultidimArray} {data : ByteString} {n : ℕ}

/-- What the parser has checked of the bytes of an array. -/
structure AcceptedBytes (data : ByteString) : Prop where
  length : data.len < 2 ^ 64
  compressed : ∀ c, data.compression = some c →
    (c.algorithm = BSLZ4 ∨ c.algorithm = LZ4) ∧ 12 ≤ data.len

/-- The product of the dimensions is that of 64 bits. -/
structure Accepted (mda : MultidimArray) : Prop where
  elements : ∀ elemSize, typedArrayElemSize mda.array.tag = .ok elemSize →
    mda.dim.1 * mda.dim.2 % 2 ^ 64 * elemSize = mda.array.data.size
  bytes : AcceptedBytes mda.array.data

theorem consumeByteString_lt {bstr : Bytes} {len : ℕ}
    (h : consumeByteString it = .ok ((bstr, len), it')) : len < 2 ^ 64 := by
  obtain ⟨len', hlen, h⟩ := Loop.bind_ok h
  have hlt : len' < 2 ^ 64 := by
    have hget := lift_ok hlen
    rw [CborValue.getLength] at hget
    obtain ⟨-, hval⟩ := Loop.guard_ok hget
    obtain rfl := Except.ok.inj hval
    exact extractInt64_lt it
  split at h
  · cases h
  · obtain ⟨-, h⟩ := Loop.guard_ok h
    obtain ⟨next, -, h⟩ := Loop.bind_ok h
    obtain ⟨hpair, -⟩ := Prod.mk.inj (Except.ok.inj h)
    rw [← (Prod.mk.inj hpair).2]
    exact hlt

theorem compressionItems_accepted (h : compressionItems it = .ok (data, it')) :
    AcceptedBytes data := by
  obtain ⟨⟨algorithm, elt⟩, -, h⟩ := Loop.bind_ok h
  obtain ⟨⟨elemSize, elt'⟩, -, h⟩ := Loop.bind_ok h
  obtain ⟨-, h⟩ := Loop.guard_ok h
  obtain ⟨⟨⟨bstr, len⟩, last⟩, hbytes, h⟩ := Loop.bind_ok h
  have hlen := consumeByteString_lt hbytes
  dsimp only at h
  split_ifs at h with halgorithm hshort
  obtain ⟨rfl, -⟩ := Prod.mk.inj (Except.ok.inj h)
  refine ⟨hlen, fun c hc => ?_⟩
  obtain rfl := Option.some.inj hc
  exact ⟨halgorithm, Nat.le_of_not_lt hshort⟩

theorem parseBytes_accepted (h : parseBytes it = .ok (data, it')) : AcceptedBytes data := by
  rw [parseBytes] at h
  by_cases htag : it.type = TinyCbor.CborTagType
  · rw [if_pos htag] at h
    split_ifs at h
    obtain ⟨⟨tag, next⟩, -, h⟩ := Loop.bind_ok h
    obtain ⟨-, h⟩ := Loop.guard_ok h
    obtain ⟨elt, elt', helt⟩ := parseArray_ok h
    exact compressionItems_accepted helt
  · rw [if_neg htag] at h
    obtain ⟨-, h⟩ := Loop.guard_ok h
    obtain ⟨⟨⟨bstr, len⟩, last⟩, hbytes, h⟩ := Loop.bind_ok h
    obtain ⟨rfl, -⟩ := Prod.mk.inj (Except.ok.inj h)
    refine ⟨consumeByteString_lt hbytes, fun c hc => ?_⟩
    cases hc

theorem multidimItems_accepted (h : multidimItems it = .ok (mda, it')) : Accepted mda := by
  obtain ⟨⟨dim, elt⟩, -, h⟩ := Loop.bind_ok h
  obtain ⟨⟨⟨array, len⟩, last⟩, harray, h⟩ := Loop.bind_ok h
  obtain ⟨hdim, h⟩ := Loop.guard_ok h
  obtain ⟨rfl, -⟩ := Prod.mk.inj (Except.ok.inj h)
  obtain ⟨⟨tag, next⟩, -, harray⟩ := Loop.bind_ok harray
  obtain ⟨⟨data, last'⟩, hdata, harray⟩ := Loop.bind_ok harray
  obtain ⟨elemSize, helem, harray⟩ := Loop.bind_ok harray
  obtain ⟨hmod, harray⟩ := Loop.guard_ok harray
  obtain ⟨hpair, -⟩ := Prod.mk.inj (Except.ok.inj harray)
  obtain ⟨rfl, rfl⟩ := Prod.mk.inj hpair
  refine ⟨fun size hsize => ?_, parseBytes_accepted hdata⟩
  obtain rfl := Except.ok.inj (helem.symm.trans hsize)
  rw [not_not.mp hdim]
  exact Nat.div_mul_cancel (Nat.dvd_of_mod_eq_zero (not_not.mp hmod))

theorem parseMultidimArray_accepted (h : parseMultidimArray it = .ok (mda, it')) :
    Accepted mda := by
  obtain ⟨⟨tag, next⟩, -, h⟩ := Loop.bind_ok h
  obtain ⟨-, h⟩ := Loop.guard_ok h
  obtain ⟨elt, elt', helt⟩ := parseArray_ok h
  exact multidimItems_accepted helt

def AcceptedImage (msg : ImageMsg) : Prop := ∀ entry ∈ msg.data, Accepted entry.2

theorem accepted_image {message : Bytes} {msg : ImageMsg}
    (h : stream2ParseMsg message = .ok (.image msg)) : AcceptedImage msg := by
  intro entry hentry
  exact stream2ParseMsg_arrays (fun _ _ _ => parseMultidimArray_accepted) h entry.2
    (List.mem_map_of_mem hentry)

end Accepted

section Shape

open StreamFraming (Shape readSizes readChars readSize readDataType readShape MAX_JSON_TOKENS)

/-- There is room for two sizes; one that is not read is what the variable held. A third would be
written behind them. -/
def frameShape (held : ℕ × ℕ) : List ℕ → Option (ℕ × ℕ)
  | [] => some held
  | [x] => some (x, held.2)
  | [x, y] => some (x, y)
  | _ => none

/-- What getFrame finds in a part, with what `frameShape` held before. -/
def shapeRead (held : ℕ × ℕ) (bytes : List Char) : Option Shape :=
  match Frozen.parseJson MAX_JSON_TOKENS bytes with
  | none => none
  | some tokens =>
    match (readSizes tokens "shape".toList 3).bind (frameShape held),
      readChars tokens "type".toList 8, readChars tokens "encoding".toList 32,
      readSize tokens "size".toList with
    | some dims, some dataType, some encoding, some size =>
      (readDataType dataType).map fun t => ⟨dims.1, dims.2, t.1, t.2, encoding, size⟩
    | _, _, _, _ => none

/-- With both sizes in the part, nothing depends on what was held. -/
theorem shapeRead_of_readShape {held : ℕ × ℕ} {bytes : List Char} {shape : Shape}
    (h : readShape bytes = some shape) : shapeRead held bytes = some shape := by
  rw [readShape] at h
  rw [shapeRead]
  cases htokens : Frozen.parseJson MAX_JSON_TOKENS bytes with
  | none => simp [htokens] at h
  | some tokens =>
    simp only [htokens] at h ⊢
    split at h
    case h_1 x y dataType encoding size hsizes htype hencoding hsize =>
      have hdims : (readSizes tokens "shape".toList 3).bind (frameShape held) = some (x, y) := by
        rw [hsizes]
        rfl
      simpa only [hdims, htype, hencoding, hsize] using h
    case h_2 => cases h

theorem readSize_lt {tokens : List Frozen.JsonToken} {name : List Char} {size : ℕ}
    (h : readSize tokens name = some size) : size < 2 ^ 64 := by
  rw [readSize] at h
  split at h
  · rw [StreamFraming.scanSize] at h
    obtain ⟨v, -, rfl⟩ := Option.map_eq_some_iff.mp h
    by_cases hv : v.natAbs < 2 ^ 64
    · rw [if_pos hv]
      omega
    · rw [if_neg hv]
      decide
  · cases h

theorem shapeRead_lt {held : ℕ × ℕ} {bytes : List Char} {shape : Shape}
    (h : shapeRead held bytes = some shape) : shape.compressedSize < 2 ^ 64 := by
  rw [shapeRead] at h
  split at h
  · cases h
  · split at h
    case h_1 hsize =>
      obtain ⟨t, -, rfl⟩ := Option.map_eq_some_iff.mp h
      exact readSize_lt hsize
    case h_2 => cases h

end Shape

section Frames

/-- Neither library writes more than it is told there is room for. -/
structure Bounded {α : Type} (lz4 : List α → ℕ → Option (List α))
    (bshuf : List α → ℕ → ℕ → Option (List α)) : Prop where
  lz4 : ∀ input size out, lz4 input size = some out → out.length ≤ size
  bshuf : ∀ input n elemSize out, bshuf input n elemSize = some out → out.length ≤ n * elemSize

/-- An array after the copy, and the size from which a header was taken off. -/
structure Frame where
  dims : ℕ × ℕ
  elemSize : ℕ
  copied : ℕ
  headed : Option ℕ
  deriving DecidableEq, Repr

def Frame.room (frame : Frame) : ℕ := frame.dims.1 * frame.dims.2 * frame.elemSize

def Frame.Fits (frame : Frame) : Prop :=
  frame.copied ≤ frame.room ∧ ∀ size, frame.headed = some size → 12 ≤ size

/-- `memcpy` copies as many bytes as it is told to, from whatever was received. -/
def streamCopied (a : StreamFraming.NDArray) : ℕ :=
  match a.compressedSize with
  | some size => size
  | none => (a.data.getD []).length

def streamFrame (env : StreamFraming.Env) (k : ℕ) (shape : StreamFraming.Shape)
    (data : List Char) : Frame :=
  let a := StreamFraming.readData env k shape data
  ⟨a.dims, shape.elemSize, streamCopied a,
    if a.codec = .bslz4 then some shape.compressedSize else none⟩

def stream2Copied : Stream2Api.Copy → ℕ
  | .memcpy _ size => size
  | .uncompress result => (result.getD []).length

def stream2Frame (env : Stream2Api.Env) (decompress : Bool) (mda : MultidimArray)
    (elemSize : ℕ) : Frame :=
  let a := Stream2Api.frameData env decompress mda.array.data elemSize
  ⟨(mda.dim.2, mda.dim.1), elemSize, stream2Copied a.2.2,
    if a.1 = .bslz4 then some mda.array.data.len else none⟩

/-- What getFrame is called on: the parts of a frame, or an image and one of its thresholds. -/
inductive Input where
  | stream (k : ℕ) (shape data : List Char)
  | stream2 (message : Bytes) (thresh : ℕ) (call : Stream2Api.Call)

/-- The entry of an image that is accepted, if it is of a type that is taken. -/
def imageEntry (message : Bytes) (thresh : ℕ) : Option (MultidimArray × ℕ) :=
  match stream2ParseMsg message with
  | .ok (.image msg) =>
    match msg.data[thresh]? with
    | some (_, mda) => (Stream2Api.dataTypeOf mda.array.tag).map fun type => (mda, type.2)
    | none => none
  | _ => none

variable (env : StreamFraming.Env) (env2 : Stream2Api.Env) (held : ℕ × ℕ)

/-- The frame, when the pool has an array for it. -/
def Input.frame : Input → Option Frame
  | .stream k shape data =>
    ((shapeRead held shape).filter fun s => env.alloc k s).map fun s => streamFrame env k s data
  | .stream2 message thresh call =>
    ((imageEntry message thresh).filter fun _ => call.alloc).map fun e =>
      stream2Frame env2 call.decompress e.1 e.2

/-- A compressed size, and the room for what is left of it without a header. -/
def KeptFits (header : Prop) (size room : ℕ) : Prop :=
  (¬ header ∧ size ≤ room) ∨ (header ∧ 12 ≤ size ∧ size - 12 ≤ room)

/-- Data that stay compressed are no larger than what they stand for. -/
def Input.Compresses : Input → Prop
  | .stream k shape _ => ∀ s, shapeRead held shape = some s → env.alloc k s = true →
      s.encoding ≠ "<".toList → env.decompress k = false →
        KeptFits (s.encoding ∈ StreamFraming.bslz4Encodings) s.compressedSize
          (s.x * s.y * s.elemSize)
  | .stream2 message thresh call =>
      ∀ mda elemSize, imageEntry message thresh = some (mda, elemSize) →
        call.alloc = true → call.decompress = false →
          ∀ compression, mda.array.data.compression = some compression →
            KeptFits (compression.algorithm = BSLZ4) mda.array.data.len
              (mda.dim.1 * mda.dim.2 * elemSize)

variable {frame : Frame} {header : Prop} {size : ℕ}

theorem fits_whole (hheader : ¬ header) (hcopied : frame.copied = size)
    (hnone : frame.headed = none) : frame.Fits ↔ KeptFits header size frame.room := by
  rw [Frame.Fits, KeptFits, hcopied, hnone]
  constructor
  · intro h
    exact Or.inl ⟨hheader, h.1⟩
  · intro h
    rcases h with h | h
    · exact ⟨h.2, fun size hsize => by cases hsize⟩
    · exact absurd h.1 hheader

theorem fits_headed (hheader : header) (hcopied : 12 ≤ size → frame.copied = size - 12)
    (hsome : frame.headed = some size) : frame.Fits ↔ KeptFits header size frame.room := by
  rw [Frame.Fits, KeptFits, hsome]
  constructor
  · intro h
    have h12 := h.2 size rfl
    exact Or.inr ⟨hheader, h12, hcopied h12 ▸ h.1⟩
  · intro h
    rcases h with h | ⟨-, h12, hle⟩
    · exact absurd hheader h.1
    · exact ⟨(hcopied h12).symm ▸ hle, fun s hs => Option.some.inj hs ▸ h12⟩

end Frames

section Stream

variable {env : StreamFraming.Env} {k : ℕ} {shape : StreamFraming.Shape} {data : List Char}

/-- The frame is that of the array which getFrame makes of the parts. -/
theorem getFrame_parts {bytes timestamp : List Char} {s : List StreamFraming.Item}
    (hshape : StreamFraming.readShape bytes = some shape) (halloc : env.alloc k shape = true) :
    StreamFraming.getFrame env k (.part bytes :: .part data :: .part timestamp :: s) =
      some (some (StreamFraming.readData env k shape data), s) := by
  have hnot : ¬ env.alloc k shape = false := by simp [halloc]
  simp only [StreamFraming.getFrame, StreamFraming.recv, hshape, if_neg hnot]

theorem streamUncompress_le (hb : Bounded env.lz4 env.bshuf) {input out : List Char}
    (h : StreamFraming.uncompress env input shape = some out) :
    out.length ≤ shape.uncompressedSize := by
  rw [StreamFraming.uncompress] at h
  split_ifs at h
  · exact hb.lz4 _ _ _ h
  · exact Nat.le_trans (hb.bshuf _ _ _ _ h) (Nat.div_mul_le_self _ _)

theorem streamFrame_plain (h : shape.encoding = "<".toList) :
    (streamFrame env k shape data).Fits := by
  simp only [Frame.Fits, streamFrame, StreamFraming.readData, if_pos h]
  constructor
  · calc (data.take shape.uncompressedSize).length
      _ ≤ shape.uncompressedSize := List.length_take_le _ _
      _ ≤ shape.x * shape.y * shape.elemSize := Nat.mod_le _ _
  · intro size hsize
    cases hsize

theorem streamFrame_decompressed (hb : Bounded env.lz4 env.bshuf)
    (hplain : shape.encoding ≠ "<".toList) (hd : env.decompress k = true) :
    (streamFrame env k shape data).Fits := by
  simp only [Frame.Fits, streamFrame, StreamFraming.readData, if_neg hplain, if_pos hd]
  constructor
  · refine Nat.le_trans ?_ (Nat.mod_le _ (2 ^ 64) : shape.uncompressedSize ≤ _)
    simp only [streamCopied]
    cases hout : StreamFraming.uncompress env (data.take shape.compressedSize) shape with
    | none => exact Nat.zero_le _
    | some out => exact streamUncompress_le hb hout
  · intro size hsize
    cases hsize

theorem streamFrame_room (env : StreamFraming.Env) (k : ℕ) (shape : StreamFraming.Shape)
    (data : List Char) : (streamFrame env k shape data).room =
    shape.x * shape.y * shape.elemSize := by
  have hdims : (StreamFraming.readData env k shape data).dims = (shape.x, shape.y) := by
    simp only [StreamFraming.readData]
    split_ifs
    all_goals rfl
  simp only [Frame.room, streamFrame, hdims]

theorem streamFrame_kept (hsize : shape.compressedSize < 2 ^ 64)
    (hplain : shape.encoding ≠ "<".toList) (hd : env.decompress k = false) :
    (streamFrame env k shape data).Fits ↔
      KeptFits (shape.encoding ∈ StreamFraming.bslz4Encodings) shape.compressedSize
        (shape.x * shape.y * shape.elemSize) := by
  have hnot : ¬ env.decompress k = true := by simp [hd]
  rw [← streamFrame_room env k shape data]
  by_cases hlz4 : shape.encoding = "lz4<".toList
  · have hother : shape.encoding ∉ StreamFraming.bslz4Encodings := by
      rw [hlz4]
      decide
    have hdata : streamFrame env k shape data =
        ⟨(shape.x, shape.y), shape.elemSize, shape.compressedSize, none⟩ := by
      simp only [streamFrame, StreamFraming.readData, if_neg hplain, if_neg hnot, if_pos hlz4]
      rfl
    rw [hdata]
    exact fits_whole hother rfl rfl
  · by_cases hbs : shape.encoding ∈ StreamFraming.bslz4Encodings
    · apply fits_headed hbs
      · intro h12
        simp only [streamFrame, StreamFraming.readData, if_neg hplain, if_neg hnot, if_neg hlz4,
          if_pos hbs, streamCopied]
        omega
      · simp only [streamFrame, StreamFraming.readData, if_neg hplain, if_neg hnot, if_neg hlz4,
          if_pos hbs, if_true]
    · have hdata : streamFrame env k shape data =
          ⟨(shape.x, shape.y), shape.elemSize, shape.compressedSize, none⟩ := by
        simp only [streamFrame, StreamFraming.readData, if_neg hplain, if_neg hnot, if_neg hlz4,
          if_neg hbs]
        rfl
      rw [hdata]
      exact fits_whole hbs rfl rfl

end Stream

section Stream2

variable {env : Stream2Api.Env} {decompress : Bool} {mda : MultidimArray} {elemSize : ℕ}

/-- The frame is that of the array which getFrame makes of an image. -/
theorem getFrame_stream2Frame {api api' : Stream2Api.Stream2API} {thresh : ℕ} {extract : Bool}
    {call : Stream2Api.Call} {msg : ImageMsg} {err : StreamApi.Err} {a : Stream2Api.NDArray}
    (hmsg : api.mImageMsg = some msg)
    (h : Stream2Api.getFrame env api thresh extract call = .ok ((err, some a), api')) :
    ∃ channel mda type, msg.data[thresh]? = some (channel, mda) ∧
      Stream2Api.dataTypeOf mda.array.tag = some type ∧ call.alloc = true ∧
      (stream2Frame env call.decompress mda type.2).dims = a.dims ∧
      (stream2Frame env call.decompress mda type.2).copied = stream2Copied a.data := by
  simp only [Stream2Api.getFrame, hmsg] at h
  cases hentry : msg.data[thresh]? with
  | none => simp [hentry] at h
  | some entry =>
    simp only [hentry, Stream2Api.frameOf] at h
    cases htype : Stream2Api.dataTypeOf entry.2.array.tag with
    | none =>
      simp only [htype] at h
      cases congrArg Prod.snd (Prod.mk.inj (Except.ok.inj h)).1
    | some type =>
      simp only [htype] at h
      split_ifs at h with halloc
      · cases congrArg Prod.snd (Prod.mk.inj (Except.ok.inj h)).1
      refine ⟨entry.1, entry.2, type, rfl, htype, by simpa using halloc, ?_⟩
      cases hfill : Stream2Api.fillFrame env api thresh call.decompress extract msg entry.2
        type with
      | error fault =>
        rw [hfill] at h
        cases h
      | ok r =>
        rw [hfill] at h
        obtain ⟨hout, -⟩ := Prod.mk.inj (Except.ok.inj h)
        obtain rfl := Option.some.inj (congrArg Prod.snd hout)
        rw [Stream2Api.fillFrame] at hfill
        obtain ⟨⟨ts, after⟩, -, hfill⟩ := Loop.bind_ok hfill
        dsimp only at hfill
        split at hfill
        · cases hfill
        · obtain rfl := Except.ok.inj hfill
          exact ⟨rfl, rfl⟩

theorem imageEntry_accepted {message : Bytes} {thresh : ℕ}
    (h : imageEntry message thresh = some (mda, elemSize)) :
    AcceptedBytes mda.array.data ∧
      mda.dim.1 * mda.dim.2 % 2 ^ 64 * elemSize = mda.array.data.size := by
  rw [imageEntry] at h
  split at h
  case h_2 => cases h
  case h_1 msg hmsg =>
    split at h
    case h_2 => cases h
    case h_1 channel entry hentry =>
      obtain ⟨type, htype, hpair⟩ := Option.map_eq_some_iff.mp h
      obtain ⟨rfl, rfl⟩ := Prod.mk.inj hpair
      have haccepted := accepted_image hmsg _ (List.mem_of_getElem? hentry)
      exact ⟨haccepted.bytes, haccepted.elements _ (typedArrayElemSize_of_dataTypeOf htype)⟩

theorem size_le_room
    (helements : mda.dim.1 * mda.dim.2 % 2 ^ 64 * elemSize = mda.array.data.size) :
    mda.array.data.size ≤ mda.dim.2 * mda.dim.1 * elemSize := by
  rw [← helements, Nat.mul_comm mda.dim.2]
  exact Nat.mul_le_mul_right _ (Nat.mod_le _ _)

theorem stream2Frame_plain
    (helements : mda.dim.1 * mda.dim.2 % 2 ^ 64 * elemSize = mda.array.data.size)
    (hplain : mda.array.data.compression = none) :
    (stream2Frame env decompress mda elemSize).Fits := by
  have hroom := size_le_room helements
  rw [ByteString.size, hplain] at hroom
  simp only [Frame.Fits, stream2Frame, Stream2Api.frameData, hplain]
  exact ⟨hroom, fun size hsize => by cases hsize⟩

theorem stream2Frame_decompressed (hb : Bounded env.lz4 env.bshuf)
    (helements : mda.dim.1 * mda.dim.2 % 2 ^ 64 * elemSize = mda.array.data.size)
    {compression : Compression} (hc : mda.array.data.compression = some compression) :
    (stream2Frame env true mda elemSize).Fits := by
  have hroom := size_le_room helements
  rw [ByteString.size, hc] at hroom
  simp only [Frame.Fits, stream2Frame, Stream2Api.frameData, hc, if_pos]
  constructor
  · refine Nat.le_trans ?_ hroom
    simp only [stream2Copied, Stream2Api.uncompress]
    split_ifs
    · cases hout : env.lz4 mda.array.data.ptr compression.origSize with
      | none => exact Nat.zero_le _
      | some out => exact hb.lz4 _ _ _ hout
    · cases hout : env.bshuf (mda.array.data.ptr.drop 12) (compression.origSize / elemSize)
          elemSize with
      | none => exact Nat.zero_le _
      | some out => exact Nat.le_trans (hb.bshuf _ _ _ _ hout) (Nat.div_mul_le_self _ _)
    · exact Nat.zero_le _
  · intro size hsize
    cases hsize

theorem stream2Frame_kept (env : Stream2Api.Env) (haccepted : AcceptedBytes mda.array.data)
    {compression : Compression} (hc : mda.array.data.compression = some compression) :
    (stream2Frame env false mda elemSize).Fits ↔
      KeptFits (compression.algorithm = BSLZ4) mda.array.data.len
        (mda.dim.1 * mda.dim.2 * elemSize) := by
  have hroom : (stream2Frame env false mda elemSize).room = mda.dim.1 * mda.dim.2 * elemSize := by
    rw [Frame.room, stream2Frame, Nat.mul_comm mda.dim.1]
  rw [← hroom]
  by_cases hlz4 : compression.algorithm = LZ4
  · have hother : ¬ compression.algorithm = BSLZ4 := by
      rw [hlz4]
      decide
    apply fits_whole hother
    · simp only [stream2Frame, Stream2Api.frameData, hc, Bool.false_eq_true, if_false, if_pos hlz4,
        stream2Copied]
    · simp only [stream2Frame, Stream2Api.frameData, hc, Bool.false_eq_true, if_false, if_pos hlz4]
      rfl
  · have hbs : compression.algorithm = BSLZ4 :=
      (haccepted.compressed compression hc).1.resolve_right hlz4
    have hlen := haccepted.length
    apply fits_headed hbs
    · intro h12
      simp only [stream2Frame, Stream2Api.frameData, hc, Bool.false_eq_true, if_false, if_neg hlz4,
        if_pos hbs, stream2Copied]
      omega
    · simp only [stream2Frame, Stream2Api.frameData, hc, Bool.false_eq_true, if_false, if_neg hlz4,
        if_pos hbs, if_true]

end Stream2

section Fits

variable {env : StreamFraming.Env} {env2 : Stream2Api.Env} {held : ℕ × ℕ}

theorem stream_fits_iff (hb : Bounded env.lz4 env.bshuf) (k : ℕ) (bytes data : List Char) :
    (∀ frame, (Input.stream k bytes data).frame env env2 held = some frame → frame.Fits) ↔
      (Input.stream k bytes data).Compresses env held := by
  constructor
  · intro h s hs halloc hplain hd
    refine (streamFrame_kept (shapeRead_lt hs) hplain hd).mp (h (streamFrame env k s data) ?_)
    simp [Input.frame, hs, halloc, Option.filter_some]
  · intro h frame hframe
    obtain ⟨s, hs, rfl⟩ := Option.map_eq_some_iff.mp hframe
    obtain ⟨hs, halloc⟩ := Option.filter_eq_some_iff.mp hs
    by_cases hplain : s.encoding = "<".toList
    · exact streamFrame_plain hplain
    · cases hd : env.decompress k with
      | true => exact streamFrame_decompressed hb hplain hd
      | false => exact (streamFrame_kept (shapeRead_lt hs) hplain hd).mpr (h s hs halloc hplain hd)

theorem stream2_fits_iff (hb : Bounded env2.lz4 env2.bshuf) (message : Bytes) (thresh : ℕ)
    (call : Stream2Api.Call) :
    (∀ frame, (Input.stream2 message thresh call).frame env env2 held = some frame → frame.Fits) ↔
      (Input.stream2 message thresh call).Compresses env held := by
  constructor
  · intro h mda elemSize hentry halloc hd compression hc
    refine (stream2Frame_kept env2 (imageEntry_accepted hentry).1 hc).mp (h _ ?_)
    simp [Input.frame, hentry, halloc, hd, Option.filter_some]
  · intro h frame hframe
    obtain ⟨⟨mda, elemSize⟩, hentry, rfl⟩ := Option.map_eq_some_iff.mp hframe
    obtain ⟨hentry, halloc⟩ := Option.filter_eq_some_iff.mp hentry
    obtain ⟨haccepted, helements⟩ := imageEntry_accepted hentry
    cases hc : mda.array.data.compression with
    | none => exact stream2Frame_plain helements hc
    | some compression =>
      cases hd : call.decompress with
      | true => exact stream2Frame_decompressed hb helements hc
      | false =>
        exact (stream2Frame_kept env2 haccepted hc).mpr
          (h mda elemSize hentry halloc hd compression hc)

/-- For both interfaces. -/
theorem copy_fits_iff (hb : Bounded env.lz4 env.bshuf) (hb2 : Bounded env2.lz4 env2.bshuf)
    (held : ℕ × ℕ) (input : Input) :
    (∀ frame, input.frame env env2 held = some frame → frame.Fits) ↔ input.Compresses env held := by
  cases input with
  | stream k shape data => exact stream_fits_iff hb k shape data
  | stream2 message thresh call => exact stream2_fits_iff hb2 message thresh call

end Fits

section Examples

/-- An image of one pixel whose data did not get smaller: a header of 12 bytes, and a block of
one byte with its length. -/
def onePixelBytes : Bytes :=
  [217, 217, 247, 162, 100, 116, 121, 112, 101, 101, 105, 109, 97, 103, 101, 100, 100, 97, 116,
    97, 161, 107, 116, 104, 114, 101, 115, 104, 111, 108, 100, 95, 49, 216, 40, 130, 130, 1, 1,
    216, 64, 217, 220, 180, 131, 99, 108, 122, 52, 1, 81, 0, 0, 0, 0, 0, 0, 0, 1, 0, 0, 0, 1, 0,
    0, 0, 1, 42]

/-- The libraries are not called in the examples. -/
def keepEnv : StreamFraming.Env :=
  ⟨fun _ => false, fun _ => false, fun _ _ => true, fun _ _ => none, fun _ _ _ => none⟩

def keepEnv2 : Stream2Api.Env := ⟨fun _ => ⟨0, 0⟩, fun _ _ => none, fun _ _ _ => none⟩

theorem none_bounded {α : Type} :
    Bounded (fun (_ : List α) _ => none) (fun (_ : List α) _ _ => none) :=
  ⟨fun _ _ _ h => (Option.some_ne_none _ h.symm).elim,
    fun _ _ _ _ h => (Option.some_ne_none _ h.symm).elim⟩

def onePixelInput : Input := .stream2 onePixelBytes 0 ⟨false, true⟩

theorem onePixelInput_frame :
    onePixelInput.frame keepEnv keepEnv2 (0, 0) = some ⟨(1, 1), 1, 17, none⟩ := by
  decide +kernel

theorem copy_fits_keeping :
    (∀ frame, onePixelInput.frame keepEnv keepEnv2 (0, 0) = some frame → frame.Fits) ↔
      onePixelInput.Compresses keepEnv (0, 0) :=
  copy_fits_iff none_bounded none_bounded (0, 0) onePixelInput

theorem copy_too_large : ¬ ∀ (env : StreamFraming.Env) (env2 : Stream2Api.Env) (held : ℕ × ℕ)
    (input : Input) (frame : Frame), Bounded env.lz4 env.bshuf → Bounded env2.lz4 env2.bshuf →
      input.frame env env2 held = some frame → frame.Fits := by
  intro h
  have hfits := h keepEnv keepEnv2 (0, 0) onePixelInput _ none_bounded none_bounded
    onePixelInput_frame
  exact absurd hfits.1 (by decide)

end Examples

end FrameCopy
