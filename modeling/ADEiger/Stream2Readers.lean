import ADEiger.Stream2Items
import ADEiger.Stream2Fields

/-! The functions that read the values of a message, as readers of its items. -/
namespace Stream2

open CString (Text)
open TinyCbor
open Cbor (Head Str Encloses Item WellFormed)
open Loop (readMany)

variable {α β μ : Type} {it it' next : CborValue} {b t : Bytes} {bs rest : List Bytes} {k l n : ℕ}
  {v : α}

section Arrays

variable {read : CborValue → Except Stream2Error (α × CborValue)}

/-- The length is checked before the array is entered, which makes another error at most. -/
theorem parseArray_reader (h : Reader Standing n read) : Reader Standing 1 (parseArray n read) := by
  have hknown : Reader Standing 1 (knownContainer CborArrayType fun len elt =>
      if len ≠ n then .error .parse else read elt) := by
    refine knownContainer_reader (.inl rfl) fun len => ?_
    refine Reader.ite (fun _ => Reader.error (by decide)) fun hlen => ?_
    rw [not_not.mp hlen]
    exact h
  refine hknown.of_agree fun it => ?_
  rw [parseArray, knownContainer]
  by_cases htype : it.type = CborArrayType
  · rw [if_neg (not_not.mpr htype), if_neg (not_not.mpr htype)]
    cases hlen : lift it.getLength with
    | error err => exact .inl rfl
    | ok len =>
      by_cases hn : len = n
      · left
        subst hn
        simp only [Loop.ok_bind, ne_eq, not_true_eq_false, if_false]
      · right
        simp only [Loop.ok_bind, ne_eq, hn, not_false_eq_true, if_true]
        refine ⟨⟨.parse, by decide, rfl⟩, fun x h => ?_⟩
        obtain ⟨elt, -, h⟩ := Loop.bind_ok h
        cases h
  · left
    rw [if_pos htype, if_pos htype]

theorem twoUint64_reader : Reader Standing 2 twoUint64 :=
  parseUint64_reader.bind fun a => parseUint64_reader.map fun b => (a, b)

theorem parseArray2Uint64_reader : Reader Standing 1 parseArray2Uint64 :=
  parseArray_reader twoUint64_reader

theorem parseTranslation_reader : Reader Standing 1 parseTranslation :=
  parseArray_reader (parseDouble_reader.many 3)

end Arrays

section Maps

variable {read : CborValue → Except Stream2Error (α × CborValue)}

theorem channelEntry_reader (h : Reader Standing 1 read) : Reader Standing 2 (channelEntry read) :=
  parseTextString_reader.bind fun channel => h.map fun value => (channel, value)

theorem parseChannels_reader (h : Reader Standing 1 read) :
    Reader Standing 1 (parseChannels read) := by
  show Reader Standing 1 (knownContainer CborMapType (readMany (channelEntry read)))
  refine knownContainer_reader (.inr rfl) fun len => ?_
  have hcount : Cbor.itemCount CborMapType len = len * 2 := Nat.mul_comm 2 len
  rw [hcount]
  exact (channelEntry_reader h).many len

theorem parseChannelNames_reader : Reader Standing 1 parseChannelNames := by
  show Reader Standing 1 (knownContainer CborArrayType (readMany parseTextString))
  refine knownContainer_reader (.inl rfl) fun len => ?_
  have hcount : Cbor.itemCount CborArrayType len = len * 1 := (Nat.mul_one len).symm
  rw [hcount]
  exact parseTextString_reader.many len

end Maps

section Bytes

/-- The first byte of a byte string tells where its content begins. -/
theorem lengthBytes_eq {byte : UInt8} (hmajor : Cbor.majorType byte = Cbor.byteString)
    (hinfo : Cbor.additionalInfo byte < 28) : ¬ (byte < 0x40 ∨ 0x5b < byte) ∧
      lengthBytes byte = Cbor.argumentLength (Cbor.additionalInfo byte) := by
  have hall : ∀ n < 256, Cbor.majorType (UInt8.ofNat n) = Cbor.byteString →
      Cbor.additionalInfo (UInt8.ofNat n) < 28 →
        ¬ (UInt8.ofNat n < 0x40 ∨ 0x5b < UInt8.ofNat n) ∧ lengthBytes (UInt8.ofNat n) =
          Cbor.argumentLength (Cbor.additionalInfo (UInt8.ofNat n)) := by decide +kernel
  have h := hall byte.toNat byte.toNat_lt
  rw [UInt8.ofNat_toNat] at h
  exact h hmajor hinfo

theorem consumeByteString_eq {h content : Bytes} (hh : Head Cbor.byteString content.length h)
    (hptr : it.ptr = h ++ (content ++ t)) (hlen : it.getLength = .ok content.length) :
    consumeByteString it =
      lift (advance it) >>= fun next => .ok ((content, content.length), next) := by
  generalize hm : Cbor.byteString = m at hh
  generalize hn : content.length = n at hh
  cases hh with
  | mk byte argument hinfo hlength =>
    obtain ⟨hrange, hbytes⟩ := lengthBytes_eq hm.symm hinfo
    rw [consumeByteString, hlen]
    simp only [lift, Except.mapError, Loop.ok_bind]
    rw [hptr, List.cons_append]
    dsimp only
    rw [if_neg hrange, hbytes, List.drop_left' hlength, List.take_left, hn]

theorem consumeByteString_advance {x : Bytes × ℕ} (h : consumeByteString it = .ok (x, it')) :
    (∃ n, it.getLength = .ok n) ∧ advance it = .ok it' := by
  obtain ⟨len, hlen, h⟩ := Loop.bind_ok h
  refine ⟨⟨len, lift_ok hlen⟩, ?_⟩
  split at h
  · cases h
  · split_ifs at h
    obtain ⟨next, hnext, h⟩ := Loop.bind_ok h
    obtain ⟨-, rfl⟩ := Prod.mk.inj (Except.ok.inj h)
    exact lift_ok hnext

/-- A byte string of known length, with its length. -/
def knownBytes (it : CborValue) : Except Stream2Error ((Bytes × ℕ) × CborValue) :=
  if it.type ≠ CborByteStringType then .error .parse else consumeByteString it

/-- What is before the cursor when the string is of known length. -/
theorem knownBytes_str (hit : Primed it) (htype : it.type = CborByteStringType)
    (hlen : it.getLength = .ok n) : ∃ h t, Head Cbor.byteString n h ∧ it.ptr = h ++ t := by
  obtain ⟨hknown, hn⟩ := getLength_ok hlen
  rcases primed_long hit.read (by rw [htype]; rfl) with
    ⟨n', h, t, hh, hptr, -, hn'⟩ | ⟨_, _, _, _, _, hunknown⟩
  · rw [htype] at hh
    obtain rfl : n' = n := hn'.symm.trans hn
    exact ⟨h, t, hh, hptr⟩
  · rw [hknown] at hunknown
    cases hunknown

theorem knownBytes_reader : Reader Standing 1 knownBytes := by
  refine Reader.of_item (fun {it} hit => ?_) fun {it v it'} hit h => ?_
  · rw [knownBytes]
    split_ifs with htype
    · exact fun h => by cases h
    have hprimed := standing_of_type hit (not_not.mp htype) (by decide)
    rw [consumeByteString]
    refine Loop.bind_ne (getLength_ne it) fun len hlen => ?_
    obtain ⟨h, t, hh, hptr⟩ := knownBytes_str hprimed (not_not.mp htype) (lift_ok hlen)
    generalize hm : Cbor.byteString = m at hh
    cases hh with
    | mk byte argument hinfo hlength =>
      rw [hptr, List.cons_append]
      dsimp only
      rw [if_neg (lengthBytes_eq hm.symm hinfo).1]
      exact Loop.bind_ne (lift_ne (advance_total hprimed)) fun next _ h => by cases h
  · obtain ⟨htype, hconsume⟩ := Loop.guard_ok h
    have htype' := not_not.mp htype
    have hprimed := standing_of_type hit htype' (by decide)
    obtain ⟨⟨len, hlen⟩, hadvance⟩ := consumeByteString_advance hconsume
    obtain ⟨head, u, hh, hu⟩ := knownBytes_str hprimed htype' hlen
    have hlong : isFixedType it.type = false := by
      rw [htype']
      rfl
    obtain ⟨b, t, hptr, hb, hfollows⟩ := advance_sound hprimed (by rw [htype']; decide) hadvance
    have hbegins := begins_type hprimed hb hptr (.inl hlong)
    rw [htype'] at hbegins
    obtain ⟨content, hs⟩ := hb.of_string hbegins (.inl rfl)
    cases hs with
    | chunks cs hm hinfo hcs =>
      rw [hptr] at hu
      exact absurd hu.symm (hh.ne_indefinite hinfo _ _)
    | @known n head' content hh' hn =>
      subst hn
      have hlen' : it.getLength = .ok content.length := by
        rw [hptr, List.append_assoc] at hu
        obtain ⟨-, rfl, -⟩ := hh.unique hh' hu.symm
        exact hlen
      rw [List.append_assoc] at hptr
      rw [consumeByteString_eq hh' hptr hlen', hadvance] at hconsume
      obtain ⟨rfl, -⟩ := Prod.mk.inj (Except.ok.inj hconsume)
      rw [← List.append_assoc] at hptr
      refine ⟨hprimed, head' ++ content, t, hptr, hb.wellFormed, hfollows, fun hbefore => ?_⟩
      obtain ⟨hprimed', t', hptr', ⟨last, hlast⟩, hstep⟩ := hbefore.step
      have htype'' : it.type = _ := congrArg Reading.type
        (primed_same hprimed.read hprimed'.read hptr hptr' hb.wellFormed)
      dsimp only [CborValue.reading] at htype''
      rw [htype'] at htype''
      have hlength := (getLength_same hprimed.read hprimed'.read hptr hptr' hb.wellFormed
        hlong).symm.trans hlen'
      obtain ⟨moved, hmoved, hnext⟩ := advance_complete hb hprimed' hptr'
        (by rw [← htype'']; decide) hlast
      refine ⟨moved, ?_, hstep moved hnext⟩
      rw [List.append_assoc] at hptr'
      rw [knownBytes, if_neg (not_not.mpr htype''.symm), consumeByteString_eq hh' hptr' hlength,
        hmoved]
      rfl

theorem Reader.check {x : Except Stream2Error α} (hx : x ≠ .error .aborted) :
    Reader Standing 0 fun it => x >>= fun v => .ok (v, it) := by
  cases x with
  | error err => exact Reader.error fun h => hx (congrArg Except.error h)
  | ok v => exact Reader.pure v

/-- The size that the compressed data had is in front of them. -/
def compressed (algorithm : Text) (elemSize : ℕ) (data : Bytes × ℕ) :
    Except Stream2Error ByteString :=
  if algorithm = BSLZ4 ∨ algorithm = LZ4 then
    if data.2 < 12 then .error .decode
    else .ok ⟨data.1, data.2, some ⟨algorithm, elemSize, bigEndian (data.1.take 8)⟩⟩
  else .error .notImplemented

theorem compressed_ne (algorithm : Text) (elemSize : ℕ) (data : Bytes × ℕ) :
    compressed algorithm elemSize data ≠ .error .aborted := by
  rw [compressed]
  split_ifs <;> exact fun h => by cases h

theorem compressionItems_eq : compressionItems = fun elt => parseTextString elt >>= fun x =>
    parseUint64 x.2 >>= fun y => knownBytes y.2 >>= fun z =>
      compressed x.1 y.1 z.1 >>= fun data => .ok (data, z.2) := by
  funext elt
  refine congrArg (parseTextString elt >>= ·) (funext fun x => ?_)
  refine congrArg (parseUint64 x.2 >>= ·) (funext fun y => ?_)
  dsimp only [knownBytes]
  by_cases htype : y.2.type = CborByteStringType
  · rw [if_neg (not_not.mpr htype), if_neg (not_not.mpr htype)]
    refine congrArg (consumeByteString y.2 >>= ·) (funext fun z => ?_)
    dsimp only [compressed]
    split_ifs <;> rfl
  · rw [if_pos htype, if_pos htype]
    rfl

theorem compressionItems_reader : Reader Standing 3 compressionItems := by
  rw [compressionItems_eq]
  exact parseTextString_reader.bind fun algorithm => parseUint64_reader.bind fun elemSize =>
    knownBytes_reader.bind fun data => Reader.check (compressed_ne algorithm elemSize data)

/-- What is behind one tag. -/
theorem Reader.expecting {read : CborValue → Except Stream2Error (α × CborValue)}
    (h : Reader Standing 1 read) (expected : ℕ) : Reader Standing 1 fun it =>
      parseTag it >>= fun x => if x.1 ≠ expected then .error .parse else read x.2 := by
  have hmore : ∀ tag, Reader Primed 1 fun it =>
      if tag ≠ expected then .error .parse else read it :=
    fun tag => Reader.ite (fun _ => Reader.error (by decide)) fun _ => h.weaken .inl
  exact Reader.tagged hmore

theorem parseDectrisCompression_reader : Reader Standing 1 parseDectrisCompression :=
  (parseArray_reader compressionItems_reader).expecting DECTRIS_COMPRESSION

/-- The tag is looked at before it is read. -/
theorem parseBytes_reader : Reader Standing 1 parseBytes := by
  have hbytes := knownBytes_reader.map fun data => (⟨data.1, data.2, none⟩ : ByteString)
  have hbranch := Reader.branch (p := fun it => it.type = CborTagType)
    (P := fun reading => reading.type = CborTagType) (fun _ => Iff.rfl)
    parseDectrisCompression_reader hbytes
  refine hbranch.of_agree fun it => ?_
  rw [parseBytes]
  by_cases htag : it.type = CborTagType
  · rw [if_pos htag, if_pos htag]
    by_cases hdectris : it.extractInt64 = DECTRIS_COMPRESSION
    · left
      rw [if_pos hdectris]
    · right
      rw [if_neg hdectris]
      refine ⟨⟨.parse, by decide, rfl⟩, fun x h => ?_⟩
      obtain ⟨⟨tag, next⟩, hparse, h⟩ := Loop.bind_ok h
      obtain ⟨-, hparse⟩ := Loop.guard_ok hparse
      obtain ⟨last, -, hparse⟩ := Loop.bind_ok hparse
      obtain ⟨rfl, -⟩ := Prod.mk.inj (Except.ok.inj hparse)
      exact (Loop.guard_ok h).1 hdectris
  · left
    rw [if_neg htag, if_neg htag, knownBytes]
    split_ifs <;> rfl

/-- The number of elements of a typed array. -/
def typed (tag : ℕ) (data : ByteString) : Except Stream2Error (TypedArray × ℕ) :=
  typedArrayElemSize tag >>= fun elemSize =>
    if data.size % elemSize ≠ 0 then .error .parse
    else .ok (⟨tag, data⟩, data.size / elemSize)

theorem typed_ne (tag : ℕ) (data : ByteString) : typed tag data ≠ .error .aborted := by
  refine Loop.bind_ne ?_ fun elemSize _ => ?_
  · rw [typedArrayElemSize]
    split_ifs <;> exact fun h => by cases h
  · split_ifs <;> exact fun h => by cases h

theorem parseTypedArray_eq : parseTypedArray = fun it => parseTag it >>= fun x =>
    parseBytes x.2 >>= fun y => typed x.1 y.1 >>= fun array => .ok (array, y.2) := by
  funext it
  refine congrArg (parseTag it >>= ·) (funext fun x => ?_)
  refine congrArg (parseBytes x.2 >>= ·) (funext fun y => ?_)
  dsimp only [typed]
  cases typedArrayElemSize x.1 with
  | error err => rfl
  | ok elemSize =>
    simp only [Loop.ok_bind]
    split_ifs <;> rfl

theorem parseTypedArray_reader : Reader Standing 1 parseTypedArray := by
  rw [parseTypedArray_eq]
  exact Reader.tagged fun tag =>
    (parseBytes_reader.bind fun data => Reader.check (typed_ne tag data)).weaken .inl

/-- The dimensions have to go with the number of elements. -/
def shaped (dim : ℕ × ℕ) (array : TypedArray × ℕ) : Except Stream2Error MultidimArray :=
  if dim.1 * dim.2 % 2 ^ 64 ≠ array.2 then .error .parse else .ok ⟨dim, array.1⟩

theorem shaped_ne (dim : ℕ × ℕ) (array : TypedArray × ℕ) :
    shaped dim array ≠ .error .aborted := by
  rw [shaped]
  split_ifs <;> exact fun h => by cases h

theorem multidimItems_eq : multidimItems = fun elt => parseArray2Uint64 elt >>= fun x =>
    parseTypedArray x.2 >>= fun y => shaped x.1 y.1 >>= fun array => .ok (array, y.2) := by
  funext it
  refine congrArg (parseArray2Uint64 it >>= ·) (funext fun x => ?_)
  refine congrArg (parseTypedArray x.2 >>= ·) (funext fun y => ?_)
  dsimp only [shaped]
  split_ifs <;> rfl

theorem parseMultidimArray_reader : Reader Standing 1 parseMultidimArray := by
  have hitems : Reader Standing 2 multidimItems := by
    rw [multidimItems_eq]
    exact parseArray2Uint64_reader.bind fun dim => parseTypedArray_reader.bind fun array =>
      Reader.check (shaped_ne dim array)
  exact (parseArray_reader hitems).expecting MULTI_DIMENSIONAL_ARRAY_ROW_MAJOR

end Bytes

end Stream2
