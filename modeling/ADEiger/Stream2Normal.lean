import ADEiger.Stream2Arrays
import ADEiger.Stream2FieldOrder
import ADEiger.Stream2RoundTrip

/-! What is read of a message can be written again.
The values that the parser takes from a well-formed message are those that an encoder can write, so
that every such message has a form in which it is written, and is read from it as the same. -/
namespace Stream2

open CString (Text)
open TinyCbor
open Cbor (Head Str Encloses Item WellFormed)
open Loop (readMany)

variable {α μ : Type} {it it' mid elt : CborValue} {b t : Bytes} {k n : ℕ} {v : α}
  {P : α → Prop}

section Cursors

/-- The cursor is at an item or at the end, in a buffer that has its place in the memory. -/
structure Good (it : CborValue) : Prop where
  standing : Standing it
  short : Word it.ptr.length

theorem Good.moved (h : Good it) (hstanding : Standing it')
    (hle : it'.ptr.length ≤ it.ptr.length) : Good it' :=
  ⟨hstanding, Nat.lt_of_le_of_lt hle h.short⟩

variable {read : CborValue → Except Stream2Error (α × CborValue)}

theorem Good.next (h : Good it) (hreader : Reader Standing k read) (hreads : Reads read)
    (hread : read it = .ok (v, it')) : Good it' :=
  h.moved (hreader.sound h.standing hread).1 (hreads _ _ _ hread).1

/-- What is read has the property. -/
def Gives (read : CborValue → Except Stream2Error (α × CborValue)) (P : α → Prop) : Prop :=
  ∀ {it v it'}, Good it → read it = .ok (v, it') → P v

theorem Good.enter (h : Good it) (hc : IsContainer it.type)
    (henter : lift (enterContainer it) = .ok elt) (hlen : it.getLength = .ok n) :
    Good elt ∧ Fits it.type n := by
  have hvalid : it.type ≠ CborInvalidType := by
    rcases hc with htype | htype <;> rw [htype] <;> decide
  have hprimed : Primed it := standing_of_type h.standing rfl hvalid
  have hentered := enterContainer_sound hprimed hc (lift_ok henter)
  refine ⟨h.moved hentered.standing (enterContainer_moves henter).1, ?_⟩
  obtain ⟨hknown, hn⟩ := getLength_ok hlen
  rcases primed_long hprimed.read hc.long.1 with
    ⟨n', head, t, hh, hptr, -, hn'⟩ | ⟨_, _, _, _, _, hunknown⟩
  · obtain rfl : n' = n := hn'.symm.trans hn
    exact enterContainer_fits hh hptr hknown (lift_ok henter)
  · rw [hknown] at hunknown
    cases hunknown

theorem parseArray_gives (h : Gives read P) : Gives (parseArray n read) P := by
  intro it v it' hit hparse
  rw [parseArray] at hparse
  obtain ⟨htype, hparse⟩ := Loop.guard_ok hparse
  obtain ⟨len, hlen, hparse⟩ := Loop.bind_ok hparse
  obtain ⟨-, hparse⟩ := Loop.guard_ok hparse
  obtain ⟨elt, henter, hparse⟩ := Loop.bind_ok hparse
  obtain ⟨⟨value, elt'⟩, hread, hparse⟩ := Loop.bind_ok hparse
  obtain ⟨last, -, hparse⟩ := Loop.bind_ok hparse
  obtain ⟨rfl, -⟩ := Prod.mk.inj (Except.ok.inj hparse)
  exact h (hit.enter (.inl (not_not.mp htype)) henter (lift_ok hlen)).1 hread

end Cursors

section Numbers

theorem bigEndian_take_lt (bytes : Bytes) (k : ℕ) : bigEndian (bytes.take k) < 256 ^ k :=
  Nat.lt_of_lt_of_le (bigEndian_lt _) (Nat.pow_le_pow_right (by decide) (List.length_take_le _ _))

theorem decodeInt64_lt (it : CborValue) : Word it.decodeInt64 := by
  rw [CborValue.decodeInt64]
  split
  · decide
  · split_ifs
    · exact Nat.lt_trans (bigEndian_take_lt _ 4) (by decide)
    · exact bigEndian_take_lt _ 8

theorem scaled_lt {m e : ℕ} (hm : m < 2 ^ k) (hk : k ≤ e) : m * 2 ^ (e - k) < 2 ^ e :=
  calc m * 2 ^ (e - k) < 2 ^ k * 2 ^ (e - k) :=
        Nat.mul_lt_mul_of_pos_right hm (Nat.two_pow_pos _)
    _ = 2 ^ e := by rw [← Nat.pow_add, Nat.add_sub_cancel' hk]

theorem magnitude_lt {e m : ℕ} (he : e ≤ 2046) (hm : m < 2 ^ 52) : e * 2 ^ 52 + m < 2 ^ 63 := by
  have hle : e * 2 ^ 52 ≤ 2046 * 2 ^ 52 := Nat.mul_le_mul_right _ he
  omega

theorem signed_lt {s m : ℕ} (hs : s < 2) (hm : m < 2 ^ 63) : Word (s * 2 ^ 63 + m) := by
  change s * 2 ^ 63 + m < 2 ^ 64
  omega

/-- The exponent of a shorter number has a place among those of a `double`. -/
theorem widen_lt {expBits manBits : ℕ} (hexp : expBits ≤ 10) (hman : 1 ≤ manBits ∧ manBits ≤ 52)
    (bits : ℕ) : Word (widen expBits manBits bits) := by
  have hsign : bits / 2 ^ (expBits + manBits) % 2 < 2 := Nat.mod_lt _ (by decide)
  have hmantissa : bits % 2 ^ manBits < 2 ^ manBits := Nat.mod_lt _ (Nat.two_pow_pos _)
  have hexponent : bits / 2 ^ manBits % 2 ^ expBits < 2 ^ 10 :=
    Nat.lt_of_lt_of_le (Nat.mod_lt _ (Nat.two_pow_pos _)) (Nat.pow_le_pow_right (by decide) hexp)
  simp only [widen]
  generalize bits % 2 ^ manBits = man at hmantissa ⊢
  generalize bits / 2 ^ manBits % 2 ^ expBits = exp at hexponent ⊢
  split_ifs with hmax hinfinite hsmall hzero
  · omega
  · have hquiet : man % 2 ^ (manBits - 1) * 2 ^ (51 - (manBits - 1)) < 2 ^ 51 :=
      scaled_lt (Nat.mod_lt _ (Nat.two_pow_pos _)) (by omega)
    rw [show 51 - (manBits - 1) = 52 - manBits by omega] at hquiet
    omega
  · omega
  · have hlog : man.log2 < manBits := (Nat.log2_lt hzero).mpr hmantissa
    have hbelow : man - 2 ^ man.log2 < 2 ^ man.log2 := by
      have hlt := Nat.lt_log2_self (n := man)
      have hpos := Nat.two_pow_pos man.log2
      rw [Nat.pow_succ] at hlt
      omega
    have hfraction := scaled_lt hbelow (by omega : man.log2 ≤ 52)
    generalize 2 ^ (expBits - 1) - 1 = bias
    have he : 1024 + man.log2 - bias - manBits ≤ 2046 := by omega
    exact signed_lt hsign (magnitude_lt he hfraction)
  · have hfraction := scaled_lt hmantissa hman.2
    generalize 2 ^ (expBits - 1) - 1 = bias
    have he : exp + 1023 - bias ≤ 2046 := by omega
    exact signed_lt hsign (magnitude_lt he hfraction)

theorem doubleBits_lt {bits : ℕ} (h : doubleBits it = .ok bits) : Word bits := by
  rw [doubleBits] at h
  split_ifs at h
  · obtain rfl := Except.ok.inj h
    exact widen_lt (by decide) (by decide) _
  · obtain rfl := Except.ok.inj h
    exact widen_lt (by decide) (by decide) _
  · obtain rfl := Except.ok.inj h
    exact decodeInt64_lt it

theorem parseDouble_lt {bits : ℕ} (h : parseDouble it = .ok (bits, it')) : Word bits := by
  obtain ⟨value, hvalue, h⟩ := Loop.bind_ok h
  obtain ⟨next, -, h⟩ := Loop.bind_ok h
  obtain ⟨rfl, -⟩ := Prod.mk.inj (Except.ok.inj h)
  exact doubleBits_lt hvalue

theorem parseDouble_gives : Gives parseDouble Word := fun _ h => parseDouble_lt h

theorem parseUint64_gives : Gives parseUint64 Word := by
  intro it value it' _ h
  rw [parseUint64] at h
  split_ifs at h
  obtain ⟨next, -, h⟩ := Loop.bind_ok h
  obtain ⟨rfl, -⟩ := Prod.mk.inj (Except.ok.inj h)
  exact extractInt64_lt it

theorem parseArray2Uint64_gives :
    Gives parseArray2Uint64 fun value => Word value.1 ∧ Word value.2 := by
  refine parseArray_gives (P := fun value : ℕ × ℕ => Word value.1 ∧ Word value.2) ?_
  intro it value it' hit h
  obtain ⟨⟨a, mid⟩, ha, h⟩ := Loop.bind_ok h
  obtain ⟨⟨b, last⟩, hb, h⟩ := Loop.bind_ok h
  obtain ⟨rfl, -⟩ := Prod.mk.inj (Except.ok.inj h)
  exact ⟨parseUint64_gives hit ha,
    parseUint64_gives (hit.next parseUint64_reader parseUint64_reads ha) hb⟩

theorem parseTranslation_gives :
    Gives parseTranslation fun values => values.length = 3 ∧ ∀ bits ∈ values, Word bits :=
  parseArray_gives fun {_ _ _} hit h => Loop.readMany_keeps (I := Good)
    (fun _ _ _ hit' hbits => ⟨parseDouble_gives hit' hbits,
      hit'.next parseDouble_reader parseDouble_reads hbits⟩) hit h

end Numbers

section Texts

theorem isText_cstring {bytes : Bytes} (h : Word bytes.length) : IsText (cstring bytes) := by
  have hsub : ∀ c ∈ cstring bytes, c ∈ bytes.map (fun b => Char.ofNat b.toNat) :=
    fun c hc => (List.takeWhile_sublist _).subset hc
  refine ⟨fun c hc => ?_, fun hnul => ?_, ?_⟩
  · obtain ⟨b, -, rfl⟩ := List.mem_map.mp (hsub c hc)
    have hvalid : b.toNat.isValidChar := .inl (Nat.lt_trans b.toNat_lt (by decide))
    have hb := b.toNat_lt
    rw [Char.ofNat, dif_pos hvalid]
    exact hb
  · have hne := List.mem_takeWhile_imp hnul
    simp at hne
  · have hle := CString.length_cstr_le (bytes.map fun b => Char.ofNat b.toNat)
    rw [List.length_map] at hle
    exact Nat.lt_of_le_of_lt hle h

theorem str_length_le {m : UInt8} {content : Bytes} (h : Str m content b) :
    content.length ≤ b.length := by
  cases h with
  | known _ _ =>
    rw [List.length_append]
    exact Nat.le_add_left _ _
  | @chunks start cs _ _ _ =>
    have hall : ∀ cs : List (Bytes × Bytes), (cs.map (·.2)).flatten.length ≤
        (cs.map fun c => c.1 ++ c.2).flatten.length := by
      intro cs
      induction cs with
      | nil => exact Nat.le_refl _
      | cons c cs ih =>
        simp only [List.map_cons, List.flatten_cons, List.length_append]
        omega
    refine Nat.le_trans (hall cs) ?_
    rw [List.length_cons, List.length_append]
    exact Nat.le_succ_of_le (Nat.le_add_right _ _)

theorem parseTextString_gives : Gives parseTextString IsText := by
  intro it text it' hit h
  rw [parseTextString] at h
  obtain ⟨htype, h⟩ := Loop.guard_ok h
  have htype' := not_not.mp htype
  have hprimed : Primed it := standing_of_type hit.standing htype' (by decide)
  rcases hs : copyString it with ⟨err | content, next⟩ <;> rw [hs] at h
  · cases h
  · obtain ⟨rfl, -⟩ := Prod.mk.inj (Except.ok.inj h)
    obtain ⟨b, t, hb, hptr, -⟩ := copyString_sound hprimed (.inl htype') hs
    have hle := str_length_le hb
    have hlength := congrArg List.length hptr
    have hshort := hit.short
    rw [List.length_append] at hlength
    exact isText_cstring (by omega)

end Texts

section Arrays

theorem parseTag_good (hit : Good it) {tag : ℕ} (h : parseTag it = .ok (tag, mid)) :
    Good mid ∧ Primed mid ∧ Word tag := by
  have hmoves := parseTag_reads _ _ _ h
  rw [parseTag] at h
  obtain ⟨htype, h⟩ := Loop.guard_ok h
  have htype' := not_not.mp htype
  obtain ⟨next, hnext, h⟩ := Loop.bind_ok h
  obtain ⟨rfl, rfl⟩ := Prod.mk.inj (Except.ok.inj h)
  have hprimed : Primed it := standing_of_type hit.standing htype' (by decide)
  have hinternal := lift_ok hnext
  rw [advanceFixed_eq hprimed (by rw [htype']; rfl)] at hinternal
  obtain ⟨_, _, _, -, -, -, huntagged⟩ := advanceInternal_tag hprimed htype' hinternal
  exact ⟨hit.moved (.inl huntagged.primed) hmoves.1, huntagged.primed, extractInt64_lt it⟩

/-- The bytes are all there, for they have been passed. -/
theorem knownBytes_gives : Gives knownBytes fun data => data.2 = data.1.length ∧ Word data.2 := by
  intro it data it' hit h
  obtain ⟨htype, hconsume⟩ := Loop.guard_ok h
  have htype' := not_not.mp htype
  have hprimed : Primed it := standing_of_type hit.standing htype' (by decide)
  obtain ⟨⟨len, hlen⟩, hadvance⟩ := consumeByteString_advance hconsume
  obtain ⟨head, u, hh, hu⟩ := knownBytes_str hprimed htype' hlen
  obtain ⟨b, t, hptr, hb, -⟩ := advance_sound hprimed (by rw [htype']; decide) hadvance
  have hbegins := begins_type hprimed hb hptr (.inl (by rw [htype']; rfl))
  rw [htype'] at hbegins
  obtain ⟨content, hs⟩ := hb.of_string hbegins (.inl rfl)
  cases hs with
  | chunks cs hm hinfo hcs =>
    rw [hptr] at hu
    exact absurd hu.symm (hh.ne_indefinite hinfo _ _)
  | @known n head' content hh' hn =>
    subst hn
    rw [List.append_assoc] at hptr
    obtain ⟨-, rfl, -⟩ := hh.unique hh' (hu.symm.trans hptr)
    rw [consumeByteString_eq hh' hptr hlen, hadvance] at hconsume
    obtain ⟨rfl, -⟩ := Prod.mk.inj (Except.ok.inj hconsume)
    exact ⟨rfl, (getLength_ok hlen).2 ▸ extractInt64_lt it⟩

theorem compressed_sendable {algorithm : Text} {elemSize : ℕ} {data : Bytes × ℕ}
    {value : ByteString} (helem : Word elemSize) (hdata : data.2 = data.1.length ∧ Word data.2)
    (h : compressed algorithm elemSize data = .ok value) : value.Sendable := by
  rw [compressed] at h
  split_ifs at h with halgorithm hlen
  obtain rfl := Except.ok.inj h
  refine ⟨hdata.1, hdata.2, ?_⟩
  intro c hc
  obtain rfl := Option.some.inj hc
  exact ⟨halgorithm, helem, Nat.not_lt.mp hlen, rfl⟩

theorem compressionItems_gives : Gives compressionItems ByteString.Sendable := by
  intro it value it' hit h
  rw [compressionItems_eq] at h
  obtain ⟨⟨algorithm, mid⟩, halgorithm, h⟩ := Loop.bind_ok h
  have hmid := hit.next parseTextString_reader parseTextString_reads halgorithm
  obtain ⟨⟨elemSize, next⟩, helem, h⟩ := Loop.bind_ok h
  have hnext := hmid.next parseUint64_reader parseUint64_reads helem
  obtain ⟨⟨data, last⟩, hdata, h⟩ := Loop.bind_ok h
  obtain ⟨bytes, hbytes, h⟩ := Loop.bind_ok h
  obtain ⟨rfl, -⟩ := Prod.mk.inj (Except.ok.inj h)
  exact compressed_sendable (parseUint64_gives hmid helem) (knownBytes_gives hnext hdata) hbytes

theorem parseBytes_gives : Gives parseBytes ByteString.Sendable := by
  intro it value it' hit h
  rw [parseBytes] at h
  split_ifs at h with htag hdectris htype
  · obtain ⟨⟨tag, mid⟩, hparse, h⟩ := Loop.bind_ok h
    obtain ⟨-, h⟩ := Loop.guard_ok h
    exact parseArray_gives compressionItems_gives (parseTag_good hit hparse).1 h
  · obtain ⟨⟨data, next⟩, hdata, h⟩ := Loop.bind_ok h
    obtain ⟨rfl, -⟩ := Prod.mk.inj (Except.ok.inj h)
    have hknown : knownBytes it = .ok (data, next) := by
      rw [knownBytes, if_neg htype]
      exact hdata
    obtain ⟨hlen, hword⟩ := knownBytes_gives hit hknown
    exact ⟨hlen, hword, fun c hc => by cases hc⟩

theorem typed_sendable {tag : ℕ} {data : ByteString} {array : TypedArray × ℕ}
    (hdata : data.Sendable) (h : typed tag data = .ok array) :
    array.1.Sendable ∧ array.2 = array.1.data.size / array.1.elemSize := by
  obtain ⟨elemSize, helem, h⟩ := Loop.bind_ok h
  rw [typedArrayElemSize] at helem
  split_ifs at helem with htag
  obtain rfl := Except.ok.inj helem
  split_ifs at h with hwhole
  obtain rfl := Except.ok.inj h
  exact ⟨⟨htag, hdata, not_not.mp hwhole⟩, rfl⟩

theorem parseTypedArray_gives : Gives parseTypedArray fun array =>
    array.1.Sendable ∧ array.2 = array.1.data.size / array.1.elemSize := by
  intro it array it' hit h
  rw [parseTypedArray_eq] at h
  obtain ⟨⟨tag, mid⟩, htag, h⟩ := Loop.bind_ok h
  obtain ⟨⟨data, next⟩, hdata, h⟩ := Loop.bind_ok h
  obtain ⟨array', harray, h⟩ := Loop.bind_ok h
  obtain ⟨rfl, -⟩ := Prod.mk.inj (Except.ok.inj h)
  exact typed_sendable (parseBytes_gives (parseTag_good hit htag).1 hdata) harray

theorem multidimItems_gives : Gives multidimItems MultidimArray.Sendable := by
  intro it value it' hit h
  rw [multidimItems_eq] at h
  obtain ⟨⟨dim, mid⟩, hdim, h⟩ := Loop.bind_ok h
  obtain ⟨⟨array, next⟩, harray, h⟩ := Loop.bind_ok h
  obtain ⟨value', hshaped, h⟩ := Loop.bind_ok h
  obtain ⟨rfl, -⟩ := Prod.mk.inj (Except.ok.inj h)
  have hmid := hit.next parseArray2Uint64_reader parseArray2Uint64_reads hdim
  obtain ⟨hsendable, hlen⟩ := parseTypedArray_gives hmid harray
  rw [shaped] at hshaped
  split_ifs at hshaped with helements
  obtain rfl := Except.ok.inj hshaped
  exact ⟨parseArray2Uint64_gives hit hdim, hsendable, (not_not.mp helements).trans hlen⟩

theorem parseMultidimArray_gives : Gives parseMultidimArray MultidimArray.Sendable := by
  intro it value it' hit h
  obtain ⟨⟨tag, mid⟩, htag, h⟩ := Loop.bind_ok h
  obtain ⟨-, h⟩ := Loop.guard_ok h
  exact parseArray_gives multidimItems_gives (parseTag_good hit htag).1 h

end Arrays

section Maps

variable {read : CborValue → Except Stream2Error (α × CborValue)}

theorem parseChannels_gives (h : Gives read P) (hreader : Reader Standing 1 read)
    (hreads : Reads read) : Gives (parseChannels read) (SendableChannels P) := by
  intro it values it' hit hparse
  rw [parseChannels] at hparse
  obtain ⟨htype, hparse⟩ := Loop.guard_ok hparse
  obtain ⟨len, hlen, hparse⟩ := Loop.bind_ok hparse
  obtain ⟨field, henter, hparse⟩ := Loop.bind_ok hparse
  obtain ⟨⟨values', field'⟩, hvalues, hparse⟩ := Loop.bind_ok hparse
  obtain ⟨last, -, hparse⟩ := Loop.bind_ok hparse
  obtain ⟨rfl, -⟩ := Prod.mk.inj (Except.ok.inj hparse)
  have hmap := not_not.mp htype
  obtain ⟨hfield, hfits⟩ := hit.enter (.inr hmap) henter (lift_ok hlen)
  have hentry : ∀ s entry s', Good s → channelEntry read s = .ok (entry, s') →
      (IsText entry.1 ∧ P entry.2) ∧ Good s' := by
    intro s entry s' hs hentry
    refine ⟨?_, hs.next (channelEntry_reader hreader) (channelEntry_reads hreads) hentry⟩
    obtain ⟨⟨channel, mid⟩, hchannel, hentry⟩ := Loop.bind_ok hentry
    obtain ⟨⟨value, next⟩, hvalue, hentry⟩ := Loop.bind_ok hentry
    obtain ⟨rfl, -⟩ := Prod.mk.inj (Except.ok.inj hentry)
    exact ⟨parseTextString_gives hs hchannel,
      h (hs.next parseTextString_reader parseTextString_reads hchannel) hvalue⟩
  obtain ⟨hcount, hall⟩ := Loop.readMany_keeps hentry hfield hvalues
  exact ⟨hcount ▸ hfits.2 hmap, fun v hv => (hall v hv).1, fun v hv => (hall v hv).2⟩

theorem parseChannelNames_gives : Gives parseChannelNames SendableNames := by
  intro it names it' hit hparse
  rw [parseChannelNames] at hparse
  obtain ⟨htype, hparse⟩ := Loop.guard_ok hparse
  obtain ⟨len, hlen, hparse⟩ := Loop.bind_ok hparse
  obtain ⟨elt, henter, hparse⟩ := Loop.bind_ok hparse
  obtain ⟨⟨names', elt'⟩, hnames, hparse⟩ := Loop.bind_ok hparse
  obtain ⟨last, -, hparse⟩ := Loop.bind_ok hparse
  obtain ⟨rfl, -⟩ := Prod.mk.inj (Except.ok.inj hparse)
  obtain ⟨helt, hfits⟩ := hit.enter (.inl (not_not.mp htype)) henter (lift_ok hlen)
  obtain ⟨hcount, hall⟩ := Loop.readMany_keeps (I := Good) (P := IsText)
    (fun s name s' hs hname => ⟨parseTextString_gives hs hname,
      hs.next parseTextString_reader parseTextString_reads hname⟩) helt hnames
  exact ⟨hcount ▸ hfits.1, hall⟩

end Maps

section Entries

variable {verified : Option Text} {slots : List (Slot μ)} {slot : Slot μ} {S : μ → Prop}
  {msg msg' : μ} {e : Bytes × Bytes} {es : List (Bytes × Bytes)} {C : CborValue → Prop}

/-- The value of an entry keeps the property of the message. -/
def Slot.Holds (C : CborValue → Prop) (verified : Option Text) (S : μ → Prop) (slot : Slot μ) :
    Prop :=
  ∀ {msg it v it'}, S msg → C it → Good it → Ready verified slot.key it →
    slot.read (slot.get msg) it = .ok (v, it') → S (slot.put v msg)

theorem Applies.holds (hC : Lasting C) (hslots : ∀ slot ∈ slots, slot.Holds C verified S)
    (h : Applies C verified slots e msg msg') (hit : C it)
    (hbefore : Before it (e.1 :: e.2 :: itemsOf es) t) (hshort : Word it.ptr.length)
    (hmsg : S msg) : S msg' := by
  cases h with
  | unknown _ _ _ => exact hmsg
  | @known slot content item v _ hslot hs hkey hcarries hsettles =>
    have hprimed := hbefore.step.1
    obtain ⟨htype, next, hcopy, hnext⟩ := hbefore.copyString hs (.inl rfl)
    obtain ⟨_, _, -, -, hfollows⟩ := copyString_sound hprimed (.inl htype) hcopy
    obtain ⟨value, hvalue, hready, hplace, hrest⟩ := hcarries hnext
    have hvalueC := hC.place (hC.follows hit hprimed hfollows) hplace
    obtain ⟨it', hread, -⟩ := hsettles.before hC hvalueC hrest
    have hgood : Good value := by
      refine ⟨.inl hready.primed, Nat.lt_of_le_of_lt (skipTags_length hvalue) ?_⟩
      exact Nat.lt_of_le_of_lt (copyString_moves hcopy).1 hshort
    exact hslots slot hslot hmsg hvalueC hgood hready hread

/-- What every entry keeps, the message has at the end. -/
theorem Runs.holds (hC : Lasting C) (htable : Table verified slots)
    (hreads : ∀ key msg, Reads (dispatch slots key msg))
    (hslots : ∀ slot ∈ slots, slot.Holds C verified S) (h : Runs C verified slots msg es msg')
    (hit : C it) (hbefore : Before it (itemsOf es) t) (hshort : Word it.ptr.length)
    (hmsg : S msg) : S msg' := by
  induction h generalizing it with
  | nil _ => exact hmsg
  | @cons e es msg mid msg' happlies _ ih =>
    obtain ⟨next, hentry, hnextC, hnext⟩ := happlies.parseEntry hC htable hit hbefore
    have hvalid : it.isValid = true := by
      rw [CborValue.isValid, bne_iff_ne]
      exact primed_valid hbefore.step.1
    have hlt := (parseEntry_decreasing hreads).decreases (msg, it) (mid, next)
      hbefore.standing.fresh hvalid hentry
    exact ih hnextC hnext (Nat.lt_trans hlt hshort)
      (happlies.holds hC hslots hit hbefore hshort hmsg)

theorem Slot.holds_of {key : Text} {read : CborValue → Except Stream2Error (α × CborValue)}
    {put : α → μ → μ} (h : Gives read P) (hput : ∀ {msg v}, S msg → P v → S (put v msg)) :
    (Slot.of key read put).Holds C verified S :=
  fun hmsg _ hit _ hread => hput hmsg (h hit hread)

theorem parseMap_keeps (hslots : ∀ slot ∈ slots, Stream2Arrays.Keeps S slot) (hmsg : S msg)
    (h : parseMap (dispatch slots) msg it = .ok (msg', it')) : S msg' := by
  obtain ⟨-, h⟩ := Loop.guard_ok h
  obtain ⟨elt, -, h⟩ := Loop.bind_ok h
  obtain ⟨⟨mid, last⟩, hentries, h⟩ := Loop.bind_ok h
  obtain ⟨next, -, h⟩ := Loop.bind_ok h
  obtain ⟨rfl, -⟩ := Prod.mk.inj (Except.ok.inj h)
  exact Stream2Arrays.parseEntries_all hslots hmsg hentries

end Entries

section Fields

theorem parseGoniometerAxis_sendable {axis axis' : GoniometerAxis} (haxis : axis.Sendable)
    (h : parseGoniometerAxis axis it = .ok (axis', it')) : axis'.Sendable := by
  refine parseMap_keeps (?_ : ∀ slot ∈ axisSlots, _) haxis h
  refine List.forall_mem_cons.mpr ⟨fun _ _ _ _ hs hv => ⟨parseDouble_lt hv, hs.2⟩, ?_⟩
  exact List.forall_mem_singleton.mpr fun _ _ _ _ hs hv => ⟨hs.1, parseDouble_lt hv⟩

theorem parseGoniometer_sendable {g g' : Goniometer} (hg : g.Sendable)
    (h : parseGoniometer g it = .ok (g', it')) : g'.Sendable := by
  refine parseMap_keeps (?_ : ∀ slot ∈ goniometerSlots, _) hg h
  simp only [goniometerSlots, List.forall_mem_cons]
  exact ⟨fun _ _ _ _ hs hv => { hs with chi := parseGoniometerAxis_sendable hs.chi hv },
    fun _ _ _ _ hs hv => { hs with kappa := parseGoniometerAxis_sendable hs.kappa hv },
    fun _ _ _ _ hs hv => { hs with omega := parseGoniometerAxis_sendable hs.omega hv },
    fun _ _ _ _ hs hv => { hs with phi := parseGoniometerAxis_sendable hs.phi hv },
    fun _ _ _ _ hs hv => { hs with twoTheta := parseGoniometerAxis_sendable hs.twoTheta hv },
    List.forall_mem_nil _⟩

theorem untagged_of_type (hit : Primed it) (htag : it.type ≠ CborTagType)
    (hptr : it.ptr = b ++ t) : Untagged b := by
  intro byte hbyte hmajor
  obtain ⟨u, rfl⟩ := List.head?_eq_some_iff.mp hbyte
  have htype := primed_type (p := fun _ => True) hit.read
    ⟨byte, u, rfl, hmajor, trivial⟩ hptr (by decide)
  exact htag htype

/-- In a map of known length the value ends where the cursor is then. -/
theorem parseUserData_sendable {data : Bytes} (hcounted : Counted it) (hit : Primed it)
    (htag : it.type ≠ CborTagType) (h : parseUserData it = .ok (data, it')) :
    SendableUserData data := by
  obtain ⟨next, hnext, h⟩ := Loop.bind_ok h
  obtain ⟨rfl, rfl⟩ := Prod.mk.inj (Except.ok.inj h)
  obtain ⟨b, t, hptr, hb, hfollows⟩ := advance_sound hit htag (lift_ok hnext)
  have hbytes : it.ptr.take (it.ptr.length - next.ptr.length) = b := by
    rw [(hcounted.follows hit hfollows).2, hptr, List.length_append, Nat.add_sub_cancel,
      List.take_left]
  rw [hbytes]
  exact .inr ⟨hb, untagged_of_type hit htag hptr⟩

theorem parseBool_gives : Gives parseBool fun _ => True := fun _ _ => trivial

theorem isText_some {text : Text} (h : IsText text) : ∀ text' ∈ some text, IsText text' := by
  intro text' htext
  obtain rfl := Option.some.inj htext
  exact h

theorem imageSlots_hold : ∀ slot ∈ imageSlots, slot.Holds Counted none ImageMsg.Sendable := by
  simp only [imageSlots, List.forall_mem_cons]
  exact ⟨Slot.holds_of parseUint64_gives fun hs hv => { hs with seriesId := hv },
    Slot.holds_of parseTextString_gives fun hs hv => { hs with seriesUniqueId := isText_some hv },
    Slot.holds_of parseUint64_gives fun hs hv => { hs with imageId := hv },
    Slot.holds_of parseArray2Uint64_gives fun hs hv => { hs with realTime := hv },
    Slot.holds_of parseTextString_gives fun hs hv => { hs with seriesDate := isText_some hv },
    Slot.holds_of parseArray2Uint64_gives fun hs hv => { hs with startTime := hv },
    Slot.holds_of parseArray2Uint64_gives fun hs hv => { hs with stopTime := hv },
    fun hs hcounted _ hready hread => { hs with
      userData :=
        parseUserData_sendable hcounted hready.primed (hready.untagged (by decide)) hread },
    Slot.holds_of (parseChannels_gives parseMultidimArray_gives parseMultidimArray_reader
      parseMultidimArray_reads) fun hs hv => { hs with data := hv },
    List.forall_mem_nil _⟩

theorem endSlots_hold : ∀ slot ∈ endSlots, slot.Holds Counted none EndMsg.Sendable := by
  simp only [endSlots, List.forall_mem_cons]
  exact ⟨Slot.holds_of parseUint64_gives fun hs hv => { hs with seriesId := hv },
    Slot.holds_of parseTextString_gives fun hs hv => { hs with seriesUniqueId := isText_some hv },
    List.forall_mem_nil _⟩

theorem startSlots_hold : ∀ slot ∈ startSlots,
    slot.Holds Counted (some LOOKUP_TABLE) StartMsg.Sendable := by
  simp only [startSlots, List.forall_mem_cons]
  exact ⟨Slot.holds_of parseUint64_gives fun hs hv => { hs with seriesId := hv },
    Slot.holds_of parseTextString_gives fun hs hv => { hs with seriesUniqueId := isText_some hv },
    Slot.holds_of parseTextString_gives fun hs hv => { hs with armDate := isText_some hv },
    Slot.holds_of parseDouble_gives fun hs hv => { hs with beamCenterX := hv },
    Slot.holds_of parseDouble_gives fun hs hv => { hs with beamCenterY := hv },
    Slot.holds_of parseChannelNames_gives fun hs hv => { hs with channels := hv },
    Slot.holds_of parseDouble_gives fun hs hv => { hs with countTime := hv },
    Slot.holds_of parseBool_gives fun hs _ => { hs with },
    Slot.holds_of parseTypedArray_gives fun hs hv => { hs with
      countrateCorrectionLookupTable := .inr hv.1 },
    Slot.holds_of parseTextString_gives fun hs hv => { hs with
      detectorDescription := isText_some hv },
    Slot.holds_of parseTextString_gives fun hs hv => { hs with
      detectorSerialNumber := isText_some hv },
    Slot.holds_of parseTranslation_gives fun hs hv => { hs with detectorTranslation := hv },
    Slot.holds_of (parseChannels_gives parseMultidimArray_gives parseMultidimArray_reader
      parseMultidimArray_reads) fun hs hv => { hs with flatfield := hv },
    Slot.holds_of parseBool_gives fun hs _ => { hs with },
    Slot.holds_of parseDouble_gives fun hs hv => { hs with frameTime := hv },
    fun hs _ _ _ hread => { hs with goniometer := parseGoniometer_sendable hs.goniometer hread },
    Slot.holds_of parseTextString_gives fun hs hv => { hs with imageDtype := isText_some hv },
    Slot.holds_of parseUint64_gives fun hs hv => { hs with imageSizeX := hv },
    Slot.holds_of parseUint64_gives fun hs hv => { hs with imageSizeY := hv },
    Slot.holds_of parseDouble_gives fun hs hv => { hs with incidentEnergy := hv },
    Slot.holds_of parseDouble_gives fun hs hv => { hs with incidentWavelength := hv },
    Slot.holds_of parseUint64_gives fun hs hv => { hs with numberOfImages := hv },
    Slot.holds_of (parseChannels_gives parseMultidimArray_gives parseMultidimArray_reader
      parseMultidimArray_reads) fun hs hv => { hs with pixelMask := hv },
    Slot.holds_of parseBool_gives fun hs _ => { hs with },
    Slot.holds_of parseDouble_gives fun hs hv => { hs with pixelSizeX := hv },
    Slot.holds_of parseDouble_gives fun hs hv => { hs with pixelSizeY := hv },
    Slot.holds_of parseUint64_gives fun hs hv => { hs with saturationValue := hv },
    Slot.holds_of parseTextString_gives fun hs hv => { hs with sensorMaterial := isText_some hv },
    Slot.holds_of parseDouble_gives fun hs hv => { hs with sensorThickness := hv },
    Slot.holds_of (parseChannels_gives parseDouble_gives parseDouble_reader
      parseDouble_reads) fun hs hv => { hs with thresholdEnergy := hv },
    fun hs hcounted _ hready hread => { hs with
      userData :=
        parseUserData_sendable hcounted hready.primed (hready.untagged (by decide)) hread },
    Slot.holds_of parseBool_gives fun hs _ => { hs with },
    List.forall_mem_nil _⟩

end Fields

section Messages

variable {e : Bytes × Bytes} {es : List (Bytes × Bytes)} {msg : Msg} {type : Text}
  {last : CborValue} {fits : UInt8 → ℕ → Prop} {map rest : Bytes} {bs : List Bytes}

theorem startMsg_unset : ({} : StartMsg).Sendable := by
  have haxis : ({} : GoniometerAxis).Sendable := ⟨by decide, by decide⟩
  have hempty : ∀ {α : Type} {P : α → Prop}, SendableChannels P [] := fun {α P} =>
    ⟨Nat.zero_le _, List.forall_mem_nil _, List.forall_mem_nil _⟩
  have hzero : Word 0 := by decide
  have hnone : ∀ text ∈ (none : Option Text), IsText text := fun text h => by cases h
  exact
    { seriesId := hzero, seriesUniqueId := hnone, armDate := hnone, beamCenterX := hzero
      beamCenterY := hzero, channels := ⟨by decide, List.forall_mem_nil _⟩, countTime := hzero
      countrateCorrectionLookupTable := .inl rfl, detectorDescription := hnone
      detectorSerialNumber := hnone, detectorTranslation := ⟨rfl, by decide⟩
      flatfield := hempty, frameTime := hzero
      goniometer := ⟨haxis, haxis, haxis, haxis, haxis⟩, imageDtype := hnone
      imageSizeX := hzero, imageSizeY := hzero, incidentEnergy := hzero
      incidentWavelength := hzero, numberOfImages := hzero, pixelMask := hempty
      pixelSizeX := hzero, pixelSizeY := hzero, saturationValue := hzero
      sensorMaterial := hnone, sensorThickness := hzero, thresholdEnergy := hempty
      userData := .inl rfl }

theorem imageMsg_unset : ({} : ImageMsg).Sendable := by
  have hzero : Word 0 := by decide
  have hnone : ∀ text ∈ (none : Option Text), IsText text := fun text h => by cases h
  exact ⟨hzero, hnone, hzero, ⟨hzero, hzero⟩, hnone, ⟨hzero, hzero⟩, ⟨hzero, hzero⟩, .inl rfl,
    Nat.zero_le _, List.forall_mem_nil _, List.forall_mem_nil _⟩

theorem endMsg_unset : ({} : EndMsg).Sendable := ⟨by decide, fun text h => by cases h⟩

theorem parseFields_sendable (hwf : ∀ item ∈ itemsOf es, WellFormed item) (hit : Counted it)
    (hbefore : Before it (itemsOf es) t) (hshort : Word it.ptr.length)
    (h : parseFields type it = .ok (msg, last)) : msg.Sendable := by
  rw [parseFields] at h
  split_ifs at h
  all_goals
    obtain ⟨⟨fields, last⟩, hloop, h⟩ := Loop.bind_ok h
    obtain ⟨rfl, rfl⟩ := Prod.mk.inj (Except.ok.inj h)
  · have hruns := runs_of_parseEntries counted_lasting startTable start_settled startField_reads hwf
      hit hbefore hloop
    have hfields : fields.Sendable := hruns.holds counted_lasting startTable startField_reads
      startSlots_hold hit hbefore hshort startMsg_unset
    exact hfields
  · have hruns := runs_of_parseEntries counted_lasting imageTable image_settled imageField_reads hwf
      hit hbefore hloop
    have hfields : fields.Sendable := hruns.holds counted_lasting imageTable imageField_reads
      imageSlots_hold hit hbefore hshort imageMsg_unset
    exact hfields
  · have hruns := runs_of_parseEntries counted_lasting endTable end_settled endField_reads hwf
      hit hbefore hloop
    have hfields : fields.Sendable := hruns.holds counted_lasting endTable endField_reads
      endSlots_hold hit hbefore hshort endMsg_unset
    exact hfields

/-- In a map of known length the items are all that is before what follows. -/
theorem before_bytes (h : Before it bs t) (hcounted : Counted it) : it.ptr = bs.flatten ++ t := by
  induction bs generalizing it with
  | nil => exact (before_nil_iff.mp h).2
  | cons b bs ih =>
    obtain ⟨hprimed, u, hptr, ⟨next, hnext⟩, hstep⟩ := h.step
    obtain ⟨hcounted', hu⟩ := hcounted.follows hprimed hnext
    rw [hptr, ← hu, ih (hstep next hnext) hcounted', List.flatten_cons, List.append_assoc]

/-- A message that is accepted can be written in the form of the encoder, whatever form it had, and
from there it is read as the same message. -/
theorem accepted_normal (hmap : Definite fits (e :: es) map)
    (hwf : ∀ item ∈ itemsOf (e :: es), WellFormed item) (hlen : Word (map ++ rest).length)
    (hparse : stream2ParseMsg (MAGIC ++ (map ++ rest)) = .ok msg) :
    msg.Sendable ∧ ∀ rest', stream2ParseMsg (msg.encode ++ rest') = .ok msg := by
  obtain ⟨x, type, entries, last, -, -, -, -, hcounted, hentries, hfields⟩ :=
    accepted_entries hmap hwf hparse
  obtain ⟨-, hwfs⟩ := List.forall_mem_append.mp (itemsOf_cons e es ▸ hwf)
  have hshort : Word entries.ptr.length := by
    refine Nat.lt_of_le_of_lt ?_ hlen
    rw [before_bytes hentries hcounted]
    cases hmap with
    | mk _ _ =>
      rw [itemsOf_cons]
      simp only [List.flatten_append, List.length_append]
      omega
  have hsendable := parseFields_sendable hwfs hcounted hentries hshort hfields
  exact ⟨hsendable, fun rest' => parse_entries hsendable rest'⟩

/-- The image goes before the series here, which the encoder writes after it. -/
theorem accepted_normal_image : (Msg.image { seriesId := 2, imageId := 1 }).Sendable ∧
    ∀ rest', stream2ParseMsg ((Msg.image { seriesId := 2, imageId := 1 }).encode ++ rest') =
      .ok (.image { seriesId := 2, imageId := 1 }) := by
  have hmap : Definite (fun _ _ => True) [imageType, imageIdEntry, seriesIdEntry] ([0xa3] ++ _) :=
    .mk (.of rfl rfl (by decide) rfl) trivial
  have hparse := fields_accepted
  exact accepted_normal hmap fields_wellFormed (by decide +kernel) hparse

end Messages

end Stream2
