import ADEiger.Stream2Encode

/-! That the messages of the second stream interface are read as they were sent.
The entries of a message are followed one by one; each puts its value into the message that is
being built. -/
namespace Stream2

open CString (Text)
open TinyCbor
open Cbor (Head Str Encloses Item WellFormed encodeHead encodeArray encodeMap encodeTag encodeBool
  encodeDouble)
open Loop (readMany)

variable {α μ : Type} {b t : Bytes} {v : α} {n : ℕ}

section Entries

variable {it : CborValue} {P : CborValue → Prop} {verified : Option Text} {slots : List (Slot μ)}
  {msg msg' mid : μ} {key : String} {item : Bytes} {es es' : List (Bytes × Bytes)}
  {ess : List (List (Bytes × Bytes))} {read : CborValue → Except Stream2Error (α × CborValue)}

/-- A reader settles what it reads back. -/
theorem Reader.settles_back (h : Reader Standing 1 read) (hb : WellFormed b)
    (hback : ReadsBack read [b] v) : Settles P read b v :=
  Settles.of_yields hback.yields hb fun hbefore => h.takes hbefore.standing

/-- A key of the messages: it is short, and a text. -/
def IsKey (key : Text) : Prop :=
  (∀ c ∈ key, c.toNat < 256) ∧ CString.NUL ∉ key ∧ key.length < MAX_KEY_LEN

instance (key : Text) : Decidable (IsKey key) := inferInstanceAs (Decidable (_ ∧ _ ∧ _))

variable {text : Text}

theorem IsKey.isText (h : IsKey text) : IsText text :=
  ⟨h.1, h.2.1, Nat.lt_trans h.2.2 (by decide)⟩

theorem IsKey.keyText (h : IsKey text) : keyText (ascii text) = text := by
  have hshort : (ascii text).length < MAX_KEY_LEN := by
    rw [ascii, List.length_map]
    exact h.2.2
  rw [Stream2.keyText, if_pos hshort, cstring_ascii h.isText]

theorem untagged_of_begins {m : UInt8} {p : ℕ → Prop} (h : Cbor.Begins m p b)
    (hm : m ≠ Cbor.tag) : Untagged b := by
  obtain ⟨byte, u, rfl, rfl, -⟩ := h
  rintro byte' hbyte
  obtain rfl := Option.some.inj hbyte
  exact hm

theorem Untagged.type {rest : List Bytes} (h : Untagged b) (hb : WellFormed b)
    (hbefore : Before it (b :: rest) t) : it.type ≠ CborTagType := by
  intro htype
  obtain ⟨hprimed, u, hptr, -⟩ := hbefore.step
  obtain ⟨d, hitem⟩ := hb
  obtain ⟨byte, v, hbytes, hmajor, -⟩ := begins_type hprimed hitem hptr (.inr htype)
  refine h byte ?_ (hmajor.trans htype)
  rw [hbytes]
  rfl

/-- A value that is not tagged stands behind its key, and so does every value whose tags are
looked at. -/
theorem carries_item (hb : WellFormed item) (htag : verified = some text ∨ Untagged item) :
    Carries verified text item item := by
  intro it rest t hbefore
  by_cases hkey : verified = some text
  · exact ⟨it, if_pos hkey, ⟨hbefore.step.1, fun hne => absurd hkey hne⟩, rfl, hbefore⟩
  · have hnot := (htag.resolve_left hkey).type hb hbefore
    refine ⟨it, ?_, ⟨hbefore.step.1, fun _ => hnot⟩, rfl, hbefore⟩
    have hskip : skipTag it = .ok it := by
      rw [skipTag_eq, if_neg]
      exact fun h => hnot (isTag_iff.mp h)
    rw [skipTags, if_neg hkey, hskip]
    rfl

/-- What the entries put into a message; they are well formed. -/
structure Writes (P : CborValue → Prop) (verified : Option Text) (slots : List (Slot μ)) (msg : μ)
    (es : List (Bytes × Bytes)) (msg' : μ) : Prop where
  runs : Runs P verified slots msg es msg'
  keyed : TextKeyed es

theorem Writes.nil (msg : μ) : Writes P verified slots msg [] msg :=
  ⟨.nil msg, fun _ he => absurd he List.not_mem_nil⟩

theorem Writes.append (h : Writes P verified slots msg es mid)
    (h' : Writes P verified slots mid es' msg') :
    Writes P verified slots msg (es ++ es') msg' :=
  ⟨h.runs.append h'.runs, h.keyed.append h'.keyed⟩

theorem Writes.entry {e : Bytes × Bytes} (h : Writes P verified slots msg [e] mid)
    (h' : Writes P verified slots mid es msg') : Writes P verified slots msg (e :: es) msg' :=
  h.append h'

theorem Writes.flatten (h : Writes P verified slots msg es mid)
    (h' : Writes P verified slots mid ess.flatten msg') :
    Writes P verified slots msg (es :: ess).flatten msg' := by
  rw [List.flatten_cons]
  exact h.append h'

theorem writes_entry (slot : Slot μ) {w : slot.Value} (hslot : slot ∈ slots)
    (hkey : slot.key = key.toList) (hk : IsKey key.toList) (hb : WellFormed item)
    (htag : verified = some key.toList ∨ Untagged item)
    (hs : Settles P (slot.read (slot.get msg)) item w) :
    Writes P verified slots msg [entry key item] (slot.put w msg) := by
  have hstr := encodeTextString_str hk.isText
  refine ⟨.cons (.known hslot hstr ?_ ?_ hs) (.nil _), ?_⟩
  · rw [hk.keyText, hkey]
  · rw [hkey]
    exact carries_item hb htag
  · exact List.forall_mem_singleton.mpr ⟨⟨_, hstr⟩, hb⟩

end Entries

section Fields

variable {P : CborValue → Prop} {verified : Option Text} {slots : List (Slot μ)} {msg : μ}
  {key : String} {i : ℕ}

theorem writes_of {read : CborValue → Except Stream2Error (α × CborValue)} {f : α → μ → μ}
    (h : Reader Standing 1 read) (hslot : slots[i]? = some (.of key.toList read f))
    (hk : IsKey key.toList) (hback : ReadsBack read [b] v) (hb : WellFormed b)
    (htag : verified = some key.toList ∨ Untagged b) :
    Writes P verified slots msg [entry key b] (f v msg) :=
  writes_entry (.of key.toList read f) (List.mem_of_getElem? hslot) rfl hk hb htag
    (h.settles_back hb hback)

theorem writes_uint64 {put : ℕ → μ → μ} (hn : Word n)
    (hslot : slots[i]? = some (.of key.toList parseUint64 put)) (hk : IsKey key.toList) :
    Writes P verified slots msg [entry key (encodeUint64 n)] (put n msg) := by
  refine writes_of parseUint64_reader hslot hk (parseUint64_back hn) (encodeUint64_wellFormed hn)
    (.inr ?_)
  exact untagged_of_begins (encodeUint64_head hn).begins (by decide)

theorem writes_double {put : ℕ → μ → μ} (hn : Word n)
    (hslot : slots[i]? = some (.of key.toList parseDouble put)) (hk : IsKey key.toList) :
    Writes P verified slots msg [entry key (encodeDouble n)] (put n msg) := by
  refine writes_of parseDouble_reader hslot hk (parseDouble_back hn) (encodeDouble_wellFormed hn)
    (.inr ?_)
  exact untagged_of_begins (Cbor.encodeDouble_head hn).begins (by decide)

theorem writes_bool {put : Bool → μ → μ} (v : Bool)
    (hslot : slots[i]? = some (.of key.toList parseBool put)) (hk : IsKey key.toList) :
    Writes P verified slots msg [entry key (encodeBool v)] (put v msg) := by
  have hh : ∃ n, Head Cbor.simpleOrFloat n (encodeBool v) := by
    cases v <;> exact ⟨_, .of rfl rfl (by decide) rfl⟩
  obtain ⟨n, hh⟩ := hh
  refine writes_of parseBool_reader hslot hk (parseBool_back v) ⟨0, .simple hh fun hlen => ?_⟩
    (.inr (untagged_of_begins hh.begins (by decide)))
  cases hlen

/-- Not every field is sent. -/
theorem writes_optional {o : Option α} {encode : α → Bytes} {msg' : μ}
    (hnone : o = none → msg' = msg)
    (hsome : ∀ v, o = some v → Writes P verified slots msg [entry key (encode v)] msg') :
    Writes P verified slots msg (optional key (o.map encode)) msg' := by
  cases o with
  | none =>
    rw [hnone rfl]
    exact .nil msg
  | some v => exact hsome v rfl

theorem writes_text {o : Option Text} (ho : ∀ text ∈ o, IsText text) (set : Option Text → μ → μ)
    (hnone : set none msg = msg)
    (hslot : slots[i]? = some (.of key.toList parseTextString fun text => set (some text)))
    (hk : IsKey key.toList) :
    Writes P verified slots msg (optional key (o.map encodeTextString)) (set o msg) := by
  refine writes_optional (fun h => h ▸ hnone) fun text htext => ?_
  have hisText := ho text htext
  have hs := encodeTextString_str hisText
  rw [htext]
  exact writes_of (f := fun text => set (some text)) parseTextString_reader hslot hk
    (parseTextString_back hisText) (encodeTextString_wellFormed hisText)
    (.inr (untagged_of_begins hs.begins (by decide)))

/-- An array or a map begins with its length. -/
theorem container_untagged {m : UInt8} {items : List Bytes} (hm : m = Cbor.array ∨ m = Cbor.map)
    (hn : n < 2 ^ 64) : Untagged (encodeHead m n ++ items.flatten) := by
  rcases hm with rfl | rfl
  · exact untagged_of_begins ((Cbor.encodeHead_head (by decide) hn).begins.append _) (by decide)
  · exact untagged_of_begins ((Cbor.encodeHead_head (by decide) hn).begins.append _) (by decide)

theorem entries_untagged {entries : List (Bytes × Bytes)} (h : entries.length ≤ UINT32_MAX / 2) :
    Untagged (encodeEntries entries) := by
  rw [encodeEntries_eq]
  exact container_untagged (.inr rfl) (Nat.lt_of_le_of_lt h (by decide))

theorem writes_array2 {put : ℕ × ℕ → μ → μ} {v : ℕ × ℕ} (hv : Word v.1 ∧ Word v.2)
    (hslot : slots[i]? = some (.of key.toList parseArray2Uint64 put)) (hk : IsKey key.toList) :
    Writes P verified slots msg [entry key (encodeArray2Uint64 v)] (put v msg) :=
  writes_of parseArray2Uint64_reader hslot hk (parseArray2Uint64_back hv)
    (encodeArray2Uint64_wellFormed hv)
    (.inr (container_untagged (.inl rfl) (by decide : 2 < 2 ^ 64)))

theorem writes_names {put : List Text → μ → μ} {names : List Text} (h : SendableNames names)
    (hslot : slots[i]? = some (.of key.toList parseChannelNames put)) (hk : IsKey key.toList) :
    Writes P verified slots msg [entry key (encodeChannelNames names)] (put names msg) := by
  have hlen : (names.map encodeTextString).length < UINT32_MAX := by
    rw [List.length_map]
    exact h.count
  refine writes_of parseChannelNames_reader hslot hk (parseChannelNames_back h)
    (encodeArray_wellFormed hlen ?_) (.inr (container_untagged (.inl rfl)
      (Nat.lt_trans hlen (by decide))))
  exact List.forall_mem_map.mpr fun name hname => encodeTextString_wellFormed (h.name name hname)

theorem writes_channels {Q : α → Prop} {encode : α → Bytes} {values : List (Text × α)}
    {read : CborValue → Except Stream2Error (α × CborValue)} {put : List (Text × α) → μ → μ}
    (hreader : Reader Standing 1 read)
    (hread : ∀ {v}, Q v → ReadsBack read [encode v] v ∧ WellFormed (encode v))
    (h : SendableChannels Q values)
    (hslot : slots[i]? = some (.of key.toList (parseChannels read) put))
    (hk : IsKey key.toList) :
    Writes P verified slots msg [entry key (encodeChannels encode values)] (put values msg) :=
  writes_of (parseChannels_reader hreader) hslot hk (parseChannels_back h hread)
    (encodeEntries_wellFormed (channels_count encode h) (channels_keyed h fun hv => (hread hv).2))
    (.inr (entries_untagged (channels_count encode h)))

theorem writes_translation {put : List ℕ → μ → μ} {values : List ℕ}
    (h : values.length = 3 ∧ ∀ bits ∈ values, Word bits)
    (hslot : slots[i]? = some (.of key.toList parseTranslation put)) (hk : IsKey key.toList) :
    Writes P verified slots msg [entry key (encodeArray (values.map encodeDouble))]
      (put values msg) := by
  obtain ⟨hlen, hbits⟩ := h
  have hcount : (values.map encodeDouble).length = 3 := (List.length_map _).trans hlen
  have hmax : (values.map encodeDouble).length < UINT32_MAX := by
    rw [hcount]
    decide
  have hwf : ∀ item ∈ values.map encodeDouble, WellFormed item :=
    List.forall_mem_map.mpr fun bits hmem => encodeDouble_wellFormed (hbits bits hmem)
  have hmany := ReadsBack.many (f := fun bits => [encodeDouble bits]) values
    fun bits hmem => parseDouble_back (hbits bits hmem)
  rw [← List.flatMap_def, ← List.map_eq_flatMap, hlen] at hmany
  exact writes_of parseTranslation_reader hslot hk (parseArray_back hcount (by decide) hwf hmany)
    (encodeArray_wellFormed hmax hwf)
    (.inr (container_untagged (.inl rfl) (Nat.lt_trans hmax (by decide))))

/-- Where the length of the map is known, the data of the user are the bytes of their item. -/
theorem writes_userData {put : Bytes → μ → μ} {data : Bytes} (h : SendableUserData data)
    (hnone : put [] msg = msg)
    (hslot : slots[i]? = some (.of key.toList parseUserData put)) (hk : IsKey key.toList) :
    Writes Counted verified slots msg (optional key (if data = [] then none else some data))
      (put data msg) := by
  split_ifs with hdata
  · rw [hdata, hnone]
    exact .nil msg
  · obtain ⟨hitem, huntagged⟩ := h.resolve_left hdata
    refine writes_entry (.of key.toList parseUserData put) (List.mem_of_getElem? hslot) rfl
      hk hitem.wellFormed (.inr huntagged) ?_
    intro it rest t hcounted hbefore
    have htag := huntagged.type hitem.wellFormed hbefore
    obtain ⟨hprimed, u, hptr, ⟨next, hnext⟩, -⟩ := hbefore.step
    obtain ⟨moved, hmoved, hfollows⟩ := advance_complete hitem hprimed hptr htag hnext
    refine ⟨moved, u, ?_, hptr, hfollows⟩
    have hbytes : it.ptr.take (it.ptr.length - moved.ptr.length) = data := by
      rw [(hcounted.follows hprimed hfollows).2, hptr, List.length_append, Nat.add_sub_cancel,
        List.take_left]
    show parseUserData it = .ok (data, moved)
    rw [parseUserData, hmoved]
    exact congrArg (fun data => Except.ok (data, moved)) hbytes

/-- The table is the one value whose tag is looked at. -/
theorem writes_table {table : TypedArray} (h : table = noTable ∨ table.Sendable)
    (set : TypedArray → μ → μ) (hnone : set noTable msg = msg)
    (hslot : slots[i]? = some (.of key.toList parseTypedArray fun v => set v.1))
    (hk : IsKey key.toList) :
    Writes P (some key.toList) slots msg
      (optional key (if table = noTable then none else some table.encode)) (set table msg) := by
  split_ifs with htable
  · rw [htable, hnone]
    exact .nil msg
  · have hsend := h.resolve_left htable
    exact writes_of (f := fun v => set v.1) parseTypedArray_reader hslot hk
      (parseTypedArray_back hsend) hsend.wellFormed (.inl rfl)

end Fields

section Goniometers

variable {slots : List (Slot μ)} {msg msg' : μ} {es : List (Bytes × Bytes)}

theorem parseMap_back (htable : Table none slots)
    (hreads : ∀ key msg, Reads (dispatch slots key msg))
    (h : Writes Anywhere none slots msg es msg') (hcount : es.length ≤ UINT32_MAX / 2) :
    ReadsBack (parseMap (dispatch slots) msg) [encodeEntries es] msg' := by
  constructor
  intro it rest t hbefore
  have he := (encodeEntries_definite hcount).encloses
  obtain ⟨-, htype, u, elt, -, henter, hentries, hleave⟩ :=
    Before.enter hbefore (.inr rfl) he h.keyed.wellFormed
  obtain ⟨last, hread, hlast⟩ := h.runs.parseEntries anywhere_lasting htable hreads trivial hentries
  obtain ⟨hended, hptr⟩ := before_nil_iff.mp hlast
  obtain ⟨moved, hmoved, hafter⟩ := hleave last hended hptr
  have htype' : it.type = CborMapType := htype
  refine ⟨moved, ?_, hafter⟩
  rw [parseMap, if_neg (not_not.mpr htype'), henter]
  show (parseEntries none (dispatch slots) msg elt >>= _) = _
  rw [hread, Loop.ok_bind]
  dsimp only
  rw [hmoved]
  rfl

variable {axis : GoniometerAxis} {g : Goniometer}

theorem axis_writes (h : axis.Sendable) (start : GoniometerAxis) :
    Writes Anywhere none axisSlots start axis.entries axis := by
  refine .entry (writes_double (i := 0) h.1 rfl (by decide)) ?_
  refine .entry (writes_double (i := 1) h.2 rfl (by decide)) ?_
  exact .nil axis

theorem GoniometerAxis.Sendable.wellFormed (h : axis.Sendable) : WellFormed axis.encode :=
  encodeEntries_wellFormed (by decide : 2 ≤ UINT32_MAX / 2) (axis_writes h {}).keyed

theorem parseGoniometerAxis_settles_back (h : axis.Sendable) (start : GoniometerAxis) :
    Settles Anywhere (parseGoniometerAxis start) axis.encode axis := by
  have hback : ReadsBack (parseGoniometerAxis start) [axis.encode] axis :=
    parseMap_back axisTable axis_reads (axis_writes h start) (by decide : 2 ≤ UINT32_MAX / 2)
  intro it rest t hany hbefore
  obtain ⟨it', hread, -⟩ := hback.yields hbefore
  exact parseGoniometerAxis_settles h.wellFormed hbefore hread hany hbefore

theorem writes_axis {key : String} {i : ℕ} {get : Goniometer → GoniometerAxis}
    {put : GoniometerAxis → Goniometer → Goniometer} (h : axis.Sendable)
    (hslot : goniometerSlots[i]? = some ⟨key.toList, GoniometerAxis, GoniometerAxis, get,
      parseGoniometerAxis, put⟩) (hk : IsKey key.toList) :
    Writes Anywhere none goniometerSlots g [entry key axis.encode] (put axis g) :=
  writes_entry ⟨key.toList, GoniometerAxis, GoniometerAxis, get, parseGoniometerAxis, put⟩
    (List.mem_of_getElem? hslot) rfl hk h.wellFormed
    (.inr (entries_untagged (by decide : 2 ≤ UINT32_MAX / 2)))
    (parseGoniometerAxis_settles_back h (get g))

theorem goniometer_writes (h : g.Sendable) (start : Goniometer) :
    Writes Anywhere none goniometerSlots start g.entries g := by
  refine .entry (writes_axis (i := 0) h.chi rfl (by decide)) ?_
  refine .entry (writes_axis (i := 1) h.kappa rfl (by decide)) ?_
  refine .entry (writes_axis (i := 2) h.omega rfl (by decide)) ?_
  refine .entry (writes_axis (i := 3) h.phi rfl (by decide)) ?_
  refine .entry (writes_axis (i := 4) h.twoTheta rfl (by decide)) ?_
  exact .nil g

theorem Goniometer.Sendable.wellFormed (h : g.Sendable) : WellFormed g.encode :=
  encodeEntries_wellFormed (by decide : 5 ≤ UINT32_MAX / 2) (goniometer_writes h {}).keyed

theorem writes_goniometer {key : String} {i : ℕ} {get : μ → Goniometer} {put : Goniometer → μ → μ}
    {verified : Option Text} (h : g.Sendable)
    (hslot : slots[i]? = some ⟨key.toList, Goniometer, Goniometer, get, parseGoniometer, put⟩)
    (hk : IsKey key.toList) :
    Writes Counted verified slots msg [entry key g.encode] (put g msg) := by
  have hback : ReadsBack (parseGoniometer (get msg)) [g.encode] g :=
    parseMap_back goniometerTable goniometer_reads (goniometer_writes h (get msg))
      (by decide : 5 ≤ UINT32_MAX / 2)
  refine writes_entry ⟨key.toList, Goniometer, Goniometer, get, parseGoniometer, put⟩
    (List.mem_of_getElem? hslot) rfl hk h.wellFormed
    (.inr (entries_untagged (by decide : 5 ≤ UINT32_MAX / 2))) ?_
  intro it rest t hcounted hbefore
  obtain ⟨it', hread, -⟩ := hback.yields hbefore
  exact parseGoniometer_settles h.wellFormed hbefore hread hcounted hbefore

end Goniometers

section Messages

variable {msg : Msg} {rest : Bytes}

theorem end_writes {msg : EndMsg} (h : msg.Sendable) :
    Writes Counted none endSlots {} msg.entries msg := by
  refine .flatten (writes_uint64 (i := 0) h.seriesId rfl (by decide)) ?_
  refine .flatten (writes_text (i := 1) h.seriesUniqueId
    (fun o msg => { msg with seriesUniqueId := o }) rfl rfl (by decide)) ?_
  exact .nil msg

theorem multidim_back {array : MultidimArray} (h : array.Sendable) :
    ReadsBack parseMultidimArray [array.encode] array ∧ WellFormed array.encode :=
  ⟨parseMultidimArray_back h, h.wellFormed⟩

theorem double_back {bits : ℕ} (h : Word bits) :
    ReadsBack parseDouble [encodeDouble bits] bits ∧ WellFormed (encodeDouble bits) :=
  ⟨parseDouble_back h, encodeDouble_wellFormed h⟩

theorem image_writes {msg : ImageMsg} (h : msg.Sendable) :
    Writes Counted none imageSlots {} msg.entries msg := by
  refine .flatten (writes_uint64 (i := 0) h.seriesId rfl (by decide)) ?_
  refine .flatten (writes_text (i := 1) h.seriesUniqueId
    (fun o msg => { msg with seriesUniqueId := o }) rfl rfl (by decide)) ?_
  refine .flatten (writes_uint64 (i := 2) h.imageId rfl (by decide)) ?_
  refine .flatten (writes_array2 (i := 3) h.realTime rfl (by decide)) ?_
  refine .flatten (writes_text (i := 4) h.seriesDate
    (fun o msg => { msg with seriesDate := o }) rfl rfl (by decide)) ?_
  refine .flatten (writes_array2 (i := 5) h.startTime rfl (by decide)) ?_
  refine .flatten (writes_array2 (i := 6) h.stopTime rfl (by decide)) ?_
  refine .flatten (writes_userData (i := 7) h.userData rfl rfl (by decide)) ?_
  refine .flatten (writes_channels (i := 8) parseMultidimArray_reader multidim_back h.data rfl
    (by decide)) ?_
  exact .nil msg

theorem start_writes {msg : StartMsg} (h : msg.Sendable) :
    Writes Counted (some LOOKUP_TABLE) startSlots {} msg.entries msg := by
  refine .flatten (writes_uint64 (i := 0) h.seriesId rfl (by decide)) ?_
  refine .flatten (writes_text (i := 1) h.seriesUniqueId
    (fun o msg => { msg with seriesUniqueId := o }) rfl rfl (by decide)) ?_
  refine .flatten (writes_text (i := 2) h.armDate
    (fun o msg => { msg with armDate := o }) rfl rfl (by decide)) ?_
  refine .flatten (writes_double (i := 3) h.beamCenterX rfl (by decide)) ?_
  refine .flatten (writes_double (i := 4) h.beamCenterY rfl (by decide)) ?_
  refine .flatten (writes_names (i := 5) h.channels rfl (by decide)) ?_
  refine .flatten (writes_double (i := 6) h.countTime rfl (by decide)) ?_
  refine .flatten (writes_bool (i := 7) _ rfl (by decide)) ?_
  refine .flatten (writes_table (i := 8) h.countrateCorrectionLookupTable
    (fun table msg => { msg with countrateCorrectionLookupTable := table }) rfl rfl
    (by decide)) ?_
  refine .flatten (writes_text (i := 9) h.detectorDescription
    (fun o msg => { msg with detectorDescription := o }) rfl rfl (by decide)) ?_
  refine .flatten (writes_text (i := 10) h.detectorSerialNumber
    (fun o msg => { msg with detectorSerialNumber := o }) rfl rfl (by decide)) ?_
  refine .flatten (writes_translation (i := 11) h.detectorTranslation rfl (by decide)) ?_
  refine .flatten (writes_channels (i := 12) parseMultidimArray_reader multidim_back h.flatfield rfl
    (by decide)) ?_
  refine .flatten (writes_bool (i := 13) _ rfl (by decide)) ?_
  refine .flatten (writes_double (i := 14) h.frameTime rfl (by decide)) ?_
  refine .flatten (writes_goniometer (i := 15) h.goniometer rfl (by decide)) ?_
  refine .flatten (writes_text (i := 16) h.imageDtype
    (fun o msg => { msg with imageDtype := o }) rfl rfl (by decide)) ?_
  refine .flatten (writes_uint64 (i := 17) h.imageSizeX rfl (by decide)) ?_
  refine .flatten (writes_uint64 (i := 18) h.imageSizeY rfl (by decide)) ?_
  refine .flatten (writes_double (i := 19) h.incidentEnergy rfl (by decide)) ?_
  refine .flatten (writes_double (i := 20) h.incidentWavelength rfl (by decide)) ?_
  refine .flatten (writes_uint64 (i := 21) h.numberOfImages rfl (by decide)) ?_
  refine .flatten (writes_channels (i := 22) parseMultidimArray_reader multidim_back h.pixelMask rfl
    (by decide)) ?_
  refine .flatten (writes_bool (i := 23) _ rfl (by decide)) ?_
  refine .flatten (writes_double (i := 24) h.pixelSizeX rfl (by decide)) ?_
  refine .flatten (writes_double (i := 25) h.pixelSizeY rfl (by decide)) ?_
  refine .flatten (writes_uint64 (i := 26) h.saturationValue rfl (by decide)) ?_
  refine .flatten (writes_text (i := 27) h.sensorMaterial
    (fun o msg => { msg with sensorMaterial := o }) rfl rfl (by decide)) ?_
  refine .flatten (writes_double (i := 28) h.sensorThickness rfl (by decide)) ?_
  refine .flatten (writes_channels (i := 29) parseDouble_reader double_back h.thresholdEnergy rfl
    (by decide)) ?_
  refine .flatten (writes_userData (i := 30) h.userData rfl rfl (by decide)) ?_
  refine .flatten (writes_bool (i := 31) _ rfl (by decide)) ?_
  exact .nil msg

/-- What has been run is read, wherever the entries are. -/
theorem parseFields_back (h : msg.Sendable) {it : CborValue} (hit : Counted it)
    (hbefore : Before it (itemsOf msg.entries) rest) :
    ∃ last, parseFields msg.type.toList it = .ok (msg, last) ∧ Before last [] rest := by
  cases msg with
  | start msg =>
    have hfields : parseFields "start".toList it = store parseStartMsg .start it := rfl
    obtain ⟨last, hread, hlast⟩ :=
      (start_writes h).runs.parseEntries counted_lasting startTable startField_reads hit hbefore
    exact ⟨last, hfields.trans (store_ok hread), hlast⟩
  | image msg =>
    have hfields : parseFields "image".toList it = store parseImageMsg .image it := rfl
    obtain ⟨last, hread, hlast⟩ :=
      (image_writes h).runs.parseEntries counted_lasting imageTable imageField_reads hit hbefore
    exact ⟨last, hfields.trans (store_ok hread), hlast⟩
  | seriesEnd msg =>
    have hfields : parseFields "end".toList it = store parseEndMsg .seriesEnd it := rfl
    obtain ⟨last, hread, hlast⟩ :=
      (end_writes h).runs.parseEntries counted_lasting endTable endField_reads hit hbefore
    exact ⟨last, hfields.trans (store_ok hread), hlast⟩

theorem entries_keyed (h : msg.Sendable) : TextKeyed msg.entries := by
  cases msg with
  | start msg => exact (start_writes h).keyed
  | image msg => exact (image_writes h).keyed
  | seriesEnd msg => exact (end_writes h).keyed

theorem optional_few (key : String) (item : Option Bytes) : (optional key item).length ≤ 1 := by
  cases item <;> simp only [optional, Option.map_none, Option.map_some, Option.toList_none,
    Option.toList_some, List.length_nil, List.length_singleton, Nat.le_refl, Nat.zero_le]

theorem flatten_few {ess : List (List (Bytes × Bytes))} (h : ∀ es ∈ ess, es.length ≤ 1) :
    ess.flatten.length ≤ ess.length := by
  induction ess with
  | nil => exact Nat.le_refl 0
  | cons es ess ih =>
    obtain ⟨hes, hess⟩ := List.forall_mem_cons.mp h
    rw [List.flatten_cons, List.length_append, List.length_cons, Nat.add_comm]
    exact Nat.add_le_add (ih hess) hes

theorem entries_few (msg : Msg) : msg.entries.length ≤ 32 := by
  cases msg with
  | start msg =>
    refine flatten_few ?_
    simp only [List.forall_mem_cons, optional_few, List.length_singleton, Nat.le_refl, true_and]
    exact List.forall_mem_nil _
  | image msg =>
    refine (flatten_few ?_).trans (by decide : 9 ≤ 32)
    simp only [List.forall_mem_cons, optional_few, List.length_singleton, Nat.le_refl, true_and]
    exact List.forall_mem_nil _
  | seriesEnd msg =>
    refine (flatten_few ?_).trans (by decide : 2 ≤ 32)
    simp only [List.forall_mem_cons, optional_few, List.length_singleton, Nat.le_refl, true_and]
    exact List.forall_mem_nil _

theorem type_isKey (msg : Msg) : IsKey msg.type.toList ∧ msg.type.toList ≠ [] := by
  cases msg with
  | start _ => exact (by decide : IsKey "start".toList ∧ "start".toList ≠ [])
  | image _ => exact (by decide : IsKey "image".toList ∧ "image".toList ≠ [])
  | seriesEnd _ => exact (by decide : IsKey "end".toList ∧ "end".toList ≠ [])

/-- The first entry. -/
def typeEntry (msg : Msg) : TypeEntry :=
  ⟨encodeTextString "type".toList, ascii "type".toList, [], encodeTextString msg.type.toList,
    ascii msg.type.toList, encodeTextString_str ⟨by decide, by decide, by decide⟩, .none,
    encodeTextString_str (type_isKey msg).1.isText⟩

theorem parse_entries (h : msg.Sendable) (rest : Bytes) :
    stream2ParseMsg (MAGIC ++ (encodeEntries ((typeEntry msg).entry :: msg.entries) ++ rest)) =
      .ok msg := by
  have hcount : ((typeEntry msg).entry :: msg.entries).length ≤ UINT32_MAX / 2 :=
    Nat.le_trans (Nat.succ_le_succ (entries_few msg)) (by decide)
  have hmap := encodeEntries_definite hcount
  have hwf : ∀ item ∈ itemsOf ((typeEntry msg).entry :: msg.entries), WellFormed item :=
    ((typeEntry msg).textKeyed.append (entries_keyed h)).wellFormed
  obtain ⟨it, hopen⟩ := hmap.opened rest
  have hc : IsContainer it.type := .inr hopen.type
  have he := hmap.encloses
  rw [show Cbor.map = it.type from hopen.type.symm] at he
  obtain ⟨field, henter, -⟩ := enterContainer_complete hopen.primed hc hwf he hopen.ptr
  obtain ⟨hbefore, hcounted, hpoint⟩ := hopen.entered hmap hwf henter
  rw [itemsOf_cons] at hbefore
  obtain ⟨entries, htype, hentries⟩ := TypeEntry.parse (x := typeEntry msg)
    (by decide : keyText (ascii "type".toList) = "type".toList) (type_isKey msg).1.keyText hbefore
  obtain ⟨_, -, -, -, hpasses, -⟩ := parseMsgType_sound hpoint (type_isKey msg).2 htype
  obtain ⟨last, hfields, hlast⟩ :=
    parseFields_back h (passes_lasting counted_lasting hpasses hcounted) hentries
  obtain ⟨moved, hleave⟩ := hopen.left hlast
  rw [hopen.message, parseInside, henter]
  show (parseMsgType field >>= _) = _
  rw [htype, Loop.ok_bind]
  dsimp only
  rw [hfields, Loop.ok_bind]
  dsimp only
  rw [hleave]
  rfl

/-- Every message whose values have room in it is read as it was sent, whatever follows it. -/
theorem stream2ParseMsg_encode (msg : Msg) (h : msg.Sendable) (rest : Bytes) :
    stream2ParseMsg (msg.encode ++ rest) = .ok msg := by
  rw [Msg.encode, List.append_assoc]
  exact parse_entries h rest

/-- Two pixels of one byte each. -/
def twoPixels : ImageMsg where
  seriesId := 3
  seriesUniqueId := some "01HBV3JPF".toList
  imageId := 7
  startTime := (1, 1000)
  data := [("threshold_1".toList, ⟨(2, 1), ⟨64, ⟨[5, 9], 2, none⟩⟩⟩)]

theorem twoPixels_sendable : twoPixels.Sendable where
  seriesId := by decide
  seriesUniqueId := by
    rintro _ ⟨⟩
    exact ⟨by decide, by decide, by decide⟩
  imageId := by decide
  realTime := by decide
  seriesDate := by
    rintro _ ⟨⟩
  startTime := by decide
  stopTime := by decide
  userData := .inl rfl
  data := by
    have hdata : ByteString.Sendable ⟨[5, 9], 2, none⟩ := ⟨rfl, by decide, fun _ h => by cases h⟩
    refine ⟨by decide, List.forall_mem_singleton.mpr ⟨by decide, by decide, by decide⟩,
      List.forall_mem_singleton.mpr ⟨by decide, ⟨by decide, hdata, rfl⟩, rfl⟩⟩

theorem stream2ParseMsg_encode_twoPixels :
    stream2ParseMsg ((Msg.image twoPixels).encode ++ []) = .ok (.image twoPixels) :=
  stream2ParseMsg_encode (.image twoPixels) twoPixels_sendable []

end Messages

end Stream2
