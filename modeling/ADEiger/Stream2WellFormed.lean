import ADEiger.Stream2Entries

/-! Which messages are accepted.
An error in a key is taken for a key that is too long, and the rest is read from wherever the
cursor was left. As long as no key is in error, only well-formed messages are accepted. -/
namespace Stream2

open CString (Text)
open TinyCbor
open Cbor (Head Str Encloses Item Tags WellFormed)
open Loop (whileLoop readMany Reached)

variable {α μ : Type} {it it' next last value : CborValue} {b t content : Bytes}
  {bs rest : List Bytes} {n d : ℕ} {v : α} {buffer : Bytes} {type : Text}

section Fields

variable {verified : Option Text} {inner : Text → μ → CborValue → Prop} {slots : List (Slot μ)}

/-- The value of a slot is one item. -/
def Slot.Takes (verified : Option Text) (inner : Text → μ → CborValue → Prop) (slot : Slot μ) :
    Prop :=
  ∀ {msg value}, Ready verified slot.key value → inner slot.key msg value →
    Stream2.Takes (slot.read (slot.get msg)) value

theorem Slot.takes_of {key : Text} {read : CborValue → Except Stream2Error (α × CborValue)}
    {put : α → μ → μ} (h : Reader Standing 1 read) :
    (Slot.of key read put).Takes verified inner :=
  fun hready _ => h.takes (.inl hready.primed)

theorem fieldsTake (hkeys : (slots.map (·.key)).Nodup)
    (hverified : ∀ key, verified = some key → key ∈ slots.map (·.key))
    (htakes : ∀ slot ∈ slots, slot.Takes verified inner) :
    FieldsTake verified (dispatch slots) inner := by
  intro key msg value hready hinner
  rcases dispatch_cases hkeys key with ⟨slot, hslot, rfl, hdispatch⟩ | ⟨hno, hdispatch⟩
  · rw [hdispatch]
    exact (htakes slot hslot hready hinner).store _
  · rw [hdispatch]
    exact skip_takes hready.primed (hready.untagged fun h => hno (hverified key h)) msg

theorem dispatch_reads (h : ∀ slot ∈ slots, ∀ s, Reads (slot.read s)) (key : Text) (msg : μ) :
    Reads (dispatch slots key msg) := by
  induction slots with
  | nil => exact skip_reads msg
  | cons slot slots ih =>
    obtain ⟨hslot, hslots⟩ := List.forall_mem_cons.mp h
    exact ite_reads (store_reads (hslot _) _) (ih hslots)

end Fields

section Maps

/-- Nothing is asked of the values. -/
def Anything {μ : Type} (_ : Text) (_ : μ) (_ : CborValue) : Prop := True

/-- The axis that a key stands for. -/
def axisOf (key : Text) (g : Goniometer) : Option GoniometerAxis :=
  if key = "chi".toList then some g.chi
  else if key = "kappa".toList then some g.kappa
  else if key = "omega".toList then some g.omega
  else if key = "phi".toList then some g.phi
  else if key = "two_theta".toList then some g.twoTheta
  else none

/-- Every key of the map of an axis is copied. -/
def AxisCopied (axis : GoniometerAxis) : CborValue → Prop :=
  MapCopied (dispatch axisSlots) Anything axis

def AxesCopied (key : Text) (g : Goniometer) (it : CborValue) : Prop :=
  ∀ axis, axisOf key g = some axis → AxisCopied axis it

def GoniometerCopied (g : Goniometer) : CborValue → Prop :=
  MapCopied (dispatch goniometerSlots) AxesCopied g

/-- The maps inside the value of a key of the start message. -/
def StartInner (key : Text) (msg : StartMsg) (it : CborValue) : Prop :=
  key = "goniometer".toList → GoniometerCopied msg.goniometer it

theorem axis_take : FieldsTake none (dispatch axisSlots) Anything := by
  refine fieldsTake (by decide +kernel) (fun _ h => by cases h) ?_
  simp only [axisSlots, List.forall_mem_cons]
  exact ⟨Slot.takes_of parseDouble_reader, Slot.takes_of parseDouble_reader, List.forall_mem_nil _⟩

theorem axis_reads (key : Text) (axis : GoniometerAxis) : Reads (dispatch axisSlots key axis) := by
  refine dispatch_reads ?_ key axis
  simp only [axisSlots, List.forall_mem_cons]
  exact ⟨fun _ => parseDouble_reads, fun _ => parseDouble_reads, List.forall_mem_nil _⟩

theorem parseGoniometerAxis_takes {axis : GoniometerAxis} (hit : Primed it)
    (h : AxisCopied axis it) : Takes (parseGoniometerAxis axis) it :=
  parseMap_takes axis_reads axis_take hit h

theorem goniometer_take : FieldsTake none (dispatch goniometerSlots) AxesCopied := by
  refine fieldsTake (by decide +kernel) (fun _ h => by cases h) ?_
  simp only [goniometerSlots, List.forall_mem_cons]
  refine ⟨?_, ?_, ?_, ?_, ?_, List.forall_mem_nil _⟩
  all_goals exact fun hready hcopied => parseGoniometerAxis_takes hready.primed (hcopied _ rfl)

theorem goniometer_reads (key : Text) (g : Goniometer) :
    Reads (dispatch goniometerSlots key g) := by
  refine dispatch_reads ?_ key g
  simp only [goniometerSlots, List.forall_mem_cons]
  exact ⟨parseGoniometerAxis_reads, parseGoniometerAxis_reads, parseGoniometerAxis_reads,
    parseGoniometerAxis_reads, parseGoniometerAxis_reads, List.forall_mem_nil _⟩

theorem parseGoniometer_takes {g : Goniometer} (hit : Primed it) (h : GoniometerCopied g it) :
    Takes (parseGoniometer g) it :=
  parseMap_takes goniometer_reads goniometer_take hit h

def LOOKUP_TABLE : Text := "countrate_correction_lookup_table".toList

theorem start_take : FieldsTake (some LOOKUP_TABLE) startField StartInner := by
  rw [startField_eq]
  refine fieldsTake startSlots_nodup (fun key h => ?_) ?_
  · obtain rfl := Option.some.inj h
    decide +kernel
  simp only [startSlots, List.forall_mem_cons]
  repeat' apply And.intro
  all_goals first
    | exact Slot.takes_of parseDouble_reader
    | exact Slot.takes_of parseTextString_reader
    | exact Slot.takes_of parseUint64_reader
    | exact Slot.takes_of parseBool_reader
    | exact Slot.takes_of (parseChannels_reader parseMultidimArray_reader)
    | exact Slot.takes_of (parseChannels_reader parseDouble_reader)
    | exact Slot.takes_of parseChannelNames_reader
    | exact Slot.takes_of parseTypedArray_reader
    | exact Slot.takes_of parseTranslation_reader
    | exact fun hready hcopied => parseGoniometer_takes hready.primed (hcopied rfl)
    | exact fun hready _ =>
        parseUserData_takes hready.primed (hready.untagged (by decide +kernel))
    | exact List.forall_mem_nil _

theorem image_take : FieldsTake none imageField Anything := by
  rw [imageField_eq]
  refine fieldsTake imageSlots_nodup (fun _ h => by cases h) ?_
  simp only [imageSlots, List.forall_mem_cons]
  repeat' apply And.intro
  all_goals first
    | exact Slot.takes_of parseUint64_reader
    | exact Slot.takes_of parseTextString_reader
    | exact Slot.takes_of parseArray2Uint64_reader
    | exact Slot.takes_of (parseChannels_reader parseMultidimArray_reader)
    | exact fun hready _ => parseUserData_takes hready.primed (hready.untagged (by decide))
    | exact List.forall_mem_nil _

theorem end_take : FieldsTake none endField Anything := by
  rw [endField_eq]
  refine fieldsTake (by decide +kernel) (fun _ h => by cases h) ?_
  simp only [endSlots, List.forall_mem_cons]
  exact ⟨Slot.takes_of parseUint64_reader, Slot.takes_of parseTextString_reader,
    List.forall_mem_nil _⟩

theorem anything_of_wellFormed {verified : Option Text} :
    OfWellFormed (μ := μ) verified Anything := fun _ _ _ => trivial

theorem axesCopied_of_wellFormed : OfWellFormed none AxesCopied :=
  fun _ hbefore hb _ _ => mapCopied_of_wellFormed axis_take anything_of_wellFormed hb hbefore

theorem startInner_of_wellFormed : OfWellFormed (some LOOKUP_TABLE) StartInner :=
  fun _ hbefore hb _ => mapCopied_of_wellFormed goniometer_take axesCopied_of_wellFormed hb hbefore

end Maps

section Entries

/-- Every key of the message is copied, and every key of the maps inside it that are read. -/
def EntriesCopied (type : Text) (it : CborValue) : Prop :=
  (type = "start".toList → KeysCopied (some LOOKUP_TABLE) startField StartInner ({}, it)) ∧
  (type = "image".toList → KeysCopied none imageField Anything ({}, it)) ∧
  (type = "end".toList → KeysCopied none endField Anything ({}, it))

/-- The loop over the entries is over well-formed ones. -/
def ReadsEntries (read : CborValue → Except Stream2Error (α × CborValue)) (it : CborValue) : Prop :=
  read it ≠ .error .aborted ∧ ∀ {v last}, read it = .ok (v, last) → Ended last ∧
    ∃ entries, TextKeyed entries ∧ Passes it (itemsOf entries) last

theorem ReadsEntries.store {read : CborValue → Except Stream2Error (α × CborValue)}
    (h : ReadsEntries read it) (put : α → μ) : ReadsEntries (store read put) it := by
  refine ⟨Loop.bind_ne h.1 fun _ _ h => (by cases h), fun hstore => ?_⟩
  obtain ⟨⟨a, next⟩, ha, hstore⟩ := Loop.bind_ok hstore
  obtain ⟨-, rfl⟩ := Prod.mk.inj (Except.ok.inj hstore)
  exact h.2 ha

theorem parseFields_sound (hit : EntryPoint it) (hcopied : EntriesCopied type it) :
    ReadsEntries (parseFields type) it := by
  obtain ⟨hstart, himage, hend⟩ := hcopied
  have hparse : parseFields type it = (if type = "start".toList then store parseStartMsg .start
    else if type = "image".toList then store parseImageMsg .image
    else if type = "end".toList then store parseEndMsg .seriesEnd
    else fun _ => .error .parse) it := by
    rw [parseFields]
    split_ifs <;> rfl
  rw [ReadsEntries, hparse]
  split_ifs with h h h
  · exact ReadsEntries.store (parseEntries_sound startField_reads start_take hit (hstart h)) _
  · exact ReadsEntries.store (parseEntries_sound imageField_reads image_take hit (himage h)) _
  · exact ReadsEntries.store (parseEntries_sound endField_reads end_take hit (hend h)) _
  · exact ⟨fun h => (by cases h), fun h => by cases h⟩

theorem entriesCopied_of_wellFormed {items : List Bytes} (heven : Even items.length)
    (hwf : ∀ item ∈ items, WellFormed item) (h : Before it items t) : EntriesCopied type it :=
  ⟨fun _ => keysCopied_of_wellFormed start_take startInner_of_wellFormed heven hwf h,
    fun _ => keysCopied_of_wellFormed image_take anything_of_wellFormed heven hwf h,
    fun _ => keysCopied_of_wellFormed end_take anything_of_wellFormed heven hwf h⟩

end Entries

section Types

theorem parseKey_nonempty {key : Text} (h : parseKey it = .ok (key, next)) (hne : key ≠ []) :
    it.type = CborTextStringType ∧
      ∃ content, copyString it = (.ok content, next) ∧ keyText content = key := by
  rw [parseKey] at h
  obtain ⟨htype, h⟩ := Loop.guard_ok h
  refine ⟨not_not.mp htype, ?_⟩
  rcases hcopy : copyString it with ⟨err | content, last⟩ <;> rw [hcopy] at h
  · obtain ⟨rfl, -⟩ := Prod.mk.inj (Except.ok.inj h)
    exact absurd rfl hne
  · obtain ⟨hkey, rfl⟩ := Prod.mk.inj (Except.ok.inj h)
    exact ⟨content, rfl, hkey⟩

theorem parseKey_ne (it : CborValue) : parseKey it ≠ .error .aborted := by
  rw [parseKey]
  split_ifs
  · exact fun h => by cases h
  · split <;> exact fun h => by cases h

/-- A first entry: a text, and a text behind tags. -/
structure TypeEntry where
  key : Bytes
  name : Bytes
  tags : Bytes
  item : Bytes
  type : Bytes
  keyStr : Str Cbor.textString name key
  isTags : Tags tags
  typeStr : Str Cbor.textString type item

def TypeEntry.entry (e : TypeEntry) : Bytes × Bytes := (e.key, e.tags ++ e.item)

theorem TypeEntry.textKeyed (e : TypeEntry) : TextKeyed [e.entry] :=
  List.forall_mem_singleton.mpr
    ⟨⟨e.name, e.keyStr⟩, e.isTags.wellFormed ⟨0, .string (.inr rfl) e.typeStr⟩⟩

/-- What is copied of the first entry. -/
def Copies (it : CborValue) (name type : Bytes) (last : CborValue) : Prop :=
  ∃ next value, copyString it = (.ok name, next) ∧ skipTag next = .ok value ∧
    copyString value = (.ok type, last)

theorem parseMsgType_sound (hit : EntryPoint it) (hne : type ≠ [])
    (h : parseMsgType it = .ok (type, last)) : ∃ e : TypeEntry,
      keyText e.name = "type".toList ∧ keyText e.type = type ∧ Copies it e.name e.type last ∧
        Passes it (itemsOf [e.entry]) last ∧ EntryPoint last := by
  obtain ⟨⟨key, next⟩, hkey, h⟩ := Loop.bind_ok h
  obtain ⟨hname, h⟩ := Loop.guard_ok h
  obtain ⟨value, hvalue, hparse⟩ := Loop.bind_ok h
  rw [not_not.mp hname] at hkey
  obtain ⟨htype, name, hcopy, htext⟩ := parseKey_nonempty hkey (by decide)
  obtain ⟨htype', typeText, hcopy', htext'⟩ := parseKey_nonempty hparse hne
  have hprimed := standing_of_type hit.standing htype (by decide)
  have hkey' : AtKey it := hit.resolve_right fun hended => hprimed.not_ended hended
  obtain ⟨k, t, hk, hptr, hfollows⟩ := copyString_sound hprimed (.inl htype) hcopy
  obtain ⟨hnext, hpoint⟩ := hkey'.entry hfollows
  obtain ⟨hskipped, -⟩ := skipTag_sound hnext (lift_ok hvalue)
  obtain ⟨tags, htags, htags'⟩ := hskipped.bytes
  obtain ⟨b, t', hb, hptr', hfollows'⟩ := copyString_sound hskipped.primed (.inl htype') hcopy'
  have hlast := hfollows'.of_place hskipped.place.symm
  rw [htype] at hk
  rw [htype'] at hb
  refine ⟨⟨k, name, tags, b, typeText, hk, htags', hb⟩, htext, htext',
    ⟨next, value, hcopy, lift_ok hvalue, hcopy'⟩, ?_, hpoint hlast⟩
  refine .cons hprimed hptr hfollows (.cons hnext ?_ hlast (.nil last))
  rw [htags, hptr']
  exact (List.append_assoc _ _ _).symm

theorem parseMsgType_total (hit : EntryPoint it) : parseMsgType it ≠ .error .aborted := by
  refine Loop.bind_ne (parseKey_ne it) fun x hx => ?_
  obtain ⟨key, next⟩ := x
  dsimp only
  split_ifs with hname
  · exact fun h => by cases h
  have hkey : parseKey it = .ok ("type".toList, next) := by
    rw [hx, ← not_not.mp hname]
  obtain ⟨htype, name, hcopy, -⟩ := parseKey_nonempty hkey (by decide)
  have hprimed := standing_of_type hit.standing htype (by decide)
  have hkey' : AtKey it := hit.resolve_right fun hended => hprimed.not_ended hended
  obtain ⟨k, t, -, -, hfollows⟩ := copyString_sound hprimed (.inl htype) hcopy
  exact Loop.bind_ne (lift_ne (skipTag_total (hkey'.entry hfollows).1)) fun value _ =>
    parseKey_ne value

/-- What is copied is what is in a well-formed first entry. -/
theorem copies_of_before {e : TypeEntry} (h : Before it (itemsOf [e.entry] ++ rest) t) :
    it.type = CborTextStringType ∧ ∃ next value last, copyString it = (.ok e.name, next) ∧
      skipTag next = .ok value ∧ value.type = CborTextStringType ∧
        copyString value = (.ok e.type, last) ∧ Before last rest t := by
  obtain ⟨htype, next, hcopy, hnext⟩ := Before.copyString h e.keyStr (.inl rfl)
  have hitem : Item (fun _ _ => True) 0 e.item := .string (.inr rfl) e.typeStr
  obtain ⟨value, hvalue, -, hbefore⟩ :=
    (tags_behind e.isTags hitem e.typeStr.begins (by decide)).2 hnext
  obtain ⟨htype', last, hcopy', hlast⟩ := hbefore.copyString e.typeStr (.inl rfl)
  exact ⟨htype, next, value, last, hcopy, hvalue, htype', hcopy', hlast⟩

theorem parseMsgType_before {e : TypeEntry} (h : Before it (itemsOf [e.entry] ++ rest) t)
    (hparse : parseMsgType it = .ok (type, last)) : Before last rest t := by
  obtain ⟨htype, next, value, last', hcopy, hvalue, htype', hcopy', hlast⟩ := copies_of_before h
  obtain ⟨x, hx, hparse⟩ := Loop.bind_ok hparse
  obtain rfl := Except.ok.inj ((parseKey_copied htype hcopy).symm.trans hx)
  obtain ⟨-, hparse⟩ := Loop.guard_ok hparse
  obtain ⟨value', hvalue', hparse⟩ := Loop.bind_ok hparse
  obtain rfl := Except.ok.inj (hvalue.symm.trans (lift_ok hvalue'))
  obtain ⟨-, rfl⟩ := Prod.mk.inj
    (Except.ok.inj ((parseKey_copied htype' hcopy').symm.trans hparse))
  exact hlast

end Types

section Texts

/-- The bytes of a text of ASCII. -/
def ascii (text : Text) : Bytes := text.map fun c => UInt8.ofNat c.toNat

theorem ofNat_toNat_char (b : UInt8) : UInt8.ofNat (Char.ofNat b.toNat).toNat = b := by
  have hall : ∀ n < 256, UInt8.ofNat (Char.ofNat (UInt8.ofNat n).toNat).toNat = UInt8.ofNat n := by
    decide +kernel
  have h := hall b.toNat b.toNat_lt
  rwa [UInt8.ofNat_toNat] at h

theorem nul_of_char {b : UInt8} (h : Char.ofNat b.toNat = CString.NUL) : b = 0 := by
  rw [← ofNat_toNat_char b, h]
  decide

/-- Without a NUL a text is known by its bytes. -/
theorem ascii_cstring (h : 0 ∉ content) : ascii (cstring content) = content := by
  have hnul : CString.NUL ∉ content.map fun b => Char.ofNat b.toNat := by
    intro hmem
    obtain ⟨b, hb, hnul⟩ := List.mem_map.mp hmem
    rw [nul_of_char hnul] at hb
    exact h hb
  rw [cstring, CString.cstr_of_not_mem hnul, ascii, List.map_map]
  exact (List.map_congr_left fun b _ => ofNat_toNat_char b).trans (List.map_id _)

theorem ascii_keyText (h : 0 ∉ content) (hne : keyText content ≠ []) :
    ascii (keyText content) = content := by
  rw [keyText] at hne ⊢
  split_ifs at hne ⊢ with hlen
  · exact ascii_cstring h
  · exact absurd rfl hne

end Texts

section Messages

/-- The types of the messages. -/
def messageTypes : List Text := ["start".toList, "image".toList, "end".toList]

/-- The bytes that say that CBOR follows, and a well-formed map whose keys are text strings and
whose first entry is the type; tags are allowed before its text, and what follows is not looked
at. -/
def WellFormedMessage (buffer : Bytes) : Prop :=
  ∃ map rest e entries, buffer = MAGIC ++ (map ++ rest) ∧
    Encloses (fun _ _ => True) Cbor.map (itemsOf (TypeEntry.entry e :: entries)) map ∧
    TextKeyed entries ∧ e.name = ascii "type".toList ∧ e.type ∈ messageTypes.map ascii

/-- No key is in error, and there is no NUL in the texts of the first entry. -/
def Unerring (buffer : Bytes) : Prop :=
  ∀ it field, (parserInit (buffer.drop 3)).check = .ok it → it.type = CborMapType →
    enterContainer it = .ok field →
      (∀ name type last, Copies field name type last → keyText name = "type".toList →
        keyText type ∈ messageTypes → 0 ∉ name ∧ 0 ∉ type) ∧
      ∀ type entries, parseMsgType field = .ok (type, entries) → EntriesCopied type entries

theorem parserInit_primed (h : (parserInit buffer).check = .ok it) :
    Primed it ∧ it.ptr = buffer := by
  obtain ⟨hprimed, hptr, -⟩ := primed_of_preparse (Moved.check_ok h)
    ⟨(by decide : 0 < 1), (by decide : 1 ≤ UINT32_MAX)⟩
  exact ⟨hprimed, hptr⟩

theorem parseFields_type {x : Msg × CborValue} (h : parseFields type it = .ok x) :
    type ∈ messageTypes := by
  rw [parseFields] at h
  split_ifs at h with hstart himage hend
  · rw [hstart]
    decide
  · rw [himage]
    decide
  · rw [hend]
    decide

/-- The first entry is the type, when it is copied as it is. -/
theorem ascii_type {e : TypeEntry} (hname : keyText e.name = "type".toList)
    (htype : keyText e.type ∈ messageTypes) (hnul : 0 ∉ e.name ∧ 0 ∉ e.type) :
    e.name = ascii "type".toList ∧ e.type ∈ messageTypes.map ascii := by
  have hne : keyText e.type ≠ [] := by
    intro he
    rw [he] at htype
    exact absurd htype (by decide)
  have hascii := ascii_keyText hnul.1 (by rw [hname]; decide)
  rw [hname] at hascii
  exact ⟨hascii.symm, List.mem_map.mpr ⟨_, htype, ascii_keyText hnul.2 hne⟩⟩

theorem entered_message {field : CborValue} (hinit : (parserInit buffer).check = .ok it)
    (htype : it.type = CborMapType) (henter : enterContainer it = .ok field) :
    Primed it ∧ it.ptr = buffer ∧ Entered it field ∧ EntryPoint field := by
  obtain ⟨hprimed, hptr⟩ := parserInit_primed hinit
  have hentered := enterContainer_sound hprimed (.inr htype) henter
  exact ⟨hprimed, hptr, hentered, entryPoint_of_entered hentered htype⟩

theorem stream2ParseMsg_sound (hun : Unerring buffer) {msg : Msg}
    (h : stream2ParseMsg buffer = .ok msg) : WellFormedMessage buffer := by
  obtain ⟨hmagic, h⟩ := Loop.guard_ok h
  obtain ⟨it, hinit, h⟩ := Loop.bind_ok h
  obtain ⟨htype, h⟩ := Loop.guard_ok h
  obtain ⟨field, henter, h⟩ := Loop.bind_ok h
  obtain ⟨⟨type, entries⟩, hparse, h⟩ := Loop.bind_ok h
  obtain ⟨⟨msg', last⟩, hfields, h⟩ := Loop.bind_ok h
  have hmap := not_not.mp htype
  obtain ⟨hprimed, hptr, hentered, hpoint⟩ :=
    entered_message (lift_ok hinit) hmap (lift_ok henter)
  obtain ⟨hnul, hcopied⟩ := hun it field (lift_ok hinit) hmap (lift_ok henter)
  have hknown := parseFields_type hfields
  have hne : type ≠ [] := by
    rintro rfl
    exact absurd hknown (by decide)
  obtain ⟨e, hname, htext, hcopies, hpasses, hpoint'⟩ := parseMsgType_sound hpoint hne hparse
  obtain ⟨hended, es, hkeyed, hpasses'⟩ :=
    (parseFields_sound hpoint' (hcopied type entries hparse)).2 hfields
  obtain ⟨map, hbytes, hencloses⟩ := hentered.encloses (hpasses.append hpasses') hended
  have htexts := ascii_type hname (by rw [htext]; exact hknown)
    (hnul _ _ _ hcopies hname (by rw [htext]; exact hknown))
  rw [hmap] at hencloses
  refine ⟨map, last.ptr, e, es, ?_, hencloses.mono fun _ _ _ => trivial, hkeyed, htexts⟩
  rw [← hbytes, hptr, ← not_not.mp hmagic]
  exact (List.take_append_drop 3 buffer).symm

theorem stream2ParseMsg_total (hun : Unerring buffer) :
    stream2ParseMsg buffer ≠ .error .aborted := by
  rw [stream2ParseMsg, parseMsg]
  split_ifs with hmagic
  · exact fun h => by cases h
  refine Loop.bind_ne (lift_ne (Moved.check_total (preparseValue_total _))) fun it hinit => ?_
  split_ifs with htype
  · exact fun h => by cases h
  have hmap := not_not.mp htype
  obtain ⟨hprimed, -⟩ := parserInit_primed (lift_ok hinit)
  refine Loop.bind_ne (lift_ne (enterContainer_total hprimed (.inr hmap))) fun field henter => ?_
  obtain ⟨-, -, -, hpoint⟩ := entered_message (lift_ok hinit) hmap (lift_ok henter)
  obtain ⟨-, hcopied⟩ := hun it field (lift_ok hinit) hmap (lift_ok henter)
  refine Loop.bind_ne (parseMsgType_total hpoint) fun x hparse => ?_
  obtain ⟨type, entries⟩ := x
  by_cases hne : type = []
  · rw [hne]
    exact fun h => by cases h
  obtain ⟨-, -, -, -, -, hpoint'⟩ := parseMsgType_sound hpoint hne hparse
  obtain ⟨htotal, hsound⟩ := parseFields_sound hpoint' (hcopied type entries hparse)
  refine Loop.bind_ne htotal fun x hx => ?_
  obtain ⟨hended, -⟩ := hsound hx
  exact Loop.bind_ne (lift_ne (leaveContainer_total hended.1)) fun _ _ h => by cases h

theorem itemsOf_even (entries : List (Bytes × Bytes)) : Even (itemsOf entries).length := by
  induction entries with
  | nil => exact ⟨0, rfl⟩
  | cons e entries ih =>
    obtain ⟨r, hr⟩ := ih
    have hlen : (itemsOf (e :: entries)).length = (itemsOf entries).length + 2 := rfl
    exact ⟨r + 1, by omega⟩

theorem nul_not_mem_ascii {text : Text} (h : text ∈ "type".toList :: messageTypes) :
    0 ∉ ascii text := by
  have hall : ∀ text ∈ "type".toList :: messageTypes, 0 ∉ ascii text := by decide
  exact hall text h

/-- No key of a well-formed message is in error. -/
theorem WellFormedMessage.unerring (h : WellFormedMessage buffer) : Unerring buffer := by
  obtain ⟨map, rest, e, entries, rfl, he, hkeyed, hname, htext⟩ := h
  intro it field hinit htype henter
  obtain ⟨hprimed, hptr, -, -⟩ := entered_message hinit htype henter
  have hwf : ∀ item ∈ itemsOf (e.entry :: entries), WellFormed item :=
    (e.textKeyed.append hkeyed).wellFormed
  have hc : IsContainer it.type := .inr htype
  have he' : Encloses (fun _ _ => True) it.type (itemsOf (e.entry :: entries)) map := by
    rw [htype]
    exact he
  obtain ⟨field', henter', hbefore⟩ := enterContainer_complete hprimed hc hwf
    (enterContainer_encloses hprimed hc he' hptr henter) hptr
  obtain rfl := Except.ok.inj (henter.symm.trans henter')
  refine ⟨fun name type last hcopies _ _ => ?_, fun type last hparse => ?_⟩
  · obtain ⟨-, next, value, last', hcopy, hvalue, -, hcopy', -⟩ := copies_of_before hbefore
    obtain ⟨next', value', hnext, hskip, hlast⟩ := hcopies
    rw [hcopy] at hnext
    obtain ⟨hname', rfl⟩ := Prod.mk.inj hnext
    obtain rfl := Except.ok.inj (hvalue.symm.trans hskip)
    obtain ⟨htype', -⟩ := Prod.mk.inj (hcopy'.symm.trans hlast)
    obtain ⟨text, hmem, htext'⟩ := List.mem_map.mp htext
    rw [← Except.ok.inj hname', ← Except.ok.inj htype', hname, ← htext']
    exact ⟨nul_not_mem_ascii List.mem_cons_self, nul_not_mem_ascii (List.mem_cons_of_mem _ hmem)⟩
  · exact entriesCopied_of_wellFormed (itemsOf_even entries) hkeyed.wellFormed
      (parseMsgType_before hbefore hparse)

end Messages

section Acceptance

/-- `stream2_parse_msg` with what it leaves in `*msg_out`, where `parse_msg` had put `left` when it
failed. -/
def stream2ParseMsgOut (left : Option Msg) (buffer : Bytes) :
    Except Stream2Error Unit × Option Msg :=
  match parseMsg buffer with
  | .error err => (.error err, if left.isSome then none else left)
  | .ok msg => (.ok (), some msg)

/-- What is accepted is well formed; in every other case there are an error and no message. -/
def AcceptsWellFormed (buffer : Bytes) : Prop :=
  ∀ left, ((stream2ParseMsgOut left buffer).1 = .ok () → WellFormedMessage buffer) ∧
    ((stream2ParseMsgOut left buffer).1 ≠ .ok () → ∃ err ≠ .aborted,
      stream2ParseMsgOut left buffer = (.error err, none))

def Refused (buffer : Bytes) : Prop :=
  ∃ err ≠ .aborted, stream2ParseMsg buffer = .error err

theorem acceptsWellFormed_of_refused (h : Refused buffer) : AcceptsWellFormed buffer := by
  obtain ⟨err, hne, herr⟩ := h
  rw [stream2ParseMsg] at herr
  intro left
  rw [stream2ParseMsgOut, herr]
  refine ⟨fun h => (by cases h), fun _ => ⟨err, hne, ?_⟩⟩
  cases left <;> rfl

theorem AcceptsWellFormed.refused_or (h : AcceptsWellFormed buffer) :
    Refused buffer ∨ WellFormedMessage buffer := by
  obtain ⟨hok, herror⟩ := h none
  rw [stream2ParseMsgOut] at hok herror
  cases hparse : parseMsg buffer with
  | error err =>
    rw [hparse] at herror
    obtain ⟨err', hne, heq⟩ := herror fun h => by cases h
    obtain rfl := Except.error.inj (Prod.mk.inj heq).1
    exact .inl ⟨err, hne, hparse⟩
  | ok msg =>
    rw [hparse] at hok
    exact .inr (hok rfl)

/-- As long as no key is in error, what is accepted is well formed; where one is, nothing is well
formed, and all depends on whether the rest is refused. -/
theorem unerring_acceptsWellFormed (buffer : Bytes) :
    (Unerring buffer → AcceptsWellFormed buffer) ∧
      (¬ Unerring buffer → (AcceptsWellFormed buffer ↔ Refused buffer)) := by
  refine ⟨fun hun left => ?_, fun herring => ⟨fun h => ?_, acceptsWellFormed_of_refused⟩⟩
  · cases hparse : stream2ParseMsg buffer with
    | error err =>
      have hne : err ≠ .aborted := fun h => stream2ParseMsg_total hun (h ▸ hparse)
      exact acceptsWellFormed_of_refused ⟨err, hne, hparse⟩ left
    | ok msg =>
      have hwf := stream2ParseMsg_sound hun hparse
      rw [stream2ParseMsg] at hparse
      rw [stream2ParseMsgOut, hparse]
      exact ⟨fun _ => hwf, fun h => absurd rfl h⟩
  · exact h.refused_or.resolve_right fun hwf => herring hwf.unerring

/-- A map of three items: type, end and a key without a value. -/
def halfEntry : Bytes := [0xd9, 0xd9, 0xf7, 0xbf, 0x64, 0x74, 0x79, 0x70, 0x65, 0x63, 0x65, 0x6e,
  0x64, 0x61, 0x61, 0xff]

/-- The cursor at a key of that map, of so many characters. -/
def keyAt (ptr : Bytes) (length : UInt16) : CborValue :=
  ⟨ptr, UINT32_MAX, length, CborTextStringType, false, false, false, false, true, false⟩

/-- The key without a value is an error, which is taken for a key that is too long; what is then
skipped as its value is the break. -/
theorem halfEntry_accepted : stream2ParseMsg halfEntry = .ok (.seriesEnd {}) ∧
    ¬ AcceptsWellFormed halfEntry := by
  have hparse : stream2ParseMsg halfEntry = .ok (.seriesEnd {}) := by decide +kernel
  refine ⟨hparse, fun h => ?_⟩
  have hwf : WellFormedMessage halfEntry := h.refused_or.resolve_left fun ⟨err, _, herr⟩ => by
    rw [hparse] at herr
    cases herr
  have hinit : (parserInit (halfEntry.drop 3)).check = .ok ⟨halfEntry.drop 3, 1, 31, CborMapType,
      false, false, false, true, false, false⟩ := rfl
  have henter : enterContainer ⟨halfEntry.drop 3, 1, 31, CborMapType, false, false, false, true,
      false, false⟩ = .ok (keyAt (halfEntry.drop 4) 4) := rfl
  have htype : parseMsgType (keyAt (halfEntry.drop 4) 4) =
      .ok ("end".toList, keyAt (halfEntry.drop 13) 1) := by decide +kernel
  obtain ⟨-, hcopied⟩ := hwf.unerring _ _ hinit rfl henter
  obtain ⟨-, -, hend⟩ := hcopied _ _ htype
  obtain ⟨content, next, hcopy, -⟩ := hend rfl _ .start rfl rfl
  have herror : (copyString (keyAt (halfEntry.drop 13) 1)).1 = .error .unexpectedBreak := by
    decide +kernel
  rw [hcopy] at herror
  cases herror

end Acceptance

end Stream2
