import ADEiger.Stream2WellFormed

/-! What the entries of a map do to a message.
An entry that was read has the same effect in every other map, and entries for different fields
can change places. -/
namespace Stream2

open CString (Text)
open TinyCbor
open Cbor (Head Str Encloses Item Tags WellFormed)
open Loop (whileLoop readMany Reached)

variable {α μ : Type} {it it' next last value : CborValue} {b item t content : Bytes}
  {bs rest items : List Bytes} {n d : ℕ} {v : α} {e e' : Bytes × Bytes}
  {es es' : List (Bytes × Bytes)} {P : CborValue → Prop}

section Settling

/-- What the cursor keeps as it moves over the items of a container. -/
structure Lasting (P : CborValue → Prop) : Prop where
  follows : ∀ {it t next}, P it → Primed it → Follows it t next → P next
  place : ∀ {it it' : CborValue}, P it → it'.place = it.place → P it'

def Anywhere (_ : CborValue) : Prop := True

/-- The container is of known length. -/
def Counted (it : CborValue) : Prop := it.remaining ≠ UINT32_MAX

theorem anywhere_lasting : Lasting Anywhere := ⟨fun _ _ _ => trivial, fun _ _ => trivial⟩

theorem Counted.follows (h : Counted it) (hit : Primed it) (hnext : Follows it t next) :
    Counted next ∧ next.ptr = t := by
  cases hnext with
  | last _ hended hptr =>
    refine ⟨?_, hptr⟩
    rw [Counted, hended.2]
    decide
  | broken hmax _ _ _ => exact absurd hmax h
  | item _ hprimed hptr hplace =>
    refine ⟨?_, hptr⟩
    have hremaining : next.remaining = it.remaining - 1 :=
      (congrArg Place.remaining hplace).trans (Place.next_remaining h)
    have hcount := hit.counted
    rw [Counted, hremaining]
    omega

theorem counted_lasting : Lasting Counted where
  follows h hit hnext := (h.follows hit hnext).1
  place {it it'} h hplace := by
    have hremaining : it'.remaining = it.remaining := congrArg Place.remaining hplace
    rw [Counted, hremaining]
    exact h

variable {read : CborValue → Except Stream2Error (α × CborValue)}

/-- What is read of the item, wherever `P` holds. -/
def Settles (P : CborValue → Prop) (read : CborValue → Except Stream2Error (α × CborValue))
    (b : Bytes) (v : α) : Prop :=
  ∀ ⦃it rest t⦄, P it → Before it (b :: rest) t →
    ∃ it' u, read it = .ok (v, it') ∧ it.ptr = b ++ u ∧ Follows it u it'

theorem Settles.before (h : Settles P read b v) (hP : Lasting P) (hit : P it)
    (hbefore : Before it (b :: rest) t) :
    ∃ it', read it = .ok (v, it') ∧ P it' ∧ Before it' rest t := by
  obtain ⟨it', u, hread, hptr, hfollows⟩ := h hit hbefore
  obtain ⟨hprimed, u', hptr', -, hstep⟩ := hbefore.step
  obtain rfl := List.append_cancel_left (hptr.symm.trans hptr')
  exact ⟨it', hread, hP.follows hit hprimed hfollows, hstep it' hfollows⟩

theorem Settles.of_yields (h : Yields read [b] v) (hb : WellFormed b)
    (htakes : ∀ {it rest t}, Before it (b :: rest) t → Takes read it) : Settles P read b v := by
  intro it rest t _ hbefore
  obtain ⟨it', hread, -⟩ := h hbefore
  obtain ⟨⟨u, hptr, hfollows⟩, -⟩ := (htakes hbefore).follows hbefore hb hread
  exact ⟨it', u, hread, hptr, hfollows⟩

theorem Settles.store (h : Settles P read b v) (put : α → μ) :
    Settles P (store read put) b (put v) := by
  intro it rest t hit hbefore
  obtain ⟨it', u, hread, hptr, hfollows⟩ := h hit hbefore
  refine ⟨it', u, ?_, hptr, hfollows⟩
  rw [Stream2.store, hread]
  rfl

/-- A reader reads the same of the item it has read. -/
theorem Reader.settles (h : Reader Standing 1 read) (hit : Standing it) (hb : WellFormed b)
    (hbefore : Before it (b :: rest) t) (hread : read it = .ok (v, it')) :
    Settles P read b v := by
  obtain ⟨-, b', u, hptr, hb', -, hyields⟩ := h.item hit hread
  obtain ⟨-, u', hptr', -⟩ := hbefore.step
  obtain rfl := hb.unique hb' (hptr'.symm.trans hptr)
  exact Settles.of_yields hyields hb fun hbefore' => h.takes hbefore'.standing

/-- Over an item that is not tagged, and is not nested too deeply. -/
theorem advance_settles {f : CborValue → CborValue → α}
    (hitem : Item Fits CBOR_PARSER_MAX_RECURSIONS b) (htag : it.type ≠ CborTagType)
    (hbefore : Before it (b :: rest) t)
    (hf : ∀ {it u next}, P it → Primed it → it.ptr = b ++ u → Follows it u next → f it next = v) :
    Settles P (fun it => lift (advance it) >>= fun next => .ok (f it next, next)) b v := by
  intro it₂ rest₂ t₂ hit₂ hbefore₂
  obtain ⟨hprimed, u, hptr, -⟩ := hbefore.step
  obtain ⟨hprimed₂, u₂, hptr₂, ⟨last, hlast⟩, -⟩ := hbefore₂.step
  have htype : it.type = it₂.type :=
    congrArg Reading.type (primed_same hprimed.read hprimed₂.read hptr hptr₂ hitem.wellFormed)
  obtain ⟨moved, hmoved, hfollows⟩ :=
    advance_complete hitem hprimed₂ hptr₂ (by rwa [← htype]) hlast
  refine ⟨moved, u₂, ?_, hptr₂, hfollows⟩
  dsimp only
  rw [hmoved, ← hf hit₂ hprimed₂ hptr₂ hfollows]
  rfl

end Settling

section Entries

variable {verified : Option Text} {slots : List (Slot μ)} {msg msg' mid : μ}

/-- What an entry does to a message: its value is stored, or it is skipped. -/
inductive Applies (P : CborValue → Prop) (verified : Option Text) (slots : List (Slot μ))
    (e : Bytes × Bytes) : μ → μ → Prop where
  | known {slot : Slot μ} {content item : Bytes} {v : slot.Value} {msg : μ} : slot ∈ slots →
      Str Cbor.textString content e.1 → keyText content = slot.key →
      Carries verified slot.key e.2 item → Settles P (slot.read (slot.get msg)) item v →
      Applies P verified slots e msg (slot.put v msg)
  | unknown {content : Bytes} {msg : μ} : Str Cbor.textString content e.1 →
      keyText content ∉ slots.map (·.key) → Item Fits CBOR_PARSER_MAX_RECURSIONS e.2 →
      Applies P verified slots e msg msg

/-- A table of slots: the keys differ, and the key whose tags are looked at is one of them. -/
structure Table (verified : Option Text) (slots : List (Slot μ)) : Prop where
  keys : (slots.map (·.key)).Nodup
  verified : ∀ key, verified = some key → key ∈ slots.map (·.key)

theorem skip_settles (hitem : Item Fits CBOR_PARSER_MAX_RECURSIONS b)
    (htag : it.type ≠ CborTagType) (hbefore : Before it (b :: rest) t) (msg : μ) :
    Settles P (skip msg) b msg :=
  advance_settles (f := fun _ _ => msg) hitem htag hbefore fun _ _ _ _ => rfl

/-- The key and the tags of an entry are passed. -/
theorem parseEntry_settles (hP : Lasting P) (hs : Str Cbor.textString content e.1)
    (hcarries : Carries verified (keyText content) e.2 item)
    {field : Text → μ → CborValue → Except Stream2Error (μ × CborValue)}
    (hfield : ∀ {value rest t}, Ready verified (keyText content) value →
      Before value (item :: rest) t → Settles P (field (keyText content) msg) item msg')
    (hit : P it) (hbefore : Before it (e.1 :: e.2 :: rest) t) :
    ∃ it', parseEntry verified field (msg, it) = .ok (msg', it') ∧ P it' ∧ Before it' rest t := by
  have hprimed := hbefore.step.1
  obtain ⟨htype, next, hcopy, hnext⟩ := hbefore.copyString hs (.inl rfl)
  obtain ⟨_, _, -, -, hfollows⟩ := copyString_sound hprimed (.inl htype) hcopy
  obtain ⟨value, hvalue, hready, hplace, hrest⟩ := hcarries hnext
  have hnextP := hP.follows hit hprimed hfollows
  have hsettles : Settles P (field (keyText content) msg) item msg' := hfield hready hrest
  obtain ⟨it', hread, hit', hlast⟩ := hsettles.before hP (hP.place hnextP hplace) hrest
  refine ⟨it', ?_, hit', hlast⟩
  rw [parseEntry_eq htype hcopy, hvalue]
  exact hread

theorem Applies.parseEntry (hP : Lasting P) (htable : Table verified slots)
    (h : Applies P verified slots e msg msg') (hit : P it)
    (hbefore : Before it (e.1 :: e.2 :: rest) t) :
    ∃ it', parseEntry verified (dispatch slots) (msg, it) = .ok (msg', it') ∧ P it' ∧
      Before it' rest t := by
  cases h with
  | known hslot hs hkey hcarries hsettles =>
    rw [← hkey] at hcarries
    refine parseEntry_settles hP hs hcarries (fun _ _ => ?_) hit hbefore
    rw [hkey, dispatch_known hslot htable.keys]
    exact hsettles.store _
  | @unknown content _ hs hkey hfits =>
    obtain ⟨item, hitem, hcarries⟩ := exists_carried verified (keyText content) hfits
    refine parseEntry_settles hP hs hcarries (fun hready hvalue => ?_) hit hbefore
    rw [dispatch_unknown hkey]
    exact skip_settles hitem (hready.untagged fun h => hkey (htable.verified _ h)) hvalue msg

/-- What is read of a well-formed value is read of it in every other map. -/
def Slot.Settled (P : CborValue → Prop) (verified : Option Text) (slot : Slot μ) : Prop :=
  ∀ {msg value item rest t v it'}, P value → Ready verified slot.key value →
    Before value (item :: rest) t → WellFormed item →
      slot.read (slot.get msg) value = .ok (v, it') → Settles P (slot.read (slot.get msg)) item v

theorem applies_of_parseEntry (hP : Lasting P) (htable : Table verified slots)
    (hslots : ∀ slot ∈ slots, slot.Settled P verified) (hk : WellFormed e.1) (hb : WellFormed e.2)
    (hit : P it) (hbefore : Before it (e.1 :: e.2 :: rest) t)
    (hentry : parseEntry verified (dispatch slots) (msg, it) = .ok (msg', it')) :
    Applies P verified slots e msg msg' := by
  by_cases htype : it.type = CborTextStringType
  · obtain ⟨content, hs⟩ := key_str hk hbefore htype
    have hprimed := hbefore.step.1
    obtain ⟨-, next, hcopy, hnext⟩ := hbefore.copyString hs (.inl rfl)
    obtain ⟨_, _, -, -, hfollows⟩ := copyString_sound hprimed (.inl htype) hcopy
    rw [parseEntry_eq htype hcopy] at hentry
    obtain ⟨value, hvalue, hread⟩ := Loop.bind_ok hentry
    obtain ⟨d, hb'⟩ := hb
    obtain ⟨item, hitem, hcarries⟩ := exists_carried verified (keyText content) hb'
    obtain ⟨value', hvalue', hready, hplace, hrest⟩ := hcarries hnext
    obtain rfl := Except.ok.inj (hvalue.symm.trans hvalue')
    have hvalueP := hP.place (hP.follows hit hprimed hfollows) hplace
    rcases dispatch_cases htable.keys (keyText content) with
      ⟨slot, hslot, hkey, hdispatch⟩ | ⟨hno, hdispatch⟩
    · rw [hdispatch] at hread
      obtain ⟨⟨v, last⟩, hv, hread⟩ := Loop.bind_ok hread
      obtain ⟨rfl, rfl⟩ := Prod.mk.inj (Except.ok.inj hread)
      rw [← hkey] at hcarries hready
      exact .known hslot hs hkey.symm hcarries
        (hslots slot hslot hvalueP hready hrest ⟨d, hitem⟩ hv)
    · rw [hdispatch] at hread
      obtain ⟨last, hlast, hread⟩ := Loop.bind_ok hread
      obtain ⟨rfl, rfl⟩ := Prod.mk.inj (Except.ok.inj hread)
      have htag := hready.untagged fun h => hno (htable.verified _ h)
      obtain ⟨b, u, hptr, hfits, -⟩ := advance_sound hready.primed htag (lift_ok hlast)
      obtain ⟨hskipped, -⟩ := skipTags_sound hnext.step.1 hvalue
      obtain ⟨tags, htags, htags'⟩ := hskipped.bytes
      obtain ⟨-, u', hptr', -⟩ := hnext.step
      have hfits' := htags'.item hfits
      have hwf : WellFormed e.2 := ⟨d, hb'⟩
      have hbytes : next.ptr = (tags ++ b) ++ u := by rw [htags, hptr, List.append_assoc]
      have heq : e.2 = tags ++ b := hwf.unique hfits'.wellFormed (hptr'.symm.trans hbytes)
      rw [← heq] at hfits'
      exact .unknown hs hno hfits'
  · rw [parseEntry_type htype] at hentry
    cases hentry

/-- What the entries do one after the other. -/
inductive Runs (P : CborValue → Prop) (verified : Option Text) (slots : List (Slot μ)) :
    μ → List (Bytes × Bytes) → μ → Prop where
  | nil (msg : μ) : Runs P verified slots msg [] msg
  | cons {e : Bytes × Bytes} {es : List (Bytes × Bytes)} {msg mid msg' : μ} :
      Applies P verified slots e msg mid → Runs P verified slots mid es msg' →
      Runs P verified slots msg (e :: es) msg'

theorem Runs.append (h : Runs P verified slots msg es mid)
    (h' : Runs P verified slots mid es' msg') :
    Runs P verified slots msg (es ++ es') msg' := by
  induction h with
  | nil _ => exact h'
  | cons he _ ih => exact .cons he (ih h')

/-- A loop that ends is a run of the well-formed entries. -/
theorem runs_of_parseEntries (hP : Lasting P) (htable : Table verified slots)
    (hslots : ∀ slot ∈ slots, slot.Settled P verified)
    (hreads : ∀ key msg, Reads (dispatch slots key msg))
    (hwf : ∀ item ∈ itemsOf es, WellFormed item) (hit : P it) (h : Before it (itemsOf es) t)
    (hparse : parseEntries verified (dispatch slots) msg it = .ok (msg', last)) :
    Runs P verified slots msg es msg' := by
  induction es generalizing msg it with
  | nil =>
    have hended := (before_nil_iff.mp h).1
    have hinvalid : it.isValid ≠ true := by
      rw [CborValue.isValid, hended.1]
      decide
    rw [parseEntries_eq hreads msg h.standing.fresh, if_neg hinvalid] at hparse
    obtain ⟨rfl, -⟩ := Prod.mk.inj (Except.ok.inj hparse)
    exact .nil _
  | cons e es ih =>
    have hcons : itemsOf (e :: es) = e.1 :: e.2 :: itemsOf es := rfl
    rw [hcons] at hwf h
    obtain ⟨hk, hwf⟩ := List.forall_mem_cons.mp hwf
    obtain ⟨hb, hwf⟩ := List.forall_mem_cons.mp hwf
    have hvalid : it.isValid = true := by
      rw [CborValue.isValid, bne_iff_ne]
      exact primed_valid h.step.1
    rw [parseEntries_eq hreads msg h.standing.fresh, if_pos hvalid] at hparse
    obtain ⟨⟨mid, next⟩, hentry, hparse⟩ := Loop.bind_ok hparse
    have happlies := applies_of_parseEntry hP htable hslots hk hb hit h hentry
    obtain ⟨next', hentry', hnextP, hnext⟩ := happlies.parseEntry hP htable hit h
    obtain ⟨-, rfl⟩ := Prod.mk.inj (Except.ok.inj (hentry.symm.trans hentry'))
    exact .cons happlies (ih hwf hnextP hnext hparse)

theorem Runs.parseEntries (hP : Lasting P) (htable : Table verified slots)
    (hreads : ∀ key msg, Reads (dispatch slots key msg)) (h : Runs P verified slots msg es msg')
    (hit : P it) (hbefore : Before it (itemsOf es) t) :
    ∃ last, parseEntries verified (dispatch slots) msg it = .ok (msg', last) ∧
      Before last [] t := by
  induction h generalizing it with
  | nil msg =>
    have hended := (before_nil_iff.mp hbefore).1
    refine ⟨it, ?_, hbefore⟩
    rw [parseEntries_eq hreads msg hbefore.standing.fresh, if_neg]
    rw [CborValue.isValid, hended.1]
    decide
  | cons he _ ih =>
    have hvalid : it.isValid = true := by
      rw [CborValue.isValid, bne_iff_ne]
      exact primed_valid hbefore.step.1
    obtain ⟨next, hentry, hnextP, hnext⟩ := he.parseEntry hP htable hit hbefore
    obtain ⟨last, hparse, hlast⟩ := ih hnextP hnext
    refine ⟨last, ?_, hlast⟩
    rw [parseEntries_eq hreads _ hbefore.standing.fresh, if_pos hvalid, hentry]
    exact hparse

theorem exists_entries : ∀ {items : List Bytes}, Even items.length → ∃ es, items = itemsOf es
  | [], _ => ⟨[], rfl⟩
  | [_], heven => absurd heven (by decide : ¬ Even 1)
  | k :: b :: rest, heven => by
    rw [List.length_cons, List.length_cons, Nat.even_add_one, Nat.even_add_one, not_not] at heven
    obtain ⟨es, rfl⟩ := exists_entries heven
    exact ⟨(k, b) :: es, rfl⟩

end Entries

section Maps

variable {slots : List (Slot μ)} {msg msg' : μ}

theorem parseMap_yields (htable : Table none slots)
    (hslots : ∀ slot ∈ slots, slot.Settled Anywhere none)
    (hreads : ∀ key msg, Reads (dispatch slots key msg)) (hb : WellFormed b)
    (h : Before it (b :: rest) t) (hparse : parseMap (dispatch slots) msg it = .ok (msg', it')) :
    Yields (parseMap (dispatch slots) msg) [b] msg' := by
  obtain ⟨htype, hparse⟩ := Loop.guard_ok hparse
  obtain ⟨elt, henter, hparse⟩ := Loop.bind_ok hparse
  obtain ⟨⟨mid, last⟩, hentries, hparse⟩ := Loop.bind_ok hparse
  obtain ⟨next, -, hparse⟩ := Loop.bind_ok hparse
  obtain ⟨rfl, rfl⟩ := Prod.mk.inj (Except.ok.inj hparse)
  obtain ⟨items, u, he, hwf, hbefore⟩ := h.entries hb (not_not.mp htype) (lift_ok henter)
  obtain ⟨es, rfl⟩ := exists_entries he.even
  have hruns :=
    runs_of_parseEntries anywhere_lasting htable hslots hreads hwf trivial hbefore hentries
  intro it₂ rest₂ t₂ h₂
  obtain ⟨-, htype₂, u₂, elt₂, -, henter₂, hbefore₂, hleave₂⟩ := h₂.enter (.inr rfl) he hwf
  obtain ⟨last₂, hentries₂, hlast₂⟩ :=
    hruns.parseEntries anywhere_lasting htable hreads trivial hbefore₂
  obtain ⟨hended₂, hptr₂⟩ := before_nil_iff.mp hlast₂
  obtain ⟨moved, hmoved, hafter⟩ := hleave₂ last₂ hended₂ hptr₂
  refine ⟨moved, ?_, hafter⟩
  rw [parseMap, if_neg (not_not.mpr htype₂), henter₂]
  show (parseEntries none (dispatch slots) msg elt₂ >>= _) = _
  rw [hentries₂, Loop.ok_bind]
  dsimp only
  rw [hmoved]
  rfl

end Maps

section Tables

variable {verified : Option Text}

theorem Slot.settled_of {key : Text} {read : CborValue → Except Stream2Error (α × CborValue)}
    {put : α → μ → μ} (h : Reader Standing 1 read) :
    (Slot.of key read put).Settled P verified :=
  fun _ hready hbefore hb hread => h.settles (.inl hready.primed) hb hbefore hread

theorem axisTable : Table none axisSlots := ⟨by decide +kernel, fun _ h => by cases h⟩

theorem axis_settled : ∀ slot ∈ axisSlots, slot.Settled P verified := by
  simp only [axisSlots, List.forall_mem_cons]
  exact ⟨Slot.settled_of parseDouble_reader, Slot.settled_of parseDouble_reader,
    List.forall_mem_nil _⟩

theorem parseGoniometerAxis_settles {axis axis' : GoniometerAxis} (hb : WellFormed b)
    (hbefore : Before it (b :: rest) t) (h : parseGoniometerAxis axis it = .ok (axis', it')) :
    Settles P (parseGoniometerAxis axis) b axis' := by
  refine Settles.of_yields (parseMap_yields axisTable axis_settled axis_reads hb hbefore h) hb
    fun hbefore' => parseGoniometerAxis_takes hbefore'.step.1 ?_
  exact mapCopied_of_wellFormed axis_take anything_of_wellFormed hb hbefore'

theorem goniometerTable : Table none goniometerSlots :=
  ⟨by decide +kernel, fun _ h => by cases h⟩

theorem goniometer_settled : ∀ slot ∈ goniometerSlots, slot.Settled P verified := by
  simp only [goniometerSlots, List.forall_mem_cons]
  refine ⟨?_, ?_, ?_, ?_, ?_, List.forall_mem_nil _⟩
  all_goals exact fun _ _ hbefore hb hread => parseGoniometerAxis_settles hb hbefore hread

theorem parseGoniometer_settles {g g' : Goniometer} (hb : WellFormed b)
    (hbefore : Before it (b :: rest) t) (h : parseGoniometer g it = .ok (g', it')) :
    Settles P (parseGoniometer g) b g' := by
  refine Settles.of_yields
    (parseMap_yields goniometerTable goniometer_settled goniometer_reads hb hbefore h) hb
    fun hbefore' => parseGoniometer_takes hbefore'.step.1 ?_
  exact mapCopied_of_wellFormed goniometer_take axesCopied_of_wellFormed hb hbefore'

/-- In a map of known length the data of the user are the bytes of the item. -/
theorem parseUserData_settles {data : Bytes} (hb : WellFormed b) (htag : it.type ≠ CborTagType)
    (hcounted : Counted it) (hbefore : Before it (b :: rest) t)
    (h : parseUserData it = .ok (data, it')) : Settles Counted parseUserData b data := by
  have hbytes : ∀ {it : CborValue} {u next}, Counted it → Primed it → it.ptr = b ++ u →
      Follows it u next → it.ptr.take (it.ptr.length - next.ptr.length) = b := by
    intro it u next hit hprimed hptr hnext
    rw [(hit.follows hprimed hnext).2, hptr, List.length_append, Nat.add_sub_cancel,
      List.take_left]
  obtain ⟨hprimed, u, hptr, -⟩ := hbefore.step
  obtain ⟨next, hnext, h⟩ := Loop.bind_ok h
  obtain ⟨rfl, rfl⟩ := Prod.mk.inj (Except.ok.inj h)
  obtain ⟨b', u', hptr', hfits, hfollows⟩ := advance_sound hprimed htag (lift_ok hnext)
  obtain rfl := hb.unique hfits.wellFormed (hptr.symm.trans hptr')
  rw [hbytes hcounted hprimed hptr' hfollows]
  exact advance_settles hfits htag hbefore fun hit => hbytes hit

theorem startTable : Table (some LOOKUP_TABLE) startSlots := by
  refine ⟨startSlots_nodup, fun key h => ?_⟩
  obtain rfl := Option.some.inj h
  decide +kernel

theorem start_settled : ∀ slot ∈ startSlots, slot.Settled Counted (some LOOKUP_TABLE) := by
  simp only [startSlots, List.forall_mem_cons]
  repeat' apply And.intro
  all_goals first
    | exact Slot.settled_of parseDouble_reader
    | exact Slot.settled_of parseTextString_reader
    | exact Slot.settled_of parseUint64_reader
    | exact Slot.settled_of parseBool_reader
    | exact Slot.settled_of (parseChannels_reader parseMultidimArray_reader)
    | exact Slot.settled_of (parseChannels_reader parseDouble_reader)
    | exact Slot.settled_of parseChannelNames_reader
    | exact Slot.settled_of parseTypedArray_reader
    | exact Slot.settled_of parseTranslation_reader
    | exact fun _ _ hbefore hb hread => parseGoniometer_settles hb hbefore hread
    | exact fun hcounted hready hbefore hb hread => parseUserData_settles hb
        (hready.untagged (by decide +kernel)) hcounted hbefore hread
    | exact List.forall_mem_nil _

theorem imageTable : Table none imageSlots := ⟨imageSlots_nodup, fun _ h => by cases h⟩

theorem image_settled : ∀ slot ∈ imageSlots, slot.Settled Counted none := by
  simp only [imageSlots, List.forall_mem_cons]
  repeat' apply And.intro
  all_goals first
    | exact Slot.settled_of parseUint64_reader
    | exact Slot.settled_of parseTextString_reader
    | exact Slot.settled_of parseArray2Uint64_reader
    | exact Slot.settled_of (parseChannels_reader parseMultidimArray_reader)
    | exact fun hcounted hready hbefore hb hread => parseUserData_settles hb
        (hready.untagged (by decide)) hcounted hbefore hread
    | exact List.forall_mem_nil _

theorem endTable : Table none endSlots := ⟨by decide +kernel, fun _ h => by cases h⟩

theorem end_settled : ∀ slot ∈ endSlots, slot.Settled P verified := by
  simp only [endSlots, List.forall_mem_cons]
  exact ⟨Slot.settled_of parseUint64_reader, Slot.settled_of parseTextString_reader,
    List.forall_mem_nil _⟩

end Tables

end Stream2
