import ADEiger.Stream2Readers

/-! The entries of a map: the key, the tags that are skipped, and the value.
As long as every key is copied without an error, the cursor moves over whole entries. -/
namespace Stream2

open CString (Text)
open TinyCbor
open Cbor (Head Str Encloses Item Tags WellFormed)
open Loop (whileLoop readMany Reached)

variable {α μ : Type} {it it' next last value : CborValue} {b t content : Bytes}
  {bs rest : List Bytes} {n d : ℕ} {v : α}

section Tags

/-- The cursor behind the tags. -/
structure Skipped (it value : CborValue) : Prop where
  primed : Primed value
  place : value.place = it.place
  bytes : ∃ tags, it.ptr = tags ++ value.ptr ∧ Tags tags

theorem Skipped.refl (hit : Primed it) : Skipped it it :=
  ⟨hit, rfl, [], rfl, .none⟩

theorem Skipped.step (h : Skipped it next) (htag : next.type = CborTagType)
    (hnext : advanceFixed next = .ok it') : Skipped it it' := by
  obtain ⟨tags, hptr, htags⟩ := h.bytes
  rw [advanceFixed_eq h.primed (by rw [htag]; rfl)] at hnext
  obtain ⟨n, head, t, hh, hptr', -, huntagged⟩ := advanceInternal_tag h.primed htag hnext
  refine ⟨huntagged.primed, huntagged.place.trans h.place, tags ++ head, ?_, htags.more hh⟩
  rw [hptr, hptr', huntagged.ptr, List.append_assoc]

theorem isTag_iff : isTag it = true ↔ it.type = CborTagType := beq_iff_eq

theorem skipTag_sound (hit : Primed it) (h : skipTag it = .ok value) :
    Skipped it value ∧ value.type ≠ CborTagType := by
  obtain ⟨hskipped, hend⟩ := Loop.whileLoop_invariant (P := Skipped it)
    (fun _ _ hs hc hb => hs.step (isTag_iff.mp hc) hb) (Skipped.refl hit) h
  refine ⟨hskipped, fun htag => ?_⟩
  rw [isTag_iff.mpr htag] at hend
  cases hend

theorem skipTag_total (hit : Primed it) : skipTag it ≠ .error .aborted := by
  intro h
  have hd : Loop.Decreasing Primed isTag advanceFixed (·.ptr.length) :=
    ⟨fun s s' hs hc hb => ((Skipped.refl hs).step (isTag_iff.mp hc) hb).primed,
      fun _ _ _ _ hb => (advanceFixed_spec hb).1⟩
  obtain ⟨s, hs, hc, herror⟩ := Loop.whileLoop_error hd hit h
  have htype : isFixedType s.type = true := by
    rw [isTag_iff.mp hc]
    rfl
  rw [advanceFixed_eq hs htype] at herror
  exact advanceInternal_total hs htype herror

/-- What is behind the tags of an item, wherever the item is. -/
def Behind (fits : UInt8 → ℕ → Prop) (d : ℕ) (b item : Bytes) : Prop :=
  Item fits d item ∧ ∀ {it rest t}, Before it (b :: rest) t → ∃ value, skipTag it = .ok value ∧
    value.type ≠ CborTagType ∧ Before value (item :: rest) t

variable {fits : UInt8 → ℕ → Prop} {item : Bytes}

theorem tags_behind {m : UInt8} {p : ℕ → Prop} {tags : Bytes} (ht : Tags tags)
    (h : Item fits d item) (hb : Cbor.Begins m p item) (hm : m ≠ Cbor.tag) :
    Behind fits d (tags ++ item) item := by
  refine ⟨h, ?_⟩
  induction ht with
  | none =>
    intro it rest t hbefore
    obtain ⟨hprimed, u, hptr, -⟩ := hbefore.step
    have htype : it.type ≠ CborTagType := by
      intro htag
      have hbegins := begins_type hprimed h hptr (.inr htag)
      rw [htag] at hbegins
      exact hm (hb.major_eq hbegins)
    refine ⟨it, ?_, htype, hbefore⟩
    rw [skipTag_eq, if_neg (mt isTag_iff.mp htype)]
  | tag hh ht ih =>
    intro it rest t hbefore
    rw [List.append_assoc] at hbefore
    have hprimed := hbefore.step.1
    obtain ⟨htype, -, next, hnext, hrest⟩ := hbefore.untag hh (ht.wellFormed h.wellFormed)
    obtain ⟨value, hvalue, huntagged⟩ := ih hrest
    have hfixed : isFixedType it.type = true := by
      rw [htype]
      rfl
    refine ⟨value, ?_, huntagged⟩
    rw [skipTag_eq, if_pos (isTag_iff.mpr htype), advanceFixed_eq hprimed hfixed, hnext]
    exact hvalue

theorem exists_behind (h : Item fits d b) : ∃ item, Behind fits d b item := by
  have huntagged : ∃ tags item m, b = tags ++ item ∧ Tags tags ∧ Item fits d item ∧
      Cbor.Begins m (fun _ => True) item ∧ m ≠ Cbor.tag := by
    induction h with
    | number hm hh =>
      exact ⟨[], _, _, rfl, .none, .number hm hh, hh.begins.weaken fun _ _ => trivial,
        by rcases hm with rfl | rfl <;> decide⟩
    | string hm hs =>
      exact ⟨[], _, _, rfl, .none, .string hm hs, hs.begins,
        by rcases hm with rfl | rfl <;> decide⟩
    | container hm he hitems _ =>
      exact ⟨[], _, _, rfl, .none, .container hm he hitems, he.begins,
        by rcases hm with rfl | rfl <;> decide⟩
    | tagged hh hb ih =>
      obtain ⟨tags, item, m, rfl, htags, hitem, hbegins, hm⟩ := ih
      exact ⟨_, item, m, (List.append_assoc _ _ _).symm, .tag hh htags, hitem, hbegins, hm⟩
    | simple hh hn =>
      exact ⟨[], _, _, rfl, .none, .simple hh hn, hh.begins.weaken fun _ _ => trivial, by decide⟩
  obtain ⟨tags, item, m, rfl, htags, hitem, hbegins, hm⟩ := huntagged
  exact ⟨item, tags_behind htags hitem hbegins hm⟩

end Tags

section Values

variable {read : CborValue → Except Stream2Error (α × CborValue)}

/-- Where the cursor is, one item is read. -/
structure Takes (read : CborValue → Except Stream2Error (α × CborValue)) (it : CborValue) :
    Prop where
  item : ∀ {v it'}, read it = .ok (v, it') →
    ∃ b t, it.ptr = b ++ t ∧ WellFormed b ∧ Follows it t it'
  total : read it ≠ .error .aborted

theorem Reader.takes {At : CborValue → Prop} (h : Reader At 1 read) (hit : At it) :
    Takes read it where
  item hread := by
    obtain ⟨-, b, t, hptr, hb, hfollows, -⟩ := h.item hit hread
    exact ⟨b, t, hptr, hb, hfollows⟩
  total := h.total hit

theorem Takes.store (h : Takes read it) (put : α → μ) : Takes (store read put) it where
  item {v it'} hread := by
    obtain ⟨⟨a, next⟩, ha, hread⟩ := Loop.bind_ok hread
    obtain ⟨-, rfl⟩ := Prod.mk.inj (Except.ok.inj hread)
    exact h.item ha
  total := Loop.bind_ne h.total fun _ _ h => by cases h

/-- Whatever is made of the bytes that are skipped. -/
theorem takes_advance (hit : Primed it) (htag : it.type ≠ CborTagType)
    (f : CborValue → CborValue → α) :
    Takes (fun it => lift (advance it) >>= fun next => .ok (f it next, next)) it where
  item {v it'} hread := by
    obtain ⟨next, hnext, hread⟩ := Loop.bind_ok hread
    obtain ⟨-, rfl⟩ := Prod.mk.inj (Except.ok.inj hread)
    obtain ⟨b, t, hptr, hb, hfollows⟩ := advance_sound hit htag (lift_ok hnext)
    exact ⟨b, t, hptr, hb.wellFormed, hfollows⟩
  total := Loop.bind_ne (lift_ne (advance_total hit)) fun _ _ h => by cases h

theorem skip_takes (hit : Primed it) (htag : it.type ≠ CborTagType) (msg : μ) :
    Takes (skip msg) it := takes_advance hit htag fun _ _ => msg

theorem parseUserData_takes (hit : Primed it) (htag : it.type ≠ CborTagType) :
    Takes parseUserData it :=
  takes_advance hit htag fun it next => it.ptr.take (it.ptr.length - next.ptr.length)

/-- An item that is well formed is the one that is read. -/
theorem Takes.follows (h : Takes read it) (hbefore : Before it (b :: rest) t) (hb : WellFormed b)
    (hread : read it = .ok (v, it')) :
    (∃ u, it.ptr = b ++ u ∧ Follows it u it') ∧ Before it' rest t := by
  obtain ⟨b', u, hptr, hb', hfollows⟩ := h.item hread
  obtain ⟨-, u', hptr', -, hstep⟩ := hbefore.step
  have heq : b ++ u' = b' ++ u := hptr'.symm.trans hptr
  obtain rfl := hb.unique hb' heq
  obtain rfl := List.append_cancel_left heq
  exact ⟨⟨u', hptr, hfollows⟩, hstep it' hfollows⟩

/-- Where the value of a key begins: at a tag only if the tag is looked at. -/
structure Ready (verified : Option Text) (key : Text) (value : CborValue) : Prop where
  primed : Primed value
  untagged : verified ≠ some key → value.type ≠ CborTagType

variable {verified : Option Text} {key : Text}

theorem skipTags_sound (hit : Primed it) (h : skipTags verified key it = .ok value) :
    Skipped it value ∧ Ready verified key value := by
  rw [skipTags] at h
  split_ifs at h with hkey
  · obtain rfl := Except.ok.inj h
    exact ⟨Skipped.refl hit, hit, fun hne => absurd hkey hne⟩
  · obtain ⟨hskipped, htag⟩ := skipTag_sound hit (lift_ok h)
    exact ⟨hskipped, hskipped.primed, fun _ => htag⟩

theorem skipTags_total (hit : Primed it) : skipTags verified key it ≠ .error .aborted := by
  rw [skipTags]
  split_ifs
  · exact fun h => by cases h
  · exact lift_ne (skipTag_total hit)

theorem Skipped.item (h : Skipped it value) (hread : Takes read value)
    (hvalue : read value = .ok (v, it')) :
    ∃ b t, it.ptr = b ++ t ∧ WellFormed b ∧ Follows it t it' := by
  obtain ⟨tags, hptr, htags⟩ := h.bytes
  obtain ⟨b, t, hb, hb', hfollows⟩ := hread.item hvalue
  exact ⟨tags ++ b, t, by rw [hptr, hb, List.append_assoc], htags.wellFormed hb',
    hfollows.of_place h.place.symm⟩

end Values

section Keys

/-- A key as it is compared; one that is too long is the empty one. -/
def keyText (content : Bytes) : Text :=
  if content.length < MAX_KEY_LEN then cstring content else []

theorem parseKey_copied (htype : it.type = CborTextStringType)
    (h : copyString it = (.ok content, next)) : parseKey it = .ok (keyText content, next) := by
  rw [parseKey, if_neg (not_not.mpr htype), h]
  rfl

/-- The cursor is at a key of a map. -/
structure AtKey (it : CborValue) : Prop where
  primed : Primed it
  map : it.containerIsMap = true
  counted : it.remaining ≠ UINT32_MAX → Even it.remaining
  uncounted : it.remaining = UINT32_MAX → it.nextIsMapKey = false

def EntryPoint (it : CborValue) : Prop := AtKey it ∨ Ended it

/-- A key is followed by its value, and the value by a key or by the end. -/
theorem AtKey.entry (h : AtKey it) (hnext : Follows it t next) :
    Primed next ∧ ∀ {t' last}, Follows next t' last → EntryPoint last := by
  have hcount := h.primed.counted
  cases hnext with
  | last hone _ _ =>
    have heven := h.counted (by rw [hone]; decide)
    rw [hone] at heven
    exact absurd heven (by decide)
  | broken hmax hbreak _ _ =>
    have hkey := hbreak h.map
    rw [h.uncounted hmax] at hkey
    cases hkey
  | item _ hprimed _ hplace =>
    refine ⟨hprimed, fun {t' last} hlast => ?_⟩
    cases hlast with
    | last _ hended _ => exact .inr hended
    | broken _ _ _ hended => exact .inr hended
    | item _ hprimed' _ hplace' =>
      left
      rw [hplace] at hplace'
      have hmap : last.containerIsMap = it.containerIsMap := congrArg Place.containerIsMap hplace'
      have hkey : last.nextIsMapKey = !!it.nextIsMapKey := congrArg Place.nextIsMapKey hplace'
      have hremaining : last.remaining = it.place.next.next.remaining :=
        congrArg Place.remaining hplace'
      by_cases hmax : it.remaining = UINT32_MAX
      · have hmax' : last.remaining = UINT32_MAX := by
          rw [hremaining]
          exact (if_pos (if_pos hmax))
        exact ⟨hprimed', hmap.trans h.map, fun hne => absurd hmax' hne, fun _ => by
          rw [hkey, h.uncounted hmax]
          rfl⟩
      · have hone : it.place.next.remaining = it.remaining - 1 := Place.next_remaining hmax
        have htwo : it.place.next.next.remaining = it.remaining - 1 - 1 := by
          rw [Place.next_remaining (by rw [hone]; omega), hone]
        obtain ⟨r, hr⟩ := h.counted hmax
        refine ⟨hprimed', hmap.trans h.map, fun _ => ?_, fun hmax' => ?_⟩
        · rw [hremaining, htwo]
          exact ⟨r - 1, by omega⟩
        · rw [hremaining, htwo] at hmax'
          omega

theorem entryPoint_of_entered {elt : CborValue} (h : Entered it elt)
    (htype : it.type = CborMapType) : EntryPoint elt := by
  refine h.standing.imp_left fun hprimed => ?_
  obtain ⟨hmap, hkey, hunknown⟩ := h.place hprimed
  refine ⟨hprimed, ?_, fun hne => ?_, fun _ => hkey⟩
  · rw [hmap, htype]
    rfl
  · have hknown : it.unknownLength = false := Bool.eq_false_iff.mpr fun h => hne (hunknown h)
    rw [(h.count hknown).1, htype]
    exact ⟨_, Nat.two_mul _⟩

/-- The items of the entries, each a key and a value. -/
def itemsOf (entries : List (Bytes × Bytes)) : List Bytes :=
  (entries.map fun e => [e.1, e.2]).flatten

/-- The keys are text strings. -/
def TextKeyed (entries : List (Bytes × Bytes)) : Prop :=
  ∀ e ∈ entries, (∃ content, Str Cbor.textString content e.1) ∧ WellFormed e.2

theorem TextKeyed.wellFormed {entries : List (Bytes × Bytes)} (h : TextKeyed entries) :
    ∀ item ∈ itemsOf entries, WellFormed item := by
  intro item hitem
  obtain ⟨pair, hpair, hmem⟩ := List.mem_flatten.mp hitem
  obtain ⟨e, he, rfl⟩ := List.mem_map.mp hpair
  obtain ⟨⟨content, hs⟩, hvalue⟩ := h e he
  rcases List.mem_pair.mp hmem with rfl | rfl
  · exact ⟨0, .string (.inr rfl) hs⟩
  · exact hvalue

end Keys

section Loops

variable {verified : Option Text}
  {field : Text → μ → CborValue → Except Stream2Error (μ × CborValue)}
  {inner : Text → μ → CborValue → Prop} {msg msg' : μ}

/-- The states before the entries of a map. -/
def Met (verified : Option Text)
    (field : Text → μ → CborValue → Except Stream2Error (μ × CborValue)) :
    μ × CborValue → μ × CborValue → Prop :=
  Reached (fun s => s.2.isValid) (parseEntry verified field)

/-- A key that is a text string is copied without an error; `inner` is said of the values. -/
def KeyCopied (verified : Option Text) (inner : Text → μ → CborValue → Prop)
    (s : μ × CborValue) : Prop :=
  s.2.type = CborTextStringType → ∃ content next, copyString s.2 = (.ok content, next) ∧
    ∀ value, skipTags verified (keyText content) next = .ok value →
      inner (keyText content) s.1 value

def KeysCopied (verified : Option Text)
    (field : Text → μ → CborValue → Except Stream2Error (μ × CborValue))
    (inner : Text → μ → CborValue → Prop) (s : μ × CborValue) : Prop :=
  ∀ s', Met verified field s s' → s'.2.isValid = true → KeyCopied verified inner s'

/-- What is asked of the fields: an item is read, if `inner` holds. -/
def FieldsTake (verified : Option Text)
    (field : Text → μ → CborValue → Except Stream2Error (μ × CborValue))
    (inner : Text → μ → CborValue → Prop) : Prop :=
  ∀ {key msg value}, Ready verified key value → inner key msg value → Takes (field key msg) value

theorem parseEntry_eq (htype : it.type = CborTextStringType)
    (hcopy : copyString it = (.ok content, next)) : parseEntry verified field (msg, it) =
      skipTags verified (keyText content) next >>= fun value =>
        field (keyText content) msg value := by
  rw [parseEntry, parseKey_copied htype hcopy]
  rfl

theorem parseEntry_type (htype : it.type ≠ CborTextStringType) :
    parseEntry verified field (msg, it) = .error .parse := by
  rw [parseEntry, parseKey, if_pos htype]
  rfl

theorem parseEntry_sound (hfield : FieldsTake verified field inner) (hit : AtKey it)
    (hcopied : KeyCopied verified inner (msg, it)) :
    parseEntry verified field (msg, it) ≠ .error .aborted ∧
      ∀ {msg' it'}, parseEntry verified field (msg, it) = .ok (msg', it') → EntryPoint it' ∧
        ∃ e, TextKeyed [e] ∧ Passes it (itemsOf [e]) it' := by
  by_cases htype : it.type = CborTextStringType
  · obtain ⟨content, next, hcopy, hinner⟩ := hcopied htype
    obtain ⟨k, t, hk, hptr, hfollows⟩ := copyString_sound hit.primed (.inl htype) hcopy
    obtain ⟨hprimed, hlast⟩ := hit.entry hfollows
    rw [parseEntry_eq htype hcopy]
    refine ⟨Loop.bind_ne (skipTags_total hprimed) fun value hvalue => ?_, fun {msg' it'} h => ?_⟩
    · exact (hfield (skipTags_sound hprimed hvalue).2 (hinner value hvalue)).total
    · obtain ⟨value, hvalue, h⟩ := Loop.bind_ok h
      obtain ⟨hskipped, hready⟩ := skipTags_sound hprimed hvalue
      obtain ⟨b, t', hb, hwf, hfollows'⟩ := hskipped.item (hfield hready (hinner value hvalue)) h
      rw [htype] at hk
      exact ⟨hlast hfollows', (k, b), List.forall_mem_singleton.mpr ⟨⟨content, hk⟩, hwf⟩,
        .cons hit.primed hptr hfollows (.cons hprimed hb hfollows' (.nil it'))⟩
  · rw [parseEntry_type htype]
    exact ⟨fun h => (by cases h), fun h => by cases h⟩

theorem TextKeyed.append {entries entries' : List (Bytes × Bytes)} (h : TextKeyed entries)
    (h' : TextKeyed entries') : TextKeyed (entries ++ entries') :=
  List.forall_mem_append.mpr ⟨h, h'⟩

theorem itemsOf_append (entries entries' : List (Bytes × Bytes)) :
    itemsOf (entries ++ entries') = itemsOf entries ++ itemsOf entries' := by
  rw [itemsOf, List.map_append, List.flatten_append]
  rfl

theorem EntryPoint.standing (h : EntryPoint it) : Standing it := h.imp_left AtKey.primed

theorem EntryPoint.atKey (h : EntryPoint it) (hvalid : it.isValid = true) : AtKey it := by
  refine h.resolve_right fun hended => ?_
  rw [CborValue.isValid, hended.1] at hvalid
  cases hvalid

theorem EntryPoint.ended (h : EntryPoint it) (hvalid : it.isValid = false) : Ended it := by
  refine h.resolve_left fun hkey => primed_valid hkey.primed ?_
  rw [CborValue.isValid, bne_eq_false_iff_eq] at hvalid
  exact hvalid

theorem KeysCopied.met (h : KeysCopied verified field inner (msg, it)) {s : μ × CborValue}
    (hs : Met verified field (msg, it) s) (hfield : FieldsTake verified field inner)
    (hit : EntryPoint it) :
    EntryPoint s.2 ∧ ∃ entries, TextKeyed entries ∧ Passes it (itemsOf entries) s.2 := by
  induction hs with
  | start => exact ⟨hit, [], List.forall_mem_nil _, .nil it⟩
  | step hreached hvalid hentry ih =>
    obtain ⟨hpoint, entries, hkeyed, hpasses⟩ := ih
    obtain ⟨-, hsound⟩ := parseEntry_sound hfield (hpoint.atKey hvalid) (h _ hreached hvalid)
    obtain ⟨hpoint', e, hkeyed', hpasses'⟩ := hsound hentry
    refine ⟨hpoint', entries ++ [e], hkeyed.append hkeyed', ?_⟩
    rw [itemsOf_append]
    exact hpasses.append hpasses'

/-- The loop over the entries moves over whole entries. -/
theorem parseEntries_sound (hreads : ∀ key msg, Reads (field key msg))
    (hfield : FieldsTake verified field inner) (hit : EntryPoint it)
    (hcopied : KeysCopied verified field inner (msg, it)) :
    parseEntries verified field msg it ≠ .error .aborted ∧
      ∀ {msg' last}, parseEntries verified field msg it = .ok (msg', last) → Ended last ∧
        ∃ entries, TextKeyed entries ∧ Passes it (itemsOf entries) last := by
  refine ⟨fun herror => ?_, fun {msg' last} h => ?_⟩
  · obtain ⟨s, hs, hvalid, hstuck⟩ := Loop.whileLoop_error_reached
      (parseEntry_decreasing hreads) hit.standing.fresh herror
    obtain ⟨hpoint, -⟩ := hcopied.met hs hfield hit
    exact (parseEntry_sound hfield (hpoint.atKey hvalid) (hcopied s hs hvalid)).1 hstuck
  · obtain ⟨hs, hend⟩ := Loop.whileLoop_reached h
    obtain ⟨hpoint, hentries⟩ := hcopied.met hs hfield hit
    exact ⟨hpoint.ended hend, hentries⟩

/-- What is asked of a map: every key in it is copied. -/
def MapCopied (field : Text → μ → CborValue → Except Stream2Error (μ × CborValue))
    (inner : Text → μ → CborValue → Prop) (msg : μ) (it : CborValue) : Prop :=
  it.type = CborMapType → ∀ entries, enterContainer it = .ok entries →
    KeysCopied none field inner (msg, entries)

theorem parseMap_takes (hreads : ∀ key msg, Reads (field key msg))
    (hfield : FieldsTake none field inner) (hit : Primed it)
    (hcopied : MapCopied field inner msg it) : Takes (parseMap field msg) it := by
  constructor
  · intro v it' h
    obtain ⟨htype, h⟩ := Loop.guard_ok h
    have htype' := not_not.mp htype
    obtain ⟨elt, henter, h⟩ := Loop.bind_ok h
    obtain ⟨⟨msg', last⟩, hentries, h⟩ := Loop.bind_ok h
    obtain ⟨next, hleave, h⟩ := Loop.bind_ok h
    obtain ⟨-, rfl⟩ := Prod.mk.inj (Except.ok.inj h)
    have hc : IsContainer it.type := .inr htype'
    have hentered := enterContainer_sound hit hc (lift_ok henter)
    obtain ⟨-, hsound⟩ := parseEntries_sound hreads hfield (entryPoint_of_entered hentered htype')
      (hcopied htype' elt (lift_ok henter))
    obtain ⟨hended, entries, hkeyed, hpasses⟩ := hsound hentries
    obtain ⟨b, hptr, -, hwf⟩ := hentered.item hpasses hended hkeyed.wellFormed
    exact ⟨b, last.ptr, hptr, hwf hc, (leaveContainer_sound hit hc (lift_ok hleave)).2⟩
  · rw [parseMap]
    split_ifs with htype
    · exact fun h => by cases h
    have htype' := not_not.mp htype
    have hc : IsContainer it.type := .inr htype'
    refine Loop.bind_ne (lift_ne (enterContainer_total hit hc)) fun elt henter => ?_
    have hentered := enterContainer_sound hit hc (lift_ok henter)
    obtain ⟨htotal, hsound⟩ := parseEntries_sound hreads hfield
      (entryPoint_of_entered hentered htype') (hcopied htype' elt (lift_ok henter))
    refine Loop.bind_ne htotal fun x hx => ?_
    obtain ⟨hended, -⟩ := hsound hx
    exact Loop.bind_ne (lift_ne (leaveContainer_total hended.1)) fun next _ h => by cases h

end Loops

section WellFormed

variable {verified : Option Text}
  {field : Text → μ → CborValue → Except Stream2Error (μ × CborValue)}
  {inner : Text → μ → CborValue → Prop} {msg msg' : μ} {key : Text} {k : Bytes}
  {items : List Bytes}

/-- What is behind the tags that are skipped for a key, wherever the value is. -/
def Carries (verified : Option Text) (key : Text) (b item : Bytes) : Prop :=
  ∀ {it rest t}, Before it (b :: rest) t → ∃ value, skipTags verified key it = .ok value ∧
    Ready verified key value ∧ value.place = it.place ∧ Before value (item :: rest) t

theorem exists_carried {fits : UInt8 → ℕ → Prop} (verified : Option Text) (key : Text)
    (h : Item fits d b) : ∃ item, Item fits d item ∧ Carries verified key b item := by
  by_cases hkey : verified = some key
  · refine ⟨b, h, fun {it _ _} hbefore => ⟨it, if_pos hkey, ?_, rfl, hbefore⟩⟩
    exact ⟨hbefore.step.1, fun hne => absurd hkey hne⟩
  · obtain ⟨item, hitem, hbehind⟩ := exists_behind h
    refine ⟨item, hitem, fun {it _ _} hbefore => ?_⟩
    obtain ⟨value, hskip, -, hrest⟩ := hbehind hbefore
    have hvalue : skipTags verified key it = .ok value := by
      rw [skipTags, if_neg hkey, hskip]
      rfl
    obtain ⟨hskipped, hready⟩ := skipTags_sound hbefore.step.1 hvalue
    exact ⟨value, hvalue, hready, hskipped.place, hrest⟩

/-- What holds of every well-formed value. -/
def OfWellFormed (verified : Option Text) (inner : Text → μ → CborValue → Prop) : Prop :=
  ∀ {key msg value b rest t}, Ready verified key value → Before value (b :: rest) t →
    WellFormed b → inner key msg value

theorem key_str (hk : WellFormed k) (h : Before it (k :: rest) t)
    (htype : it.type = CborTextStringType) : ∃ content, Str Cbor.textString content k := by
  obtain ⟨hprimed, u, hptr, -⟩ := h.step
  obtain ⟨d, hitem⟩ := hk
  have htype' : it.type = Cbor.textString := htype
  have hbegins := begins_type hprimed hitem hptr (.inl (by rw [htype']; rfl))
  rw [htype'] at hbegins
  exact hitem.of_string hbegins (.inr rfl)

theorem keyCopied_of_wellFormed (hinner : OfWellFormed verified inner) (hk : WellFormed k)
    (hb : WellFormed b) (h : Before it (k :: b :: rest) t) :
    KeyCopied verified inner (msg, it) := by
  intro htype
  obtain ⟨content, hs⟩ := key_str hk h htype
  obtain ⟨-, next, hcopy, hnext⟩ := h.copyString hs (.inl rfl)
  refine ⟨content, next, hcopy, fun value hvalue => ?_⟩
  obtain ⟨d, hb'⟩ := hb
  obtain ⟨item, hitem, hcarries⟩ := exists_carried verified (keyText content) hb'
  obtain ⟨value', hvalue', hready, -, hbefore⟩ := hcarries hnext
  obtain rfl := Except.ok.inj (hvalue.symm.trans hvalue')
  exact hinner hready hbefore ⟨d, hitem⟩

/-- An entry that is read is the well-formed one. -/
theorem parseEntry_before (hfield : FieldsTake verified field inner)
    (hinner : OfWellFormed verified inner) (hk : WellFormed k) (hb : WellFormed b)
    (h : Before it (k :: b :: rest) t)
    (hentry : parseEntry verified field (msg, it) = .ok (msg', it')) : Before it' rest t := by
  by_cases htype : it.type = CborTextStringType
  · obtain ⟨content, hs⟩ := key_str hk h htype
    obtain ⟨-, next, hcopy, hnext⟩ := h.copyString hs (.inl rfl)
    rw [parseEntry_eq htype hcopy] at hentry
    obtain ⟨value, hvalue, hread⟩ := Loop.bind_ok hentry
    obtain ⟨d, hb'⟩ := hb
    obtain ⟨item, hitem, hcarries⟩ := exists_carried verified (keyText content) hb'
    obtain ⟨value', hvalue', hready, -, hbefore⟩ := hcarries hnext
    obtain rfl := Except.ok.inj (hvalue.symm.trans hvalue')
    have htakes : Takes (field (keyText content) msg) value :=
      hfield hready (hinner hready hbefore ⟨d, hitem⟩)
    exact (htakes.follows hbefore ⟨d, hitem⟩ hread).2
  · rw [parseEntry_type htype] at hentry
    cases hentry

theorem keysCopied_of_wellFormed (hfield : FieldsTake verified field inner)
    (hinner : OfWellFormed verified inner) (heven : Even items.length)
    (hwf : ∀ item ∈ items, WellFormed item) (h : Before it items t) :
    KeysCopied verified field inner (msg, it) := by
  have hpair : ∀ {items : List Bytes} {it}, Even items.length → Before it items t →
      it.isValid = true → ∃ k b rest, items = k :: b :: rest ∧ Even rest.length := by
    intro items it heven h hvalid
    match items, heven with
    | [], _ =>
      rw [CborValue.isValid, (before_nil_iff.mp h).1.1] at hvalid
      cases hvalid
    | [_], heven => exact absurd heven (by decide : ¬ Even 1)
    | k :: b :: rest, heven =>
      refine ⟨k, b, rest, rfl, ?_⟩
      rw [List.length_cons, List.length_cons, Nat.even_add_one, Nat.even_add_one, not_not] at heven
      exact heven
  have hmet : ∀ s, Met verified field (msg, it) s → ∃ items : List Bytes, Even items.length ∧
      (∀ item ∈ items, WellFormed item) ∧ Before s.2 items t := by
    intro s hs
    refine hs.invariant (P := fun s => ∃ items : List Bytes, Even items.length ∧
      (∀ item ∈ items, WellFormed item) ∧ Before s.2 items t) ?_ ⟨items, heven, hwf, h⟩
    rintro s s' ⟨items, heven, hwf, h⟩ hvalid hentry
    obtain ⟨k, b, rest, rfl, hrest⟩ := hpair heven h hvalid
    obtain ⟨hk, hwf⟩ := List.forall_mem_cons.mp hwf
    obtain ⟨hb, hwf⟩ := List.forall_mem_cons.mp hwf
    exact ⟨rest, hrest, hwf, parseEntry_before hfield hinner hk hb h hentry⟩
  intro s hs hvalid
  obtain ⟨items, heven, hwf, h⟩ := hmet s hs
  obtain ⟨k, b, rest, rfl, -⟩ := hpair heven h hvalid
  obtain ⟨hk, hwf⟩ := List.forall_mem_cons.mp hwf
  obtain ⟨hb, -⟩ := List.forall_mem_cons.mp hwf
  exact keyCopied_of_wellFormed hinner hk hb h

theorem mapCopied_of_wellFormed (hfield : FieldsTake none field inner)
    (hinner : OfWellFormed none inner) (hb : WellFormed b) (h : Before it (b :: rest) t) :
    MapCopied field inner msg it := by
  intro htype elt henter
  obtain ⟨items, u, he, hwf, hbefore⟩ := h.entries hb htype henter
  exact keysCopied_of_wellFormed hfield hinner he.even hwf hbefore

end WellFormed

end Stream2
