import ADEiger.Stream2Runs
import Mathlib.Data.List.Perm.Basic
import Mathlib.Data.List.Pairwise

/-! The order of the fields of a message, and the fields that are not known.
Slots of different fields do not touch each other, so that the entries can change places, and an
entry that is not known can stand anywhere. -/
namespace Stream2

open CString (Text)
open TinyCbor
open Cbor (Head Str Encloses Item Tags WellFormed)

variable {α μ : Type} {it it' next last value : CborValue} {b item t content : Bytes}
  {bs rest items : List Bytes} {n d : ℕ} {v : α} {e e' : Bytes × Bytes}
  {es es' extras : List (Bytes × Bytes)} {P : CborValue → Prop}

section Apart

/-- Neither slot is changed by the other. -/
structure Slot.Apart (slot slot' : Slot μ) : Prop where
  get : ∀ v msg, slot'.get (slot.put v msg) = slot'.get msg
  get' : ∀ v msg, slot.get (slot'.put v msg) = slot.get msg
  put : ∀ v v' msg, slot.put v (slot'.put v' msg) = slot'.put v' (slot.put v msg)

theorem Slot.Apart.symm {slot slot' : Slot μ} (h : slot.Apart slot') : slot'.Apart slot :=
  ⟨h.get', h.get, fun v v' msg => (h.put v' v msg).symm⟩

theorem imageSlots_apart : imageSlots.Pairwise Slot.Apart := by
  simp only [imageSlots, List.pairwise_cons, List.forall_mem_cons]
  repeat' apply And.intro
  all_goals first
    | exact ⟨fun _ _ => rfl, fun _ _ => rfl, fun _ _ _ => rfl⟩
    | exact List.forall_mem_nil _
    | exact List.Pairwise.nil

theorem startSlots_apart : startSlots.Pairwise Slot.Apart := by
  simp only [startSlots, List.pairwise_cons, List.forall_mem_cons]
  repeat' apply And.intro
  all_goals first
    | exact ⟨fun _ _ => rfl, fun _ _ => rfl, fun _ _ _ => rfl⟩
    | exact List.forall_mem_nil _
    | exact List.Pairwise.nil

end Apart

section Order

variable {verified : Option Text} {slots : List (Slot μ)} {msg mid msg' : μ}

instance : Std.Symm (Slot.Apart (μ := μ)) := ⟨fun _ _ h => h.symm⟩

/-- Not two entries for one field. -/
def Different (keys : List Text) (e e' : Bytes × Bytes) : Prop :=
  ∀ ⦃content content'⦄, Str Cbor.textString content e.1 → Str Cbor.textString content' e'.1 →
    keyText content ∈ keys → keyText content ≠ keyText content'

theorem Different.symm {keys : List Text} (h : Different keys e e') : Different keys e' e := by
  intro content content' hs hs' hkey heq
  rw [heq] at hkey
  exact h hs' hs hkey heq.symm

theorem Applies.swap (hapart : slots.Pairwise Slot.Apart) (h : Applies P verified slots e msg mid)
    (h' : Applies P verified slots e' mid msg') (hne : Different (slots.map (·.key)) e e') :
    ∃ other, Applies P verified slots e' msg other ∧ Applies P verified slots e other msg' := by
  cases h with
  | unknown hs hkey hfits => exact ⟨msg', h', .unknown hs hkey hfits⟩
  | @known slot content item v _ hslot hs hkey hcarries hsettles =>
    cases h' with
    | unknown hs' hkey' hfits' =>
      exact ⟨msg, .unknown hs' hkey' hfits', .known hslot hs hkey hcarries hsettles⟩
    | @known slot' content' item' v' _ hslot' hs' hkey' hcarries' hsettles' =>
      have hmem : keyText content ∈ slots.map (·.key) := by
        rw [hkey]
        exact List.mem_map_of_mem hslot
      have hslots : slot ≠ slot' := by
        rintro rfl
        exact hne hs hs' hmem (hkey.trans hkey'.symm)
      obtain ⟨hget, hget', hput⟩ := hapart.forall hslot hslot' hslots
      rw [hget] at hsettles'
      rw [← hget' v' msg] at hsettles
      refine ⟨slot'.put v' msg, .known hslot' hs' hkey' hcarries' hsettles', ?_⟩
      rw [← hput]
      exact .known hslot hs hkey hcarries hsettles

theorem Runs.perm (hapart : slots.Pairwise Slot.Apart) (hperm : es.Perm es')
    (hne : es.Pairwise (Different (slots.map (·.key)))) (h : Runs P verified slots msg es msg') :
    Runs P verified slots msg es' msg' := by
  induction hperm generalizing msg msg' with
  | nil => exact h
  | cons e _ ih =>
    cases h with
    | cons he hes => exact .cons he (ih (List.pairwise_cons.mp hne).2 hes)
  | swap e e' es =>
    cases h with
    | cons he' hes =>
      cases hes with
      | cons he hes =>
        have hdifferent := (List.pairwise_cons.mp hne).1 e List.mem_cons_self
        obtain ⟨other, hother, hother'⟩ := he'.swap hapart he hdifferent
        exact .cons hother (.cons hother' hes)
  | trans hperm _ ih ih' =>
    exact ih' (hperm.pairwise hne Different.symm) (ih hne h)

/-- An entry that is not known, with a value that tinycbor can move over. -/
def Unknown (fits : UInt8 → ℕ → Prop) (keys : List Text) (e : Bytes × Bytes) : Prop :=
  (∃ content, Str Cbor.textString content e.1 ∧ keyText content ∉ keys) ∧
    Item fits CBOR_PARSER_MAX_RECURSIONS e.2

theorem runs_unknown (h : ∀ e ∈ extras, Unknown Fits (slots.map (·.key)) e) (msg : μ) :
    Runs P verified slots msg extras msg := by
  induction extras with
  | nil => exact .nil msg
  | cons e extras ih =>
    obtain ⟨⟨⟨content, hs, hkey⟩, hfits⟩, h⟩ := List.forall_mem_cons.mp h
    exact .cons (.unknown hs hkey hfits) (ih h)

theorem parseEntries_reordered (htable : Table verified slots)
    (hapart : slots.Pairwise Slot.Apart) (hslots : ∀ slot ∈ slots, slot.Settled Counted verified)
    (hreads : ∀ key msg, Reads (dispatch slots key msg))
    (hwf : ∀ item ∈ itemsOf es, WellFormed item) (hit : Counted it) (h : Before it (itemsOf es) t)
    (hparse : parseEntries verified (dispatch slots) msg it = .ok (msg', last))
    (hne : es.Pairwise (Different (slots.map (·.key)))) (hperm : es'.Perm (es ++ extras))
    (hextra : ∀ e ∈ extras, Unknown Fits (slots.map (·.key)) e) {it' : CborValue} {t' : Bytes}
    (hit' : Counted it') (h' : Before it' (itemsOf es') t') :
    ∃ last', parseEntries verified (dispatch slots) msg it' = .ok (msg', last') ∧
      Before last' [] t' := by
  have hruns := runs_of_parseEntries counted_lasting htable hslots hreads hwf hit h hparse
  have hunknown : ∀ x ∈ extras, ∀ e, Different (slots.map (·.key)) e x := by
    intro x hx e content content' _ hs' hkey heq
    obtain ⟨⟨content'', hs'', hno⟩, -⟩ := hextra x hx
    obtain ⟨-, rfl⟩ := hs'.unique hs'' (rfl : x.1 ++ [] = x.1 ++ [])
    rw [heq] at hkey
    exact hno hkey
  have hpairwise : (es ++ extras).Pairwise (Different (slots.map (·.key))) := by
    refine List.pairwise_append.mpr ⟨hne, ?_, fun e _ x hx => hunknown x hx e⟩
    exact List.pairwise_of_forall_mem_list fun e _ x hx => hunknown x hx e
  have hall := (hruns.append (runs_unknown hextra msg')).perm hapart hperm.symm hpairwise
  exact hall.parseEntries counted_lasting htable hreads hit' h'

end Order

section Maps

/-- The map of a message, of known length. -/
inductive Definite (fits : UInt8 → ℕ → Prop) (entries : List (Bytes × Bytes)) : Bytes → Prop where
  | mk {head : Bytes} : Head Cbor.map entries.length head → fits Cbor.map entries.length →
      Definite fits entries (head ++ (itemsOf entries).flatten)

variable {fits : UInt8 → ℕ → Prop} {map : Bytes} {field : CborValue}

theorem itemsOf_length (entries : List (Bytes × Bytes)) :
    (itemsOf entries).length = 2 * entries.length := by
  induction entries with
  | nil => rfl
  | cons e entries ih =>
    have hlen : (itemsOf (e :: entries)).length = (itemsOf entries).length + 2 := rfl
    rw [hlen, ih, List.length_cons]
    omega

theorem Definite.encloses (h : Definite fits es map) : Encloses fits Cbor.map (itemsOf es) map := by
  cases h with
  | mk hh hfits => exact .counted hh hfits (itemsOf_length es)

/-- The cursor at the map of a message. -/
structure Opened (bytes : Bytes) (it : CborValue) : Prop where
  init : (parserInit bytes).check = .ok it
  primed : Primed it
  ptr : it.ptr = bytes
  type : it.type = CborMapType
  one : it.remaining = 1
  known : it.unknownLength = false

theorem Definite.opened (h : Definite fits es map) (rest : Bytes) :
    ∃ it, Opened (map ++ rest) it := by
  cases h with
  | @mk head hh hfits =>
    generalize hbytes : head ++ (itemsOf es).flatten ++ rest = bytes
    have hptr : bytes = head ++ ((itemsOf es).flatten ++ rest) := by
      rw [← hbytes, List.append_assoc]
    have hread : (parserInit bytes).1 = none :=
      preparse_head hh (fun h => absurd h (by decide)) hptr
    have hpair : parserInit bytes = (none, (parserInit bytes).2) := Prod.ext hread rfl
    obtain ⟨hprimed, hbytes', hplace⟩ := primed_of_preparse hpair
      ⟨(by decide : 0 < 1), (by decide : 1 ≤ UINT32_MAX)⟩
    have hone : (parserInit bytes).2.remaining = 1 := congrArg Place.remaining hplace
    obtain ⟨htype, -, -, hknown⟩ := primed_head hprimed.read (hbytes'.trans hptr) hh (by decide)
    refine ⟨_, ?_, hprimed, hbytes', htype, hone, hknown⟩
    rw [hpair]
    rfl

theorem Opened.entered (h : Opened (map ++ t) it) (hmap : Definite fits es map)
    (hwf : ∀ item ∈ itemsOf es, WellFormed item) (henter : enterContainer it = .ok field) :
    Before field (itemsOf es) t ∧ Counted field ∧ EntryPoint field := by
  have hc : IsContainer it.type := .inr h.type
  have hentered := enterContainer_sound h.primed hc henter
  have he := hmap.encloses
  have htype : Cbor.map = it.type := h.type.symm
  rw [htype] at he
  have hfits := enterContainer_encloses h.primed hc he h.ptr henter
  obtain ⟨field', henter', hbefore⟩ := enterContainer_complete h.primed hc hwf hfits h.ptr
  obtain rfl := Except.ok.inj (henter.symm.trans henter')
  exact ⟨hbefore, (hentered.count h.known).2, entryPoint_of_entered hentered h.type⟩

/-- The message is read from inside its map. -/
def parseInside (it : CborValue) : Except Stream2Error Msg :=
  lift (enterContainer it) >>= fun field => parseMsgType field >>= fun x =>
    parseFields x.1 x.2 >>= fun y => lift (leaveContainer it y.2) >>= fun _ => .ok y.1

theorem Opened.message (h : Opened b it) : stream2ParseMsg (MAGIC ++ b) = parseInside it := by
  have hmagic : ¬ (MAGIC ++ b).take 3 ≠ MAGIC := not_not.mpr (List.take_left' rfl)
  have hrest : (MAGIC ++ b).drop 3 = b := List.drop_left' rfl
  rw [stream2ParseMsg, parseMsg, if_neg hmagic, hrest, h.init]
  show (if it.type ≠ CborMapType then _ else _) = _
  rw [if_neg (not_not.mpr h.type)]
  rfl

theorem Opened.left (h : Opened b it) (hlast : Before last [] t) :
    ∃ it', leaveContainer it last = .ok it' := by
  obtain ⟨hended, hptr⟩ := before_nil_iff.mp hlast
  have hnext : Follows it t { it with ptr := t, type := CborInvalidType, remaining := 0 } :=
    .last h.one ⟨rfl, rfl⟩ rfl
  obtain ⟨it', hleave, -⟩ := leaveContainer_complete h.primed (.inr h.type) hended hptr hnext
  exact ⟨it', hleave⟩

end Maps

section Types

variable {bs' : List Bytes} {type : Text}

theorem passes_lasting (hP : Lasting P) (h : Passes it bs last) (hit : P it) : P last := by
  induction h with
  | nil _ => exact hit
  | cons hprimed _ hnext _ ih => exact ih (hP.follows hit hprimed hnext)

theorem passes_same (h : Passes it bs' last) (hlen : bs'.length = bs.length)
    (hwf' : ∀ b ∈ bs', WellFormed b) (hwf : ∀ b ∈ bs, WellFormed b)
    (hbefore : Before it (bs ++ rest) t) : bs' = bs ∧ Before last rest t := by
  induction h generalizing bs with
  | nil _ =>
    obtain rfl := List.length_eq_zero_iff.mp hlen.symm
    exact ⟨rfl, hbefore⟩
  | @cons it next last b' u bs' _ hptr hnext _ ih =>
    cases bs with
    | nil => cases hlen
    | cons b bs =>
      obtain ⟨hb', hbs'⟩ := List.forall_mem_cons.mp hwf'
      obtain ⟨hb, hbs⟩ := List.forall_mem_cons.mp hwf
      obtain ⟨-, u', hptr', -, hstep⟩ := hbefore.step
      have heq : b' ++ u = b ++ u' := hptr.symm.trans hptr'
      obtain rfl := hb'.unique hb heq
      obtain rfl := List.append_cancel_left heq
      obtain ⟨rfl, hlast⟩ := ih (Nat.succ.inj hlen) hbs' hbs (hstep next hnext)
      exact ⟨rfl, hlast⟩

theorem parseMsgType_entry (hpoint : EntryPoint it) (hne : type ≠ [])
    (hwf : ∀ item ∈ itemsOf [e], WellFormed item) (hbefore : Before it (itemsOf [e] ++ rest) t)
    (h : parseMsgType it = .ok (type, last)) : ∃ x : TypeEntry, x.entry = e ∧
      keyText x.name = "type".toList ∧ keyText x.type = type ∧ Passes it (itemsOf [e]) last ∧
        Before last rest t := by
  obtain ⟨x, hname, htype, -, hpasses, -⟩ := parseMsgType_sound hpoint hne h
  have hlen : (itemsOf [x.entry]).length = (itemsOf [e]).length := rfl
  obtain ⟨hitems, hlast⟩ := passes_same hpasses hlen x.textKeyed.wellFormed hwf hbefore
  have hentry : x.entry = e := Prod.ext (List.cons.inj hitems).1
    (List.cons.inj (List.cons.inj hitems).2).1
  rw [hitems] at hpasses
  exact ⟨x, hentry, hname, htype, hpasses, hlast⟩

theorem TypeEntry.parse {x : TypeEntry} (hname : keyText x.name = "type".toList)
    (htype : keyText x.type = type) (hbefore : Before it (itemsOf [x.entry] ++ rest) t) :
    ∃ last, parseMsgType it = .ok (type, last) ∧ Before last rest t := by
  obtain ⟨hkey, next, value, last, hcopy, hvalue, hitem, hcopy', hlast⟩ := copies_of_before hbefore
  refine ⟨last, ?_, hlast⟩
  rw [parseMsgType, parseKey_copied hkey hcopy, Loop.ok_bind]
  dsimp only
  rw [if_neg (not_not.mpr hname), hvalue, ← htype]
  exact parseKey_copied hitem hcopy'

end Types

section Messages

variable {type : Text} {msg : Msg} {fits : UInt8 → ℕ → Prop}

/-- The keys of the fields of a message. -/
def knownKeys : Msg → List Text
  | .start _ => startSlots.map (·.key)
  | .image _ => imageSlots.map (·.key)
  | .seriesEnd _ => endSlots.map (·.key)

theorem endSlots_apart : endSlots.Pairwise Slot.Apart := by
  simp only [endSlots, List.pairwise_cons, List.forall_mem_cons]
  repeat' apply And.intro
  all_goals first
    | exact ⟨fun _ _ => rfl, fun _ _ => rfl, fun _ _ _ => rfl⟩
    | exact List.forall_mem_nil _
    | exact List.Pairwise.nil

theorem store_ok {read : CborValue → Except Stream2Error (α × CborValue)} {put : α → μ}
    (h : read it = .ok (v, last)) : store read put it = .ok (put v, last) := by
  rw [store, h]
  rfl

theorem parseFields_reordered (hwf : ∀ item ∈ itemsOf es, WellFormed item) (hit : Counted it)
    (h : Before it (itemsOf es) t) (hparse : parseFields type it = .ok (msg, last))
    (hne : es.Pairwise (Different (knownKeys msg))) (hperm : es'.Perm (es ++ extras))
    (hextra : ∀ e ∈ extras, Unknown Fits (knownKeys msg) e) {it' : CborValue} {t' : Bytes}
    (hit' : Counted it') (h' : Before it' (itemsOf es') t') :
    ∃ last', parseFields type it' = .ok (msg, last') ∧ Before last' [] t' := by
  rw [parseFields] at hparse ⊢
  split_ifs at hparse ⊢ with hstart himage hend
  · obtain ⟨⟨fields, last⟩, hentries, hparse⟩ := Loop.bind_ok hparse
    obtain ⟨rfl, rfl⟩ := Prod.mk.inj (Except.ok.inj hparse)
    obtain ⟨last', hentries', hlast'⟩ := parseEntries_reordered startTable startSlots_apart
      start_settled startField_reads hwf hit h hentries hne hperm hextra hit' h'
    exact ⟨last', store_ok hentries', hlast'⟩
  · obtain ⟨⟨fields, last⟩, hentries, hparse⟩ := Loop.bind_ok hparse
    obtain ⟨rfl, rfl⟩ := Prod.mk.inj (Except.ok.inj hparse)
    obtain ⟨last', hentries', hlast'⟩ := parseEntries_reordered imageTable imageSlots_apart
      image_settled imageField_reads hwf hit h hentries hne hperm hextra hit' h'
    exact ⟨last', store_ok hentries', hlast'⟩
  · obtain ⟨⟨fields, last⟩, hentries, hparse⟩ := Loop.bind_ok hparse
    obtain ⟨rfl, rfl⟩ := Prod.mk.inj (Except.ok.inj hparse)
    obtain ⟨last', hentries', hlast'⟩ := parseEntries_reordered endTable endSlots_apart
      end_settled endField_reads hwf hit h hentries hne hperm hextra hit' h'
    exact ⟨last', store_ok hentries', hlast'⟩

/-- The keys of the entries are different, and there is no NUL in them. -/
structure DistinctKeys (es : List (Bytes × Bytes)) : Prop where
  nul : ∀ e ∈ es, ∀ content, Str Cbor.textString content e.1 → 0 ∉ content
  distinct : es.Pairwise fun e e' => ∀ content, Str Cbor.textString content e.1 →
    ¬ Str Cbor.textString content e'.1

theorem DistinctKeys.different {keys : List Text} (h : DistinctKeys es) (hempty : [] ∉ keys) :
    es.Pairwise (Different keys) := by
  refine (List.Pairwise.and_mem.mp h.distinct).imp ?_
  rintro e e' ⟨he, he', hne⟩ content content' hs hs' hkey heq
  have hnonempty : keyText content ≠ [] := by
    intro hnil
    rw [hnil] at hkey
    exact hempty hkey
  have hcontent := ascii_keyText (h.nul e he content hs) hnonempty
  have hcontent' := ascii_keyText (h.nul e' he' content' hs') (heq ▸ hnonempty)
  rw [← hcontent, heq, hcontent'] at hs
  exact hne content' hs hs'

theorem nil_not_known (msg : Msg) : [] ∉ knownKeys msg := by
  cases msg with
  | start _ => exact (by decide : [] ∉ startSlots.map (·.key))
  | image _ => exact (by decide : [] ∉ imageSlots.map (·.key))
  | seriesEnd _ => exact (by decide : [] ∉ endSlots.map (·.key))

/-- The entries after the type can be put into another order, with others between them that are
not known; `fits` is said of the lengths of what is put between and of the message then. -/
def OrderInsensitive (fits : UInt8 → ℕ → Prop) : Prop :=
  ∀ {e es es' extras map map' rest rest' msg},
    Definite (fun _ _ => True) (e :: es) map → (∀ item ∈ itemsOf (e :: es), WellFormed item) →
    DistinctKeys es → stream2ParseMsg (MAGIC ++ (map ++ rest)) = .ok msg →
    es'.Perm (es ++ extras) → (∀ x ∈ extras, Unknown fits (knownKeys msg) x) →
    Definite fits (e :: es') map' → stream2ParseMsg (MAGIC ++ (map' ++ rest')) = .ok msg

theorem unknown_wellFormed {keys : List Text} (h : ∀ x ∈ extras, Unknown fits keys x) :
    ∀ item ∈ itemsOf extras, WellFormed item :=
  TextKeyed.wellFormed fun x hx => ⟨⟨_, (h x hx).1.choose_spec.1⟩, (h x hx).2.wellFormed⟩

theorem itemsOf_perm (h : es.Perm es') : (itemsOf es).Perm (itemsOf es') :=
  (h.map _).flatten

theorem itemsOf_cons (e : Bytes × Bytes) (es : List (Bytes × Bytes)) :
    itemsOf (e :: es) = itemsOf [e] ++ itemsOf es := itemsOf_append [e] es

/-- What is read of an accepted message: the type, and then the entries. -/
theorem accepted_entries {map rest : Bytes} (hmap : Definite fits (e :: es) map)
    (hwf : ∀ item ∈ itemsOf (e :: es), WellFormed item)
    (hparse : stream2ParseMsg (MAGIC ++ (map ++ rest)) = .ok msg) :
    ∃ (x : TypeEntry) (type : Text) (entries last : CborValue), x.entry = e ∧
      keyText x.name = "type".toList ∧ keyText x.type = type ∧ type ≠ [] ∧ Counted entries ∧
        Before entries (itemsOf es) rest ∧ parseFields type entries = .ok (msg, last) := by
  obtain ⟨it, hopen⟩ := hmap.opened rest
  rw [hopen.message] at hparse
  obtain ⟨field, henter, hparse⟩ := Loop.bind_ok hparse
  obtain ⟨⟨type, entries⟩, htype, hparse⟩ := Loop.bind_ok hparse
  obtain ⟨⟨msg', last⟩, hfields, hparse⟩ := Loop.bind_ok hparse
  obtain ⟨_, -, hparse⟩ := Loop.bind_ok hparse
  obtain rfl := Except.ok.inj hparse
  obtain ⟨hbefore, hcounted, hpoint⟩ := hopen.entered hmap hwf (lift_ok henter)
  have hne : type ≠ [] := by
    rintro rfl
    exact absurd (parseFields_type hfields) (by decide : [] ∉ messageTypes)
  rw [itemsOf_cons] at hbefore hwf
  obtain ⟨x, hx, hname, htext, hpasses, hentries⟩ :=
    parseMsgType_entry hpoint hne (List.forall_mem_append.mp hwf).1 hbefore htype
  exact ⟨x, type, entries, last, hx, hname, htext, hne,
    passes_lasting counted_lasting hpasses hcounted, hentries, hfields⟩

theorem orderInsensitive : OrderInsensitive Fits := by
  intro e es es' extras map map' rest rest' msg hmap hwf hkeys hparse hperm hextra hmap'
  obtain ⟨x, type, entries, last, hx, hname, htext, hne, hcounted, hentries, hfields⟩ :=
    accepted_entries hmap hwf hparse
  obtain ⟨hwfe, hwfs⟩ := List.forall_mem_append.mp (itemsOf_cons e es ▸ hwf)
  have hwf' : ∀ item ∈ itemsOf (e :: es'), WellFormed item := by
    rw [itemsOf_cons]
    refine List.forall_mem_append.mpr ⟨hwfe, fun item hitem => ?_⟩
    rw [(itemsOf_perm hperm).mem_iff, itemsOf_append] at hitem
    exact List.forall_mem_append.mpr ⟨hwfs, unknown_wellFormed hextra⟩ item hitem
  obtain ⟨it', hopen'⟩ := hmap'.opened rest'
  have hc : IsContainer it'.type := .inr hopen'.type
  have he := hmap'.encloses
  rw [show Cbor.map = it'.type from hopen'.type.symm] at he
  obtain ⟨field', henter', -⟩ := enterContainer_complete hopen'.primed hc hwf' he hopen'.ptr
  obtain ⟨hbefore', hcounted', hpoint'⟩ := hopen'.entered hmap' hwf' henter'
  rw [itemsOf_cons, ← hx] at hbefore'
  obtain ⟨entries', htype', hentries'⟩ := TypeEntry.parse hname htext hbefore'
  obtain ⟨_, -, -, -, hpasses', -⟩ := parseMsgType_sound hpoint' hne htype'
  obtain ⟨last', hfields', hlast'⟩ := parseFields_reordered hwfs hcounted hentries hfields
    (hkeys.different (nil_not_known _)) hperm hextra
    (passes_lasting counted_lasting hpasses' hcounted') hentries'
  obtain ⟨moved, hleave⟩ := hopen'.left hlast'
  rw [hopen'.message, parseInside, henter']
  show (parseMsgType field' >>= _) = _
  rw [htype', Loop.ok_bind]
  dsimp only
  rw [hfields', Loop.ok_bind]
  dsimp only
  rw [hleave]
  rfl

end Messages

section Limits

variable {verified : Option Text} {slots : List (Slot μ)} {msg msg' : μ} {map rest' : Bytes}
  {message : Msg} {type : Text} {fits : UInt8 → ℕ → Prop}

/-- The value of an entry that is not known is one that tinycbor can move over. -/
theorem Runs.unknown_fits (h : Runs P verified slots msg es msg') (he : e ∈ es)
    (hs : Str Cbor.textString content e.1) (hkey : keyText content ∉ slots.map (·.key)) :
    Item Fits CBOR_PARSER_MAX_RECURSIONS e.2 := by
  induction h with
  | nil _ => cases he
  | cons happlies _ ih =>
    rcases List.mem_cons.mp he with rfl | he
    · cases happlies with
      | known hslot hs' hkey' _ _ =>
        obtain ⟨-, rfl⟩ := hs.unique hs' (rfl : e.1 ++ [] = e.1 ++ [])
        rw [hkey'] at hkey
        exact absurd (List.mem_map_of_mem hslot) hkey
      | unknown _ _ hfits => exact hfits
    · exact ih he

theorem accepted_fits (hmap : Definite fits (e :: es) map)
    (hwf : ∀ item ∈ itemsOf (e :: es), WellFormed item)
    (hparse : stream2ParseMsg (MAGIC ++ (map ++ rest')) = .ok message) (he : e' ∈ es)
    (hs : Str Cbor.textString content e'.1) (hkey : keyText content ∉ knownKeys message) :
    Item Fits CBOR_PARSER_MAX_RECURSIONS e'.2 := by
  obtain ⟨x, type, entries, last, -, -, -, -, hcounted, hentries, hfields⟩ :=
    accepted_entries hmap hwf hparse
  obtain ⟨-, hwfs⟩ := List.forall_mem_append.mp (itemsOf_cons e es ▸ hwf)
  rw [parseFields] at hfields
  split_ifs at hfields
  all_goals
    obtain ⟨⟨fields, last⟩, hloop, hfields⟩ := Loop.bind_ok hfields
    obtain ⟨rfl, rfl⟩ := Prod.mk.inj (Except.ok.inj hfields)
  · exact (runs_of_parseEntries counted_lasting startTable start_settled startField_reads hwfs
      hcounted hentries hloop).unknown_fits he hs hkey
  · exact (runs_of_parseEntries counted_lasting imageTable image_settled imageField_reads hwfs
      hcounted hentries hloop).unknown_fits he hs hkey
  · exact (runs_of_parseEntries counted_lasting endTable end_settled endField_reads hwfs
      hcounted hentries hloop).unknown_fits he hs hkey

theorem long_not_fits {head : Bytes} (hh : Head Cbor.array UINT32_MAX head) :
    ¬ Item Fits d (head ++ t) := by
  intro h
  obtain ⟨-, items, -, he, -⟩ := h.of_container (hh.begins.append t) (.inl rfl)
  generalize hb : head ++ t = b at he
  cases he with
  | counted hh' hfits _ =>
    obtain ⟨-, rfl, -⟩ := hh.unique hh' hb
    exact absurd hfits.1 (Nat.lt_irrefl _)
  | uncounted _ hinfo _ => exact hh.ne_indefinite hinfo _ _ hb

/-- A type of `image`. -/
def imageType : Bytes × Bytes :=
  ([0x64, 0x74, 0x79, 0x70, 0x65], [0x65, 0x69, 0x6d, 0x61, 0x67, 0x65])

theorem imageType_wellFormed : ∀ item ∈ itemsOf [imageType], WellFormed item := by
  have hkey : Head Cbor.textString 4 [0x64] := .of rfl rfl (by decide) rfl
  have hvalue : Head Cbor.textString 5 [0x65] := .of rfl rfl (by decide) rfl
  have hkey' : Str Cbor.textString _ ([0x64] ++ [0x74, 0x79, 0x70, 0x65]) := .known hkey rfl
  have hvalue' : Str Cbor.textString _ ([0x65] ++ [0x69, 0x6d, 0x61, 0x67, 0x65]) :=
    .known hvalue rfl
  exact List.forall_mem_cons.mpr ⟨⟨0, .string (.inr rfl) hkey'⟩,
    List.forall_mem_singleton.mpr ⟨0, .string (.inr rfl) hvalue'⟩⟩

theorem imageType_accepted : stream2ParseMsg (MAGIC ++ (([0xa1] ++ (itemsOf [imageType]).flatten) ++
    [])) = .ok (.image {}) := by decide +kernel

theorem imageId_key : Str Cbor.textString (ascii "image_id".toList)
    ([0x68] ++ ascii "image_id".toList) :=
  .known (.of rfl rfl (by decide) rfl) rfl

theorem seriesId_key : Str Cbor.textString (ascii "series_id".toList)
    ([0x69] ++ ascii "series_id".toList) :=
  .known (.of rfl rfl (by decide) rfl) rfl

def imageIdEntry : Bytes × Bytes := ([0x68] ++ ascii "image_id".toList, [0x01])

def seriesIdEntry : Bytes × Bytes := ([0x69] ++ ascii "series_id".toList, [0x02])

/-- A tagged number under a key that is not known. -/
def unknownEntry : Bytes × Bytes := ([0x61] ++ [0x61], [0xc1] ++ [0x07])

theorem fields_wellFormed : ∀ item ∈ itemsOf [imageType, imageIdEntry, seriesIdEntry],
    WellFormed item := by
  have hone : WellFormed imageIdEntry.2 := ⟨0, .number (.inl rfl) (.of rfl rfl (by decide) rfl)⟩
  have htwo : WellFormed seriesIdEntry.2 := ⟨0, .number (.inl rfl) (.of rfl rfl (by decide) rfl)⟩
  rw [itemsOf_cons]
  refine List.forall_mem_append.mpr ⟨imageType_wellFormed, ?_⟩
  exact List.forall_mem_cons.mpr ⟨⟨0, .string (.inr rfl) imageId_key⟩, List.forall_mem_cons.mpr
    ⟨hone, List.forall_mem_cons.mpr ⟨⟨0, .string (.inr rfl) seriesId_key⟩,
      List.forall_mem_singleton.mpr htwo⟩⟩⟩

theorem fields_distinct : DistinctKeys [imageIdEntry, seriesIdEntry] := by
  have himage {content : Bytes} (hs : Str Cbor.textString content imageIdEntry.1) :
      content = ascii "image_id".toList :=
    (hs.unique imageId_key (rfl : _ ++ [] = _ ++ [])).2
  have hseries {content : Bytes} (hs : Str Cbor.textString content seriesIdEntry.1) :
      content = ascii "series_id".toList :=
    (hs.unique seriesId_key (rfl : _ ++ [] = _ ++ [])).2
  constructor
  · intro e he content hs
    rcases List.mem_pair.mp he with rfl | rfl
    · rw [himage hs]
      decide
    · rw [hseries hs]
      decide
  · refine List.pairwise_pair.mpr fun content hs hs' => ?_
    have heq := (himage hs).symm.trans (hseries hs')
    exact absurd heq (by decide)

theorem fields_accepted : stream2ParseMsg (MAGIC ++ (([0xa3] ++
    (itemsOf [imageType, imageIdEntry, seriesIdEntry]).flatten) ++ [])) =
      .ok (.image { seriesId := 2, imageId := 1 }) := by decide +kernel

theorem unknownEntry_unknown :
    Unknown Fits (knownKeys (.image { seriesId := 2, imageId := 1 })) unknownEntry := by
  have hkey : Str Cbor.textString [0x61] unknownEntry.1 :=
    .known (h := [0x61]) (.of rfl rfl (by decide) rfl) rfl
  have hnumber : Item Fits CBOR_PARSER_MAX_RECURSIONS [0x07] :=
    .number (.inl rfl) (.of rfl rfl (by decide) rfl)
  exact ⟨⟨_, hkey, by decide⟩, .tagged (h := [0xc1]) (.of rfl rfl (by decide) rfl) hnumber⟩

/-- The series goes before the image, and the tagged number between them. -/
theorem orderInsensitive_image : stream2ParseMsg (MAGIC ++ (([0xa4] ++
    (itemsOf [imageType, seriesIdEntry, unknownEntry, imageIdEntry]).flatten) ++ [])) =
      .ok (.image { seriesId := 2, imageId := 1 }) := by
  have hmap : Definite (fun _ _ => True) [imageType, imageIdEntry, seriesIdEntry] ([0xa3] ++ _) :=
    .mk (.of rfl rfl (by decide) rfl) trivial
  have hmap' : Definite Fits [imageType, seriesIdEntry, unknownEntry, imageIdEntry]
      ([0xa4] ++ _) :=
    .mk (.of rfl rfl (by decide) rfl) ⟨by decide, fun _ => by decide⟩
  have hperm : [seriesIdEntry, unknownEntry, imageIdEntry].Perm
      ([imageIdEntry, seriesIdEntry] ++ [unknownEntry]) := by decide
  exact orderInsensitive hmap fields_wellFormed fields_distinct fields_accepted hperm
    (List.forall_mem_singleton.mpr unknownEntry_unknown) hmap'

/-- An array of so many numbers that they cannot be counted. -/
def longArray : Bytes × Bytes :=
  ([0x61, 0x61], [0x9a, 0xff, 0xff, 0xff, 0xff] ++ (List.replicate UINT32_MAX [0x00]).flatten)

theorem longArray_key : Str Cbor.textString [0x61] longArray.1 :=
  .known (h := [0x61]) (.of rfl rfl (by decide) rfl) rfl

theorem longArray_head : Head Cbor.array UINT32_MAX [0x9a, 0xff, 0xff, 0xff, 0xff] :=
  .of rfl (by decide) (by decide) rfl

theorem longArray_unknown : Unknown (fun _ _ => True) (knownKeys (.image {})) longArray := by
  refine ⟨⟨[0x61], longArray_key, by decide⟩, .container (.inl rfl)
    (.counted longArray_head trivial List.length_replicate) fun item hitem => ?_⟩
  rw [List.eq_of_mem_replicate hitem]
  exact .number (.inl rfl) (.of rfl rfl (by decide) rfl)

/-- A message with the array is not accepted. -/
theorem not_orderInsensitive : ¬ OrderInsensitive fun _ _ => True := by
  intro h
  have hone : Head Cbor.map 1 [0xa1] := .of rfl rfl (by decide) rfl
  have htwo : Head Cbor.map 2 [0xa2] := .of rfl rfl (by decide) rfl
  have hmap : Definite (fun _ _ => True) [imageType] _ := .mk hone trivial
  have hmap' : Definite (fun _ _ => True) [imageType, longArray] _ := .mk htwo trivial
  have hextra := List.forall_mem_singleton.mpr longArray_unknown
  have hkeys : DistinctKeys [] := ⟨List.forall_mem_nil _, .nil⟩
  have haccepted : stream2ParseMsg (MAGIC ++ (_ ++ [])) = .ok (.image {}) :=
    h hmap imageType_wellFormed hkeys imageType_accepted (List.Perm.refl [longArray]) hextra hmap'
  have hwf : ∀ item ∈ itemsOf [imageType, longArray], WellFormed item := by
    rw [itemsOf_cons]
    exact List.forall_mem_append.mpr ⟨imageType_wellFormed, unknown_wellFormed hextra⟩
  exact long_not_fits longArray_head (accepted_fits hmap' hwf haccepted
    (List.mem_singleton.mpr rfl) longArray_key (by decide))

end Limits

end Stream2
