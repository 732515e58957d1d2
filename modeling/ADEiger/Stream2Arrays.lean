import ADEiger.Stream2Api
import ADEiger.Stream2Fields
import ADEiger.Stream2Progress

/-! The arrays in a message of Stream2.
The number of elements of an array is compared with the product of its dimensions, which is one of
64 bits; all else that is known of an array comes from its own parser. -/
namespace Stream2Arrays

open CString (Text)
open TinyCbor (Bytes CborValue)
open Stream2

section Fields

variable {α μ : Type} {it it' : CborValue} {n : ℕ}

theorem parseArray_ok {α : Type} {read : CborValue → Except Stream2Error (α × CborValue)}
    {value : α} (h : parseArray n read it = .ok (value, it')) :
    ∃ elt elt', read elt = .ok (value, elt') := by
  rw [parseArray] at h
  obtain ⟨-, h⟩ := Loop.guard_ok h
  obtain ⟨len, -, h⟩ := Loop.bind_ok h
  obtain ⟨-, h⟩ := Loop.guard_ok h
  obtain ⟨elt, -, h⟩ := Loop.bind_ok h
  obtain ⟨⟨v, elt'⟩, hread, h⟩ := Loop.bind_ok h
  obtain ⟨last, -, h⟩ := Loop.bind_ok h
  obtain ⟨rfl, -⟩ := Prod.mk.inj (Except.ok.inj h)
  exact ⟨elt, elt', hread⟩

theorem parseChannels_all {α : Type} {P : α → Prop}
    {read : CborValue → Except Stream2Error (α × CborValue)}
    (hread : ∀ it a it', read it = .ok (a, it') → P a) {values : List (Text × α)}
    (h : parseChannels read it = .ok (values, it')) : ∀ entry ∈ values, P entry.2 := by
  rw [parseChannels] at h
  obtain ⟨-, h⟩ := Loop.guard_ok h
  obtain ⟨len, -, h⟩ := Loop.bind_ok h
  obtain ⟨field, -, h⟩ := Loop.bind_ok h
  obtain ⟨⟨values', field'⟩, hvalues, h⟩ := Loop.bind_ok h
  obtain ⟨last, -, h⟩ := Loop.bind_ok h
  obtain ⟨rfl, -⟩ := Prod.mk.inj (Except.ok.inj h)
  refine (Loop.readMany_spec (P := fun entry : Text × α => P entry.2) ?_ hvalues).2
  intro it entry it' hentry
  obtain ⟨⟨channel, next⟩, -, hentry⟩ := Loop.bind_ok hentry
  obtain ⟨⟨value, last⟩, hvalue, hentry⟩ := Loop.bind_ok hentry
  obtain ⟨rfl, -⟩ := Prod.mk.inj (Except.ok.inj hentry)
  exact hread _ _ _ hvalue

theorem store_ok {α μ : Type} {read : CborValue → Except Stream2Error (α × CborValue)}
    {put : α → μ} {msg : μ} (h : store read put it = .ok (msg, it')) :
    ∃ value, read it = .ok (value, it') ∧ msg = put value := by
  obtain ⟨⟨value, next⟩, hvalue, h⟩ := Loop.bind_ok h
  obtain ⟨rfl, rfl⟩ := Prod.mk.inj (Except.ok.inj h)
  exact ⟨value, hvalue, rfl⟩

/-- A value put into the slot preserves `Q`. -/
def Keeps (Q : μ → Prop) (slot : Slot μ) : Prop :=
  ∀ msg it v it', Q msg → slot.read (slot.get msg) it = .ok (v, it') → Q (slot.put v msg)

theorem dispatch_keeps {Q : μ → Prop} {slots : List (Slot μ)} {key : Text} {msg msg' : μ}
    (hslots : ∀ slot ∈ slots, Keeps Q slot) (hmsg : Q msg)
    (h : dispatch slots key msg it = .ok (msg', it')) : Q msg' := by
  induction slots with
  | nil =>
    obtain ⟨next, -, h⟩ := Loop.bind_ok h
    rwa [← (Prod.mk.inj (Except.ok.inj h)).1]
  | cons slot slots ih =>
    obtain ⟨hslot, hslots⟩ := List.forall_mem_cons.mp hslots
    rw [dispatch] at h
    split_ifs at h
    · obtain ⟨v, hv, rfl⟩ := store_ok h
      exact hslot msg it v it' hmsg hv
    · exact ih hslots h

/-- What every slot preserves holds of the message that the entries make. -/
theorem parseEntries_all {Q : μ → Prop} {verified : Option Text} {slots : List (Slot μ)}
    (hslots : ∀ slot ∈ slots, Keeps Q slot) {msg msg' : μ} (hmsg : Q msg)
    (h : parseEntries verified (dispatch slots) msg it = .ok (msg', it')) : Q msg' := by
  have hstep : ∀ s s' : μ × CborValue, Q s.1 → s.2.isValid = true →
      parseEntry verified (dispatch slots) s = .ok s' → Q s'.1 := by
    intro s s' hs _ hb
    obtain ⟨⟨key, next⟩, -, hb⟩ := Loop.bind_ok hb
    obtain ⟨value, -, hb⟩ := Loop.bind_ok hb
    exact dispatch_keeps hslots hs hb
  rw [parseEntries] at h
  exact (Loop.whileLoop_invariant (P := fun s => Q s.1) hstep hmsg h).1

end Fields

section Messages

variable {P : MultidimArray → Prop}

def OfImage (P : MultidimArray → Prop) (msg : ImageMsg) : Prop := ∀ entry ∈ msg.data, P entry.2

structure OfStart (P : MultidimArray → Prop) (msg : StartMsg) : Prop where
  flatfield : ∀ entry ∈ msg.flatfield, P entry.2
  pixelMask : ∀ entry ∈ msg.pixelMask, P entry.2

/-- All arrays of a message. -/
def arrays : Msg → List MultidimArray
  | .start msg => (msg.flatfield ++ msg.pixelMask).map (·.2)
  | .image msg => msg.data.map (·.2)
  | .seriesEnd _ => []

/-- The slots that hold no array; the values of the others are those of `parseChannels`. -/
theorem imageSlots_arrays
    (hread : ∀ it mda it', parseMultidimArray it = .ok (mda, it') → P mda) :
    ∀ slot ∈ imageSlots, Keeps (OfImage P) slot := by
  iterate 8 refine List.forall_mem_cons.mpr ⟨fun msg it v it' h _ => h, ?_⟩
  exact List.forall_mem_singleton.mpr fun msg it v it' _ hv => parseChannels_all hread hv

theorem startSlots_arrays
    (hread : ∀ it mda it', parseMultidimArray it = .ok (mda, it') → P mda) :
    ∀ slot ∈ startSlots, Keeps (OfStart P) slot := by
  iterate 12 refine List.forall_mem_cons.mpr ⟨fun msg it v it' h _ => ⟨h.1, h.2⟩, ?_⟩
  refine List.forall_mem_cons.mpr
    ⟨fun msg it v it' h hv => ⟨parseChannels_all hread hv, h.2⟩, ?_⟩
  iterate 9 refine List.forall_mem_cons.mpr ⟨fun msg it v it' h _ => ⟨h.1, h.2⟩, ?_⟩
  refine List.forall_mem_cons.mpr
    ⟨fun msg it v it' h hv => ⟨h.1, parseChannels_all hread hv⟩, ?_⟩
  iterate 9 refine List.forall_mem_cons.mpr ⟨fun msg it v it' h _ => ⟨h.1, h.2⟩, ?_⟩
  exact List.forall_mem_nil _

/-- What holds of every array that is parsed holds of all arrays of a message. -/
theorem stream2ParseMsg_arrays
    (hread : ∀ it mda it', parseMultidimArray it = .ok (mda, it') → P mda) {message : Bytes}
    {msg : Msg} (h : stream2ParseMsg message = .ok msg) : ∀ mda ∈ arrays msg, P mda := by
  rw [stream2ParseMsg, parseMsg] at h
  obtain ⟨-, h⟩ := Loop.guard_ok h
  obtain ⟨it, -, h⟩ := Loop.bind_ok h
  obtain ⟨-, h⟩ := Loop.guard_ok h
  obtain ⟨field, -, h⟩ := Loop.bind_ok h
  obtain ⟨⟨type, field'⟩, -, h⟩ := Loop.bind_ok h
  obtain ⟨⟨parsed, last⟩, hfields, h⟩ := Loop.bind_ok h
  obtain ⟨out, -, h⟩ := Loop.bind_ok h
  obtain rfl := Except.ok.inj h
  rw [parseFields] at hfields
  split_ifs at hfields
  · obtain ⟨value, hvalue, rfl⟩ := store_ok hfields
    rw [parseStartMsg, startField_eq] at hvalue
    have hempty : OfStart P {} := ⟨List.forall_mem_nil _, List.forall_mem_nil _⟩
    have hall := parseEntries_all (startSlots_arrays hread) hempty hvalue
    rw [arrays, List.forall_mem_map, List.forall_mem_append]
    exact ⟨hall.flatfield, hall.pixelMask⟩
  · obtain ⟨value, hvalue, rfl⟩ := store_ok hfields
    rw [parseImageMsg, imageField_eq] at hvalue
    have hempty : OfImage P {} := List.forall_mem_nil _
    have hall := parseEntries_all (imageSlots_arrays hread) hempty hvalue
    rw [arrays, List.forall_mem_map]
    exact hall
  · obtain ⟨value, -, rfl⟩ := store_ok hfields
    exact List.forall_mem_nil _

end Messages

section Shapes

variable {it it' : CborValue} {mda : MultidimArray}

/-- What the parser compares of an array. -/
def Shaped (mda : MultidimArray) : Prop :=
  ∃ elemSize, typedArrayElemSize mda.array.tag = .ok elemSize ∧
    mda.dim.1 * mda.dim.2 % 2 ^ 64 * elemSize = mda.array.data.size

theorem multidimItems_shaped (h : multidimItems it = .ok (mda, it')) : Shaped mda := by
  obtain ⟨⟨dim, elt⟩, -, h⟩ := Loop.bind_ok h
  obtain ⟨⟨⟨array, len⟩, last⟩, harray, h⟩ := Loop.bind_ok h
  obtain ⟨hdim, h⟩ := Loop.guard_ok h
  obtain ⟨rfl, -⟩ := Prod.mk.inj (Except.ok.inj h)
  obtain ⟨⟨tag, next⟩, -, harray⟩ := Loop.bind_ok harray
  obtain ⟨⟨data, last'⟩, -, harray⟩ := Loop.bind_ok harray
  obtain ⟨elemSize, helem, harray⟩ := Loop.bind_ok harray
  obtain ⟨hmod, harray⟩ := Loop.guard_ok harray
  obtain ⟨hpair, -⟩ := Prod.mk.inj (Except.ok.inj harray)
  obtain ⟨rfl, rfl⟩ := Prod.mk.inj hpair
  refine ⟨elemSize, helem, ?_⟩
  rw [not_not.mp hdim]
  exact Nat.div_mul_cancel (Nat.dvd_of_mod_eq_zero (not_not.mp hmod))

theorem parseMultidimArray_shaped (h : parseMultidimArray it = .ok (mda, it')) : Shaped mda := by
  obtain ⟨⟨tag, next⟩, -, h⟩ := Loop.bind_ok h
  obtain ⟨-, h⟩ := Loop.guard_ok h
  obtain ⟨elt, elt', helt⟩ := parseArray_ok h
  exact multidimItems_shaped helt

theorem typedArrayElemSize_of_dataTypeOf {tag : ℕ} {type : StreamFraming.DataType × ℕ}
    (h : Stream2Api.dataTypeOf tag = some type) : typedArrayElemSize tag = .ok type.2 := by
  rw [Stream2Api.dataTypeOf] at h
  split_ifs at h with h64 h69 h70
  all_goals
    subst tag
    obtain rfl := Option.some.inj h
    rfl

theorem typedArrayElemSize_pos {tag elemSize : ℕ} (h : typedArrayElemSize tag = .ok elemSize) :
    0 < elemSize := by
  rw [typedArrayElemSize] at h
  split_ifs at h
  obtain rfl := Except.ok.inj h
  exact Nat.two_pow_pos _

/-- The array has the size that its dimensions give it, and so has the one which getFrame takes
from the pool if its elements are of a type that is known there. -/
structure Matches (mda : MultidimArray) : Prop where
  data : ∃ elemSize, typedArrayElemSize mda.array.tag = .ok elemSize ∧
    mda.dim.1 * mda.dim.2 * elemSize = mda.array.data.size
  frame : ∀ type, Stream2Api.dataTypeOf mda.array.tag = some type →
    mda.dim.2 * mda.dim.1 * type.2 = mda.array.data.size

theorem matches_iff (h : Shaped mda) : Matches mda ↔ mda.dim.1 * mda.dim.2 < 2 ^ 64 := by
  obtain ⟨elemSize, helem, hsize⟩ := h
  have hpos := typedArrayElemSize_pos helem
  constructor
  · rintro ⟨⟨elemSize', helem', hdata⟩, -⟩
    obtain rfl := Except.ok.inj (helem.symm.trans helem')
    have hmod : mda.dim.1 * mda.dim.2 = mda.dim.1 * mda.dim.2 % 2 ^ 64 :=
      Nat.eq_of_mul_eq_mul_right hpos (hdata.trans hsize.symm)
    rw [hmod]
    exact Nat.mod_lt _ (by decide)
  · intro hlt
    rw [Nat.mod_eq_of_lt hlt] at hsize
    refine ⟨⟨elemSize, helem, hsize⟩, fun type htype => ?_⟩
    obtain rfl := Except.ok.inj (helem.symm.trans (typedArrayElemSize_of_dataTypeOf htype))
    rw [Nat.mul_comm mda.dim.2]
    exact hsize

/-- For every message and each of its arrays. -/
theorem shapes_match_iff (message : Bytes) :
    (∀ msg, stream2ParseMsg message = .ok msg → ∀ mda ∈ arrays msg, Matches mda) ↔
      ∀ msg, stream2ParseMsg message = .ok msg → ∀ mda ∈ arrays msg,
        mda.dim.1 * mda.dim.2 < 2 ^ 64 := by
  refine forall₂_congr fun msg hmsg => forall₂_congr fun mda hmda => ?_
  exact matches_iff (stream2ParseMsg_arrays (fun _ _ _ => parseMultidimArray_shaped) hmsg mda hmda)

/-- An image with an array of 2 ^ 32 by 2 ^ 32 elements of one byte, without data. -/
def hugeShape : Bytes :=
  [217, 217, 247, 162, 100, 116, 121, 112, 101, 101, 105, 109, 97, 103, 101, 100, 100, 97, 116, 97,
    161, 97, 116, 216, 40, 130, 130, 27, 0, 0, 0, 1, 0, 0, 0, 0, 27, 0, 0, 0, 1, 0, 0, 0, 0, 216,
    64, 64]

theorem huge_shape_accepted : ¬ ∀ message msg, stream2ParseMsg message = .ok msg →
    ∀ mda ∈ arrays msg, Matches mda := by
  intro h
  have hparse : stream2ParseMsg hugeShape =
      .ok (.image { data := [("t".toList, ⟨(2 ^ 32, 2 ^ 32), ⟨64, ⟨[], 0, none⟩⟩⟩)] }) := by
    decide +kernel
  have hframe := (h hugeShape _ hparse _ (List.mem_singleton.mpr rfl)).frame (.uint8, 1) rfl
  exact absurd hframe (by decide)

end Shapes

end Stream2Arrays
