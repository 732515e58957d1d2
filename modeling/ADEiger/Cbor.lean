import Mathlib.Data.List.Basic
import Mathlib.Data.List.Flatten
import Mathlib.Data.Nat.Notation
import Mathlib.Algebra.Group.Nat.Defs
import Mathlib.Algebra.Group.Nat.Even
import Mathlib.Tactic.SplitIfs

/-! The well-formed data items of CBOR.
An item is known by its first byte; the bytes of two different items are never one the beginning
of the other. -/
namespace Cbor

abbrev Bytes := List UInt8

section Heads

/-- The upper three bits. -/
def majorType (byte : UInt8) : UInt8 := byte &&& 0xe0

/-- The lower five bits. -/
def additionalInfo (byte : UInt8) : ℕ := byte.toNat % 32

def unsignedInteger : UInt8 := 0x00
def negativeInteger : UInt8 := 0x20
def byteString : UInt8 := 0x40
def textString : UInt8 := 0x60
def array : UInt8 := 0x80
def map : UInt8 := 0xa0
def tag : UInt8 := 0xc0
def simpleOrFloat : UInt8 := 0xe0

/-- Ends a string or a container whose length is not known. -/
def breakByte : UInt8 := 0xff

def indefinite : ℕ := 31

theorem majorType_mem (byte : UInt8) : majorType byte ∈
    [unsignedInteger, negativeInteger, byteString, textString, array, map, tag, simpleOrFloat] := by
  have hall : ∀ n < 256, majorType (UInt8.ofNat n) ∈
      [unsignedInteger, negativeInteger, byteString, textString, array, map, tag,
        simpleOrFloat] := by decide +kernel
  have h := hall byte.toNat byte.toNat_lt
  rwa [UInt8.ofNat_toNat] at h

/-- How many bytes the argument has behind the first byte. -/
def argumentLength (info : ℕ) : ℕ := if info < 24 then 0 else 2 ^ (info - 24)

def bigEndian (bytes : Bytes) : ℕ := bytes.foldl (fun v b => 256 * v + b.toNat) 0

def argumentValue (byte : UInt8) (argument : Bytes) : ℕ :=
  if additionalInfo byte < 24 then additionalInfo byte else bigEndian argument

theorem argumentLength_small {info : ℕ} (h : info < 24) : argumentLength info = 0 := if_pos h

theorem argumentLength_large {info : ℕ} (h : ¬ info < 24) :
    argumentLength info = 2 ^ (info - 24) := if_neg h

theorem argumentValue_small {byte : UInt8} (h : additionalInfo byte < 24) (argument : Bytes) :
    argumentValue byte argument = additionalInfo byte := if_pos h

theorem argumentValue_large {byte : UInt8} (h : ¬ additionalInfo byte < 24) (argument : Bytes) :
    argumentValue byte argument = bigEndian argument := if_neg h

/-- The first byte with its argument, of the major type `m` and the value `n`. -/
inductive Head : UInt8 → ℕ → Bytes → Prop where
  | mk (byte : UInt8) (argument : Bytes) : additionalInfo byte < 28 →
      argument.length = argumentLength (additionalInfo byte) →
      Head (majorType byte) (argumentValue byte argument) (byte :: argument)

/-- The bytes begin with one of the major type. -/
def Begins (m : UInt8) (info : ℕ → Prop) (b : Bytes) : Prop :=
  ∃ byte u, b = byte :: u ∧ majorType byte = m ∧ info (additionalInfo byte)

variable {m m' : UInt8} {n n' : ℕ} {h h' b b' t t' : Bytes} {p p' : ℕ → Prop}

theorem Begins.append (hb : Begins m p b) (t : Bytes) : Begins m p (b ++ t) := by
  obtain ⟨byte, u, rfl, hm, hp⟩ := hb
  exact ⟨byte, u ++ t, rfl, hm, hp⟩

theorem Begins.agree (hb : Begins m p b) (hb' : Begins m' p' b') (heq : b ++ t = b' ++ t') :
    m = m' ∧ ∃ info, p info ∧ p' info := by
  obtain ⟨byte, u, rfl, rfl, hp⟩ := hb
  obtain ⟨byte', u', rfl, rfl, hp'⟩ := hb'
  obtain ⟨rfl, -⟩ := List.cons.inj heq
  exact ⟨rfl, _, hp, hp'⟩

theorem Begins.weaken (hb : Begins m p b) (hp : ∀ info, p info → p' info) : Begins m p' b := by
  obtain ⟨byte, u, rfl, hm, hinfo⟩ := hb
  exact ⟨byte, u, rfl, hm, hp _ hinfo⟩

theorem Head.of {byte : UInt8} {argument : Bytes} (hm : majorType byte = m)
    (hn : argumentValue byte argument = n) (hinfo : additionalInfo byte < 28)
    (hlen : argument.length = argumentLength (additionalInfo byte)) :
    Head m n (byte :: argument) := by
  rw [← hm, ← hn]
  exact .mk byte argument hinfo hlen

theorem Head.major_mem (hh : Head m n h) : m ∈
    [unsignedInteger, negativeInteger, byteString, textString, array, map, tag, simpleOrFloat] := by
  cases hh with
  | mk byte argument hinfo hlen => exact majorType_mem byte

theorem Head.begins (hh : Head m n h) : Begins m (· < 28) h := by
  cases hh with
  | mk byte argument hinfo hlen => exact ⟨byte, argument, rfl, rfl, hinfo⟩

/-- The argument of a head does not say that the length is not known. -/
theorem Head.ne_indefinite (hh : Head m n h) {start : UInt8}
    (hinfo : additionalInfo start = indefinite) (t u : Bytes) : h ++ t ≠ start :: u := by
  intro heq
  have hstart : Begins (majorType start) (· = indefinite) [start] := ⟨start, [], rfl, rfl, hinfo⟩
  obtain ⟨-, info, hlt, rfl⟩ := hh.begins.agree hstart heq
  exact absurd hlt (by decide)

theorem Head.unique (hh : Head m n h) (hh' : Head m' n' h') (heq : h ++ t = h' ++ t') :
    m = m' ∧ n = n' ∧ h = h' := by
  cases hh with
  | mk byte argument hinfo hlen =>
    cases hh' with
    | mk byte' argument' hinfo' hlen' =>
      rw [List.cons_append, List.cons_append] at heq
      obtain ⟨rfl, hrest⟩ := List.cons.inj heq
      obtain ⟨rfl, -⟩ := List.append_inj hrest (hlen.trans hlen'.symm)
      exact ⟨rfl, rfl, rfl⟩

end Heads

section Items

/-- A string: its content and its bytes. -/
inductive Str (m : UInt8) : Bytes → Bytes → Prop where
  | known {n h content} : Head m n h → content.length = n → Str m content (h ++ content)
  | chunks {start} (cs : List (Bytes × Bytes)) : majorType start = m →
      additionalInfo start = indefinite → (∀ c ∈ cs, Head m c.2.length c.1) →
      Str m (cs.map (·.2)).flatten
        (start :: ((cs.map fun c => c.1 ++ c.2).flatten ++ [breakByte]))

/-- How many items are in a container of the length. -/
def itemCount (m : UInt8) (n : ℕ) : ℕ := if m = map then 2 * n else n

/-- The bytes of a container with the items in it; `fits` bounds the lengths. -/
inductive Encloses (fits : UInt8 → ℕ → Prop) (m : UInt8) (items : List Bytes) : Bytes → Prop where
  | counted {n h} : Head m n h → fits m n → items.length = itemCount m n →
      Encloses fits m items (h ++ items.flatten)
  | uncounted {start} : majorType start = m → additionalInfo start = indefinite →
      (m = map → Even items.length) →
      Encloses fits m items (start :: (items.flatten ++ [breakByte]))

/-- A well-formed item with containers nested so deeply. -/
inductive Item (fits : UInt8 → ℕ → Prop) : ℕ → Bytes → Prop where
  | number {d m n h} : m = unsignedInteger ∨ m = negativeInteger → Head m n h → Item fits d h
  | string {d m content b} : m = byteString ∨ m = textString → Str m content b → Item fits d b
  | container {d m items b} : m = array ∨ m = map → Encloses fits m items b →
      (∀ item ∈ items, Item fits d item) → Item fits (d + 1) b
  | tagged {d n h b} : Head tag n h → Item fits d b → Item fits d (h ++ b)
  | simple {d n h} : Head simpleOrFloat n h → (h.length = 2 → 32 ≤ n) → Item fits d h

/-- The tags before an item. -/
inductive Tags : Bytes → Prop where
  | none : Tags []
  | tag {n h t} : Head tag n h → Tags t → Tags (h ++ t)

/-- Of any length and any depth. -/
def WellFormed (b : Bytes) : Prop := ∃ d, Item (fun _ _ => True) d b

end Items

section Depth

variable {fits fits' : UInt8 → ℕ → Prop} {m : UInt8} {d d' : ℕ} {b : Bytes} {items : List Bytes}

theorem Encloses.mono (hfits : ∀ m n, fits m n → fits' m n) (h : Encloses fits m items b) :
    Encloses fits' m items b := by
  cases h with
  | counted hh hn hlen => exact .counted hh (hfits _ _ hn) hlen
  | uncounted hm hinfo heven => exact .uncounted hm hinfo heven

theorem Encloses.even (h : Encloses fits map items b) : Even items.length := by
  generalize hm : map = m at h
  cases h with
  | counted hh hn hlen =>
    rw [hlen, ← hm]
    exact ⟨_, Nat.two_mul _⟩
  | uncounted _ _ heven => exact heven hm.symm

theorem Item.mono (hfits : ∀ m n, fits m n → fits' m n) (h : Item fits d b) (hd : d ≤ d') :
    Item fits' d' b := by
  induction h generalizing d' with
  | number hm hh => exact .number hm hh
  | string hm hs => exact .string hm hs
  | container hm he _ ih =>
    obtain ⟨d', rfl⟩ := Nat.exists_eq_succ_of_ne_zero (Nat.ne_zero_of_lt hd)
    exact .container hm (he.mono hfits) fun item hitem => ih item hitem (Nat.le_of_succ_le_succ hd)
  | tagged hh _ ih => exact .tagged hh (ih hd)
  | simple hh hn => exact .simple hh hn

theorem Item.wellFormed (h : Item fits d b) : WellFormed b :=
  ⟨d, h.mono (fun _ _ _ => trivial) (Nat.le_refl d)⟩

theorem items_depth (h : ∀ item ∈ items, WellFormed item) :
    ∃ d, ∀ item ∈ items, Item (fun _ _ => True) d item := by
  induction items with
  | nil => exact ⟨0, List.forall_mem_nil _⟩
  | cons item items ih =>
    obtain ⟨⟨d, hitem⟩, hitems⟩ := List.forall_mem_cons.mp h
    obtain ⟨d', hd'⟩ := ih hitems
    refine ⟨max d d', List.forall_mem_cons.mpr ⟨hitem.mono (fun _ _ => id) (Nat.le_max_left _ _),
      fun item hi => ?_⟩⟩
    exact (hd' item hi).mono (fun _ _ => id) (Nat.le_max_right _ _)

theorem wellFormed_container (hm : m = array ∨ m = map) (he : Encloses fits m items b)
    (h : ∀ item ∈ items, WellFormed item) : WellFormed b := by
  obtain ⟨d, hd⟩ := items_depth h
  exact ⟨d + 1, .container hm (he.mono fun _ _ _ => trivial) hd⟩

theorem wellFormed_tagged {n : ℕ} {h : Bytes} (hh : Head tag n h) (hb : WellFormed b) :
    WellFormed (h ++ b) := by
  obtain ⟨d, hd⟩ := hb
  exact ⟨d, .tagged hh hd⟩

theorem Tags.item {t : Bytes} (ht : Tags t) (hb : Item fits d b) : Item fits d (t ++ b) := by
  induction ht with
  | none => exact hb
  | tag hh _ ih =>
    rw [List.append_assoc]
    exact .tagged hh ih

theorem Tags.wellFormed {t : Bytes} (ht : Tags t) (hb : WellFormed b) : WellFormed (t ++ b) := by
  obtain ⟨d, hd⟩ := hb
  exact ⟨d, ht.item hd⟩

theorem Tags.more {t h : Bytes} {n : ℕ} (ht : Tags t) (hh : Head Cbor.tag n h) :
    Tags (t ++ h) := by
  induction ht with
  | none =>
    rw [List.nil_append, ← List.append_nil h]
    exact .tag hh .none
  | tag hh' _ ih =>
    rw [List.append_assoc]
    exact .tag hh' ih

end Depth

section Unique

variable {fits fits' : UInt8 → ℕ → Prop} {m m' : UInt8} {d d' : ℕ} {b b' t t' : Bytes}
  {content content' : Bytes} {items items' : List Bytes}

theorem Str.begins (hs : Str m content b) : Begins m (fun _ => True) b := by
  cases hs with
  | known hh hlen => exact (hh.begins.weaken fun _ _ => trivial).append _
  | chunks cs hm hinfo hcs => exact ⟨_, _, rfl, hm, trivial⟩

theorem Encloses.begins (he : Encloses fits m items b) : Begins m (fun _ => True) b := by
  cases he with
  | counted hh hn hlen => exact (hh.begins.weaken fun _ _ => trivial).append _
  | uncounted hm hinfo heven => exact ⟨_, _, rfl, hm, trivial⟩

theorem Item.ne_break (h : Item fits d b) (t u : Bytes) : b ++ t ≠ breakByte :: u := by
  intro heq
  have hbreak : Begins simpleOrFloat (fun _ => True) [breakByte] :=
    ⟨breakByte, [], rfl, by decide, trivial⟩
  have hother : ∀ {m p}, m ≠ simpleOrFloat → ¬ Begins m p b := by
    intro m p hm hb
    exact hm (hb.agree hbreak heq).1
  cases h with
  | number hm hh =>
    refine hother ?_ hh.begins
    rcases hm with rfl | rfl <;> decide
  | string hm hs =>
    refine hother ?_ hs.begins
    rcases hm with rfl | rfl <;> decide
  | container hm he _ =>
    refine hother ?_ he.begins
    rcases hm with rfl | rfl <;> decide
  | tagged hh _ => exact hother (by decide) (hh.begins.append _)
  | simple hh _ => exact hh.ne_indefinite (by decide) _ _ heq

theorem chunks_unique {cs cs' : List (Bytes × Bytes)} (hcs : ∀ c ∈ cs, Head m c.2.length c.1)
    (hcs' : ∀ c ∈ cs', Head m c.2.length c.1)
    (heq : (cs.map fun c => c.1 ++ c.2).flatten ++ breakByte :: t =
      (cs'.map fun c => c.1 ++ c.2).flatten ++ breakByte :: t') : cs = cs' := by
  induction cs generalizing cs' with
  | nil =>
    cases cs' with
    | nil => rfl
    | cons c' cs' =>
      simp only [List.map_cons, List.flatten_cons, List.append_assoc] at heq
      exact absurd heq.symm ((hcs' c' List.mem_cons_self).ne_indefinite (by decide) _ _)
  | cons c cs ih =>
    obtain ⟨hc, hcs⟩ := List.forall_mem_cons.mp hcs
    simp only [List.map_cons, List.flatten_cons, List.append_assoc] at heq
    cases cs' with
    | nil => exact absurd heq (hc.ne_indefinite (by decide) _ _)
    | cons c' cs' =>
      obtain ⟨hc', hcs'⟩ := List.forall_mem_cons.mp hcs'
      simp only [List.map_cons, List.flatten_cons, List.append_assoc] at heq
      obtain ⟨-, hlen, hhead⟩ := hc.unique hc' heq
      rw [hhead] at heq
      obtain ⟨hcontent, hrest⟩ := List.append_inj (List.append_cancel_left heq) hlen
      rw [Prod.ext hhead hcontent, ih hcs hcs' hrest]

theorem Str.unique (hs : Str m content b) (hs' : Str m' content' b') (heq : b ++ t = b' ++ t') :
    b = b' ∧ content = content' := by
  obtain ⟨rfl, -⟩ := hs.begins.agree hs'.begins heq
  cases hs with
  | known hh hlen =>
    cases hs' with
    | known hh' hlen' =>
      simp only [List.append_assoc] at heq
      obtain ⟨-, rfl, rfl⟩ := hh.unique hh' heq
      obtain ⟨rfl, -⟩ := List.append_inj (List.append_cancel_left heq) (hlen.trans hlen'.symm)
      exact ⟨rfl, rfl⟩
    | chunks cs' hm' hinfo' hcs' =>
      rw [List.append_assoc] at heq
      exact absurd heq (hh.ne_indefinite hinfo' _ _)
  | chunks cs hm hinfo hcs =>
    cases hs' with
    | known hh' hlen' =>
      rw [List.append_assoc] at heq
      exact absurd heq.symm (hh'.ne_indefinite hinfo _ _)
    | chunks cs' hm' hinfo' hcs' =>
      simp only [List.cons_append, List.append_assoc, List.cons.injEq] at heq
      obtain ⟨rfl, hrest⟩ := heq
      obtain rfl := chunks_unique hcs hcs' hrest
      exact ⟨rfl, rfl⟩

/-- The item is no beginning of another one. -/
def Alone (b : Bytes) : Prop :=
  ∀ {fits : UInt8 → ℕ → Prop} {d b' t t'}, Item fits d b' → b ++ t = b' ++ t' → b = b'

theorem counted_unique (hlen : items.length = items'.length) (h : ∀ item ∈ items, Alone item)
    (h' : ∀ item ∈ items', Item fits' d' item)
    (heq : items.flatten ++ t = items'.flatten ++ t') : items = items' := by
  induction items generalizing items' with
  | nil => exact (List.length_eq_zero_iff.mp hlen.symm).symm
  | cons item items ih =>
    cases items' with
    | nil => cases hlen
    | cons item' items' =>
      obtain ⟨hitem, hitems⟩ := List.forall_mem_cons.mp h
      obtain ⟨hitem', hitems'⟩ := List.forall_mem_cons.mp h'
      simp only [List.flatten_cons, List.append_assoc] at heq
      obtain rfl := hitem hitem' heq
      rw [ih (Nat.succ.inj hlen) hitems hitems' (List.append_cancel_left heq)]

theorem uncounted_unique (hitems : ∀ item ∈ items, Item fits d item)
    (h : ∀ item ∈ items, Alone item) (h' : ∀ item ∈ items', Item fits' d' item)
    (heq : items.flatten ++ breakByte :: t = items'.flatten ++ breakByte :: t') :
    items = items' := by
  induction items generalizing items' with
  | nil =>
    cases items' with
    | nil => rfl
    | cons item' items' =>
      rw [List.flatten_cons, List.append_assoc] at heq
      exact absurd heq.symm ((h' item' List.mem_cons_self).ne_break _ _)
  | cons item items ih =>
    obtain ⟨hitem, hitems⟩ := List.forall_mem_cons.mp hitems
    obtain ⟨halone, h⟩ := List.forall_mem_cons.mp h
    cases items' with
    | nil =>
      rw [List.flatten_cons, List.append_assoc] at heq
      exact absurd heq (hitem.ne_break _ _)
    | cons item' items' =>
      obtain ⟨hitem', hitems'⟩ := List.forall_mem_cons.mp h'
      simp only [List.flatten_cons, List.append_assoc] at heq
      obtain rfl := halone hitem' heq
      rw [ih hitems h hitems' (List.append_cancel_left heq)]

theorem Encloses.unique (he : Encloses fits m items b) (he' : Encloses fits' m' items' b')
    (hitems : ∀ item ∈ items, Item fits d item) (h : ∀ item ∈ items, Alone item)
    (h' : ∀ item ∈ items', Item fits' d' item) (heq : b ++ t = b' ++ t') :
    items = items' ∧ b = b' := by
  obtain ⟨rfl, -⟩ := he.begins.agree he'.begins heq
  cases he with
  | counted hh hn hlen =>
    cases he' with
    | counted hh' hn' hlen' =>
      simp only [List.append_assoc] at heq
      obtain ⟨-, rfl, rfl⟩ := hh.unique hh' heq
      obtain rfl := counted_unique (hlen.trans hlen'.symm) h h' (List.append_cancel_left heq)
      exact ⟨rfl, rfl⟩
    | uncounted hm' hinfo' heven' =>
      rw [List.append_assoc] at heq
      exact absurd heq (hh.ne_indefinite hinfo' _ _)
  | uncounted hm hinfo heven =>
    cases he' with
    | counted hh' hn' hlen' =>
      rw [List.append_assoc] at heq
      exact absurd heq.symm (hh'.ne_indefinite hinfo _ _)
    | uncounted hm' hinfo' heven' =>
      simp only [List.cons_append, List.append_assoc, List.cons.injEq] at heq
      obtain ⟨rfl, hrest⟩ := heq
      obtain rfl := uncounted_unique hitems h h' hrest
      exact ⟨rfl, rfl⟩

end Unique

section Inversion

variable {fits fits' : UInt8 → ℕ → Prop} {m : UInt8} {d d' : ℕ} {b b' t t' : Bytes} {p : ℕ → Prop}

theorem Begins.major_eq {m' : UInt8} {p' : ℕ → Prop} (hb : Begins m p b) (hb' : Begins m' p' b) :
    m = m' :=
  (hb.agree hb' (rfl : b ++ [] = b ++ [])).1

theorem Item.begins (h : Item fits d b) : ∃ m, Begins m (fun _ => True) b := by
  cases h with
  | number hm hh => exact ⟨_, hh.begins.weaken fun _ _ => trivial⟩
  | string hm hs => exact ⟨_, hs.begins⟩
  | container hm he _ => exact ⟨_, he.begins⟩
  | tagged hh _ => exact ⟨_, (hh.begins.weaken fun _ _ => trivial).append _⟩
  | simple hh _ => exact ⟨_, hh.begins.weaken fun _ _ => trivial⟩

theorem Item.of_number (h : Item fits d b) (hb : Begins m p b)
    (hm : m = unsignedInteger ∨ m = negativeInteger) : ∃ n, Head m n b := by
  cases h with
  | number hm' hh =>
    obtain rfl := hb.major_eq hh.begins
    exact ⟨_, hh⟩
  | string hm' hs =>
    obtain rfl := hb.major_eq hs.begins
    rcases hm with rfl | rfl <;> exact absurd hm' (by decide)
  | container hm' he _ =>
    obtain rfl := hb.major_eq he.begins
    rcases hm with rfl | rfl <;> exact absurd hm' (by decide)
  | tagged hh _ =>
    obtain rfl := hb.major_eq (hh.begins.append _)
    exact absurd hm (by decide)
  | simple hh _ =>
    obtain rfl := hb.major_eq hh.begins
    exact absurd hm (by decide)

theorem Item.of_string (h : Item fits d b) (hb : Begins m p b)
    (hm : m = byteString ∨ m = textString) : ∃ content, Str m content b := by
  cases h with
  | number hm' hh =>
    obtain rfl := hb.major_eq hh.begins
    rcases hm with rfl | rfl <;> exact absurd hm' (by decide)
  | string hm' hs =>
    obtain rfl := hb.major_eq hs.begins
    exact ⟨_, hs⟩
  | container hm' he _ =>
    obtain rfl := hb.major_eq he.begins
    rcases hm with rfl | rfl <;> exact absurd hm' (by decide)
  | tagged hh _ =>
    obtain rfl := hb.major_eq (hh.begins.append _)
    exact absurd hm (by decide)
  | simple hh _ =>
    obtain rfl := hb.major_eq hh.begins
    exact absurd hm (by decide)

theorem Item.of_container (h : Item fits d b) (hb : Begins m p b) (hm : m = array ∨ m = map) :
    ∃ d' items, d = d' + 1 ∧ Encloses fits m items b ∧ ∀ item ∈ items, Item fits d' item := by
  cases h with
  | number hm' hh =>
    obtain rfl := hb.major_eq hh.begins
    rcases hm with rfl | rfl <;> exact absurd hm' (by decide)
  | string hm' hs =>
    obtain rfl := hb.major_eq hs.begins
    rcases hm with rfl | rfl <;> exact absurd hm' (by decide)
  | container hm' he hitems =>
    obtain rfl := hb.major_eq he.begins
    exact ⟨_, _, rfl, he, hitems⟩
  | tagged hh _ =>
    obtain rfl := hb.major_eq (hh.begins.append _)
    exact absurd hm (by decide)
  | simple hh _ =>
    obtain rfl := hb.major_eq hh.begins
    exact absurd hm (by decide)

theorem Item.of_tag (h : Item fits d b) (hb : Begins tag p b) :
    ∃ n head item, b = head ++ item ∧ Head tag n head ∧ Item fits d item := by
  cases h with
  | number hm hh =>
    obtain rfl := hb.major_eq hh.begins
    exact absurd hm (by decide)
  | string hm hs =>
    obtain rfl := hb.major_eq hs.begins
    exact absurd hm (by decide)
  | container hm he _ =>
    obtain rfl := hb.major_eq he.begins
    exact absurd hm (by decide)
  | tagged hh hitem => exact ⟨_, _, _, rfl, hh, hitem⟩
  | simple hh _ => exact absurd (hb.major_eq hh.begins) (by decide)

theorem Item.of_simple (h : Item fits d b) (hb : Begins simpleOrFloat p b) :
    ∃ n, Head simpleOrFloat n b := by
  cases h with
  | number hm hh =>
    obtain rfl := hb.major_eq hh.begins
    exact absurd hm (by decide)
  | string hm hs =>
    obtain rfl := hb.major_eq hs.begins
    exact absurd hm (by decide)
  | container hm he _ =>
    obtain rfl := hb.major_eq he.begins
    exact absurd hm (by decide)
  | tagged hh _ => exact absurd (hb.major_eq (hh.begins.append _)) (by decide)
  | simple hh _ => exact ⟨_, hh⟩

/-- Where two items begin at the same byte, they begin in the same way. -/
theorem Begins.transfer (hb : Begins m p b) (h' : Item fits d b') (heq : b ++ t = b' ++ t') :
    Begins m (fun _ => True) b' := by
  obtain ⟨m', hb'⟩ := h'.begins
  obtain ⟨rfl, -⟩ := hb.agree hb' heq
  exact hb'

theorem Item.alone (h : Item fits d b) : Alone b := by
  induction h with
  | number hm hh =>
    intro fits' d' b' t t' h' heq
    obtain ⟨n', hh'⟩ := h'.of_number (hh.begins.transfer h' heq) hm
    exact (hh.unique hh' heq).2.2
  | string hm hs =>
    intro fits' d' b' t t' h' heq
    obtain ⟨content', hs'⟩ := h'.of_string (hs.begins.transfer h' heq) hm
    exact (hs.unique hs' heq).1
  | container hm he hitems ih =>
    intro fits' d' b' t t' h' heq
    obtain ⟨d'', items', -, he', hitems'⟩ := h'.of_container (he.begins.transfer h' heq) hm
    exact (he.unique he' hitems ih hitems' heq).2
  | tagged hh _ ih =>
    intro fits' d' b' t t' h' heq
    obtain ⟨n', head', item', rfl, hh', hitem'⟩ :=
      h'.of_tag ((hh.begins.append _).transfer h' heq)
    rw [List.append_assoc, List.append_assoc] at heq
    obtain ⟨-, -, rfl⟩ := hh.unique hh' heq
    rw [ih hitem' (List.append_cancel_left heq)]
  | simple hh _ =>
    intro fits' d' b' t t' h' heq
    obtain ⟨n', hh'⟩ := h'.of_simple (hh.begins.transfer h' heq)
    exact (hh.unique hh' heq).2.2

theorem WellFormed.unique (h : WellFormed b) (h' : WellFormed b') (heq : b ++ t = b' ++ t') :
    b = b' := by
  obtain ⟨d, hd⟩ := h
  obtain ⟨d', hd'⟩ := h'
  exact hd.alone hd' heq

/-- An item begins with a head, or its length is not known. -/
theorem Item.front (h : Item fits d b) : (∃ m n head u, Head m n head ∧ b = head ++ u) ∨
    ∃ start u, b = start :: u ∧ additionalInfo start = indefinite := by
  cases h with
  | number hm hh => exact .inl ⟨_, _, _, [], hh, (List.append_nil _).symm⟩
  | string hm hs =>
    cases hs with
    | known hh hlen => exact .inl ⟨_, _, _, _, hh, rfl⟩
    | chunks cs hmajor hinfo hcs => exact .inr ⟨_, _, rfl, hinfo⟩
  | container hm he _ =>
    cases he with
    | counted hh hn hlen => exact .inl ⟨_, _, _, _, hh, rfl⟩
    | uncounted hmajor hinfo heven => exact .inr ⟨_, _, rfl, hinfo⟩
  | tagged hh _ => exact .inl ⟨_, _, _, _, hh, rfl⟩
  | simple hh _ => exact .inl ⟨_, _, _, [], hh, (List.append_nil _).symm⟩

end Inversion

end Cbor
