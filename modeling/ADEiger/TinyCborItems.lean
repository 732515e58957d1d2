import ADEiger.TinyCborHeads

/-! What tinycbor's cursor moves over: the items of a container, one after the other. -/
namespace TinyCbor

open Cbor (Head Str Encloses Item WellFormed majorType additionalInfo)

variable {it it' u u' : CborValue} {m : UInt8} {n : ℕ} {h t t' : Bytes}

section Moves

def Place.next (p : Place) : Place :=
  ⟨if p.remaining = UINT32_MAX then UINT32_MAX else p.remaining - 1, p.containerIsMap,
    !p.nextIsMapKey⟩

/-- The cursor has moved on from an item to what follows it. -/
inductive Follows (it : CborValue) (t : Bytes) (it' : CborValue) : Prop where
  | last : it.remaining = 1 → Ended it' → it'.ptr = t → Follows it t it'
  | broken : it.remaining = UINT32_MAX → (it.containerIsMap = true → it.nextIsMapKey = true) →
      t = BreakByte :: it'.ptr → Ended it' → Follows it t it'
  | item : (it.remaining = UINT32_MAX → t.head? ≠ some BreakByte) → Primed it' → it'.ptr = t →
      it'.place = it.place.next → Follows it t it'

theorem countItem_remaining (hcount : 0 < u.remaining ∧ u.remaining ≤ UINT32_MAX) :
    (countItem u).remaining = if u.remaining = UINT32_MAX then UINT32_MAX else u.remaining - 1 := by
  rw [countItem]
  split_ifs with hmax
  · exact hmax
  · have hmax' : UINT32_MAX = 2 ^ 32 - 1 := rfl
    dsimp only
    omega

/-- The cursor at the next item, before the head is read. -/
def ahead (u : CborValue) : CborValue :=
  { countItem u with nextIsMapKey := !(countItem u).nextIsMapKey }

theorem ahead_ptr (u : CborValue) : (ahead u).ptr = u.ptr := countItem_ptr u

theorem ahead_type (u : CborValue) : (ahead u).type = u.type := by
  rw [ahead, countItem]
  split_ifs <;> rfl

theorem ahead_place (hcount : 0 < u.remaining ∧ u.remaining ≤ UINT32_MAX) :
    (ahead u).place = u.place.next := by
  have hremaining := countItem_remaining hcount
  have hkept : (countItem u).containerIsMap = u.containerIsMap ∧
      (countItem u).nextIsMapKey = u.nextIsMapKey := by
    rw [countItem]
    split_ifs <;> exact ⟨rfl, rfl⟩
  rw [ahead, CborValue.place]
  dsimp only
  rw [hremaining, hkept.1, hkept.2]
  rfl

theorem preparseNextValue_eq (htype : u.type ≠ CborTagType) : preparseNextValue u =
    if (countItem u).remaining = 0 then (none, { countItem u with type := CborInvalidType })
    else preparseNextValueNodecrement (ahead u) := by
  rw [preparseNextValue, if_neg htype]
  rfl

theorem ahead_counted (hcount : 0 < u.remaining ∧ u.remaining ≤ UINT32_MAX)
    (hone : u.remaining ≠ 1) : 0 < (ahead u).remaining ∧ (ahead u).remaining ≤ UINT32_MAX := by
  have hremaining : (ahead u).remaining = _ := countItem_remaining hcount
  rw [hremaining]
  split_ifs
  · exact ⟨by decide, Nat.le_refl _⟩
  · omega

theorem ahead_max (hcount : 0 < u.remaining ∧ u.remaining ≤ UINT32_MAX) :
    (ahead u).remaining = UINT32_MAX ↔ u.remaining = UINT32_MAX := by
  have hremaining : (ahead u).remaining = _ := countItem_remaining hcount
  rw [hremaining]
  split_ifs with hmax
  · exact iff_of_true rfl hmax
  · refine iff_of_false (fun h => ?_) hmax
    omega

theorem preparseNextValue_last (htype : u.type ≠ CborTagType) (hone : u.remaining = 1) :
    preparseNextValue u = (none, { countItem u with type := CborInvalidType }) := by
  have hzero : (countItem u).remaining = 0 := by
    rw [countItem_remaining (by rw [hone]; decide), hone]
    rfl
  rw [preparseNextValue_eq htype, if_pos hzero]

theorem preparseNextValue_ahead (htype : u.type ≠ CborTagType)
    (hcount : 0 < u.remaining ∧ u.remaining ≤ UINT32_MAX) (hone : u.remaining ≠ 1) :
    preparseNextValue u = preparseNextValueNodecrement (ahead u) := by
  have hpos : (countItem u).remaining ≠ 0 := Nat.ne_of_gt (ahead_counted hcount hone).1
  rw [preparseNextValue_eq htype, if_neg hpos]

/-- What the cursor does when it is moved on, whatever else it has read. -/
theorem preparseNextValue_follows (htype : u.type ≠ CborTagType)
    (hcount : 0 < it.remaining ∧ it.remaining ≤ UINT32_MAX) (hplace : u.place = it.place)
    (h : preparseNextValue u = (none, it')) : Follows it u.ptr it' := by
  have hremaining : u.remaining = it.remaining := congrArg Place.remaining hplace
  have hmap : u.containerIsMap = it.containerIsMap := congrArg Place.containerIsMap hplace
  have hkey : u.nextIsMapKey = it.nextIsMapKey := congrArg Place.nextIsMapKey hplace
  rw [← hremaining] at hcount
  by_cases hone : u.remaining = 1
  · rw [preparseNextValue_last htype hone] at h
    have hzero : (countItem u).remaining = 0 := by
      rw [countItem_remaining hcount, hone]
      rfl
    obtain rfl := (Prod.mk.inj h).2
    exact .last (hremaining.symm.trans hone) ⟨rfl, hzero⟩ (countItem_ptr u)
  rw [preparseNextValue_ahead htype hcount hone, preparseNextValueNodecrement] at h
  by_cases hbreak : (ahead u).remaining = UINT32_MAX ∧ (ahead u).ptr.head? = some BreakByte
  · rw [if_pos hbreak] at h
    split_ifs at h with hkey'
    · cases (Prod.mk.inj h).1
    obtain rfl := (Prod.mk.inj h).2
    have hmax : it.remaining = UINT32_MAX := by
      rw [← hremaining]
      exact (ahead_max hcount).mp hbreak.1
    refine .broken hmax (fun hismap => ?_) ?_ ⟨rfl, rfl⟩
    · have hplace' := ahead_place hcount
      have hmap' : (ahead u).containerIsMap = u.containerIsMap :=
        congrArg Place.containerIsMap hplace'
      have hnext : (ahead u).nextIsMapKey = !u.nextIsMapKey := congrArg Place.nextIsMapKey hplace'
      rw [hmap', hnext, hmap, hkey, hismap] at hkey'
      by_contra hnot
      rw [Bool.eq_false_iff.mpr hnot] at hkey'
      exact hkey' rfl
    · obtain ⟨tail, htail⟩ := List.head?_eq_some_iff.mp hbreak.2
      dsimp only
      rw [htail, ← ahead_ptr u, htail]
      rfl
  · rw [if_neg hbreak] at h
    obtain ⟨hprimed, hptr, hplace'⟩ := primed_of_preparse h (ahead_counted hcount hone)
    rw [ahead_ptr] at hptr
    refine .item (fun hmax hhead => hbreak ⟨?_, ?_⟩) hprimed hptr ?_
    · rw [ahead_max hcount, hremaining]
      exact hmax
    · rw [ahead_ptr]
      exact hhead
    · rw [hplace', ahead_place hcount, hplace]

theorem next_ne_last (hone : it.remaining = 1) (h : Primed u) : u.place ≠ it.place.next := by
  intro hplace
  have hpos := h.counted.1
  have hnext : u.remaining = it.place.next.remaining := congrArg Place.remaining hplace
  have hzero : it.place.next.remaining = 0 := by
    rw [Place.next, CborValue.place, hone]
    rfl
  omega

theorem Follows.moves (h : Follows it t it') (hcount : 0 < it.remaining ∧ it.remaining ≤ UINT32_MAX)
    (htype : u.type ≠ CborTagType) (hptr : u.ptr = t) (hplace : u.place = it.place) :
    ∃ it'', preparseNextValue u = (none, it'') ∧ Follows it t it'' := by
  have hremaining : u.remaining = it.remaining := congrArg Place.remaining hplace
  have hmap : u.containerIsMap = it.containerIsMap := congrArg Place.containerIsMap hplace
  have hkey : u.nextIsMapKey = it.nextIsMapKey := congrArg Place.nextIsMapKey hplace
  have hcount' := hcount
  rw [← hremaining] at hcount'
  have hnone : (preparseNextValue u).1 = none := by
    cases h with
    | last hone hended hlast => rw [preparseNextValue_last htype (hremaining.trans hone)]
    | broken hmax hbreak ht hended =>
      have hone : u.remaining ≠ 1 := by
        rw [hremaining, hmax]
        decide
      have hplace' := ahead_place hcount'
      have hmap' : (ahead u).containerIsMap = u.containerIsMap :=
        congrArg Place.containerIsMap hplace'
      have hnext : (ahead u).nextIsMapKey = !u.nextIsMapKey := congrArg Place.nextIsMapKey hplace'
      rw [preparseNextValue_ahead htype hcount' hone, preparseNextValueNodecrement, if_pos, if_neg]
      · rw [hmap', hnext, hmap, hkey, ahead_type]
        simp only [Bool.or_eq_true, Bool.and_eq_true, beq_iff_eq, not_or]
        refine ⟨fun hboth => ?_, htype⟩
        rw [hbreak hboth.1] at hboth
        exact absurd hboth.2 (by decide)
      · refine ⟨?_, ?_⟩
        · rw [ahead_max hcount', hremaining]
          exact hmax
        · rw [ahead_ptr, hptr, ht]
          rfl
    | item hbreak hprimed hitem hplace'' =>
      have hone : u.remaining ≠ 1 := fun hone =>
        next_ne_last (hremaining.symm.trans hone) hprimed hplace''
      rw [preparseNextValue_ahead htype hcount' hone, preparseNextValueNodecrement, if_neg]
      · obtain ⟨byte, rest, hbyte⟩ := preparseValue_ok hprimed.read
        have hahead : (ahead u).ptr = byte :: rest := by
          rw [ahead_ptr, hptr, ← hitem]
          exact hbyte
        rw [(preparseValue_congr hahead hbyte fun _ => rfl).1, hprimed.read]
      · rintro ⟨hmax, hhead⟩
        rw [ahead_max hcount', hremaining] at hmax
        rw [ahead_ptr, hptr] at hhead
        exact hbreak hmax hhead
  refine ⟨(preparseNextValue u).2, Prod.ext hnone rfl, ?_⟩
  rw [← hptr]
  exact preparseNextValue_follows htype hcount hplace (Prod.ext hnone rfl)

def Standing (it : CborValue) : Prop := Primed it ∨ Ended it

theorem Follows.standing (h : Follows it t it') : Standing it' := by
  cases h with
  | last hone hended hlast => exact .inr hended
  | broken hmax hbreak ht hended => exact .inr hended
  | item hbreak hprimed hitem hplace => exact .inl hprimed

theorem Primed.eq (h : Primed it) (h' : Primed u) (hptr : it.ptr = u.ptr)
    (hplace : it.place = u.place) : it = u := by
  obtain ⟨byte, rest, hbyte⟩ := preparseValue_ok h.read
  have hreading := (preparseValue_congr hbyte (hptr.symm.trans hbyte) fun _ => rfl).2
  rw [h.read, h'.read] at hreading
  exact CborValue.eq_of hptr hreading hplace

theorem Follows.same (h : Follows it t it') (h' : Follows it t u) :
    it' = u ∨ Ended it' ∧ Ended u ∧ it'.ptr = u.ptr := by
  cases h with
  | last hone hended hlast =>
    cases h' with
    | last _ hended' hlast' => exact .inr ⟨hended, hended', hlast.trans hlast'.symm⟩
    | broken hmax _ _ _ => exact absurd (hone.symm.trans hmax) (by decide)
    | item _ hprimed _ hplace => exact absurd hplace (next_ne_last hone hprimed)
  | broken hmax hbreak ht hended =>
    cases h' with
    | last hone _ _ => exact absurd (hone.symm.trans hmax) (by decide)
    | broken _ _ ht' hended' => exact .inr ⟨hended, hended', (List.cons.inj (ht.symm.trans ht')).2⟩
    | item hbreak' _ _ _ => exact absurd (by rw [ht]; rfl) (hbreak' hmax)
  | item hbreak hprimed hitem hplace =>
    cases h' with
    | last hone _ _ => exact absurd hplace (next_ne_last hone hprimed)
    | broken hmax _ ht _ => exact absurd (by rw [ht]; rfl) (hbreak hmax)
    | item _ hprimed' hitem' hplace' =>
      exact .inl (hprimed.eq hprimed' (hitem.trans hitem'.symm) (hplace.trans hplace'.symm))

end Moves

section Passages

variable {next last : CborValue} {b : Bytes} {bs bs' : List Bytes}

/-- The cursor moves over the items, one after the other. -/
inductive Passes : CborValue → List Bytes → CborValue → Prop where
  | nil (it : CborValue) : Passes it [] it
  | cons {it next last : CborValue} {b t : Bytes} {bs : List Bytes} : Primed it →
      it.ptr = b ++ t → Follows it t next → Passes next bs last → Passes it (b :: bs) last

theorem Passes.append (h : Passes it bs next) (h' : Passes next bs' last) :
    Passes it (bs ++ bs') last := by
  induction h with
  | nil it => exact h'
  | cons hit hptr hnext _ ih => exact .cons hit hptr hnext (ih h')

theorem Passes.standing (h : Passes it bs last) (hit : Standing it) : Standing last := by
  induction h with
  | nil it => exact hit
  | cons _ _ hnext _ ih => exact ih hnext.standing

theorem Primed.not_ended (h : Primed it) : ¬ Ended it :=
  fun hended => absurd hended.2 (Nat.ne_of_gt h.counted.1)

theorem Passes.of_ended (h : Passes it bs last) (hended : Ended it) : bs = [] ∧ last = it := by
  cases h with
  | nil => exact ⟨rfl, rfl⟩
  | cons hit _ _ _ => exact absurd hended hit.not_ended

theorem Place.next_remaining {p : Place} (hmax : p.remaining ≠ UINT32_MAX) :
    p.next.remaining = p.remaining - 1 := if_neg hmax

theorem Passes.counted (h : Passes it bs last) (hmax : it.remaining ≠ UINT32_MAX) :
    last.remaining + bs.length = it.remaining := by
  induction h with
  | nil it => rfl
  | @cons it next last b t bs hit hptr hnext hrest ih =>
    rw [List.length_cons]
    cases hnext with
    | last hone hended _ =>
      have hzero := ih (by rw [hended.2]; decide)
      rw [hended.2] at hzero
      omega
    | broken hmax' _ _ _ => exact absurd hmax' hmax
    | item _ hprimed _ hplace =>
      have hremaining : next.remaining = it.remaining - 1 :=
        (congrArg Place.remaining hplace).trans (Place.next_remaining hmax)
      have hcount := hit.counted
      have hsum := ih (by omega)
      omega

/-- The bytes of the items of a container of known length. -/
theorem Passes.bytes_counted (h : Passes it bs last) (hmax : it.remaining ≠ UINT32_MAX) :
    it.ptr = bs.flatten ++ last.ptr := by
  induction h with
  | nil it => rfl
  | @cons it next last b t bs hit hptr hnext hrest ih =>
    rw [List.flatten_cons, List.append_assoc, hptr]
    cases hnext with
    | last hone hended hlast => rw [← hlast, ih (by rw [hended.2]; decide)]
    | broken hmax' _ _ _ => exact absurd hmax' hmax
    | item _ hprimed hitem hplace =>
      have hremaining : next.remaining = it.remaining - 1 :=
        (congrArg Place.remaining hplace).trans (Place.next_remaining hmax)
      have hcount := hit.counted
      rw [← hitem, ih (by omega)]

/-- The bytes of the items up to the break; a map has a value for each key. -/
theorem Passes.bytes_uncounted (h : Passes it bs last) (hended : Ended last)
    (hmax : it.remaining = UINT32_MAX) : it.ptr = bs.flatten ++ BreakByte :: last.ptr ∧
      (it.containerIsMap = true → (Even bs.length ↔ it.nextIsMapKey = false)) := by
  induction h with
  | nil it =>
    rw [hended.2] at hmax
    exact absurd hmax (by decide)
  | @cons it next last b t bs hit hptr hnext hrest ih =>
    rw [List.flatten_cons, List.append_assoc, hptr, List.length_cons]
    cases hnext with
    | last hone _ _ => exact absurd (hone.symm.trans hmax) (by decide)
    | broken _ hbreak ht hended' =>
      obtain ⟨rfl, rfl⟩ := hrest.of_ended hended'
      refine ⟨by rw [ht]; rfl, fun hmap => ?_⟩
      rw [hbreak hmap]
      decide
    | item _ hprimed hitem hplace =>
      have hremaining : next.remaining = UINT32_MAX :=
        (congrArg Place.remaining hplace).trans (if_pos hmax)
      have hmap' : next.containerIsMap = it.containerIsMap := congrArg Place.containerIsMap hplace
      have hkey : next.nextIsMapKey = !it.nextIsMapKey := congrArg Place.nextIsMapKey hplace
      obtain ⟨hbytes, hparity⟩ := ih hended hremaining
      rw [hmap', hkey] at hparity
      refine ⟨by rw [← hitem, hbytes], fun hmap => ?_⟩
      rw [Nat.even_add_one, hparity hmap]
      cases it.nextIsMapKey <;> decide

/-- Before the last items of a container, which `t` follows. -/
def Before (it : CborValue) (bs : List Bytes) (t : Bytes) : Prop :=
  ∃ last, Passes it bs last ∧ Ended last ∧ last.ptr = t

theorem before_nil_iff : Before it [] t ↔ Ended it ∧ it.ptr = t := by
  constructor
  · rintro ⟨last, hpasses, hended⟩
    cases hpasses
    exact hended
  · exact fun hended => ⟨it, .nil it, hended⟩

theorem Before.cons (hit : Primed it) (hptr : it.ptr = b ++ t) (hnext : Follows it t next)
    (h : Before next bs t') : Before it (b :: bs) t' := by
  obtain ⟨last, hpasses, hended⟩ := h
  exact ⟨last, .cons hit hptr hnext hpasses, hended⟩

theorem Before.step (h : Before it (b :: bs) t') : Primed it ∧ ∃ t, it.ptr = b ++ t ∧
    (∃ next, Follows it t next) ∧ ∀ next, Follows it t next → Before next bs t' := by
  obtain ⟨last, hpasses, hended, hlast⟩ := h
  cases hpasses with
  | @cons _ next _ _ t _ hit hptr hnext hrest =>
    refine ⟨hit, t, hptr, ⟨next, hnext⟩, fun next' hnext' => ?_⟩
    rcases hnext.same hnext' with rfl | ⟨hended₁, hended₂, hsame⟩
    · exact ⟨last, hrest, hended, hlast⟩
    · obtain ⟨rfl, rfl⟩ := hrest.of_ended hended₁
      exact before_nil_iff.mpr ⟨hended₂, hsame.symm.trans hlast⟩

theorem Passes.before (h : Passes it bs next) (h' : Before next bs' t) :
    Before it (bs ++ bs') t := by
  obtain ⟨last, hpasses, hended⟩ := h'
  exact ⟨last, h.append hpasses, hended⟩

/-- So many items are left of the container, and how it is closed. -/
structure Room (it : CborValue) (k : ℕ) (close : Bytes) : Prop where
  counted : it.remaining ≠ UINT32_MAX → it.remaining = k ∧ close = []
  uncounted : it.remaining = UINT32_MAX → close = [BreakByte] ∧
    (it.containerIsMap = true → (Even k ↔ it.nextIsMapKey = false))

theorem before_items {close : Bytes} (hwf : ∀ item ∈ b :: bs, WellFormed item) (hit : Primed it)
    (hptr : it.ptr = (b :: bs).flatten ++ (close ++ t))
    (hroom : Room it (bs.length + 1) close) : Before it (b :: bs) t := by
  rw [List.flatten_cons, List.append_assoc] at hptr
  induction bs generalizing it b with
  | nil =>
    rw [List.flatten_nil, List.nil_append] at hptr
    have hlast : Before { it with ptr := t, type := CborInvalidType, remaining := 0 } [] t :=
      before_nil_iff.mpr ⟨⟨rfl, rfl⟩, rfl⟩
    by_cases hmax : it.remaining = UINT32_MAX
    · obtain ⟨rfl, hparity⟩ := hroom.uncounted hmax
      refine Before.cons hit hptr (.broken hmax (fun hmap => ?_) rfl ⟨rfl, rfl⟩)
        hlast
      have hodd := mt (hparity hmap).mpr (by decide)
      simpa using hodd
    · obtain ⟨hone, rfl⟩ := hroom.counted hmax
      exact Before.cons hit hptr (.last hone ⟨rfl, rfl⟩ rfl) hlast
  | cons b' bs ih =>
    obtain ⟨-, hwf'⟩ := List.forall_mem_cons.mp hwf
    obtain ⟨⟨d, hb'⟩, -⟩ := List.forall_mem_cons.mp hwf'
    have hlen : (b' :: bs).length = bs.length + 1 := rfl
    have hcount := hit.counted
    have hnext : it.place.next.remaining =
        if it.remaining = UINT32_MAX then UINT32_MAX else it.remaining - 1 := rfl
    have hmany : it.remaining ≠ 1 := by
      intro hone
      have hmax : it.remaining ≠ UINT32_MAX := by
        rw [hone]
        decide
      have hk := (hroom.counted hmax).1
      omega
    generalize hrest : (b' :: bs).flatten ++ (close ++ t) = rest at hptr
    have hitem : rest = b' ++ (bs.flatten ++ (close ++ t)) := by
      rw [← hrest, List.flatten_cons, List.append_assoc]
    generalize hv : ({ it with ptr := rest, remaining := it.place.next.remaining
                               nextIsMapKey := !it.nextIsMapKey } : CborValue) = v
    have hvptr : v.ptr = rest := by rw [← hv]
    have hvplace : v.place = it.place.next := by
      rw [← hv]
      rfl
    have hvcount : 0 < v.remaining ∧ v.remaining ≤ UINT32_MAX := by
      have hvremaining : v.remaining = it.place.next.remaining := by rw [← hv]
      rw [hvremaining, hnext]
      split_ifs
      · exact ⟨by decide, Nat.le_refl _⟩
      · omega
    have hread := preparse_item hb' (hvptr.trans hitem)
    obtain ⟨hprimed, hnptr, hnplace⟩ :=
      primed_of_preparse (Prod.ext hread rfl : preparseValue v = (none, (preparseValue v).2))
        hvcount
    generalize (preparseValue v).2 = next at hprimed hnptr hnplace
    have hplace := hnplace.trans hvplace
    have hremaining : next.remaining = it.place.next.remaining := congrArg Place.remaining hplace
    have hmap : next.containerIsMap = it.containerIsMap := congrArg Place.containerIsMap hplace
    have hkey : next.nextIsMapKey = !it.nextIsMapKey := congrArg Place.nextIsMapKey hplace
    refine Before.cons hit hptr (.item (fun _ hhead => ?_) hprimed (hnptr.trans hvptr) hplace)
      (ih hwf' hprimed ((hnptr.trans hvptr).trans hitem) ⟨fun hmax => ?_, fun hmax => ?_⟩)
    · rw [hitem] at hhead
      obtain ⟨tail, htail⟩ := List.head?_eq_some_iff.mp hhead
      exact hb'.ne_break _ _ htail
    · have hmax' : it.remaining ≠ UINT32_MAX := by
        intro hmax'
        rw [hremaining, hnext, if_pos hmax'] at hmax
        exact hmax rfl
      obtain ⟨hk, hclose⟩ := hroom.counted hmax'
      rw [hremaining, hnext, if_neg hmax']
      exact ⟨by omega, hclose⟩
    · have hmax' : it.remaining = UINT32_MAX := by
        by_contra hmax'
        rw [hremaining, hnext, if_neg hmax'] at hmax
        omega
      obtain ⟨hclose, hparity⟩ := hroom.uncounted hmax'
      refine ⟨hclose, fun hismap => ?_⟩
      have hodd := hparity (hmap.symm.trans hismap)
      rw [hlen, Nat.even_add_one] at hodd
      rw [hkey, Bool.not_eq_false', ← Bool.not_eq_false, ← hodd, not_not]

end Passages

end TinyCbor
