import ADEiger.TinyCborStrings

/-! How tinycbor's cursor enters a container and leaves it: what was passed inside is what the
container encloses. -/
namespace TinyCbor

open Cbor (Head Str Encloses Item WellFormed majorType additionalInfo)

variable {it it' next last : CborValue} {m : UInt8} {n d : ℕ} {h b t t' : Bytes}
  {bs : List Bytes}

section Containers

variable {elt : CborValue}

def IsContainer (type : UInt8) : Prop := type = CborArrayType ∨ type = CborMapType

theorem IsContainer.long {type : UInt8} (h : IsContainer type) :
    isFixedType type = false ∧ type ≠ CborTagType ∧ type ≠ CborSimpleType := by
  rcases h with rfl | rfl <;> decide

/-- The counts that the cursor has room for. -/
def Fits (m : UInt8) (n : ℕ) : Prop := n < UINT32_MAX ∧ (m = CborMapType → n ≤ UINT32_MAX / 2)

theorem Fits.itemCount (h : Fits m n) : Cbor.itemCount m n < UINT32_MAX := by
  rw [Cbor.itemCount]
  split_ifs with hm
  · have hle := h.2 hm
    have hmax : UINT32_MAX = 2 ^ 32 - 1 := rfl
    omega
  · exact h.1

theorem Standing.ended (h : Standing it) (htype : it.type = CborInvalidType) : Ended it := by
  rcases h with hprimed | hended
  · exact absurd htype (primed_valid hprimed)
  · exact hended

/-- The cursor inside: what it has passed when it ends are the items of the container. -/
structure Entered (it elt : CborValue) : Prop where
  standing : Standing elt
  count : it.unknownLength = false → elt.remaining = Cbor.itemCount it.type it.extractInt64 ∧
    elt.remaining ≠ UINT32_MAX
  place : Primed elt → elt.containerIsMap = (it.type == CborMapType) ∧ elt.nextIsMapKey = false ∧
    (it.unknownLength = true → elt.remaining = UINT32_MAX)
  encloses : ∀ {bs last}, Passes elt bs last → Ended last →
    ∃ b, it.ptr = b ++ last.ptr ∧ Encloses Fits it.type bs b

theorem inside_known {ptr : Bytes} {remaining : ℕ} (hmax : remaining < UINT32_MAX) :
    preparseNextValueNodecrement (inside it ptr remaining) =
      preparseValue (inside it ptr remaining) := by
  rw [preparseNextValueNodecrement, if_neg fun h => absurd h.1 (Nat.ne_of_lt hmax)]

theorem enterContainer_known (hh : Head it.type n h) (hptr : it.ptr = h ++ t)
    (hknown : it.unknownLength = false) (hfits : Fits it.type n) : enterContainer it =
      if n = 0 then .ok { it with ptr := t, remaining := 0, type := CborInvalidType }
      else (preparseValue (inside it t (Cbor.itemCount it.type n))).check := by
  rw [enterContainer, if_neg (by rw [hknown]; exact Bool.false_ne_true), hptr,
    extractNumber_head hh]
  dsimp only
  have hmap : ¬ (it.type = CborMapType ∧ UINT32_MAX / 2 < n) :=
    fun hmap => absurd (hfits.2 hmap.1) (Nat.not_le.mpr hmap.2)
  have hcount : (if it.type = CborMapType then 2 * n else n) = Cbor.itemCount it.type n := rfl
  rw [if_neg (Nat.not_le.mpr hfits.1), if_neg hmap, hcount, inside_known hfits.itemCount]

theorem enterContainer_fits (hh : Head it.type n h) (hptr : it.ptr = h ++ t)
    (hknown : it.unknownLength = false) (henter : enterContainer it = .ok elt) :
    Fits it.type n := by
  rw [enterContainer, if_neg (by rw [hknown]; exact Bool.false_ne_true), hptr,
    extractNumber_head hh] at henter
  obtain ⟨hmax, henter⟩ := Loop.guard_ok henter
  obtain ⟨hmap, -⟩ := Loop.guard_ok henter
  exact ⟨Nat.not_le.mp hmax, fun htype => Nat.not_lt.mp fun hlt => hmap ⟨htype, hlt⟩⟩

theorem enterContainer_unknown (hunknown : it.unknownLength = true) :
    enterContainer it = (preparseNextValueNodecrement (inside it it.ptr.tail UINT32_MAX)).check :=
  if_pos hunknown

theorem entered_known (hh : Head it.type n h) (hptr : it.ptr = h ++ t)
    (hknown : it.unknownLength = false) (hn : it.extractInt64 = n)
    (henter : enterContainer it = .ok elt) : Entered it elt := by
  have hfits := enterContainer_fits hh hptr hknown henter
  rw [enterContainer_known hh hptr hknown hfits] at henter
  have hmax := hfits.itemCount
  by_cases hzero : n = 0
  · rw [if_pos hzero] at henter
    obtain rfl := Except.ok.inj henter
    have hitems : Cbor.itemCount it.type n = 0 := by
      rw [hzero, Cbor.itemCount]
      split_ifs <;> rfl
    refine ⟨.inr ⟨rfl, rfl⟩, fun _ => ⟨by rw [hn, hitems],
      (by decide : 0 ≠ UINT32_MAX)⟩,
      fun hprimed => absurd rfl (primed_valid hprimed), fun hpasses hended => ?_⟩
    obtain ⟨rfl, rfl⟩ := hpasses.of_ended ⟨rfl, rfl⟩
    exact ⟨h ++ [].flatten, by rw [List.flatten_nil, List.append_nil]; exact hptr,
      .counted hh hfits hitems.symm⟩
  · rw [if_neg hzero] at henter
    have hpos : 0 < Cbor.itemCount it.type n := by
      rw [Cbor.itemCount]
      split_ifs <;> omega
    obtain ⟨hprimed, hptr', hplace⟩ :=
      primed_of_preparse (Moved.check_ok henter) ⟨hpos, Nat.le_of_lt hmax⟩
    have hremaining : elt.remaining = Cbor.itemCount it.type n := congrArg Place.remaining hplace
    have hne : elt.remaining ≠ UINT32_MAX := by
      rw [hremaining]
      exact Nat.ne_of_lt hmax
    refine ⟨.inl hprimed, fun _ => ⟨by rw [hn, hremaining], hne⟩, fun _ =>
      ⟨congrArg Place.containerIsMap hplace, congrArg Place.nextIsMapKey hplace,
        fun hunknown => by rw [hknown] at hunknown; cases hunknown⟩, fun hpasses hended => ?_⟩
    have hlen := hpasses.counted hne
    rw [hended.2, Nat.zero_add, hremaining] at hlen
    have hbytes : t = _ := hptr'.symm.trans (hpasses.bytes_counted hne)
    exact ⟨_, by rw [hptr, hbytes, List.append_assoc], .counted hh hfits hlen⟩

theorem entered_unknown {byte : UInt8} (hptr : it.ptr = byte :: t)
    (hmajor : majorType byte = it.type) (hinfo : additionalInfo byte = Cbor.indefinite)
    (hunknown : it.unknownLength = true) (henter : enterContainer it = .ok elt) :
    Entered it elt := by
  have hknown : it.unknownLength = false → False := by
    rw [hunknown]
    exact fun h => by cases h
  rw [enterContainer_unknown hunknown, hptr, List.tail_cons] at henter
  have hmoved := Moved.check_ok henter
  rw [preparseNextValueNodecrement] at hmoved
  by_cases hbreak : (inside it t UINT32_MAX).remaining = UINT32_MAX ∧
      (inside it t UINT32_MAX).ptr.head? = some BreakByte
  · rw [if_pos hbreak] at hmoved
    split_ifs at hmoved
    · cases (Prod.mk.inj hmoved).1
    obtain rfl := (Prod.mk.inj hmoved).2
    refine ⟨.inr ⟨rfl, rfl⟩, fun h => (hknown h).elim,
      fun hprimed => absurd rfl (primed_valid hprimed), fun hpasses hended => ?_⟩
    obtain ⟨rfl, rfl⟩ := hpasses.of_ended ⟨rfl, rfl⟩
    obtain ⟨tail, htail⟩ := List.head?_eq_some_iff.mp hbreak.2
    have ht : t = BreakByte :: tail := htail
    refine ⟨byte :: ([].flatten ++ [Cbor.breakByte]), ?_,
      .uncounted hmajor hinfo fun _ => by decide⟩
    rw [hptr, ht]
    rfl
  · rw [if_neg hbreak] at hmoved
    obtain ⟨hprimed, hptr', hplace⟩ := primed_of_preparse hmoved ⟨(by decide : 0 < UINT32_MAX),
      Nat.le_refl _⟩
    have hremaining : elt.remaining = UINT32_MAX := congrArg Place.remaining hplace
    have hmap : elt.containerIsMap = (it.type == CborMapType) :=
      congrArg Place.containerIsMap hplace
    have hkey : elt.nextIsMapKey = false := congrArg Place.nextIsMapKey hplace
    refine ⟨.inl hprimed, fun h => (hknown h).elim, fun _ => ⟨hmap, hkey, fun _ => hremaining⟩,
      fun hpasses hended => ?_⟩
    obtain ⟨hbytes, hparity⟩ := hpasses.bytes_uncounted hended hremaining
    have ht : t = _ := hptr'.symm.trans hbytes
    refine ⟨_, ?_, .uncounted hmajor hinfo fun htype => (hparity ?_).mpr hkey⟩
    · rw [hptr, ht, List.cons_append, List.append_assoc]
      rfl
    · rw [hmap, beq_iff_eq]
      exact htype

theorem enterContainer_sound (hit : Primed it) (hc : IsContainer it.type)
    (henter : enterContainer it = .ok elt) : Entered it elt := by
  rcases primed_long hit.read hc.long.1 with ⟨n, head, t, hh, hptr, hknown, hn⟩ |
    ⟨byte, t, hptr, hmajor, hinfo, hunknown⟩
  · exact entered_known hh hptr hknown hn henter
  · exact entered_unknown hptr hmajor hinfo hunknown henter

theorem enterContainer_complete (hit : Primed it) (hc : IsContainer it.type)
    (hwf : ∀ item ∈ bs, WellFormed item) (he : Encloses Fits it.type bs b)
    (hptr : it.ptr = b ++ t) : ∃ elt, enterContainer it = .ok elt ∧ Before elt bs t := by
  generalize hm : it.type = m at he
  cases he with
  | @counted n head hh hfits hlen =>
    rw [← hm] at hh hfits hlen
    rw [List.append_assoc] at hptr
    have hknown := (primed_head hit.read hptr hh hc.long.2.2).2.2.2
    have hmax := hfits.itemCount
    rw [enterContainer_known hh hptr hknown hfits]
    cases bs with
    | nil =>
      have hzero : n = 0 := by
        rw [Cbor.itemCount, List.length_nil] at hlen
        split_ifs at hlen <;> omega
      rw [if_pos hzero]
      exact ⟨_, rfl, before_nil_iff.mpr ⟨⟨rfl, rfl⟩, rfl⟩⟩
    | cons item bs =>
      obtain ⟨⟨d, hitem⟩, -⟩ := List.forall_mem_cons.mp hwf
      have hpos : 0 < Cbor.itemCount it.type n := by
        rw [← hlen]
        exact Nat.succ_pos _
      have hzero : n ≠ 0 := by
        rintro rfl
        rw [Cbor.itemCount] at hpos
        split_ifs at hpos <;> omega
      have hread := preparse_item (t := bs.flatten ++ t)
        (u := inside it ((item :: bs).flatten ++ t) (Cbor.itemCount it.type n)) hitem
        (by rw [inside, List.flatten_cons, List.append_assoc])
      have hpair : preparseValue (inside it ((item :: bs).flatten ++ t)
        (Cbor.itemCount it.type n)) = (none, _) := Prod.ext hread rfl
      obtain ⟨hprimed, hptr', hplace⟩ :=
        primed_of_preparse hpair ⟨hpos, Nat.le_of_lt hmax⟩
      have hremaining : CborValue.remaining _ = Cbor.itemCount it.type n :=
        congrArg Place.remaining hplace
      rw [if_neg hzero]
      refine ⟨_, by rw [hpair]; rfl, before_items hwf hprimed
        (hptr'.trans (congrArg _ (List.nil_append t).symm))
        ⟨fun _ => ⟨hremaining.trans hlen.symm, rfl⟩, fun h => ?_⟩⟩
      rw [hremaining] at h
      exact absurd h (Nat.ne_of_lt hmax)
  | @uncounted start hmajor hinfo heven =>
    rw [List.cons_append, List.append_assoc] at hptr
    have hunknown := (primed_indefinite hit.read hptr hinfo).2.2
    rw [enterContainer_unknown hunknown, hptr, List.tail_cons, preparseNextValueNodecrement]
    cases bs with
    | nil =>
      rw [if_pos ⟨rfl, rfl⟩, if_neg]
      · exact ⟨_, rfl, before_nil_iff.mpr ⟨⟨rfl, rfl⟩, rfl⟩⟩
      · have htag : (it.type == CborTagType) = false := beq_eq_false_iff_ne.mpr hc.long.2.1
        simp [inside, htag]
    | cons item bs =>
      obtain ⟨⟨d, hitem⟩, -⟩ := List.forall_mem_cons.mp hwf
      have hstart : (item :: bs).flatten ++ ([Cbor.breakByte] ++ t) =
          item ++ (bs.flatten ++ ([Cbor.breakByte] ++ t)) := by
        rw [List.flatten_cons, List.append_assoc]
      have hread := preparse_item
        (u := inside it ((item :: bs).flatten ++ ([Cbor.breakByte] ++ t)) UINT32_MAX) hitem hstart
      have hpair : preparseValue (inside it ((item :: bs).flatten ++ ([Cbor.breakByte] ++ t))
        UINT32_MAX) = (none, _) := Prod.ext hread rfl
      obtain ⟨hprimed, hptr', hplace⟩ :=
        primed_of_preparse hpair ⟨(by decide : 0 < UINT32_MAX), Nat.le_refl _⟩
      have hremaining : CborValue.remaining _ = UINT32_MAX := congrArg Place.remaining hplace
      have hmap : CborValue.containerIsMap _ = (it.type == CborMapType) :=
        congrArg Place.containerIsMap hplace
      have hkey : CborValue.nextIsMapKey _ = false := congrArg Place.nextIsMapKey hplace
      rw [if_neg]
      · refine ⟨_, by rw [hpair]; rfl, before_items hwf hprimed hptr'
          ⟨fun h => absurd hremaining h, fun _ => ⟨rfl, fun hismap => ?_⟩⟩⟩
        rw [hmap, beq_iff_eq, hm] at hismap
        exact iff_of_true (heven hismap) hkey
      · rintro ⟨-, hhead⟩
        obtain ⟨tail, htail⟩ := List.head?_eq_some_iff.mp hhead
        exact hitem.ne_break _ _ (hstart.symm.trans htail)

/-- A container that was entered has a length that fits. -/
theorem enterContainer_encloses {fits : UInt8 → ℕ → Prop} (hit : Primed it)
    (hc : IsContainer it.type) (he : Encloses fits it.type bs b) (hptr : it.ptr = b ++ t)
    (henter : enterContainer it = .ok elt) : Encloses Fits it.type bs b := by
  cases he with
  | counted hh hn hlen =>
    rw [List.append_assoc] at hptr
    have hknown := (primed_head hit.read hptr hh hc.long.2.2).2.2.2
    exact .counted hh (enterContainer_fits hh hptr hknown henter) hlen
  | uncounted hmajor hinfo heven => exact .uncounted hmajor hinfo heven

theorem enterContainer_total (hit : Primed it) (hc : IsContainer it.type) :
    enterContainer it ≠ .error .aborted := by
  rcases primed_long hit.read hc.long.1 with ⟨n, head, t, hh, hptr, hknown, -⟩ |
    ⟨byte, t, hptr, hmajor, hinfo, hunknown⟩
  · rw [enterContainer, if_neg (by rw [hknown]; exact Bool.false_ne_true), hptr,
      extractNumber_head hh]
    dsimp only
    split_ifs
    iterate 3 exact fun h => by cases h
    all_goals exact Moved.check_total (preparseNextValueNodecrement_total _)
  · rw [enterContainer_unknown hunknown]
    exact Moved.check_total (preparseNextValueNodecrement_total _)

theorem leaveContainer_sound (hit : Primed it) (hc : IsContainer it.type)
    (h : leaveContainer it elt = .ok it') :
    elt.type = CborInvalidType ∧ Follows it elt.ptr it' := by
  obtain ⟨htype, h⟩ := Loop.guard_ok h
  exact ⟨not_not.mp htype, preparseNextValue_follows (u := { it with ptr := elt.ptr }) hc.long.2.1
    hit.counted rfl (Moved.check_ok h)⟩

theorem leaveContainer_complete (hit : Primed it) (hc : IsContainer it.type) (hended : Ended elt)
    (hptr : elt.ptr = t) (hnext : Follows it t next) :
    ∃ it', leaveContainer it elt = .ok it' ∧ Follows it t it' := by
  obtain ⟨it', hmoved, hfollows⟩ :=
    hnext.moves (u := { it with ptr := elt.ptr }) hit.counted hc.long.2.1 hptr rfl
  exact ⟨it', by rw [leaveContainer, if_neg (not_not.mpr hended.1), hmoved]; rfl, hfollows⟩

theorem leaveContainer_total (htype : elt.type = CborInvalidType) :
    leaveContainer it elt ≠ .error .aborted := by
  rw [leaveContainer, if_neg (not_not.mpr htype)]
  exact Moved.check_total (preparseNextValue_total _)

theorem Entered.ended_of_count (hentered : Entered it elt)
    (hknown : it.unknownLength = false) (hpasses : Passes elt bs last) (hlast : Standing last)
    (hlen : bs.length = Cbor.itemCount it.type it.extractInt64) : Ended last := by
  obtain ⟨hcount, hmax⟩ := hentered.count hknown
  have hsum := hpasses.counted hmax
  refine hlast.resolve_left fun hprimed => ?_
  have hpos := hprimed.counted.1
  omega

theorem Entered.item (hentered : Entered it elt)
    (hpasses : Passes elt bs last) (hended : Ended last) (hbs : ∀ b ∈ bs, WellFormed b) :
    ∃ b, it.ptr = b ++ last.ptr ∧ Encloses Fits it.type bs b ∧
      (IsContainer it.type → WellFormed b) := by
  obtain ⟨b, hptr, hb⟩ := hentered.encloses hpasses hended
  exact ⟨b, hptr, hb, fun hc => Cbor.wellFormed_container hc hb hbs⟩

theorem Before.enter {rest : List Bytes} (h : Before it (b :: rest) t) (hc : IsContainer m)
    (he : Encloses Fits m bs b) (hbs : ∀ b ∈ bs, WellFormed b) : Primed it ∧ it.type = m ∧
      ∃ u elt, it.ptr = b ++ u ∧ enterContainer it = .ok elt ∧ Before elt bs u ∧
        ∀ last, Ended last → last.ptr = u →
          ∃ it', leaveContainer it last = .ok it' ∧ Before it' rest t := by
  obtain ⟨hit, u, hptr, ⟨next, hnext⟩, hstep⟩ := h.step
  have htype : it.type = m := by
    rw [primed_type hit.read he.begins hptr hc.long.2.2, if_neg]
    rcases hc with rfl | rfl <;> decide
  subst htype
  obtain ⟨elt, henter, hbefore⟩ := enterContainer_complete hit hc hbs he hptr
  refine ⟨hit, rfl, u, elt, hptr, henter, hbefore, fun last hended hlast => ?_⟩
  obtain ⟨it', hleave, hfollows⟩ := leaveContainer_complete hit hc hended hlast hnext
  exact ⟨it', hleave, hstep it' hfollows⟩

end Containers

end TinyCbor
