import ADEiger.TinyCborContainers

/-! What tinycbor moves over is well formed, and it moves over all that is well formed as long as
its counts and its recursion have room for it. -/
namespace TinyCbor

open Cbor (Head Str Encloses Item WellFormed majorType additionalInfo)
open Loop (whileLoop)

variable {it it' next last : CborValue} {m : UInt8} {n d : ℕ} {h b t t' head : Bytes}
  {bs : List Bytes}

section Advance

variable {level : ℕ}

theorem Primed.fresh (hit : Primed it) : Fresh it := preparseValue_fresh hit.read

theorem Standing.fresh (hit : Standing it) : Fresh it := by
  rcases hit with hprimed | hended
  · exact hprimed.fresh
  · apply fresh_of_fixed
    rw [hended.1]
    rfl

theorem notAtEnd_iff : notAtEnd it = true ↔ it.remaining ≠ 0 := by
  rw [notAtEnd, CborValue.atEnd, Bool.not_eq_true', beq_eq_false_iff_ne]

theorem Standing.primed (hit : Standing it) (h : notAtEnd it = true) : Primed it :=
  hit.resolve_right fun hended => notAtEnd_iff.mp h hended.2

theorem Primed.notAtEnd (hit : Primed it) : notAtEnd it = true :=
  notAtEnd_iff.mpr (Nat.ne_of_gt hit.counted.1)

theorem Ended.atEnd (h : Ended it) : notAtEnd it ≠ true := fun hnot => notAtEnd_iff.mp hnot h.2

/-- The loop over the items of a container. -/
def advanceItems (level : ℕ) : CborValue → Except CborError CborValue :=
  whileLoop notAtEnd (advanceRecursive level) .aborted (·.ptr.length)

def advanceContainer (level : ℕ) (it : CborValue) : Except CborError CborValue := do
  let recursed ← enterContainer it
  let recursed ← advanceItems level recursed
  leaveContainer it recursed

theorem advanceRecursive_succ (level : ℕ) :
    advanceRecursive (level + 1) = advanceItem (advanceContainer level) := rfl

/-- What one call moves over: a tag, or an item. -/
structure Advanced (level : ℕ) (it it' : CborValue) : Prop where
  tag : it.type = CborTagType → ∃ n head t, Head Cbor.tag n head ∧ it.ptr = head ++ t ∧
    it.extractInt64 = n ∧ Untagged it t it'
  item : it.type ≠ CborTagType → ∃ b t, it.ptr = b ++ t ∧ Item Fits level b ∧ Follows it t it'

theorem Advanced.standing (h : Advanced level it it') : Standing it' := by
  by_cases htag : it.type = CborTagType
  · obtain ⟨n, head, t, -, -, -, huntagged⟩ := h.tag htag
    exact .inl huntagged.primed
  · obtain ⟨b, t, -, -, hfollows⟩ := h.item htag
    exact hfollows.standing

theorem advanceItems_sound (hlevel : ∀ {it it'}, Primed it → advanceRecursive level it = .ok it' →
      Advanced level it it') (hit : Standing it) (h : advanceItems level it = .ok last) :
    Ended last ∧ ∃ bs, Passes it bs last ∧ ∀ item ∈ bs, Item Fits level item := by
  generalize hk : it.ptr.length = k
  induction k using Nat.strongRecOn generalizing it with
  | ind k ih =>
    rw [advanceItems, advanceItems_eq level hit.fresh] at h
    by_cases hend : notAtEnd it = true
    · rw [if_pos hend] at h
      have hprimed := hit.primed hend
      obtain ⟨moved, hmoved, h⟩ := Loop.bind_ok h
      have hadvanced := hlevel hprimed hmoved
      have hlt := (advanceRecursive_advances level).lt hprimed.fresh hmoved
      obtain ⟨hended, bs, hpasses, hbs⟩ :=
        ih moved.ptr.length (hk ▸ hlt) hadvanced.standing h rfl
      refine ⟨hended, ?_⟩
      by_cases htag : it.type = CborTagType
      · obtain ⟨n, head, t, hhead, hptr, -, huntagged⟩ := hadvanced.tag htag
        cases hpasses with
        | nil => exact absurd hended huntagged.primed.not_ended
        | @cons _ next _ b t' bs _ hptr' hnext hrest =>
          obtain ⟨hb, hbs⟩ := List.forall_mem_cons.mp hbs
          refine ⟨(head ++ b) :: bs, .cons hprimed ?_ (huntagged.follows.mp hnext) hrest,
            List.forall_mem_cons.mpr ⟨.tagged hhead hb, hbs⟩⟩
          rw [hptr, ← huntagged.ptr, hptr', List.append_assoc]
      · obtain ⟨b, t, hptr, hb, hfollows⟩ := hadvanced.item htag
        exact ⟨b :: bs, .cons hprimed hptr hfollows hpasses, List.forall_mem_cons.mpr ⟨hb, hbs⟩⟩
    · rw [if_neg hend] at h
      obtain rfl := Except.ok.inj h
      rcases hit with hprimed | hended
      · exact absurd hprimed.notAtEnd hend
      · exact ⟨hended, [], .nil it, List.forall_mem_nil _⟩

theorem isContainer_iff : it.isContainer = true ↔ IsContainer it.type := by
  rw [CborValue.isContainer, Bool.or_eq_true, beq_iff_eq, beq_iff_eq]
  rfl

/-- Strings are what is left. -/
theorem isString_of {type : UInt8} (hlong : isFixedType type = false)
    (hcontainer : ¬ IsContainer type) : IsString type := by
  rw [IsContainer, not_or] at hcontainer
  simp only [isFixedType, Bool.and_eq_false_iff, bne_eq_false_iff_eq] at hlong
  rcases hlong with ((h | h) | h) | h
  · exact .inl h
  · exact .inr h
  · exact absurd h hcontainer.1
  · exact absurd h hcontainer.2

theorem IsString.major {type : UInt8} (h : IsString type) :
    type = Cbor.byteString ∨ type = Cbor.textString := h.symm

theorem advanceItem_sound {container : CborValue → Except CborError CborValue} (hit : Primed it)
    (hcontainer : IsContainer it.type → container it = .ok it' →
      ∃ b t, it.ptr = b ++ t ∧ Item Fits level b ∧ Follows it t it')
    (h : advanceItem container it = .ok it') : Advanced level it it' := by
  rw [advanceItem] at h
  by_cases hfixed : isFixedType it.type = true
  · rw [if_pos hfixed] at h
    exact ⟨fun htag => advanceInternal_tag hit htag h,
      fun htag => advanceInternal_item hit hfixed htag h⟩
  have hlong := Bool.eq_false_iff.mpr hfixed
  rw [if_neg hfixed] at h
  have hnotag : it.type ≠ CborTagType := by
    rintro htag
    rw [htag] at hfixed
    exact hfixed rfl
  refine ⟨fun htag => absurd htag hnotag, fun _ => ?_⟩
  by_cases hc : it.isContainer = true
  · rw [if_pos hc] at h
    exact hcontainer (isContainer_iff.mp hc) h
  rw [if_neg hc] at h
  have hstring := isString_of hlong fun hc' => hc (isContainer_iff.mpr hc')
  rcases hs : copyString it with ⟨err | text, moved⟩ <;> rw [hs] at h
  · cases h
  · obtain rfl := Except.ok.inj h
    obtain ⟨b, t, hb, hptr, hfollows⟩ := copyString_sound hit hstring hs
    exact ⟨b, t, hptr, .string hstring.major hb, hfollows⟩

theorem advanceRecursive_sound (hit : Primed it) (h : advanceRecursive level it = .ok it') :
    Advanced level it it' := by
  induction level generalizing it it' with
  | zero =>
    rw [advanceRecursive] at h
    exact advanceItem_sound hit (fun _ hc => by cases hc) h
  | succ level ih =>
    rw [advanceRecursive_succ] at h
    refine advanceItem_sound hit (fun hc hcontainer => ?_) h
    obtain ⟨elt, henter, hcontainer⟩ := Loop.bind_ok hcontainer
    obtain ⟨last, hitems, hleave⟩ := Loop.bind_ok hcontainer
    have hentered := enterContainer_sound hit hc henter
    obtain ⟨hended, bs, hpasses, hbs⟩ := advanceItems_sound ih hentered.standing hitems
    obtain ⟨b, hptr, hb⟩ := hentered.encloses hpasses hended
    exact ⟨b, last.ptr, hptr, .container hc hb hbs, (leaveContainer_sound hit hc hleave).2⟩

theorem Before.standing (h : Before it bs t) : Standing it := by
  cases bs with
  | nil => exact .inr (before_nil_iff.mp h).1
  | cons b bs => exact .inl h.step.1

theorem begins_type {fits : UInt8 → ℕ → Prop} (hit : Primed it) (hb : Item fits d b)
    (hptr : it.ptr = b ++ t) (htype : isFixedType it.type = false ∨ it.type = CborTagType) :
    Cbor.Begins it.type (fun _ => True) b := by
  have hother : it.type ≠ CborIntegerType ∧
      (isFixedType it.type = true → it.type ∈ [CborTagType]) := by
    rcases htype with hlong | htag
    · refine ⟨fun h => ?_, fun h => ?_⟩
      · rw [h] at hlong
        exact absurd hlong (by decide)
      · rw [h] at hlong
        exact absurd hlong (by decide)
    · rw [htag]
      exact ⟨by decide, fun _ => List.mem_singleton.mpr rfl⟩
  obtain ⟨m, hbegins⟩ := hb.begins
  by_cases hsimple : m = CborSimpleType
  · subst hsimple
    obtain ⟨n, hh⟩ := hb.of_simple hbegins
    obtain ⟨hfixed, hmem, -⟩ := primed_simple hit.read hptr hh
    rw [List.mem_singleton.mp (hother.2 hfixed)] at hmem
    exact absurd hmem (by decide)
  · have hread := primed_type hit.read hbegins hptr hsimple
    split_ifs at hread
    · exact absurd hread hother.1
    · rw [hread]
      exact hbegins

/-- The keys and values of a well-formed map that was entered. -/
theorem Before.entries {elt : CborValue} (h : Before it (b :: bs) t) (hb : WellFormed b)
    (htype : it.type = CborMapType) (henter : enterContainer it = .ok elt) :
    ∃ items u, Encloses Fits CborMapType items b ∧ (∀ item ∈ items, WellFormed item) ∧
      Before elt items u := by
  obtain ⟨hprimed, u, hptr, -⟩ := h.step
  obtain ⟨d, hitem⟩ := hb
  have hc : IsContainer it.type := .inr htype
  have hbegins := begins_type hprimed hitem hptr (.inl hc.long.1)
  obtain ⟨d', items, -, he, hitems⟩ := hitem.of_container hbegins (.inr htype)
  have hwf : ∀ item ∈ items, WellFormed item := fun item hi => (hitems item hi).wellFormed
  have hfits := enterContainer_encloses hprimed hc he hptr henter
  obtain ⟨elt', henter', hbefore⟩ := enterContainer_complete hprimed hc hwf hfits hptr
  obtain rfl := Except.ok.inj (henter.symm.trans henter')
  rw [htype] at hfits
  exact ⟨items, u, hfits, hwf, hbefore⟩

theorem Before.untag (h : Before it ((head ++ b) :: bs) t) (hh : Head Cbor.tag n head)
    (hb : WellFormed b) : it.type = CborTagType ∧ it.extractInt64 = n ∧
      ∃ it', advanceInternal it = .ok it' ∧ Before it' (b :: bs) t := by
  obtain ⟨hit, rest, hptr, ⟨next, hnext⟩, hstep⟩ := h.step
  rw [List.append_assoc] at hptr
  obtain ⟨htag, hn, -, -⟩ := primed_head hit.read hptr hh (by decide)
  obtain ⟨it', hmoved, huntagged⟩ := advanceInternal_untag hit htag hh hptr hb
  exact ⟨htag, hn, it', hmoved,
    Before.cons huntagged.primed huntagged.ptr (huntagged.follows.mpr hnext) (hstep next hnext)⟩

theorem item_of_tag {fits : UInt8 → ℕ → Prop} (hit : Primed it) (hb : Item fits d b)
    (hptr : it.ptr = b ++ t) (htag : it.type = CborTagType) :
    ∃ n head item, b = head ++ item ∧ Head Cbor.tag n head ∧ Item fits d item :=
  hb.of_tag (htag ▸ begins_type hit hb hptr (.inr htag))

/-- What one call does with an item without tags. -/
def Completes (level : ℕ) : Prop :=
  ∀ {it next b t}, Item Fits level b → Primed it → it.ptr = b ++ t → it.type ≠ CborTagType →
    Follows it t next → ∃ it', advanceRecursive level it = .ok it' ∧ Follows it t it'

theorem advanceRecursive_fixed (hfixed : isFixedType it.type = true) :
    advanceRecursive level it = advanceInternal it := by
  cases level with
  | zero => rw [advanceRecursive, advanceItem, if_pos hfixed]
  | succ level => rw [advanceRecursive_succ, advanceItem, if_pos hfixed]

theorem advanceRecursive_string (hstring : IsString it.type) : advanceRecursive level it =
    match copyString it with
    | (.error err, _) => .error err
    | (.ok _, it) => .ok it := by
  have hlong : ¬ isFixedType it.type = true := by
    rw [hstring.long.1]
    exact Bool.false_ne_true
  have hc : ¬ it.isContainer = true := by
    rw [isContainer_iff]
    rintro (hc | hc) <;> rcases hstring with hs | hs <;>
      exact absurd (hc.symm.trans hs) (by decide)
  rcases hcopy : copyString it with ⟨err | text, moved⟩
  all_goals
    cases level with
    | zero => rw [advanceRecursive, advanceItem, if_neg hlong, if_neg hc, hcopy]
    | succ level => rw [advanceRecursive_succ, advanceItem, if_neg hlong, if_neg hc, hcopy]

theorem advanceRecursive_container (hc : IsContainer it.type) :
    advanceRecursive (level + 1) it = advanceContainer level it := by
  have hlong : ¬ isFixedType it.type = true := by
    rw [hc.long.1]
    exact Bool.false_ne_true
  rw [advanceRecursive_succ, advanceItem, if_neg hlong, if_pos (isContainer_iff.mpr hc)]

theorem advanceItems_item (hlevel : Completes level) (hb : Item Fits level b)
    (h : Before it (b :: bs) t) :
    ∃ it', advanceItems level it = advanceItems level it' ∧ Before it' bs t := by
  generalize hk : b.length = k
  induction k using Nat.strongRecOn generalizing it b with
  | ind k ih =>
    obtain ⟨hit, rest, hptr, ⟨next, hnext⟩, hstep⟩ := h.step
    have hloop : advanceItems level it = advanceRecursive level it >>= advanceItems level := by
      rw [advanceItems, advanceItems_eq level hit.fresh, if_pos hit.notAtEnd]
    by_cases htag : it.type = CborTagType
    · obtain ⟨n, head, item, rfl, hh, hitem⟩ := item_of_tag hit hb hptr htag
      obtain ⟨-, -, moved, hmoved, hbefore⟩ := h.untag hh hitem.wellFormed
      have hlt : item.length < k := by
        obtain ⟨byte, u, rfl, -, -⟩ := hh.begins
        rw [← hk, List.length_append, List.length_cons]
        omega
      obtain ⟨it', heq, hbefore'⟩ := ih item.length hlt hitem hbefore rfl
      refine ⟨it', ?_, hbefore'⟩
      rw [hloop, advanceRecursive_fixed (by rw [htag]; rfl), hmoved]
      exact heq
    · obtain ⟨it', hmoved, hfollows⟩ := hlevel hb hit hptr htag hnext
      exact ⟨it', by rw [hloop, hmoved]; rfl, hstep it' hfollows⟩

theorem advanceItems_complete (hlevel : Completes level) (hbs : ∀ b ∈ bs, Item Fits level b)
    (h : Before it bs t) :
    ∃ last, advanceItems level it = .ok last ∧ Ended last ∧ last.ptr = t := by
  induction bs generalizing it with
  | nil =>
    obtain ⟨hended, hptr⟩ := before_nil_iff.mp h
    refine ⟨it, ?_, hended, hptr⟩
    rw [advanceItems, advanceItems_eq level h.standing.fresh, if_neg hended.atEnd]
  | cons b bs ih =>
    obtain ⟨hb, hbs⟩ := List.forall_mem_cons.mp hbs
    obtain ⟨it', heq, hbefore⟩ := advanceItems_item hlevel hb h
    rw [heq]
    exact ih hbs hbefore

theorem advanceRecursive_leaf (hb : Item Fits d b) (hit : Primed it) (hptr : it.ptr = b ++ t)
    (htag : it.type ≠ CborTagType) (hnext : Follows it t next)
    (hc : IsContainer it.type → ∃ it', advanceRecursive level it = .ok it' ∧ Follows it t it') :
    ∃ it', advanceRecursive level it = .ok it' ∧ Follows it t it' := by
  cases hb with
  | @number _ m n _ hm hh =>
    have hsimple : m ≠ CborSimpleType := by
      rintro rfl
      rcases hm with hm | hm <;> exact absurd hm (by decide)
    have hfixed : isFixedType it.type = true := by
      rw [(primed_head hit.read hptr hh hsimple).1]
      rcases hm with rfl | rfl <;> decide
    rw [advanceRecursive_fixed hfixed]
    exact advanceInternal_follows hit hh hptr htag hnext
  | @string _ m content _ hm hs =>
    have htype : it.type = m := by
      rw [primed_type hit.read hs.begins hptr (by rcases hm with rfl | rfl <;> decide), if_neg]
      rcases hm with rfl | rfl <;> decide
    subst htype
    have hstring : IsString it.type := hm.symm
    obtain ⟨it', hcopy, hfollows⟩ := copyString_complete hit hstring hs hptr hnext
    exact ⟨it', by rw [advanceRecursive_string hstring, hcopy], hfollows⟩
  | @container _ m items _ hm he _ =>
    have htype : it.type = m := by
      rw [primed_type hit.read he.begins hptr (by rcases hm with rfl | rfl <;> decide), if_neg]
      rcases hm with rfl | rfl <;> decide
    subst htype
    exact hc hm
  | tagged hh _ =>
    rw [List.append_assoc] at hptr
    exact absurd (primed_head hit.read hptr hh (by decide)).1 htag
  | simple hh _ =>
    rw [advanceRecursive_fixed (primed_simple hit.read hptr hh).1]
    exact advanceInternal_follows hit hh hptr htag hnext

theorem advanceRecursive_complete (level : ℕ) : Completes level := by
  induction level with
  | zero =>
    intro it next b t hb hit hptr htag hnext
    refine advanceRecursive_leaf hb hit hptr htag hnext fun hc => ?_
    obtain ⟨d', items, hd, -⟩ := hb.of_container (begins_type hit hb hptr (.inl hc.long.1)) hc
    cases hd
  | succ level ih =>
    intro it next b t hb hit hptr htag hnext
    refine advanceRecursive_leaf hb hit hptr htag hnext fun hc => ?_
    obtain ⟨d', items, hd, he, hitems⟩ :=
      hb.of_container (begins_type hit hb hptr (.inl hc.long.1)) hc
    obtain rfl := Nat.succ.inj hd
    obtain ⟨elt, henter, hbefore⟩ :=
      enterContainer_complete hit hc (fun item hi => (hitems item hi).wellFormed) he hptr
    obtain ⟨last, hloop, hended, hlast⟩ := advanceItems_complete ih hitems hbefore
    obtain ⟨it', hleave, hfollows⟩ := leaveContainer_complete hit hc hended hlast hnext
    refine ⟨it', ?_, hfollows⟩
    rw [advanceRecursive_container hc, advanceContainer, henter, Loop.ok_bind, hloop, Loop.ok_bind,
      hleave]

theorem advanceItem_total {container : CborValue → Except CborError CborValue} (hit : Primed it)
    (hcontainer : IsContainer it.type → container it ≠ .error .aborted) :
    advanceItem container it ≠ .error .aborted := by
  rw [advanceItem]
  split_ifs with hfixed hc
  · exact advanceInternal_total hit hfixed
  · exact hcontainer (isContainer_iff.mp hc)
  · have hcopy := copyString_total it
    rcases hs : copyString it with ⟨err | text, moved⟩ <;> rw [hs] at hcopy
    · exact fun h => hcopy (congrArg Except.error (Except.error.inj h))
    · exact fun h => by cases h

theorem advanceItems_total
    (hlevel : ∀ {it}, Primed it → advanceRecursive level it ≠ .error .aborted)
    (hit : Standing it) : advanceItems level it ≠ .error .aborted := by
  have hdecreasing : Loop.Decreasing Standing notAtEnd (advanceRecursive level) (·.ptr.length) := by
    constructor
    · intro it it' hit hend h
      exact (advanceRecursive_sound (hit.primed hend) h).standing
    · intro it it' hit hend h
      exact (advanceRecursive_advances level).lt hit.fresh h
  intro h
  obtain ⟨stuck, hstuck, hend, herror⟩ := Loop.whileLoop_error hdecreasing hit h
  exact hlevel (hstuck.primed hend) herror

theorem advanceRecursive_total (hit : Primed it) :
    advanceRecursive level it ≠ .error .aborted := by
  induction level generalizing it with
  | zero => exact advanceItem_total hit fun _ h => by cases h
  | succ level ih =>
    rw [advanceRecursive_succ]
    refine advanceItem_total hit fun hc => ?_
    refine Loop.bind_ne (enterContainer_total hit hc) fun elt henter => ?_
    have hentered := enterContainer_sound hit hc henter
    refine Loop.bind_ne (advanceItems_total ih hentered.standing) fun last hloop => ?_
    have hended := (advanceItems_sound advanceRecursive_sound hentered.standing hloop).1
    exact leaveContainer_total hended.1

theorem advance_eq (hit : Primed it) :
    advance it = advanceRecursive CBOR_PARSER_MAX_RECURSIONS it := by
  rw [advance, if_neg (primed_valid hit), if_neg (Nat.ne_of_gt hit.counted.1)]

theorem advance_sound (hit : Primed it) (htag : it.type ≠ CborTagType)
    (h : advance it = .ok it') :
    ∃ b t, it.ptr = b ++ t ∧ Item Fits CBOR_PARSER_MAX_RECURSIONS b ∧ Follows it t it' := by
  rw [advance_eq hit] at h
  exact (advanceRecursive_sound hit h).item htag

theorem advance_complete (hb : Item Fits CBOR_PARSER_MAX_RECURSIONS b) (hit : Primed it)
    (hptr : it.ptr = b ++ t) (htag : it.type ≠ CborTagType) (hnext : Follows it t next) :
    ∃ it', advance it = .ok it' ∧ Follows it t it' := by
  rw [advance_eq hit]
  exact advanceRecursive_complete _ hb hit hptr htag hnext

theorem advance_total (hit : Primed it) : advance it ≠ .error .aborted := by
  rw [advance_eq hit]
  exact advanceRecursive_total hit

end Advance

end TinyCbor
