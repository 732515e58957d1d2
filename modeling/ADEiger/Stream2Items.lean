import ADEiger.Stream2Progress
import ADEiger.TinyCborAdvance

/-! What the functions that read a value do with the items of a container.
A function that succeeds has passed well-formed items, and it reads the same from these items in
every other container. -/
namespace Stream2

open TinyCbor
open Cbor (Head Str Encloses Item WellFormed)
open Loop (readMany)

variable {α β μ : Type} {it it' next : CborValue} {b t : Bytes} {bs rest : List Bytes} {k l n : ℕ}
  {v : α} {At : CborValue → Prop}

section Readers

/-- What is read of the items, wherever they are. -/
def Yields (read : CborValue → Except Stream2Error (α × CborValue)) (bs : List Bytes) (v : α) :
    Prop :=
  ∀ {it rest t}, Before it (bs ++ rest) t → ∃ it', read it = .ok (v, it') ∧ Before it' rest t

/-- A function that reads `k` items where the cursor is as it has to be. -/
structure Reader (At : CborValue → Prop) (k : ℕ)
    (read : CborValue → Except Stream2Error (α × CborValue)) : Prop where
  sound : ∀ {it v it'}, At it → read it = .ok (v, it') → Standing it' ∧ ∃ bs : List Bytes,
    bs.length = k ∧ (∀ b ∈ bs, WellFormed b) ∧ Passes it bs it' ∧ Yields read bs v
  total : ∀ {it}, At it → read it ≠ .error .aborted

variable {read read' : CborValue → Except Stream2Error (α × CborValue)}

theorem Reader.weaken {At' : CborValue → Prop} (h : Reader At k read)
    (hAt : ∀ {it}, At' it → At it) : Reader At' k read :=
  ⟨fun hit => h.sound (hAt hit), fun hit => h.total (hAt hit)⟩

/-- Another error in the place of one makes no difference. -/
theorem Reader.of_agree (h : Reader At k read)
    (hagree : ∀ it, read' it = read it ∨
      (∃ err ≠ .aborted, read' it = .error err) ∧ ∀ x, read it ≠ .ok x) : Reader At k read' := by
  have hok : ∀ {it x}, read' it = .ok x ↔ read it = .ok x := by
    intro it x
    rcases hagree it with heq | ⟨⟨err, -, herr⟩, hno⟩
    · rw [heq]
    · rw [herr]
      exact ⟨fun hx => (by cases hx), fun hx => absurd hx (hno x)⟩
  constructor
  · intro it v it' hit hread
    obtain ⟨hstanding, bs, hlen, hbs, hpasses, hyields⟩ := h.sound hit (hok.mp hread)
    refine ⟨hstanding, bs, hlen, hbs, hpasses, fun hbefore => ?_⟩
    obtain ⟨it', hread', hbefore'⟩ := hyields hbefore
    exact ⟨it', hok.mpr hread', hbefore'⟩
  · intro it hit
    rcases hagree it with heq | ⟨⟨err, hne, herr⟩, -⟩
    · rw [heq]
      exact h.total hit
    · rw [herr]
      exact fun he => hne (Except.error.inj he)

theorem Reader.pure (v : α) : Reader Standing 0 fun it => .ok (v, it) where
  sound {it v' it'} hit h := by
    obtain ⟨rfl, rfl⟩ := Prod.mk.inj (Except.ok.inj h)
    exact ⟨hit, [], rfl, List.forall_mem_nil _, .nil it, fun hbefore => ⟨_, rfl, hbefore⟩⟩
  total _ h := by cases h

theorem Reader.error {err : Stream2Error} (herr : err ≠ .aborted) :
    Reader At k fun _ => (.error err : Except Stream2Error (α × CborValue)) where
  sound _ h := by cases h
  total _ h := herr (Except.error.inj h)

theorem Reader.bind {more : α → CborValue → Except Stream2Error (β × CborValue)}
    (h : Reader At k read) (hmore : ∀ a, Reader Standing l (more a)) :
    Reader At (k + l) fun it => read it >>= fun x => more x.1 x.2 where
  sound {it v it'} hit hread := by
    obtain ⟨⟨a, mid⟩, ha, hv⟩ := Loop.bind_ok hread
    obtain ⟨hmid, bs, hlen, hbs, hpasses, hyields⟩ := h.sound hit ha
    obtain ⟨hlast, bs', hlen', hbs', hpasses', hyields'⟩ := (hmore a).sound hmid hv
    refine ⟨hlast, bs ++ bs', by rw [List.length_append, hlen, hlen'],
      List.forall_mem_append.mpr ⟨hbs, hbs'⟩, hpasses.append hpasses', fun hbefore => ?_⟩
    rw [List.append_assoc] at hbefore
    obtain ⟨mid', hread', hbefore'⟩ := hyields hbefore
    obtain ⟨last', hread'', hbefore''⟩ := hyields' hbefore'
    refine ⟨last', ?_, hbefore''⟩
    dsimp only
    rw [hread', Loop.ok_bind, hread'']
  total hit := Loop.bind_ne (h.total hit) fun x hx =>
    (hmore x.1).total (h.sound hit hx).1

theorem Reader.map (h : Reader At k read) (f : α → β) :
    Reader At k fun it => read it >>= fun x => .ok (f x.1, x.2) :=
  h.bind (l := 0) fun a => Reader.pure (f a)

theorem Reader.ite {p : Prop} [Decidable p] (h : p → Reader At k read)
    (h' : ¬ p → Reader At k read') : Reader At k fun it => if p then read it else read' it := by
  by_cases hp : p
  · simp only [if_pos hp]
    exact h hp
  · simp only [if_neg hp]
    exact h' hp

theorem Reader.many (h : Reader Standing k read) (n : ℕ) :
    Reader Standing (n * k) (readMany read n) := by
  induction n with
  | zero =>
    rw [Nat.zero_mul]
    exact Reader.pure []
  | succ n ih =>
    rw [Nat.succ_mul, Nat.add_comm]
    exact h.bind fun a => ih.map fun as => a :: as

theorem Reader.of_item (htotal : ∀ {it}, At it → read it ≠ .error .aborted)
    (h : ∀ {it v it'}, At it → read it = .ok (v, it') → Primed it ∧ ∃ b t, it.ptr = b ++ t ∧
      WellFormed b ∧ Follows it t it' ∧ Yields read [b] v) : Reader At 1 read where
  sound hit hread := by
    obtain ⟨hprimed, b, t, hptr, hb, hfollows, hyields⟩ := h hit hread
    exact ⟨hfollows.standing, [b], rfl, List.forall_mem_singleton.mpr hb,
      .cons hprimed hptr hfollows (.nil _), hyields⟩
  total := htotal

theorem Reader.item (h : Reader At 1 read) (hit : At it) (hread : read it = .ok (v, it')) :
    Primed it ∧ ∃ b t, it.ptr = b ++ t ∧ WellFormed b ∧ Follows it t it' ∧ Yields read [b] v := by
  obtain ⟨-, bs, hlen, hbs, hpasses, hyields⟩ := h.sound hit hread
  obtain ⟨b, rfl⟩ := List.length_eq_one_iff.mp hlen
  cases hpasses with
  | @cons _ _ _ _ t _ hprimed hptr hfollows hnil =>
    cases hnil
    exact ⟨hprimed, b, t, hptr, hbs b (List.mem_singleton.mpr rfl), hfollows, hyields⟩

/-- What is looked at is the same in every container. -/
theorem Reader.branch {p : CborValue → Prop} [DecidablePred p] {P : Reading → Prop}
    (hp : ∀ it, p it ↔ P it.reading) (h : Reader At 1 read) (h' : Reader At 1 read') :
    Reader At 1 fun it => if p it then read it else read' it := by
  have hsame : ∀ {it it' b t t'}, Primed it → it.ptr = b ++ t → WellFormed b → Primed it' →
      it'.ptr = b ++ t' → (p it ↔ p it') := by
    intro it it' b t t' hit hptr hb hit' hptr'
    rw [hp, hp, primed_same hit.read hit'.read hptr hptr' hb]
  refine Reader.of_item (fun {it} hit => ?_) fun {it v it'} hit hread => ?_
  · split_ifs
    · exact h.total hit
    · exact h'.total hit
  · split_ifs at hread with hpit
    · obtain ⟨hprimed, b, t, hptr, hb, hfollows, hyields⟩ := h.item hit hread
      refine ⟨hprimed, b, t, hptr, hb, hfollows, fun hbefore => ?_⟩
      obtain ⟨hprimed', t', hptr', -, -⟩ := hbefore.step
      obtain ⟨last, hlast, hrest⟩ := hyields hbefore
      have hpit' := (hsame hprimed hptr hb hprimed' hptr').mp hpit
      exact ⟨last, (if_pos hpit').trans hlast, hrest⟩
    · obtain ⟨hprimed, b, t, hptr, hb, hfollows, hyields⟩ := h'.item hit hread
      refine ⟨hprimed, b, t, hptr, hb, hfollows, fun hbefore => ?_⟩
      obtain ⟨hprimed', t', hptr', -, -⟩ := hbefore.step
      obtain ⟨last, hlast, hrest⟩ := hyields hbefore
      have hpit' := mt (hsame hprimed hptr hb hprimed' hptr').mpr hpit
      exact ⟨last, (if_neg hpit').trans hlast, hrest⟩

end Readers

section Values

theorem cborResult_ne {err : CborError} (h : err ≠ .aborted) : cborResult err ≠ .aborted := by
  cases err <;> first | exact absurd rfl h | exact fun h => by cases h

theorem lift_ne {x : Except CborError α} (h : x ≠ .error .aborted) : lift x ≠ .error .aborted := by
  cases x with
  | error err =>
    exact fun hx => cborResult_ne (fun he => h (congrArg Except.error he)) (Except.error.inj hx)
  | ok a => exact fun hx => by cases hx

theorem standing_of_type {type : UInt8} (hit : Standing it) (htype : it.type = type)
    (hvalid : type ≠ CborInvalidType) : Primed it := by
  refine hit.resolve_right fun hended => hvalid ?_
  rw [← htype, hended.1]

/-- A number or a simple value: it is looked at, and then the cursor is moved on. -/
def fixedValue (look : CborValue → Except Stream2Error α) (it : CborValue) :
    Except Stream2Error (α × CborValue) := do
  let value ← look it
  let next ← lift (advanceFixed it)
  .ok (value, next)

theorem fixedValue_reader {look : CborValue → Except Stream2Error α}
    (htotal : ∀ it, look it ≠ .error .aborted)
    (htype : ∀ {it v}, look it = .ok v → isFixedType it.type = true ∧ it.type ≠ CborTagType ∧
      it.type ≠ CborInvalidType)
    (hsame : ∀ {it it' m n h t t'}, Head m n h → Primed it → Primed it' → it.ptr = h ++ t →
      it'.ptr = h ++ t' → look it = look it') : Reader Standing 1 (fixedValue look) := by
  have hmove : ∀ {it v}, Standing it → look it = .ok v → Primed it ∧
      advanceFixed it = advanceInternal it := by
    intro it v hit hlook
    obtain ⟨hfixed, -, hvalid⟩ := htype hlook
    have hprimed := standing_of_type hit rfl hvalid
    exact ⟨hprimed, advanceFixed_eq hprimed hfixed⟩
  refine Reader.of_item (fun {it} hit => ?_) fun {it v it'} hit h => ?_
  · refine Loop.bind_ne (htotal it) fun v hlook => ?_
    obtain ⟨hprimed, hmoves⟩ := hmove hit hlook
    refine Loop.bind_ne (lift_ne ?_) fun next _ h => by cases h
    rw [hmoves]
    exact advanceInternal_total hprimed (htype hlook).1
  · obtain ⟨value, hlook, h⟩ := Loop.bind_ok h
    obtain ⟨next, hnext, h⟩ := Loop.bind_ok h
    obtain ⟨rfl, rfl⟩ := Prod.mk.inj (Except.ok.inj h)
    obtain ⟨hprimed, hmoves⟩ := hmove hit hlook
    obtain ⟨hfixed, hnotag, -⟩ := htype hlook
    obtain ⟨m, n, head, t, hh, hptr, ⟨htag, -, -⟩ | ⟨-, -, hitem⟩⟩ :=
      primed_fixed hprimed.read hfixed
    · exact absurd htag hnotag
    have hinternal := lift_ok hnext
    rw [hmoves, advanceInternal_head hh hptr] at hinternal
    refine ⟨hprimed, head, t, hptr, ⟨0, hitem _ _⟩, preparseNextValue_follows
      (u := { it with ptr := t }) hnotag hprimed.counted rfl (Moved.check_ok hinternal),
      fun hbefore => ?_⟩
    obtain ⟨hprimed', t', hptr', ⟨last, hlast⟩, hstep⟩ := hbefore.step
    have hlook' := (hsame hh hprimed hprimed' hptr hptr').symm.trans hlook
    obtain ⟨-, hmoves'⟩ := hmove (.inl hprimed') hlook'
    obtain ⟨moved, hmoved, hfollows⟩ :=
      advanceInternal_follows hprimed' hh hptr' (htype hlook').2.1 hlast
    refine ⟨moved, ?_, hstep moved hfollows⟩
    rw [fixedValue, hlook', Loop.ok_bind, hmoves', hmoved]
    rfl

theorem parseUint64_eq : parseUint64 = fixedValue fun it =>
    if it.isUnsignedInteger = false then .error .parse else .ok it.extractInt64 := by
  funext it
  rw [parseUint64, fixedValue]
  split_ifs <;> rfl

theorem parseBool_eq : parseBool = fixedValue fun it =>
    if it.type ≠ CborBooleanType then .error .parse else .ok (it.extra != 0) := by
  funext it
  rw [parseBool, fixedValue]
  split_ifs <;> rfl

theorem parseUint64_reader : Reader Standing 1 parseUint64 := by
  rw [parseUint64_eq]
  refine fixedValue_reader (fun it => ?_) (fun {it v} h => ?_)
    fun {it it' m n h t t'} hh hit hit' hptr hptr' => ?_
  · split_ifs <;> exact fun h => by cases h
  · split_ifs at h with hunsigned
    have htype : it.type = CborIntegerType := by
      by_contra hne
      rw [CborValue.isUnsignedInteger, beq_eq_false_iff_ne.mpr hne] at hunsigned
      exact hunsigned rfl
    rw [htype]
    decide
  · by_cases hsimple : m = CborSimpleType
    · subst hsimple
      have hother {it : CborValue} {t : Bytes} (hit : Primed it) (hptr : it.ptr = h ++ t) :
          it.isUnsignedInteger = false := by
        have hmem := (primed_simple hit.read hptr hh).2.1
        simp only [List.mem_cons, List.not_mem_nil, or_false, not_or] at hmem
        rw [CborValue.isUnsignedInteger, beq_eq_false_iff_ne.mpr hmem.2.2, Bool.false_and]
      rw [if_pos (hother hit hptr), if_pos (hother hit' hptr')]
    · obtain ⟨htype, hn, hnegative, -⟩ := primed_head hit.read hptr hh hsimple
      obtain ⟨htype', hn', hnegative', -⟩ := primed_head hit'.read hptr' hh hsimple
      rw [CborValue.isUnsignedInteger, CborValue.isUnsignedInteger, htype, htype', hn, hn',
        hnegative, hnegative']

theorem parseBool_reader : Reader Standing 1 parseBool := by
  rw [parseBool_eq]
  refine fixedValue_reader (fun it => ?_) (fun {it v} h => ?_) fun hh hit hit' hptr hptr' => ?_
  · split_ifs <;> exact fun h => by cases h
  · split_ifs at h with htype
    rw [not_not.mp htype]
    decide
  · have hreading := primed_same_head hit.read hit'.read hh hptr hptr'
    have htype := congrArg Reading.type hreading
    have hextra := congrArg Reading.extra hreading
    dsimp only [CborValue.reading] at htype hextra
    rw [htype, hextra]

theorem doubleBits_same {m : UInt8} {h t' : Bytes} (hh : Head m n h) (hit : Primed it)
    (hit' : Primed it') (hptr : it.ptr = h ++ t) (hptr' : it'.ptr = h ++ t') :
    doubleBits it = doubleBits it' := by
  have htype : it.type = it'.type :=
    congrArg Reading.type (primed_same_head hit.read hit'.read hh hptr hptr')
  cases hh with
  | mk byte argument hinfo hlen =>
    have hbits {it : CborValue} {t : Bytes} {k : ℕ} (hptr : it.ptr = byte :: (argument ++ t))
        (hk : argument.length = k) : it.ptr.tail.take k = argument := by
      rw [hptr, List.tail_cons, List.take_left' hk]
    have hdecode {it : CborValue} {t : Bytes} (hptr : it.ptr = byte :: (argument ++ t))
        (hk : argument.length = if byte.toNat % 2 = 0 then 4 else 8) :
        it.decodeInt64 = bigEndian argument := by
      rw [CborValue.decodeInt64, hptr]
      dsimp only
      rw [List.take_left' hk]
    have hfloat := primed_float hit.read hptr
    rw [doubleBits, doubleBits, ← htype]
    split_ifs with hhalf hsingle hdouble
    · have hbyte : CborHalfFloatType = byte := hhalf.symm.trans (hfloat (by rw [hhalf]; decide))
      subst hbyte
      have htwo : argument.length = 2 := hlen
      rw [hbits hptr htwo, hbits hptr' htwo]
    · have hbyte : CborFloatType = byte := hsingle.symm.trans (hfloat (by rw [hsingle]; decide))
      subst hbyte
      rw [hdecode hptr hlen, hdecode hptr' hlen]
    · have hbyte : CborDoubleType = byte := hdouble.symm.trans (hfloat (by rw [hdouble]; decide))
      subst hbyte
      rw [hdecode hptr hlen, hdecode hptr' hlen]
    · rfl

theorem parseDouble_reader : Reader Standing 1 parseDouble := by
  show Reader Standing 1 (fixedValue doubleBits)
  refine fixedValue_reader (fun it => ?_) (fun {it v} h => ?_) doubleBits_same
  · rw [doubleBits]
    split_ifs <;> exact fun h => by cases h
  · rw [doubleBits] at h
    split_ifs at h with hhalf hsingle hdouble
    · rw [hhalf]
      decide
    · rw [hsingle]
      decide
    · rw [hdouble]
      decide

theorem parseTextString_reader : Reader Standing 1 parseTextString := by
  refine Reader.of_item (fun {it} hit => ?_) fun {it v it'} hit h => ?_
  · have hcopy := copyString_total it
    rw [parseTextString]
    split_ifs
    · exact fun h => by cases h
    · rcases hs : copyString it with ⟨err | text, next⟩ <;> rw [hs] at hcopy
      · exact fun h => cborResult_ne (fun he => hcopy (congrArg Except.error he))
          (Except.error.inj h)
      · exact fun h => by cases h
  · rw [parseTextString] at h
    obtain ⟨htype, h⟩ := Loop.guard_ok h
    have htype' := not_not.mp htype
    have hprimed := standing_of_type hit htype' (by decide)
    rcases hs : copyString it with ⟨err | text, next⟩ <;> rw [hs] at h
    · cases h
    · obtain ⟨rfl, rfl⟩ := Prod.mk.inj (Except.ok.inj h)
      obtain ⟨b, t, hb, hptr, hfollows⟩ := copyString_sound hprimed (.inl htype') hs
      rw [htype'] at hb
      refine ⟨hprimed, b, t, hptr, ⟨0, .string (.inr rfl) hb⟩, hfollows, fun hbefore => ?_⟩
      obtain ⟨htype'', moved, hcopy, hbefore'⟩ := hbefore.copyString hb (.inl rfl)
      refine ⟨moved, ?_, hbefore'⟩
      rw [parseTextString, if_neg (not_not.mpr htype''), hcopy]

theorem Reader.tagged {more : ℕ → CborValue → Except Stream2Error (α × CborValue)}
    (hmore : ∀ tag, Reader Primed 1 (more tag)) :
    Reader Standing 1 fun it => parseTag it >>= fun x => more x.1 x.2 := by
  have hmove : ∀ {it}, Standing it → it.type = CborTagType → Primed it ∧
      advanceFixed it = advanceInternal it := by
    intro it hit htype
    have hprimed := standing_of_type hit htype (by decide)
    exact ⟨hprimed, advanceFixed_eq hprimed (by rw [htype]; rfl)⟩
  refine Reader.of_item (fun {it} hit => ?_) fun {it v it'} hit h => ?_
  · refine Loop.bind_ne ?_ fun x hx => (hmore x.1).total ?_
    · rw [parseTag]
      split_ifs with htype
      · exact fun h => by cases h
      · obtain ⟨hprimed, hmoves⟩ := hmove hit (not_not.mp htype)
        refine Loop.bind_ne (lift_ne ?_) fun next _ h => by cases h
        rw [hmoves]
        exact advanceInternal_total hprimed (by rw [not_not.mp htype]; rfl)
    · obtain ⟨htype, hx⟩ := Loop.guard_ok hx
      obtain ⟨next, hnext, hx⟩ := Loop.bind_ok hx
      obtain rfl := Except.ok.inj hx
      obtain ⟨hprimed, hmoves⟩ := hmove hit (not_not.mp htype)
      have hinternal := lift_ok hnext
      rw [hmoves] at hinternal
      obtain ⟨n, head, t, -, -, -, huntagged⟩ :=
        advanceInternal_tag hprimed (not_not.mp htype) hinternal
      exact huntagged.primed
  · obtain ⟨⟨tag, mid⟩, hx, h⟩ := Loop.bind_ok h
    obtain ⟨htype, hx⟩ := Loop.guard_ok hx
    obtain ⟨next, hnext, hx⟩ := Loop.bind_ok hx
    obtain ⟨rfl, rfl⟩ := Prod.mk.inj (Except.ok.inj hx)
    obtain ⟨hprimed, hmoves⟩ := hmove hit (not_not.mp htype)
    have hinternal := lift_ok hnext
    rw [hmoves] at hinternal
    obtain ⟨n, head, t, hh, hptr, hn, huntagged⟩ :=
      advanceInternal_tag hprimed (not_not.mp htype) hinternal
    obtain ⟨-, b, t', hptr', hb, hfollows, hyields⟩ := (hmore _).item huntagged.primed h
    refine ⟨hprimed, head ++ b, t', ?_, Cbor.wellFormed_tagged hh hb,
      huntagged.follows.mp hfollows, fun hbefore => ?_⟩
    · rw [hptr, ← huntagged.ptr, hptr', List.append_assoc]
    · obtain ⟨htype', hn', mid', hmoved, hbefore'⟩ := hbefore.untag hh hb
      obtain ⟨last, hread, hlast⟩ := hyields hbefore'
      have hprimed' := hbefore.step.1
      refine ⟨last, ?_, hlast⟩
      dsimp only
      rw [parseTag, if_neg (not_not.mpr htype'), advanceFixed_eq hprimed' (by rw [htype']; rfl),
        hmoved, hn', ← hn]
      exact hread

end Values

section Containers

theorem getLength_ne (it : CborValue) : lift it.getLength ≠ .error .aborted := by
  rw [CborValue.getLength]
  split_ifs <;> exact fun h => by cases h

theorem getLength_ok (h : it.getLength = .ok n) :
    it.unknownLength = false ∧ it.extractInt64 = n := by
  rw [CborValue.getLength] at h
  split_ifs at h with hunknown
  exact ⟨Bool.eq_false_iff.mpr hunknown, Except.ok.inj h⟩

/-- What `read` finds in a container of known length. -/
def knownContainer (type : UInt8) (read : ℕ → CborValue → Except Stream2Error (α × CborValue))
    (it : CborValue) : Except Stream2Error (α × CborValue) := do
  if it.type ≠ type then .error .parse
  else
    let len ← lift it.getLength
    let elt ← lift (enterContainer it)
    let (value, elt) ← read len elt
    let it ← lift (leaveContainer it elt)
    .ok (value, it)

variable {type : UInt8} {read : ℕ → CborValue → Except Stream2Error (α × CborValue)}

theorem knownContainer_reader (hc : IsContainer type)
    (hread : ∀ len, Reader Standing (Cbor.itemCount type len) (read len)) :
    Reader Standing 1 (knownContainer type read) := by
  have hvalid : type ≠ CborInvalidType := by rcases hc with rfl | rfl <;> decide
  refine Reader.of_item (fun {it} hit => ?_) fun {it v it'} hit h => ?_
  · rw [knownContainer]
    split_ifs with htype
    · exact fun h => by cases h
    have htype' := not_not.mp htype
    have hprimed := standing_of_type hit htype' hvalid
    have hc' : IsContainer it.type := by rwa [htype']
    refine Loop.bind_ne (getLength_ne it) fun len hlen => ?_
    obtain ⟨hknown, hn⟩ := getLength_ok (lift_ok hlen)
    refine Loop.bind_ne (lift_ne (enterContainer_total hprimed hc')) fun elt henter => ?_
    have hentered := enterContainer_sound hprimed hc' (lift_ok henter)
    refine Loop.bind_ne ((hread len).total hentered.standing) fun x hx => ?_
    obtain ⟨hlast, bs, hcount, -, hpasses, -⟩ := (hread len).sound hentered.standing hx
    have hended := hentered.ended_of_count hknown hpasses hlast (by rw [hcount, htype', hn])
    exact Loop.bind_ne (lift_ne (leaveContainer_total hended.1)) fun next _ h => by cases h
  · rw [knownContainer] at h
    obtain ⟨htype, h⟩ := Loop.guard_ok h
    have htype' := not_not.mp htype
    have hprimed := standing_of_type hit htype' hvalid
    have hc' : IsContainer it.type := by rwa [htype']
    obtain ⟨len, hlen, h⟩ := Loop.bind_ok h
    obtain ⟨elt, henter, h⟩ := Loop.bind_ok h
    obtain ⟨⟨value, last⟩, hvalue, h⟩ := Loop.bind_ok h
    obtain ⟨next, hleave, h⟩ := Loop.bind_ok h
    obtain ⟨rfl, rfl⟩ := Prod.mk.inj (Except.ok.inj h)
    have hentered := enterContainer_sound hprimed hc' (lift_ok henter)
    obtain ⟨hstanding, bs, -, hbs, hpasses, hyields⟩ := (hread len).sound hentered.standing hvalue
    obtain ⟨hinvalid, hfollows⟩ := leaveContainer_sound hprimed hc' (lift_ok hleave)
    obtain ⟨b, hptr, hb, hwf⟩ := hentered.item hpasses (hstanding.ended hinvalid) hbs
    refine ⟨hprimed, b, last.ptr, hptr, hwf hc', hfollows, fun hbefore => ?_⟩
    rw [htype'] at hb
    obtain ⟨hprimed', htype'', u, elt', hptr', henter', hbefore', hleave'⟩ :=
      hbefore.enter hc hb hbs
    have hlen' : it.getLength = _ :=
      getLength_same hprimed.read hprimed'.read hptr hptr' (hwf hc') hc'.long.1
    rw [hlen'] at hlen
    have hrest : Before elt' (bs ++ []) u := by rwa [List.append_nil]
    obtain ⟨last', hread', hlast'⟩ := hyields hrest
    obtain ⟨hended', hu⟩ := before_nil_iff.mp hlast'
    obtain ⟨moved, hmoved, hafter⟩ := hleave' last' hended' hu
    refine ⟨moved, ?_, hafter⟩
    rw [knownContainer, if_neg (not_not.mpr htype''), hlen, Loop.ok_bind, henter']
    show (read len elt' >>= _) = _
    rw [hread', Loop.ok_bind]
    dsimp only
    rw [hmoved]
    rfl

end Containers

end Stream2
