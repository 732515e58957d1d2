import ADEiger.TinyCbor

/-! Every step takes bytes from the buffer, so that the loops end by themselves. The cursor after
a step that succeeds is not in the middle of a string. -/
namespace TinyCbor

open Loop (whileLoop)

variable {it it' : CborValue} {n m : ℕ}

/-- At the head of a string or a container when the type says so. -/
def Fresh (it : CborValue) : Prop :=
  isFixedType it.type = false → it.iteratingStringChunks = false ∧
    ∃ byte rest, it.ptr = byte :: rest ∧ byte &&& MajorTypeMask = it.type

theorem fresh_of_fixed (h : isFixedType it.type = true) : Fresh it := by
  intro hfixed
  rw [h] at hfixed
  cases hfixed

theorem Moved.check_ok {r : Moved} (h : r.check = .ok it') : r = (none, it') := by
  obtain ⟨err, it⟩ := r
  cases err with
  | none => rw [Except.ok.inj h]
  | some err => cases h

section Numbers

theorem bigEndian_lt (bytes : Bytes) : bigEndian bytes < 256 ^ bytes.length := by
  have hall : ∀ (bytes : Bytes) (v : ℕ), bytes.foldl (fun v b => 256 * v + b.toNat) v <
      (v + 1) * 256 ^ bytes.length := by
    intro bytes
    induction bytes with
    | nil => simp
    | cons b bytes ih =>
      intro v
      have hb := b.toNat_lt
      rw [List.foldl_cons, List.length_cons, Nat.pow_succ']
      calc bytes.foldl (fun v b => 256 * v + b.toNat) (256 * v + b.toNat)
          < (256 * v + b.toNat + 1) * 256 ^ bytes.length := ih _
        _ ≤ (v + 1) * 256 * 256 ^ bytes.length := Nat.mul_le_mul_right _ (by omega)
        _ = (v + 1) * (256 * 256 ^ bytes.length) := Nat.mul_assoc _ _ _
  have h := hall bytes 0
  rwa [Nat.zero_add, Nat.one_mul] at h

theorem extractInt64_lt (it : CborValue) : it.extractInt64 < 2 ^ 64 := by
  have hextra := it.extra.toNat_lt
  have htake : ∀ (bytes : Bytes) (k : ℕ), k ≤ 8 → bigEndian (bytes.take k) < 2 ^ 64 := by
    intro bytes k hk
    calc bigEndian (bytes.take k) < 256 ^ (bytes.take k).length := bigEndian_lt _
      _ ≤ 256 ^ 8 := Nat.pow_le_pow_right (by decide) (Nat.le_trans (List.length_take_le _ _) hk)
      _ = 2 ^ 64 := by decide
  rw [CborValue.extractInt64]
  split_ifs
  · rw [CborValue.decodeInt64]
    split
    · decide
    · split_ifs
      · exact htake _ 4 (by decide)
      · exact htake _ 8 (by decide)
  · omega

theorem extractNumber_length (byte : UInt8) (ptr : Bytes) :
    (extractNumber (byte :: ptr)).2.length ≤ ptr.length := by
  simp only [extractNumber]
  split_ifs with _ _ hlen
  · exact Nat.le_refl _
  · exact Nat.le_refl _
  · exact Nat.le_refl _
  · rw [List.length_drop]
    exact Nat.sub_le _ _

theorem preparseSimple_ptr (it : CborValue) (byte : UInt8) (descriptor : ℕ) (rest : Bytes) :
    (preparseSimple it byte descriptor rest).2.ptr = it.ptr := by
  simp only [preparseSimple]
  split_ifs <;> rfl

theorem preparseExtra_ptr (it : CborValue) (descriptor : ℕ) (rest : Bytes) :
    (preparseExtra it descriptor rest).ptr = it.ptr := by
  simp only [preparseExtra]
  split_ifs <;> rfl

theorem preparseExtra_keeps (it : CborValue) (descriptor : ℕ) (rest : Bytes) :
    (preparseExtra it descriptor rest).type = it.type ∧
      (preparseExtra it descriptor rest).iteratingStringChunks = it.iteratingStringChunks := by
  simp only [preparseExtra]
  split_ifs <;> exact ⟨rfl, rfl⟩

theorem isFixedType_simple {byte : UInt8} (h : byte &&& MajorTypeMask = CborSimpleType) :
    isFixedType byte = true := by
  have hne : ∀ type : UInt8, type &&& MajorTypeMask ≠ CborSimpleType → byte ≠ type := by
    intro type htype he
    exact htype (he ▸ h)
  simp only [isFixedType, bne_iff_ne, ne_eq, Bool.and_eq_true]
  exact ⟨⟨⟨hne _ (by decide), hne _ (by decide)⟩, hne _ (by decide)⟩, hne _ (by decide)⟩

theorem preparseSimple_fixed {byte : UInt8} (h : byte &&& MajorTypeMask = CborSimpleType)
    (hit : it.type = CborSimpleType) (descriptor : ℕ) (rest : Bytes) :
    isFixedType (preparseSimple it byte descriptor rest).2.type = true := by
  have hbyte := isFixedType_simple h
  have hsimple : isFixedType it.type = true := by
    rw [hit]
    rfl
  simp only [preparseSimple]
  split_ifs <;> first | exact hbyte | exact hsimple | rfl

theorem preparseValue_ptr (it : CborValue) : (preparseValue it).2.ptr = it.ptr := by
  simp only [preparseValue]
  split
  · rfl
  · split_ifs <;> simp only [preparseSimple_ptr, preparseExtra_ptr]

theorem preparseValue_fresh (h : preparseValue it = (none, it')) : Fresh it' := by
  rw [preparseValue] at h
  cases hptr : it.ptr with
  | nil =>
    rw [hptr] at h
    cases congrArg Prod.fst h
  | cons byte rest =>
    simp only [hptr] at h
    by_cases hlong : Value64Bit < byte.toNat % 32
    · rw [if_pos hlong] at h
      split_ifs at h with _ _ hfixed
      · cases congrArg Prod.fst h
      · cases congrArg Prod.fst h
      · obtain rfl := congrArg Prod.snd h
        exact fun _ => ⟨rfl, byte, rest, rfl, rfl⟩
      all_goals cases congrArg Prod.fst h
    rw [if_neg hlong] at h
    by_cases hrest : rest.length < bytesNeeded (byte.toNat % 32)
    · rw [if_pos hrest] at h
      cases congrArg Prod.fst h
    rw [if_neg hrest] at h
    by_cases hsimple : byte &&& MajorTypeMask = CborSimpleType
    · rw [if_pos hsimple] at h
      obtain rfl := congrArg Prod.snd h
      exact fresh_of_fixed (preparseSimple_fixed hsimple hsimple _ _)
    rw [if_neg hsimple] at h
    by_cases hnegative : byte &&& MajorTypeMask = NegativeInteger
    · rw [if_pos hnegative] at h
      obtain rfl := congrArg Prod.snd h
      apply fresh_of_fixed
      rw [(preparseExtra_keeps _ _ _).1]
      rfl
    · rw [if_neg hnegative] at h
      obtain rfl := congrArg Prod.snd h
      intro _
      refine ⟨(preparseExtra_keeps _ _ _).2, byte, rest, preparseExtra_ptr _ _ _, ?_⟩
      dsimp only
      rw [(preparseExtra_keeps _ _ _).1]

end Numbers

section Items

theorem preparseNextValueNodecrement_length (it : CborValue) :
    (preparseNextValueNodecrement it).2.ptr.length ≤ it.ptr.length := by
  simp only [preparseNextValueNodecrement]
  split_ifs
  · exact Nat.le_refl _
  · rw [List.length_tail]
    exact Nat.sub_le _ _
  · exact Nat.le_of_eq (congrArg List.length (preparseValue_ptr it))

theorem preparseNextValueNodecrement_fresh (h : preparseNextValueNodecrement it = (none, it')) :
    Fresh it' := by
  rw [preparseNextValueNodecrement] at h
  split_ifs at h
  · cases congrArg Prod.fst h
  · obtain rfl := congrArg Prod.snd h
    exact fresh_of_fixed rfl
  · exact preparseValue_fresh h

theorem countItem_ptr (it : CborValue) : (countItem it).ptr = it.ptr := by
  rw [countItem]
  split_ifs <;> rfl

theorem preparseNextValue_length (it : CborValue) :
    (preparseNextValue it).2.ptr.length ≤ it.ptr.length := by
  rw [preparseNextValue]
  by_cases htag : it.type = CborTagType
  · rw [if_pos htag]
    exact preparseNextValueNodecrement_length it
  rw [if_neg htag]
  dsimp only
  by_cases hzero : (countItem it).remaining = 0
  · have hptr : (countItem it).ptr = it.ptr := countItem_ptr it
    rw [if_pos hzero]
    exact Nat.le_of_eq (congrArg List.length hptr)
  · rw [if_neg hzero]
    have hle := preparseNextValueNodecrement_length
      { countItem it with nextIsMapKey := !(countItem it).nextIsMapKey }
    simpa only [countItem_ptr] using hle

theorem preparseNextValue_fresh (h : preparseNextValue it = (none, it')) : Fresh it' := by
  rw [preparseNextValue] at h
  by_cases htag : it.type = CborTagType
  · rw [if_pos htag] at h
    exact preparseNextValueNodecrement_fresh h
  rw [if_neg htag] at h
  dsimp only at h
  by_cases hzero : (countItem it).remaining = 0
  · rw [if_pos hzero] at h
    obtain rfl := congrArg Prod.snd h
    exact fresh_of_fixed rfl
  · rw [if_neg hzero] at h
    exact preparseNextValueNodecrement_fresh h

theorem advanceInternal_length (h : advanceInternal it = .ok it') :
    it'.ptr.length < it.ptr.length := by
  rw [advanceInternal] at h
  cases hptr : it.ptr with
  | nil => simp [hptr, extractNumber] at h
  | cons byte rest =>
    have hle := extractNumber_length byte rest
    rw [hptr] at h
    rcases hn : extractNumber (byte :: rest) with ⟨_ | len, ptr⟩
    · simp [hn] at h
    · simp only [hn] at h hle
      have hnext := preparseNextValue_length { it with ptr := ptr }
      rw [Moved.check_ok h] at hnext
      exact Nat.lt_succ_of_le (Nat.le_trans hnext hle)

theorem advanceInternal_fresh (h : advanceInternal it = .ok it') : Fresh it' := by
  rw [advanceInternal] at h
  rcases hn : extractNumber it.ptr with ⟨_ | len, ptr⟩
  · simp [hn] at h
  · simp only [hn] at h
    exact preparseNextValue_fresh (Moved.check_ok h)

theorem advanceFixed_ok (h : advanceFixed it = .ok it') : advanceInternal it = .ok it' := by
  rw [advanceFixed] at h
  split_ifs at h
  exact h

/-- No number of tags stops the loop before its end. -/
theorem skipTag_eq (it : CborValue) :
    skipTag it = if isTag it then advanceFixed it >>= skipTag else .ok it :=
  Loop.whileLoop_eq (I := fun _ => True)
    ⟨fun _ _ _ _ _ => trivial, fun _ _ _ _ h => advanceInternal_length (advanceFixed_ok h)⟩ trivial

theorem advanceFixed_spec (h : advanceFixed it = .ok it') :
    it'.ptr.length < it.ptr.length ∧ Fresh it' :=
  ⟨advanceInternal_length (advanceFixed_ok h), advanceInternal_fresh (advanceFixed_ok h)⟩

theorem skipTag_length (h : skipTag it = .ok it') : it'.ptr.length ≤ it.ptr.length := by
  have hinv := Loop.whileLoop_invariant (P := fun s => s.ptr.length ≤ it.ptr.length)
    (fun s s' hs _ hb => Nat.le_trans (Nat.le_of_lt (advanceFixed_spec hb).1) hs)
    (Nat.le_refl _) h
  exact hinv.1

end Items

section Chunks

theorem lastChunk_length (it : CborValue) : (lastChunk it).2.ptr.length ≤ it.ptr.length := by
  have hle := preparseNextValue_length it
  rw [lastChunk]
  rcases hp : preparseNextValue it with ⟨_ | err, it'⟩ <;> rw [hp] at hle <;> exact hle

theorem lastChunk_fresh {chunk : Option Bytes} (h : lastChunk it = (.ok chunk, it')) :
    Fresh it' ∧ chunk = none := by
  rw [lastChunk] at h
  rcases hp : preparseNextValue it with ⟨_ | err, next⟩
  · rw [hp] at h
    obtain ⟨hc, rfl⟩ := Prod.mk.inj h
    exact ⟨preparseNextValue_fresh hp, (Except.ok.inj hc).symm⟩
  · rw [hp] at h
    cases congrArg Prod.fst h

theorem nextChunk_lt {byte : UInt8} {rest : Bytes} (hptr : it.ptr = byte :: rest)
    (h : byte = BreakByte ∨ byte &&& MajorTypeMask = it.type) :
    (nextChunk it).2.ptr.length < it.ptr.length := by
  have hle := extractNumber_length byte rest
  simp only [nextChunk, hptr, List.length_cons, Nat.lt_succ_iff]
  by_cases hbreak : byte = BreakByte
  · rw [if_pos hbreak]
    exact lastChunk_length _
  rw [if_neg hbreak, if_pos (h.resolve_left hbreak)]
  rcases hn : extractNumber (byte :: rest) with ⟨err | len, ptr⟩ <;> rw [hn] at hle
  · exact hle
  · dsimp only
    split_ifs
    · exact hle
    · rw [List.length_drop]
      exact Nat.le_trans (Nat.sub_le _ _) hle

theorem nextChunk_stuck (h : ∀ byte rest, it.ptr = byte :: rest →
    ¬ (byte = BreakByte ∨ byte &&& MajorTypeMask = it.type)) :
    ∃ err, nextChunk it = (.error err, it) := by
  rw [nextChunk]
  cases hptr : it.ptr with
  | nil => exact ⟨_, rfl⟩
  | cons byte rest =>
    obtain ⟨hbreak, htype⟩ := not_or.mp (h byte rest hptr)
    refine ⟨.illegalType, ?_⟩
    dsimp only
    rw [if_neg hbreak, if_neg htype]

theorem nextChunk_length (it : CborValue) : (nextChunk it).2.ptr.length ≤ it.ptr.length := by
  by_cases h : ∃ byte rest, it.ptr = byte :: rest ∧
      (byte = BreakByte ∨ byte &&& MajorTypeMask = it.type)
  · obtain ⟨byte, rest, hptr, hb⟩ := h
    exact Nat.le_of_lt (nextChunk_lt hptr hb)
  · obtain ⟨err, he⟩ := nextChunk_stuck (fun byte rest hptr hb => h ⟨byte, rest, hptr, hb⟩)
    exact Nat.le_of_eq (congrArg (fun r => r.2.ptr.length) he)

theorem nextChunk_ok {chunk : Option Bytes} (h : nextChunk it = (.ok chunk, it')) :
    it'.ptr.length < it.ptr.length ∧ (chunk = none → Fresh it') := by
  by_cases hstuck : ∃ byte rest, it.ptr = byte :: rest ∧
      (byte = BreakByte ∨ byte &&& MajorTypeMask = it.type)
  · obtain ⟨byte, rest, hptr, hb⟩ := hstuck
    have hlt := nextChunk_lt hptr hb
    rw [h] at hlt
    refine ⟨hlt, fun hnone => ?_⟩
    subst hnone
    simp only [nextChunk, hptr] at h
    split_ifs at h
    · exact (lastChunk_fresh h).1
    · rcases hn : extractNumber (byte :: rest) with ⟨err | len, ptr⟩ <;> rw [hn] at h
      · cases congrArg Prod.fst h
      · dsimp only at h
        split_ifs at h <;> cases congrArg Prod.fst h
    · cases congrArg Prod.fst h
  · obtain ⟨err, he⟩ := nextChunk_stuck (fun byte rest hptr hb => hstuck ⟨byte, rest, hptr, hb⟩)
    rw [he] at h
    cases congrArg Prod.fst h

theorem prepareStringIteration_length (it : CborValue) :
    (prepareStringIteration it).ptr.length ≤ it.ptr.length := by
  rw [prepareStringIteration]
  split_ifs
  · rw [List.length_tail]
    exact Nat.sub_le _ _
  · exact Nat.le_refl _

theorem getStringChunk_length (it : CborValue) :
    (getStringChunk it).2.ptr.length ≤ it.ptr.length := by
  rw [getStringChunk]
  split_ifs
  · exact lastChunk_length it
  · exact Nat.le_trans (nextChunk_length _) (prepareStringIteration_length it)

/-- Every chunk but the last takes a byte, and so does the last of a string just begun. -/
theorem getStringChunk_ok {chunk : Option Bytes} (h : getStringChunk it = (.ok chunk, it')) :
    (chunk ≠ none → it'.ptr.length < it.ptr.length) ∧ (chunk = none → Fresh it') := by
  rw [getStringChunk] at h
  split_ifs at h
  · obtain ⟨hfresh, hnone⟩ := lastChunk_fresh h
    exact ⟨fun hc => absurd hnone hc, fun _ => hfresh⟩
  · obtain ⟨hlt, hfresh⟩ := nextChunk_ok h
    exact ⟨fun _ => Nat.lt_of_lt_of_le hlt (prepareStringIteration_length it), hfresh⟩

theorem getStringChunk_lt (hit : Fresh it) (hfixed : isFixedType it.type = false) :
    (getStringChunk it).2.ptr.length < it.ptr.length := by
  obtain ⟨hchunks, byte, rest, hptr, htype⟩ := hit hfixed
  rw [getStringChunk, hchunks, Bool.false_and, if_neg Bool.false_ne_true, prepareStringIteration,
    hchunks, Bool.not_false, Bool.and_true]
  by_cases hlen : it.unknownLength = true
  · rw [if_pos hlen]
    apply Nat.lt_of_le_of_lt (nextChunk_length _)
    rw [hptr]
    exact Nat.lt_succ_self _
  · rw [if_neg hlen]
    exact nextChunk_lt hptr (.inr htype)

end Chunks

section Whole

theorem stringChunks_length (n : ℕ) (it : CborValue) :
    (stringChunks n it).2.ptr.length ≤ it.ptr.length := by
  induction n generalizing it with
  | zero => exact Nat.le_refl _
  | succ n ih =>
    have hle := getStringChunk_length it
    rw [stringChunks]
    rcases hc : getStringChunk it with ⟨err | _ | chunk, next⟩ <;> rw [hc] at hle
    · exact hle
    · exact hle
    · have hrest := ih next
      dsimp only
      rcases hs : stringChunks n next with ⟨err | text, last⟩ <;> rw [hs] at hrest <;>
        exact Nat.le_trans hrest hle

theorem stringChunks_enough (hn : it.ptr.length < n) (hm : it.ptr.length < m) :
    stringChunks n it = stringChunks m it := by
  induction n generalizing m it with
  | zero => exact absurd hn (Nat.not_lt_zero _)
  | succ n ih =>
    obtain ⟨m, rfl⟩ := Nat.exists_eq_succ_of_ne_zero (Nat.ne_zero_of_lt hm)
    rw [stringChunks, stringChunks]
    rcases hc : getStringChunk it with ⟨err | _ | chunk, next⟩
    · rfl
    · rfl
    · have hlt := (getStringChunk_ok hc).1 (Option.some_ne_none chunk)
      dsimp only
      rw [ih (Nat.lt_of_lt_of_le hlt (Nat.le_of_lt_succ hn))
        (Nat.lt_of_lt_of_le hlt (Nat.le_of_lt_succ hm))]

theorem copyString_eq (hn : it.ptr.length < n) : copyString it = stringChunks n it :=
  stringChunks_enough (Nat.lt_succ_self _) hn

theorem stringChunks_fresh {text : Bytes} (h : stringChunks n it = (.ok text, it')) :
    Fresh it' := by
  induction n generalizing it text with
  | zero => cases congrArg Prod.fst h
  | succ n ih =>
    rw [stringChunks] at h
    rcases hc : getStringChunk it with ⟨err | _ | chunk, next⟩ <;> rw [hc] at h
    · cases congrArg Prod.fst h
    · obtain rfl := congrArg Prod.snd h
      exact (getStringChunk_ok hc).2 rfl
    · dsimp only at h
      rcases hs : stringChunks n next with ⟨err | more, last⟩ <;> rw [hs] at h
      · cases congrArg Prod.fst h
      · obtain rfl := congrArg Prod.snd h
        exact ih hs

theorem copyString_lt (hit : Fresh it) (hfixed : isFixedType it.type = false) :
    (copyString it).2.ptr.length < it.ptr.length := by
  have hlt := getStringChunk_lt hit hfixed
  rw [copyString, stringChunks]
  rcases hc : getStringChunk it with ⟨err | _ | chunk, next⟩ <;> rw [hc] at hlt
  · exact hlt
  · exact hlt
  · have hrest := stringChunks_length it.ptr.length next
    dsimp only
    rcases hs : stringChunks it.ptr.length next with ⟨err | text, last⟩ <;> rw [hs] at hrest <;>
      exact Nat.lt_of_le_of_lt hrest hlt

theorem enterContainer_fresh (h : enterContainer it = .ok it') : Fresh it' := by
  rw [enterContainer] at h
  by_cases hlen : it.unknownLength = true
  · rw [if_pos hlen] at h
    exact preparseNextValueNodecrement_fresh (Moved.check_ok h)
  rw [if_neg hlen] at h
  rcases hn : extractNumber it.ptr with ⟨err | len, ptr⟩
  · rw [hn] at h
    cases h
  · simp only [hn] at h
    split_ifs at h
    · obtain rfl := Except.ok.inj h
      exact fresh_of_fixed rfl
    all_goals exact preparseNextValueNodecrement_fresh (Moved.check_ok h)

theorem preparseInside_length {ptr : Bytes} {remaining : ℕ}
    (h : (preparseNextValueNodecrement (inside it ptr remaining)).check = .ok it') :
    it'.ptr.length ≤ ptr.length := by
  have hnext := preparseNextValueNodecrement_length (inside it ptr remaining)
  rw [Moved.check_ok h] at hnext
  exact hnext

theorem enterContainer_tail (h : enterContainer it = .ok it') :
    it'.ptr.length ≤ it.ptr.tail.length := by
  rw [enterContainer] at h
  by_cases hlen : it.unknownLength = true
  · rw [if_pos hlen] at h
    exact preparseInside_length h
  rw [if_neg hlen] at h
  cases hptr : it.ptr with
  | nil =>
    rw [hptr] at h
    cases h
  | cons byte rest =>
    have hle := extractNumber_length byte rest
    rw [hptr] at h
    rcases hn : extractNumber (byte :: rest) with ⟨err | len, ptr⟩
    · rw [hn] at h
      cases h
    · simp only [hn] at h hle
      split_ifs at h
      · obtain rfl := Except.ok.inj h
        exact hle
      all_goals exact Nat.le_trans (preparseInside_length h) hle

theorem enterContainer_le (h : enterContainer it = .ok it') : it'.ptr.length ≤ it.ptr.length := by
  have htail := enterContainer_tail h
  rw [List.length_tail] at htail
  exact Nat.le_trans htail (Nat.sub_le _ _)

theorem enterContainer_lt (hit : Fresh it) (hfixed : isFixedType it.type = false)
    (h : enterContainer it = .ok it') : it'.ptr.length < it.ptr.length := by
  obtain ⟨-, byte, rest, hptr, -⟩ := hit hfixed
  have htail := enterContainer_tail h
  rw [hptr, List.tail_cons] at htail
  rw [hptr]
  exact Nat.lt_succ_of_le htail

theorem leaveContainer_spec {recursed : CborValue} (h : leaveContainer it recursed = .ok it') :
    it'.ptr.length ≤ recursed.ptr.length ∧ Fresh it' := by
  rw [leaveContainer] at h
  split_ifs at h
  have hle := preparseNextValue_length { it with ptr := recursed.ptr }
  rw [Moved.check_ok h] at hle
  exact ⟨hle, preparseNextValue_fresh (Moved.check_ok h)⟩

/-- The body of the loop over the items of a container. -/
structure Advances (body : CborValue → Except CborError CborValue) : Prop where
  fresh : ∀ {it it'}, body it = .ok it' → Fresh it'
  le : ∀ {it it'}, body it = .ok it' → it'.ptr.length ≤ it.ptr.length
  lt : ∀ {it it'}, Fresh it → body it = .ok it' → it'.ptr.length < it.ptr.length

theorem Advances.decreasing {body : CborValue → Except CborError CborValue} (hb : Advances body)
    (cond : CborValue → Bool) : Loop.Decreasing Fresh cond body (·.ptr.length) :=
  ⟨fun _ _ _ _ h => hb.fresh h, fun _ _ hs _ h => hb.lt hs h⟩

theorem advanceItem_advances {container : CborValue → Except CborError CborValue}
    (hfresh : ∀ {it it'}, container it = .ok it' → Fresh it')
    (hle : ∀ {it it'}, container it = .ok it' → it'.ptr.length ≤ it.ptr.length)
    (hlt : ∀ {it it'}, Fresh it → isFixedType it.type = false → container it = .ok it' →
      it'.ptr.length < it.ptr.length) : Advances (advanceItem container) where
  fresh {it it'} h := by
    rw [advanceItem] at h
    split_ifs at h
    · exact advanceInternal_fresh h
    · exact hfresh h
    · rcases hs : copyString it with ⟨err | text, next⟩ <;> rw [hs] at h
      · cases h
      · obtain rfl := Except.ok.inj h
        exact stringChunks_fresh hs
  le {it it'} h := by
    rw [advanceItem] at h
    split_ifs at h
    · exact Nat.le_of_lt (advanceInternal_length h)
    · exact hle h
    · have hs' : (copyString it).2.ptr.length ≤ it.ptr.length := stringChunks_length _ _
      rcases hs : copyString it with ⟨err | text, next⟩ <;> rw [hs] at h hs'
      · cases h
      · obtain rfl := Except.ok.inj h
        exact hs'
  lt {it it'} hit h := by
    rw [advanceItem] at h
    split_ifs at h with hfixed hcontainer
    · exact advanceInternal_length h
    · exact hlt hit (by simpa using hfixed) h
    · have hs' := copyString_lt hit (by simpa using hfixed)
      rcases hs : copyString it with ⟨err | text, next⟩ <;> rw [hs] at h hs'
      · cases h
      · obtain rfl := Except.ok.inj h
        exact hs'

/-- Down to any depth that is allowed. -/
theorem advanceRecursive_advances (nestingLevel : ℕ) :
    Advances (advanceRecursive nestingLevel) := by
  induction nestingLevel with
  | zero =>
    apply advanceItem_advances
    · intro it it' h
      cases h
    · intro it it' h
      cases h
    · intro it it' _ _ h
      cases h
  | succ nestingLevel ih =>
    have hitems : ∀ recursed last, Fresh recursed →
        whileLoop notAtEnd (advanceRecursive nestingLevel) .aborted (·.ptr.length) recursed =
          .ok last → last.ptr.length ≤ recursed.ptr.length := by
      intro recursed last hfresh hloop
      have hinv := Loop.whileLoop_invariant
        (P := fun s => s.ptr.length ≤ recursed.ptr.length ∧ Fresh s)
        (fun s s' hs _ hb => ⟨Nat.le_trans (ih.le hb) hs.1, ih.fresh hb⟩)
        ⟨Nat.le_refl _, hfresh⟩ hloop
      exact hinv.1.1
    apply advanceItem_advances
    · intro it it' h
      obtain ⟨recursed, -, h⟩ := Loop.bind_ok h
      obtain ⟨last, -, h⟩ := Loop.bind_ok h
      exact (leaveContainer_spec h).2
    · intro it it' h
      obtain ⟨recursed, henter, h⟩ := Loop.bind_ok h
      obtain ⟨last, hloop, h⟩ := Loop.bind_ok h
      have hle := hitems recursed last (enterContainer_fresh henter) hloop
      exact Nat.le_trans (Nat.le_trans (leaveContainer_spec h).1 hle) (enterContainer_le henter)
    · intro it it' hit hfixed h
      obtain ⟨recursed, henter, h⟩ := Loop.bind_ok h
      obtain ⟨last, hloop, h⟩ := Loop.bind_ok h
      have hle := hitems recursed last (enterContainer_fresh henter) hloop
      exact Nat.lt_of_le_of_lt (Nat.le_trans (leaveContainer_spec h).1 hle)
        (enterContainer_lt hit hfixed henter)

theorem advanceItems_eq (nestingLevel : ℕ) (hit : Fresh it) :
    whileLoop notAtEnd (advanceRecursive nestingLevel) .aborted (·.ptr.length) it =
      if notAtEnd it then advanceRecursive nestingLevel it >>=
        whileLoop notAtEnd (advanceRecursive nestingLevel) .aborted (·.ptr.length)
      else .ok it :=
  Loop.whileLoop_eq ((advanceRecursive_advances nestingLevel).decreasing notAtEnd) hit

theorem advance_advances : Advances advance := by
  have hrec := advanceRecursive_advances CBOR_PARSER_MAX_RECURSIONS
  have hall : ∀ {it it'}, advance it = .ok it' →
      advanceRecursive CBOR_PARSER_MAX_RECURSIONS it = .ok it' := by
    intro it it' h
    rw [advance] at h
    split_ifs at h
    exact h
  exact ⟨fun h => hrec.fresh (hall h), fun h => hrec.le (hall h), fun hit h => hrec.lt hit (hall h)⟩

end Whole

end TinyCbor
