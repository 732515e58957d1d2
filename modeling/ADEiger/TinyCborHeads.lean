import ADEiger.Cbor
import ADEiger.TinyCborProgress

/-! What tinycbor's cursor reads of an item before it is moved on.
It has read the head of the item it stands at, and what it has read depends on nothing that follows
the head. -/
namespace TinyCbor

open Cbor (Head Str Encloses Item WellFormed majorType additionalInfo)

variable {it it' u u' : CborValue} {m : UInt8} {n : ℕ} {h t t' : Bytes}

section Heads

theorem extractNumber_head (hh : Head m n h) (t : Bytes) :
    extractNumber (h ++ t) = (.ok n, t) := by
  cases hh with
  | mk byte argument hinfo hlen =>
    have hle : ¬ Value64Bit < byte.toNat % 32 := Nat.not_lt.mpr (Nat.le_of_lt_succ hinfo)
    rw [List.cons_append, extractNumber]
    dsimp only
    by_cases hsmall : byte.toNat % 32 < Value8Bit
    · have hnil : argument = [] :=
        List.length_eq_zero_iff.mp (hlen.trans (Cbor.argumentLength_small hsmall))
      rw [if_pos hsmall, hnil, List.nil_append, Cbor.argumentValue_small hsmall]
      rfl
    · have hlen' : argument.length = 2 ^ (byte.toNat % 32 - Value8Bit) :=
        hlen.trans (Cbor.argumentLength_large hsmall)
      have hlong : ¬ (argument ++ t).length < 2 ^ (byte.toNat % 32 - Value8Bit) := by
        rw [List.length_append, hlen']
        omega
      rw [if_neg hsmall, if_neg hle, if_neg hlong, List.take_left' hlen', List.drop_left' hlen',
        Cbor.argumentValue_large hsmall]
      rfl

theorem extractNumber_inv {byte : UInt8} {rest : Bytes}
    (hn : extractNumber (byte :: rest) = (.ok n, t)) :
    ∃ h, Head (majorType byte) n h ∧ byte :: rest = h ++ t := by
  rw [extractNumber] at hn
  dsimp only at hn
  by_cases hsmall : byte.toNat % 32 < Value8Bit
  · rw [if_pos hsmall] at hn
    obtain ⟨hvalue, rfl⟩ := Prod.mk.inj hn
    have hhead := Head.mk byte [] (Nat.lt_of_lt_of_le hsmall (by decide))
      (Cbor.argumentLength_small hsmall).symm
    rw [Cbor.argumentValue_small hsmall] at hhead
    rw [← Except.ok.inj hvalue]
    exact ⟨_, hhead, rfl⟩
  rw [if_neg hsmall] at hn
  by_cases hle : Value64Bit < byte.toNat % 32
  · rw [if_pos hle] at hn
    cases (Prod.mk.inj hn).1
  rw [if_neg hle] at hn
  by_cases hlong : rest.length < 2 ^ (byte.toNat % 32 - Value8Bit)
  · rw [if_pos hlong] at hn
    cases (Prod.mk.inj hn).1
  rw [if_neg hlong] at hn
  obtain ⟨hvalue, rfl⟩ := Prod.mk.inj hn
  have hlen : (rest.take (2 ^ (byte.toNat % 32 - Value8Bit))).length =
      Cbor.argumentLength (additionalInfo byte) := by
    rw [List.length_take, Nat.min_eq_left (Nat.not_lt.mp hlong)]
    exact (Cbor.argumentLength_large hsmall).symm
  have hhead := Head.mk byte _ (Nat.lt_succ_of_le (Nat.not_lt.mp hle)) hlen
  rw [Cbor.argumentValue_large hsmall] at hhead
  rw [← Except.ok.inj hvalue]
  exact ⟨_, hhead, by rw [List.cons_append, List.take_append_drop]⟩

end Heads

section Priming

/-- What the cursor has read of the item. -/
structure Reading where
  type : UInt8
  extra : UInt16
  integerValueTooLarge : Bool
  negativeInteger : Bool
  iteratingStringChunks : Bool
  unknownLength : Bool

/-- Where the item is in its container. -/
structure Place where
  remaining : ℕ
  containerIsMap : Bool
  nextIsMapKey : Bool

def CborValue.reading (it : CborValue) : Reading :=
  ⟨it.type, it.extra, it.integerValueTooLarge, it.negativeInteger, it.iteratingStringChunks,
    it.unknownLength⟩

def CborValue.place (it : CborValue) : Place := ⟨it.remaining, it.containerIsMap, it.nextIsMapKey⟩

theorem CborValue.eq_of (hptr : it.ptr = it'.ptr) (hreading : it.reading = it'.reading)
    (hplace : it.place = it'.place) : it = it' := by
  obtain ⟨ptr, remaining, extra, type, large, negative, chunks, unknown, isMap, isKey⟩ := it
  obtain ⟨ptr', remaining', extra', type', large', negative', chunks', unknown', isMap', isKey'⟩ :=
    it'
  simp only [CborValue.reading, CborValue.place, Reading.mk.injEq, Place.mk.injEq] at *
  simp only [hptr, hreading, hplace]

theorem preparseSimple_place (it : CborValue) (byte : UInt8) (descriptor : ℕ) (rest : Bytes) :
    (preparseSimple it byte descriptor rest).2.place = it.place := by
  simp only [preparseSimple]
  split_ifs <;> rfl

theorem preparseExtra_place (it : CborValue) (descriptor : ℕ) (rest : Bytes) :
    (preparseExtra it descriptor rest).place = it.place := by
  simp only [preparseExtra]
  split_ifs <;> rfl

theorem preparseValue_place (it : CborValue) : (preparseValue it).2.place = it.place := by
  simp only [preparseValue]
  split
  · rfl
  · split_ifs <;> simp only [preparseSimple_place, preparseExtra_place] <;> rfl

theorem preparseSimple_congr {byte : UInt8} {rest rest' : Bytes} {descriptor : ℕ}
    (hrest : descriptor = 24 → rest.take 1 = rest'.take 1) (hu : u.reading = u'.reading) :
    (preparseSimple u byte descriptor rest).1 = (preparseSimple u' byte descriptor rest').1 ∧
      (preparseSimple u byte descriptor rest).2.reading =
        (preparseSimple u' byte descriptor rest').2.reading := by
  obtain ⟨ptr, remaining, extra, type, large, negative, chunks, unknown, isMap, isKey⟩ := u
  obtain ⟨ptr', remaining', extra', type', large', negative', chunks', unknown', isMap', isKey'⟩ :=
    u'
  simp only [CborValue.reading, Reading.mk.injEq] at hu
  obtain ⟨rfl, rfl, rfl, rfl, rfl, rfl⟩ := hu
  by_cases h24 : descriptor = 24
  · simp only [preparseSimple, hrest h24]
    split_ifs <;> exact ⟨rfl, rfl⟩
  · simp only [preparseSimple, if_neg h24]
    split_ifs <;> exact ⟨rfl, rfl⟩

theorem preparseExtra_congr {rest rest' : Bytes} {descriptor : ℕ}
    (hrest : descriptor = Value8Bit → rest.take 1 = rest'.take 1)
    (hrest' : descriptor = Value16Bit → rest.take 2 = rest'.take 2)
    (hu : u.reading = u'.reading) :
    (preparseExtra u descriptor rest).reading = (preparseExtra u' descriptor rest').reading := by
  obtain ⟨ptr, remaining, extra, type, large, negative, chunks, unknown, isMap, isKey⟩ := u
  obtain ⟨ptr', remaining', extra', type', large', negative', chunks', unknown', isMap', isKey'⟩ :=
    u'
  simp only [CborValue.reading, Reading.mk.injEq] at hu
  obtain ⟨rfl, rfl, rfl, rfl, rfl, rfl⟩ := hu
  simp only [preparseExtra]
  split_ifs with _ h8 h16
  · rfl
  · rw [hrest h8]
    rfl
  · rw [hrest' h16]
    rfl
  · rfl

/-- What is read of an item depends on its head only. -/
theorem preparseValue_congr {byte : UInt8} {rest rest' : Bytes} (hu : u.ptr = byte :: rest)
    (hu' : u'.ptr = byte :: rest')
    (hrest : byte.toNat % 32 < 28 → rest.take (bytesNeeded (byte.toNat % 32)) =
      rest'.take (bytesNeeded (byte.toNat % 32))) :
    (preparseValue u).1 = (preparseValue u').1 ∧
      (preparseValue u).2.reading = (preparseValue u').2.reading := by
  simp only [preparseValue, hu, hu']
  by_cases hlong : Value64Bit < byte.toNat % 32
  · simp only [if_pos hlong]
    split_ifs <;> exact ⟨rfl, rfl⟩
  simp only [if_neg hlong]
  have htake := hrest (Nat.lt_succ_of_le (Nat.not_lt.mp hlong))
  have h8 : byte.toNat % 32 = 24 → rest.take 1 = rest'.take 1 := by
    intro h
    rwa [h] at htake
  have h16 : byte.toNat % 32 = 25 → rest.take 2 = rest'.take 2 := by
    intro h
    rwa [h] at htake
  have hlen := congrArg List.length htake
  rw [List.length_take, List.length_take] at hlen
  by_cases hshort : rest.length < bytesNeeded (byte.toNat % 32)
  · have hshort' : rest'.length < bytesNeeded (byte.toNat % 32) := by omega
    simp only [if_pos hshort, if_pos hshort']
    exact ⟨trivial, rfl⟩
  have hshort' : ¬ rest'.length < bytesNeeded (byte.toNat % 32) := by omega
  simp only [if_neg hshort, if_neg hshort']
  by_cases hsimple : byte &&& MajorTypeMask = CborSimpleType
  · simp only [if_pos hsimple]
    exact preparseSimple_congr h8 rfl
  simp only [if_neg hsimple]
  by_cases hnegative : byte &&& MajorTypeMask = NegativeInteger
  · simp only [if_pos hnegative]
    exact ⟨trivial, preparseExtra_congr h8 h16 rfl⟩
  · simp only [if_neg hnegative]
    exact ⟨trivial, preparseExtra_congr h8 h16 rfl⟩

/-- The cursor has read the head of the item it stands at. -/
structure Primed (it : CborValue) : Prop where
  read : preparseValue it = (none, it)
  counted : 0 < it.remaining ∧ it.remaining ≤ UINT32_MAX

def Ended (it : CborValue) : Prop := it.type = CborInvalidType ∧ it.remaining = 0

theorem preparseValue_ok (hu : preparseValue u = (none, it)) :
    ∃ byte rest, u.ptr = byte :: rest := by
  cases hptr : u.ptr with
  | nil =>
    rw [preparseValue, hptr] at hu
    cases congrArg Prod.fst hu
  | cons byte rest => exact ⟨byte, rest, rfl⟩

/-- To read a head again changes nothing. -/
theorem primed_of_preparse (hu : preparseValue u = (none, it))
    (hcount : 0 < u.remaining ∧ u.remaining ≤ UINT32_MAX) :
    Primed it ∧ it.ptr = u.ptr ∧ it.place = u.place := by
  have hptr : it.ptr = u.ptr := by rw [← preparseValue_ptr u, hu]
  have hplace : it.place = u.place := by rw [← preparseValue_place u, hu]
  obtain ⟨byte, rest, hu'⟩ := preparseValue_ok hu
  obtain ⟨herr, hreading⟩ :=
    preparseValue_congr (hptr.trans hu') hu' fun _ => rfl
  rw [hu] at herr hreading
  refine ⟨⟨Prod.ext herr (CborValue.eq_of (preparseValue_ptr it) hreading
    (preparseValue_place it)), ?_⟩, hptr, hplace⟩
  have hremaining : it.remaining = u.remaining := congrArg Place.remaining hplace
  rwa [hremaining]

theorem preparseExtra_number {byte : UInt8} {argument : Bytes}
    (hinfo : additionalInfo byte < 28)
    (hlen : argument.length = Cbor.argumentLength (additionalInfo byte))
    (hptr : u.ptr = byte :: (argument ++ t)) (hextra : u.extra = .ofNat (byte.toNat % 32))
    (hlarge : u.integerValueTooLarge = false) :
    (preparseExtra u (byte.toNat % 32) (argument ++ t)).extractInt64 =
      Cbor.argumentValue byte argument := by
  have hbound := bigEndian_lt argument
  have hofNat {k : ℕ} (hk : k < 2 ^ 16) : (UInt16.ofNat k).toNat = k := by
    rw [UInt16.toNat_ofNat', Nat.mod_eq_of_lt hk]
  rw [preparseExtra]
  by_cases hsmall : byte.toNat % 32 < Value8Bit
  · rw [if_pos hsmall, Cbor.argumentValue_small hsmall, CborValue.extractInt64, hlarge, hextra]
    exact hofNat (Nat.lt_trans hinfo (by decide))
  rw [if_neg hsmall, Cbor.argumentValue_large hsmall]
  have hlen' : argument.length = 2 ^ (byte.toNat % 32 - 24) :=
    hlen.trans (Cbor.argumentLength_large hsmall)
  have hinfo' : byte.toNat % 32 < 28 := hinfo
  by_cases h8 : byte.toNat % 32 = Value8Bit
  · have hone : argument.length = 1 := by
      rw [h8] at hlen'
      exact hlen'
    rw [hone] at hbound
    rw [if_pos h8, List.take_left' hone, CborValue.extractInt64, hlarge]
    exact hofNat (Nat.lt_trans hbound (by decide))
  rw [if_neg h8]
  by_cases h16 : byte.toNat % 32 = Value16Bit
  · have htwo : argument.length = 2 := by
      rw [h16] at hlen'
      exact hlen'
    rw [htwo] at hbound
    rw [if_pos h16, List.take_left' htwo, CborValue.extractInt64, hlarge]
    exact hofNat hbound
  rw [if_neg h16, CborValue.extractInt64, if_pos rfl, CborValue.decodeInt64]
  simp only [hptr]
  have hparity : 2 ^ (byte.toNat % 32 - 24) = if byte.toNat % 2 = 0 then 4 else 8 := by
    have hcases : byte.toNat % 32 = 26 ∨ byte.toNat % 32 = 27 := by
      simp only [Value8Bit, Value16Bit] at *
      omega
    rcases hcases with h | h
    · rw [h, if_pos (by omega)]
      rfl
    · rw [h, if_neg (by omega)]
      rfl
  rw [List.take_left' (hlen'.trans hparity)]
  rfl

end Priming

/-! What is read of each kind of head. -/
section Readings

theorem preparseExtra_flags (it : CborValue) (descriptor : ℕ) (rest : Bytes) :
    (preparseExtra it descriptor rest).negativeInteger = it.negativeInteger ∧
      (preparseExtra it descriptor rest).unknownLength = it.unknownLength := by
  simp only [preparseExtra]
  split_ifs <;> exact ⟨rfl, rfl⟩

theorem primed_head (hit : preparseValue it = (none, it)) (hptr : it.ptr = h ++ t)
    (hh : Head m n h) (hm : m ≠ CborSimpleType) :
    it.type = (if m = NegativeInteger then CborIntegerType else m) ∧ it.extractInt64 = n ∧
      it.negativeInteger = decide (m = NegativeInteger) ∧ it.unknownLength = false := by
  cases hh with
  | mk byte argument hinfo hlen =>
    have hlong : ¬ Value64Bit < byte.toNat % 32 := Nat.not_lt.mpr (Nat.le_of_lt_succ hinfo)
    have hrest : ¬ (argument ++ t).length < bytesNeeded (byte.toNat % 32) := by
      have hneeded : argument.length = bytesNeeded (byte.toNat % 32) := hlen
      rw [List.length_append, hneeded]
      omega
    have hsimple : ¬ byte &&& MajorTypeMask = CborSimpleType := hm
    have hread := congrArg Prod.snd hit
    rw [preparseValue, hptr, List.cons_append] at hread
    dsimp only at hread
    rw [if_neg hlong, if_neg hrest, if_neg hsimple] at hread
    by_cases hnegative : byte &&& MajorTypeMask = NegativeInteger
    · have hnegative' : majorType byte = NegativeInteger := hnegative
      rw [if_pos hnegative] at hread
      rw [if_pos hnegative', decide_eq_true hnegative', ← hread]
      exact ⟨(preparseExtra_keeps _ _ _).1, preparseExtra_number hinfo hlen rfl rfl rfl,
        (preparseExtra_flags _ _ _).1, (preparseExtra_flags _ _ _).2⟩
    · have hnegative' : majorType byte ≠ NegativeInteger := hnegative
      rw [if_neg hnegative] at hread
      rw [if_neg hnegative', decide_eq_false hnegative', ← hread]
      exact ⟨(preparseExtra_keeps _ _ _).1, preparseExtra_number hinfo hlen rfl rfl rfl,
        (preparseExtra_flags _ _ _).1, (preparseExtra_flags _ _ _).2⟩

theorem preparseSimple_ok {byte : UInt8} {rest : Bytes} (htype : u.type = CborSimpleType)
    (hbyte : majorType byte = CborSimpleType) (hinfo : additionalInfo byte < 28)
    (h : preparseSimple u byte (byte.toNat % 32) rest = (none, it)) :
    isFixedType it.type = true ∧ it.type ∉ [CborTagType, CborInvalidType, CborIntegerType] ∧
      (byte.toNat % 32 = 24 → 32 ≤ bigEndian (rest.take 1) % 2 ^ 16) := by
  have hfixed := preparseSimple_fixed hbyte htype (byte.toNat % 32) rest
  rw [h] at hfixed
  have hother : byte ∉ [CborTagType, CborInvalidType, CborIntegerType] := by
    intro hmem
    simp only [List.mem_cons, List.not_mem_nil, or_false] at hmem
    rcases hmem with rfl | rfl | rfl
    · exact absurd hbyte (by decide)
    · exact absurd hinfo (by decide)
    · exact absurd hbyte (by decide)
  refine ⟨hfixed, ?_⟩
  simp only [preparseSimple] at h
  split_ifs at h with h20 h32 h16 h8 hextra
  · obtain rfl := (Prod.mk.inj h).2
    exact ⟨(by decide : CborBooleanType ∉ _), fun h24 => by omega⟩
  · obtain rfl := (Prod.mk.inj h).2
    exact ⟨hother, fun h24 => by omega⟩
  · obtain rfl := (Prod.mk.inj h).2
    exact ⟨hother, fun h24 => by omega⟩
  · cases (Prod.mk.inj h).1
  · obtain rfl := (Prod.mk.inj h).2
    dsimp only
    rw [htype]
    refine ⟨by decide, fun _ => ?_⟩
    rw [UInt16.not_lt, UInt16.le_iff_toNat_le, UInt16.toNat_ofNat'] at hextra
    exact hextra
  · obtain rfl := (Prod.mk.inj h).2
    rw [htype]
    exact ⟨by decide, fun h24 => absurd h24 h8⟩

theorem preparseSimple_type {byte : UInt8} {descriptor : ℕ} {rest : Bytes}
    (htype : u.type = CborSimpleType) (h : preparseSimple u byte descriptor rest = (none, it)) :
    it.type ∈ [CborBooleanType, CborSimpleType, byte] := by
  simp only [preparseSimple] at h
  split_ifs at h
  · obtain rfl := (Prod.mk.inj h).2
    exact List.mem_cons_self
  · obtain rfl := (Prod.mk.inj h).2
    exact List.mem_cons_of_mem _ (List.mem_cons_of_mem _ List.mem_cons_self)
  · obtain rfl := (Prod.mk.inj h).2
    exact List.mem_cons_of_mem _ (List.mem_cons_of_mem _ List.mem_cons_self)
  · cases (Prod.mk.inj h).1
  · obtain rfl := (Prod.mk.inj h).2
    dsimp only
    rw [htype]
    exact List.mem_cons_of_mem _ List.mem_cons_self
  · obtain rfl := (Prod.mk.inj h).2
    rw [htype]
    exact List.mem_cons_of_mem _ List.mem_cons_self

theorem preparse_simple {byte : UInt8} {rest : Bytes} (hu : preparseValue u = (none, it))
    (hptr : u.ptr = byte :: rest) (hsimple : majorType byte = CborSimpleType)
    (hinfo : additionalInfo byte < 28) : ∃ v : CborValue, v.type = CborSimpleType ∧
      preparseSimple v byte (byte.toNat % 32) rest = (none, it) := by
  have hlong : ¬ Value64Bit < byte.toNat % 32 := Nat.not_lt.mpr (Nat.le_of_lt_succ hinfo)
  have hsimple' : byte &&& MajorTypeMask = CborSimpleType := hsimple
  rw [preparseValue, hptr] at hu
  dsimp only at hu
  rw [if_neg hlong] at hu
  by_cases hshort : rest.length < bytesNeeded (byte.toNat % 32)
  · rw [if_pos hshort] at hu
    cases (Prod.mk.inj hu).1
  · rw [if_neg hshort, if_pos hsimple'] at hu
    exact ⟨_, hsimple', hu⟩

theorem primed_simple (hit : preparseValue it = (none, it)) (hptr : it.ptr = h ++ t)
    (hh : Head CborSimpleType n h) :
    isFixedType it.type = true ∧ it.type ∉ [CborTagType, CborInvalidType, CborIntegerType] ∧
      (h.length = 2 → 32 ≤ n) := by
  generalize hm : CborSimpleType = m at hh
  cases hh with
  | mk byte argument hinfo hlen =>
    obtain ⟨v, hv, hread⟩ := preparse_simple hit hptr hm.symm hinfo
    obtain ⟨hfixed, htype, h24⟩ := preparseSimple_ok hv hm.symm hinfo hread
    refine ⟨hfixed, htype, fun htwo => ?_⟩
    have hone : argument.length = 1 := Nat.succ.inj htwo
    have hlen' : argument.length = if byte.toNat % 32 < 24 then 0 else 2 ^ (byte.toNat % 32 - 24) :=
      hlen
    have hdesc : byte.toNat % 32 = 24 := by
      rw [hone] at hlen'
      split_ifs at hlen' with hsmall
      have hpow : byte.toNat % 32 - 24 = 0 := by
        by_contra hne
        have hle := Nat.pow_le_pow_right (n := 2) (by decide) (Nat.pos_of_ne_zero hne)
        omega
      omega
    have hvalue := h24 hdesc
    rw [List.append_eq, List.take_left' hone] at hvalue
    have hsmall : ¬ additionalInfo byte < 24 := Nat.not_lt.mpr (Nat.le_of_eq hdesc.symm)
    rw [Cbor.argumentValue_large hsmall]
    exact Nat.le_trans hvalue (Nat.mod_le _ _)

theorem primed_indefinite {byte : UInt8} (hit : preparseValue it = (none, it))
    (hptr : it.ptr = byte :: t) (hinfo : additionalInfo byte = Cbor.indefinite) :
    it.type = majorType byte ∧ isFixedType it.type = false ∧ it.unknownLength = true := by
  have hread := hit
  have hlong : Value64Bit < byte.toNat % 32 := by
    have hinfo' : byte.toNat % 32 = 31 := hinfo
    rw [hinfo']
    decide
  rw [preparseValue, hptr] at hread
  dsimp only at hread
  have hinfo' : ¬ byte.toNat % 32 ≠ IndefiniteLength := not_not.mpr hinfo
  rw [if_pos hlong, if_neg hinfo'] at hread
  by_cases hfixed : isFixedType (byte &&& MajorTypeMask) = false
  · rw [if_pos hfixed] at hread
    rw [← (Prod.mk.inj hread).2]
    exact ⟨rfl, hfixed, rfl⟩
  · rw [if_neg hfixed] at hread
    cases congrArg Prod.fst hread

theorem preparse_shape (hu : preparseValue u = (none, it)) :
    (∃ m n h t, Head m n h ∧ u.ptr = h ++ t) ∨
      ∃ byte t, u.ptr = byte :: t ∧ additionalInfo byte = Cbor.indefinite ∧
        isFixedType (majorType byte) = false := by
  obtain ⟨byte, rest, hptr⟩ := preparseValue_ok hu
  rw [preparseValue, hptr] at hu
  dsimp only at hu
  by_cases hlong : Value64Bit < byte.toNat % 32
  · rw [if_pos hlong] at hu
    by_cases hinfo : byte.toNat % 32 ≠ IndefiniteLength
    · rw [if_pos hinfo] at hu
      cases (Prod.mk.inj hu).1
    rw [if_neg hinfo] at hu
    by_cases hfixed : isFixedType (byte &&& MajorTypeMask) = false
    · exact Or.inr ⟨byte, rest, hptr, not_not.mp hinfo, hfixed⟩
    · rw [if_neg hfixed] at hu
      cases (Prod.mk.inj hu).1
  rw [if_neg hlong] at hu
  by_cases hshort : rest.length < bytesNeeded (byte.toNat % 32)
  · rw [if_pos hshort] at hu
    cases (Prod.mk.inj hu).1
  have hlen : (rest.take (bytesNeeded (byte.toNat % 32))).length =
      Cbor.argumentLength (additionalInfo byte) := by
    rw [List.length_take, Nat.min_eq_left (Nat.not_lt.mp hshort)]
    rfl
  refine Or.inl ⟨_, _, _, rest.drop (bytesNeeded (byte.toNat % 32)),
    Head.mk byte _ (Nat.lt_succ_of_le (Nat.not_lt.mp hlong)) hlen, ?_⟩
  rw [hptr, List.cons_append, List.take_append_drop]

/-- A string or a container is at its head or, without its length, at its first byte. -/
theorem primed_long (hit : preparseValue it = (none, it)) (htype : isFixedType it.type = false) :
    (∃ n h t, Head it.type n h ∧ it.ptr = h ++ t ∧ it.unknownLength = false ∧
      it.extractInt64 = n) ∨
    ∃ byte t, it.ptr = byte :: t ∧ majorType byte = it.type ∧
      additionalInfo byte = Cbor.indefinite ∧ it.unknownLength = true := by
  rcases preparse_shape hit with ⟨m, n, h, t, hh, hptr⟩ | ⟨byte, t, hptr, hinfo, hfixed⟩
  · left
    have hsimple : m ≠ CborSimpleType := by
      rintro rfl
      rw [(primed_simple hit hptr hh).1] at htype
      cases htype
    obtain ⟨ht, hn, -, hunknown⟩ := primed_head hit hptr hh hsimple
    have hnegative : m ≠ NegativeInteger := by
      rintro rfl
      rw [ht, if_pos rfl] at htype
      cases htype
    rw [if_neg hnegative] at ht
    exact ⟨n, h, t, ht ▸ hh, hptr, hunknown, hn⟩
  · right
    obtain ⟨ht, -, hunknown⟩ := primed_indefinite hit hptr hinfo
    exact ⟨byte, t, hptr, ht.symm, hinfo, hunknown⟩

/-- A tag, or all of a number or a simple value. -/
theorem primed_fixed (hit : preparseValue it = (none, it)) (htype : isFixedType it.type = true) :
    ∃ m n h t, Head m n h ∧ it.ptr = h ++ t ∧
      ((it.type = CborTagType ∧ m = CborTagType ∧ it.extractInt64 = n) ∨
        it.type ≠ CborTagType ∧ it.type ≠ CborInvalidType ∧ ∀ fits d, Item fits d h) := by
  rcases preparse_shape hit with ⟨m, n, h, t, hh, hptr⟩ | ⟨byte, t, hptr, hinfo, hfixed⟩
  · refine ⟨m, n, h, t, hh, hptr, ?_⟩
    by_cases hsimple : m = CborSimpleType
    · subst hsimple
      obtain ⟨-, hother, hn⟩ := primed_simple hit hptr hh
      simp only [List.mem_cons, List.not_mem_nil, or_false, not_or] at hother
      exact Or.inr ⟨hother.1, hother.2.1, fun _ _ => .simple hh hn⟩
    obtain ⟨ht, hn, -, -⟩ := primed_head hit hptr hh hsimple
    have hm := hh.major_mem
    simp only [List.mem_cons, List.not_mem_nil, or_false] at hm
    rcases hm with rfl | rfl | rfl | rfl | rfl | rfl | rfl | rfl
    · exact Or.inr ⟨by rw [ht]; decide, by rw [ht]; decide, fun _ _ => .number (.inl rfl) hh⟩
    · exact Or.inr ⟨by rw [ht]; decide, by rw [ht]; decide, fun _ _ => .number (.inr rfl) hh⟩
    iterate 4
      · rw [ht] at htype
        exact absurd htype (by decide)
    · exact Or.inl ⟨ht, rfl, hn⟩
    · exact absurd rfl hsimple
  · obtain ⟨-, hlong, -⟩ := primed_indefinite hit hptr hinfo
    rw [hlong] at htype
    cases htype

theorem primed_type {b : Bytes} {p : ℕ → Prop} (hit : preparseValue it = (none, it))
    (hb : Cbor.Begins m p b) (hptr : it.ptr = b ++ t) (hm : m ≠ CborSimpleType) :
    it.type = if m = NegativeInteger then CborIntegerType else m := by
  have hbegins : Cbor.Begins m (fun _ => True) it.ptr := by
    rw [hptr]
    exact (hb.weaken fun _ _ => trivial).append t
  have hb' (byte : UInt8) : Cbor.Begins (majorType byte) (fun _ => True) [byte] :=
    ⟨byte, [], rfl, rfl, trivial⟩
  rcases preparse_shape hit with ⟨m', n, h, t', hh, hptr'⟩ | ⟨byte, t', hptr', hinfo, hlong⟩
  · obtain ⟨rfl, -⟩ := hbegins.agree hh.begins ((List.append_nil _).trans hptr')
    exact (primed_head hit hptr' hh hm).1
  · obtain ⟨rfl, -⟩ := hbegins.agree (hb' byte) ((List.append_nil _).trans hptr')
    have hnegative : majorType byte ≠ NegativeInteger := by
      intro hnegative
      rw [hnegative] at hlong
      exact absurd hlong (by decide)
    rw [if_neg hnegative]
    exact (primed_indefinite hit hptr' hinfo).1

/-- The type of a floating point number is its first byte. -/
theorem primed_float {byte : UInt8} {rest : Bytes} (hit : preparseValue it = (none, it))
    (hptr : it.ptr = byte :: rest)
    (htype : it.type ∈ [CborHalfFloatType, CborFloatType, CborDoubleType]) : it.type = byte := by
  have hnot : ∀ {type : UInt8}, it.type = type →
      type ∉ [CborHalfFloatType, CborFloatType, CborDoubleType] → False := by
    intro type h hmem
    rw [h] at htype
    exact hmem htype
  rcases preparse_shape hit with ⟨m, n, h, t, hh, hptr'⟩ | ⟨byte', t, hptr', hinfo, hlong⟩
  · have hmajors := hh.major_mem
    cases hh with
    | mk byte' argument hinfo hlen =>
      obtain ⟨rfl, -⟩ := List.cons.inj (hptr.symm.trans hptr')
      by_cases hsimple : majorType byte = CborSimpleType
      · obtain ⟨v, hv, hread⟩ := preparse_simple hit hptr hsimple hinfo
        have hmem := preparseSimple_type hv hread
        simp only [List.mem_cons, List.not_mem_nil, or_false] at hmem
        rcases hmem with h | h | h
        · exact (hnot h (by decide)).elim
        · exact (hnot h (by decide)).elim
        · exact h
      · have hread := (primed_head hit hptr' (Head.mk byte argument hinfo hlen) hsimple).1
        generalize majorType byte = m at hread hmajors
        refine (hnot hread ?_).elim
        simp only [List.mem_cons, List.not_mem_nil, or_false] at hmajors
        rcases hmajors with rfl | rfl | rfl | rfl | rfl | rfl | rfl | rfl <;> decide
  · obtain ⟨hread, hlong', -⟩ := primed_indefinite hit hptr' hinfo
    simp only [List.mem_cons, List.not_mem_nil, or_false] at htype
    rcases htype with h | h | h <;> rw [h] at hlong' <;> exact absurd hlong' (by decide)

theorem primed_same_head (hit : preparseValue it = (none, it))
    (hit' : preparseValue it' = (none, it')) (hh : Head m n h) (hptr : it.ptr = h ++ t)
    (hptr' : it'.ptr = h ++ t') : it.reading = it'.reading := by
  cases hh with
  | mk byte argument hinfo hlen =>
    rw [List.cons_append] at hptr hptr'
    have hneeded : argument.length = bytesNeeded (byte.toNat % 32) := hlen
    have hsame := (preparseValue_congr hptr hptr' fun _ => by
      rw [List.take_left' hneeded, List.take_left' hneeded]).2
    rwa [hit, hit'] at hsame

theorem primed_same {b : Bytes} (hit : preparseValue it = (none, it))
    (hit' : preparseValue it' = (none, it')) (hptr : it.ptr = b ++ t) (hptr' : it'.ptr = b ++ t')
    (hb : WellFormed b) : it.reading = it'.reading := by
  obtain ⟨d, hd⟩ := hb
  rcases hd.front with ⟨m, n, head, u, hh, rfl⟩ | ⟨start, u, rfl, hinfo⟩
  · rw [List.append_assoc] at hptr hptr'
    exact primed_same_head hit hit' hh hptr hptr'
  · have hsame := (preparseValue_congr hptr hptr' fun hlt => by
      rw [show start.toNat % 32 = 31 from hinfo] at hlt
      exact absurd hlt (by decide)).2
    rwa [hit, hit'] at hsame

theorem getLength_same {b : Bytes} (hit : preparseValue it = (none, it))
    (hit' : preparseValue it' = (none, it')) (hptr : it.ptr = b ++ t) (hptr' : it'.ptr = b ++ t')
    (hb : WellFormed b) (hlong : isFixedType it.type = false) : it.getLength = it'.getLength := by
  have hsame := primed_same hit hit' hptr hptr' hb
  have hunknown : it.unknownLength = it'.unknownLength := congrArg Reading.unknownLength hsame
  obtain ⟨d, hd⟩ := hb
  rcases hd.front with ⟨m, n, head, u, hh, rfl⟩ | ⟨start, u, rfl, hinfo⟩
  · rw [List.append_assoc] at hptr hptr'
    have hsimple : m ≠ CborSimpleType := by
      rintro rfl
      rw [(primed_simple hit hptr hh).1] at hlong
      cases hlong
    rw [CborValue.getLength, CborValue.getLength, hunknown, (primed_head hit hptr hh hsimple).2.1,
      (primed_head hit' hptr' hh hsimple).2.1]
  · rw [CborValue.getLength, CborValue.getLength, (primed_indefinite hit hptr hinfo).2.2,
      (primed_indefinite hit' hptr' hinfo).2.2]
    rfl

theorem preparse_head (hh : Head m n h) (hn : m = CborSimpleType → h.length = 2 → 32 ≤ n)
    (hptr : u.ptr = h ++ t) : (preparseValue u).1 = none := by
  cases hh with
  | mk byte argument hinfo hlen =>
    have hlong : ¬ Value64Bit < byte.toNat % 32 := Nat.not_lt.mpr (Nat.le_of_lt_succ hinfo)
    have hrest : ¬ (argument ++ t).length < bytesNeeded (byte.toNat % 32) := by
      have hneeded : argument.length = bytesNeeded (byte.toNat % 32) := hlen
      rw [List.length_append, hneeded]
      omega
    rw [preparseValue, hptr, List.cons_append]
    dsimp only
    rw [if_neg hlong, if_neg hrest]
    by_cases hsimple : byte &&& MajorTypeMask = CborSimpleType
    · rw [if_pos hsimple]
      simp only [preparseSimple]
      split_ifs with _ _ _ h8 hextra
      iterate 3 rfl
      · have hone : argument.length = 1 := by
          have hlen' : argument.length = bytesNeeded (byte.toNat % 32) := hlen
          rw [hlen', h8]
          rfl
        have hle := hn hsimple (congrArg (· + 1) hone)
        have hsmall : ¬ additionalInfo byte < 24 := Nat.not_lt.mpr (Nat.le_of_eq h8.symm)
        have hbound := bigEndian_lt argument
        rw [Cbor.argumentValue_large hsmall] at hle
        rw [List.take_left' hone, UInt16.lt_iff_toNat_lt, UInt16.toNat_ofNat'] at hextra
        rw [hone] at hbound
        have hle' : 32 ≤ bigEndian argument := hle
        have hextra' : bigEndian argument % 2 ^ 16 < 32 := hextra
        omega
      iterate 2 rfl
    · rw [if_neg hsimple]
      split_ifs <;> rfl

theorem preparse_indefinite {byte : UInt8} (hptr : u.ptr = byte :: t)
    (hinfo : additionalInfo byte = Cbor.indefinite) (hlong : isFixedType (majorType byte) = false) :
    (preparseValue u).1 = none := by
  have hinfo' : byte.toNat % 32 = IndefiniteLength := hinfo
  have hlong' : isFixedType (byte &&& MajorTypeMask) = false := hlong
  rw [preparseValue, hptr]
  dsimp only
  rw [if_pos (by rw [hinfo']; decide), if_neg (not_not.mpr hinfo'), if_pos hlong']

theorem preparse_item {fits : UInt8 → ℕ → Prop} {d : ℕ} {b : Bytes} (hb : Item fits d b)
    (hptr : u.ptr = b ++ t) : (preparseValue u).1 = none := by
  cases hb with
  | number hm hh =>
    refine preparse_head hh ?_ hptr
    rintro rfl
    rcases hm with hm | hm <;> exact absurd hm (by decide)
  | string hm hs =>
    cases hs with
    | known hh hlen =>
      rw [List.append_assoc] at hptr
      refine preparse_head hh ?_ hptr
      rintro rfl
      rcases hm with hm | hm <;> exact absurd hm (by decide)
    | chunks cs hmajor hinfo hcs =>
      refine preparse_indefinite hptr hinfo ?_
      rw [hmajor]
      rcases hm with rfl | rfl <;> rfl
  | container hm he _ =>
    cases he with
    | counted hh hn hlen =>
      rw [List.append_assoc] at hptr
      refine preparse_head hh ?_ hptr
      rintro rfl
      rcases hm with hm | hm <;> exact absurd hm (by decide)
    | uncounted hmajor hinfo heven =>
      refine preparse_indefinite hptr hinfo ?_
      rw [hmajor]
      rcases hm with rfl | rfl <;> rfl
  | tagged hh _ =>
    rw [List.append_assoc] at hptr
    exact preparse_head hh (fun h => absurd h (by decide)) hptr
  | simple hh hn => exact preparse_head hh (fun _ => hn) hptr

end Readings

end TinyCbor
