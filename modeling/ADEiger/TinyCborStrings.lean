import ADEiger.TinyCborItems

/-! How tinycbor's cursor moves over a number, a tag and a string. -/
namespace TinyCbor

open Cbor (Head Str Encloses Item WellFormed majorType additionalInfo)

variable {it it' next last : CborValue} {m : UInt8} {n d : ℕ} {h b t t' : Bytes}
  {bs : List Bytes}

/-- No function that reads a head fails an assertion. -/
theorem preparseValue_total (it : CborValue) : (preparseValue it).1 ≠ some .aborted := by
  have hsimple (it : CborValue) (byte : UInt8) (descriptor : ℕ) (rest : Bytes) :
      (preparseSimple it byte descriptor rest).1 ≠ some .aborted := by
    simp only [preparseSimple]
    split_ifs <;> exact fun h => by cases h
  simp only [preparseValue]
  split
  · exact fun h => by cases h
  · split_ifs
    all_goals first | exact hsimple _ _ _ _ | exact fun h => by cases h

theorem preparseNextValueNodecrement_total (it : CborValue) :
    (preparseNextValueNodecrement it).1 ≠ some .aborted := by
  rw [preparseNextValueNodecrement]
  split_ifs
  · exact fun h => by cases h
  · exact fun h => by cases h
  · exact preparseValue_total it

theorem preparseNextValue_total (it : CborValue) : (preparseNextValue it).1 ≠ some .aborted := by
  rw [preparseNextValue]
  split_ifs with htag
  · exact preparseNextValueNodecrement_total it
  · dsimp only
    split_ifs
    · exact fun h => by cases h
    · exact preparseNextValueNodecrement_total _

theorem Moved.check_total {r : Moved} (h : r.1 ≠ some .aborted) : r.check ≠ .error .aborted := by
  obtain ⟨err, it⟩ := r
  cases err with
  | none => exact fun hr => by cases hr
  | some err => exact fun hr => h (congrArg some (Except.error.inj hr))

section Fixed

theorem advanceInternal_head (hh : Head m n h) (hptr : it.ptr = h ++ t) :
    advanceInternal it = (preparseNextValue { it with ptr := t }).check := by
  rw [advanceInternal, hptr, extractNumber_head hh]

theorem advanceInternal_follows (hit : Primed it) (hh : Head m n h) (hptr : it.ptr = h ++ t)
    (htype : it.type ≠ CborTagType) (hnext : Follows it t next) :
    ∃ it', advanceInternal it = .ok it' ∧ Follows it t it' := by
  obtain ⟨it', hmoved, hfollows⟩ :=
    hnext.moves (u := { it with ptr := t }) hit.counted htype rfl rfl
  exact ⟨it', by rw [advanceInternal_head hh hptr, hmoved]; rfl, hfollows⟩

theorem advanceInternal_item {fits : UInt8 → ℕ → Prop} (hit : Primed it)
    (hfixed : isFixedType it.type = true) (htype : it.type ≠ CborTagType)
    (h : advanceInternal it = .ok it') :
    ∃ b t, it.ptr = b ++ t ∧ Item fits d b ∧ Follows it t it' := by
  obtain ⟨m, n, head, t, hh, hptr, ⟨htag, -, -⟩ | ⟨-, -, hitem⟩⟩ := primed_fixed hit.read hfixed
  · exact absurd htag htype
  · rw [advanceInternal_head hh hptr] at h
    exact ⟨head, t, hptr, hitem _ _,
      preparseNextValue_follows (u := { it with ptr := t }) htype hit.counted rfl
        (Moved.check_ok h)⟩

/-- The cursor is at what the tag belongs to; a tag is not counted. -/
structure Untagged (it : CborValue) (t : Bytes) (it' : CborValue) : Prop where
  primed : Primed it'
  ptr : it'.ptr = t
  place : it'.place = it.place

theorem Follows.of_place (hnext : Follows it t next) (hplace : it'.place = it.place) :
    Follows it' t next := by
  have hremaining : it'.remaining = it.remaining := congrArg Place.remaining hplace
  have hmap : it'.containerIsMap = it.containerIsMap := congrArg Place.containerIsMap hplace
  have hkey : it'.nextIsMapKey = it.nextIsMapKey := congrArg Place.nextIsMapKey hplace
  cases hnext with
  | last hone hended hlast => exact .last (hremaining.trans hone) hended hlast
  | broken hmax hbreak ht hended =>
    rw [← hmap, ← hkey] at hbreak
    exact .broken (hremaining.trans hmax) hbreak ht hended
  | item hbreak hprimed hitem hplace' =>
    rw [← hremaining] at hbreak
    rw [← hplace] at hplace'
    exact .item hbreak hprimed hitem hplace'

theorem Untagged.follows (h : Untagged it t it') : Follows it' t' next ↔ Follows it t' next :=
  ⟨fun hnext => hnext.of_place h.place.symm, fun hnext => hnext.of_place h.place⟩

theorem advanceInternal_tag (hit : Primed it) (htype : it.type = CborTagType)
    (h : advanceInternal it = .ok it') : ∃ n head t, Head Cbor.tag n head ∧ it.ptr = head ++ t ∧
      it.extractInt64 = n ∧ Untagged it t it' := by
  have hfixed : isFixedType it.type = true := by
    rw [htype]
    rfl
  obtain ⟨m, n, head, t, hh, hptr, ⟨-, rfl, hn⟩ | ⟨htag, -, -⟩⟩ := primed_fixed hit.read hfixed
  · rw [advanceInternal_head hh hptr] at h
    have hmoved := Moved.check_ok h
    rw [preparseNextValue, if_pos htype, preparseNextValueNodecrement] at hmoved
    split_ifs at hmoved with hbreak htag
    · cases (Prod.mk.inj hmoved).1
    · exact absurd (by rw [htype]; exact Bool.or_true _) htag
    · obtain ⟨hprimed, hptr', hplace⟩ := primed_of_preparse hmoved hit.counted
      exact ⟨n, head, t, hh, hptr, hn, hprimed, hptr', hplace⟩
  · exact absurd htype htag

theorem advanceInternal_untag (hit : Primed it) (htype : it.type = CborTagType)
    (hh : Head Cbor.tag n h) (hptr : it.ptr = h ++ (b ++ t)) (hb : WellFormed b) :
    ∃ it', advanceInternal it = .ok it' ∧ Untagged it (b ++ t) it' := by
  obtain ⟨d, hd⟩ := hb
  have hnobreak : ¬ (it.remaining = UINT32_MAX ∧ (b ++ t).head? = some BreakByte) := by
    rintro ⟨-, hhead⟩
    obtain ⟨tail, htail⟩ := List.head?_eq_some_iff.mp hhead
    exact hd.ne_break _ _ htail
  have hread : preparseValue { it with ptr := b ++ t } =
      (none, (preparseValue { it with ptr := b ++ t }).2) := Prod.ext (preparse_item hd rfl) rfl
  obtain ⟨hprimed, hptr', hplace⟩ := primed_of_preparse hread hit.counted
  refine ⟨(preparseValue { it with ptr := b ++ t }).2, ?_, hprimed, hptr', hplace⟩
  rw [advanceInternal_head hh hptr, preparseNextValue, if_pos htype, preparseNextValueNodecrement,
    if_neg hnobreak, hread]
  rfl

theorem advanceInternal_total (hit : Primed it) (hfixed : isFixedType it.type = true) :
    advanceInternal it ≠ .error .aborted := by
  obtain ⟨m, n, head, t, hh, hptr, -⟩ := primed_fixed hit.read hfixed
  rw [advanceInternal_head hh hptr]
  exact Moved.check_total (preparseNextValue_total _)

theorem primed_valid (hit : Primed it) : it.type ≠ CborInvalidType := by
  by_cases hfixed : isFixedType it.type = true
  · obtain ⟨m, n, head, t, hh, hptr, ⟨htag, -, -⟩ | ⟨-, hvalid, -⟩⟩ := primed_fixed hit.read hfixed
    · rw [htag]
      decide
    · exact hvalid
  · intro hinvalid
    rw [hinvalid] at hfixed
    exact hfixed rfl

theorem advanceFixed_eq (hit : Primed it) (hfixed : isFixedType it.type = true) :
    advanceFixed it = advanceInternal it := by
  have hbad : ¬ (it.type = CborInvalidType ∨ isFixedType it.type = false) := by
    rw [hfixed, not_or]
    exact ⟨primed_valid hit, by decide⟩
  rw [advanceFixed, if_neg hbad, if_neg (Nat.ne_of_gt hit.counted.1)]

end Fixed

section Strings

variable {c : CborValue} {text : Bytes} {cs : List (Bytes × Bytes)}

theorem lastChunk_follows {chunk : Option Bytes} (htype : c.type ≠ CborTagType)
    (hcount : 0 < it.remaining ∧ it.remaining ≤ UINT32_MAX) (hplace : c.place = it.place)
    (h : lastChunk c = (.ok chunk, it')) : chunk = none ∧ Follows it c.ptr it' := by
  rw [lastChunk] at h
  rcases hp : preparseNextValue c with ⟨_ | err, next⟩
  · rw [hp] at h
    obtain ⟨hnone, rfl⟩ := Prod.mk.inj h
    exact ⟨(Except.ok.inj hnone).symm, preparseNextValue_follows htype hcount hplace hp⟩
  · rw [hp] at h
    cases (Prod.mk.inj h).1

theorem Follows.lastChunk (hnext : Follows it t next)
    (hcount : 0 < it.remaining ∧ it.remaining ≤ UINT32_MAX) (htype : c.type ≠ CborTagType)
    (hptr : c.ptr = t) (hplace : c.place = it.place) :
    ∃ it', lastChunk c = (.ok none, it') ∧ Follows it t it' := by
  obtain ⟨it', hmoved, hfollows⟩ := hnext.moves hcount htype hptr hplace
  exact ⟨it', by rw [TinyCbor.lastChunk, hmoved], hfollows⟩

/-- In the middle of a string that comes in chunks. -/
structure Chunking (it c : CborValue) : Prop where
  mode : c.iteratingStringChunks = true
  unknown : c.unknownLength = true
  type : c.type = it.type
  place : c.place = it.place

theorem Chunking.getStringChunk (hc : Chunking it c) : getStringChunk c = nextChunk c := by
  rw [TinyCbor.getStringChunk, prepareStringIteration, hc.mode, hc.unknown]
  rfl

theorem nextChunk_head {content : Bytes} (hh : Head c.type content.length h)
    (hptr : c.ptr = h ++ (content ++ t)) : nextChunk c =
      (.ok (some content), { c with ptr := t, iteratingStringChunks := true }) := by
  have hnumber := extractNumber_head hh (content ++ t)
  obtain ⟨byte, u, rfl, hmajor, -⟩ := hh.begins
  have hbreak : byte ≠ BreakByte := by
    rintro rfl
    exact hh.ne_indefinite (by decide) [] u (List.append_nil _)
  have hmajor' : byte &&& MajorTypeMask = c.type := hmajor
  have hlen : ¬ (content ++ t).length < content.length := by
    rw [List.length_append]
    omega
  rw [nextChunk, hptr, List.cons_append]
  rw [List.cons_append] at hnumber
  simp only [if_neg hbreak, if_pos hmajor', hnumber, if_neg hlen, List.take_left, List.drop_left]

theorem nextChunk_inv {content : Bytes} {c' : CborValue}
    (h : nextChunk c = (.ok (some content), c')) : ∃ head t, Head c.type content.length head ∧
      c.ptr = head ++ (content ++ t) ∧ c' = { c with ptr := t, iteratingStringChunks := true } := by
  rw [nextChunk] at h
  cases hptr : c.ptr with
  | nil =>
    rw [hptr] at h
    cases (Prod.mk.inj h).1
  | cons byte rest =>
    simp only [hptr] at h
    by_cases hbreak : byte = BreakByte
    · rw [if_pos hbreak] at h
      cases (lastChunk_fresh h).2
    rw [if_neg hbreak] at h
    by_cases hmajor : byte &&& MajorTypeMask = c.type
    · rw [if_pos hmajor] at h
      rcases hn : extractNumber (byte :: rest) with ⟨err | len, ptr⟩
      · rw [hn] at h
        cases (Prod.mk.inj h).1
      · simp only [hn] at h
        obtain ⟨head, hhead, hbytes⟩ := extractNumber_inv hn
        by_cases hshort : ptr.length < len
        · rw [if_pos hshort] at h
          cases (Prod.mk.inj h).1
        · rw [if_neg hshort] at h
          obtain ⟨hcontent, rfl⟩ := Prod.mk.inj h
          obtain rfl := Option.some.inj (Except.ok.inj hcontent)
          have hhead' : Head c.type len head := hmajor ▸ hhead
          refine ⟨head, ptr.drop len, ?_, ?_, rfl⟩
          · rwa [List.length_take, Nat.min_eq_left (Nat.not_lt.mp hshort)]
          · rw [List.take_append_drop]
            exact hbytes
    · rw [if_neg hmajor] at h
      cases (Prod.mk.inj h).1

theorem nextChunk_end (htype : c.type ≠ CborTagType)
    (hcount : 0 < it.remaining ∧ it.remaining ≤ UINT32_MAX) (hplace : c.place = it.place)
    (h : nextChunk c = (.ok none, it')) : ∃ t, c.ptr = BreakByte :: t ∧ Follows it t it' := by
  rw [nextChunk] at h
  cases hptr : c.ptr with
  | nil =>
    rw [hptr] at h
    cases (Prod.mk.inj h).1
  | cons byte rest =>
    simp only [hptr] at h
    by_cases hbreak : byte = BreakByte
    · rw [if_pos hbreak] at h
      exact ⟨rest, by rw [hbreak], (lastChunk_follows (c := { c with ptr := rest }) htype hcount
        hplace h).2⟩
    rw [if_neg hbreak] at h
    by_cases hmajor : byte &&& MajorTypeMask = c.type
    · rw [if_pos hmajor] at h
      rcases hn : extractNumber (byte :: rest) with ⟨err | len, ptr⟩ <;> simp only [hn] at h
      · cases (Prod.mk.inj h).1
      · split_ifs at h
        · cases (Prod.mk.inj h).1
        · cases Except.ok.inj (Prod.mk.inj h).1
    · rw [if_neg hmajor] at h
      cases (Prod.mk.inj h).1

/-- The chunks of a string and the break behind them. -/
def chunkBytes (cs : List (Bytes × Bytes)) : Bytes := (cs.map fun x => x.1 ++ x.2).flatten

theorem stringChunks_sound (hc : Chunking it c) (htype : it.type ≠ CborTagType)
    (hcount : 0 < it.remaining ∧ it.remaining ≤ UINT32_MAX)
    (h : stringChunks n c = (.ok text, it')) :
    ∃ (cs : List (Bytes × Bytes)) (t : Bytes), (∀ x ∈ cs, Head it.type x.2.length x.1) ∧
      c.ptr = chunkBytes cs ++ BreakByte :: t ∧ text = (cs.map (·.2)).flatten ∧
      Follows it t it' := by
  induction n generalizing c text with
  | zero => cases (Prod.mk.inj h).1
  | succ n ih =>
    rw [stringChunks, hc.getStringChunk] at h
    rcases hnext : nextChunk c with ⟨err | _ | content, c'⟩ <;> rw [hnext] at h
    · cases (Prod.mk.inj h).1
    · obtain ⟨htext, rfl⟩ := Prod.mk.inj h
      have htype' : c.type ≠ CborTagType := by
        rw [hc.type]
        exact htype
      obtain ⟨t, hptr, hfollows⟩ := nextChunk_end htype' hcount hc.place hnext
      exact ⟨[], t, List.forall_mem_nil _, hptr, (Except.ok.inj htext).symm, hfollows⟩
    · obtain ⟨head, t, hhead, hptr, rfl⟩ := nextChunk_inv hnext
      dsimp only at h
      rcases hs : stringChunks n { c with ptr := t, iteratingStringChunks := true } with
        ⟨err | more, moved⟩ <;> rw [hs] at h
      · cases (Prod.mk.inj h).1
      · obtain ⟨htext, rfl⟩ := Prod.mk.inj h
        have hc' : Chunking it { c with ptr := t, iteratingStringChunks := true } :=
          ⟨rfl, hc.unknown, hc.type, hc.place⟩
        obtain ⟨cs, t', hcs, hrest, rfl, hfollows⟩ := ih hc' hs
        have hrest' : t = _ := hrest
        rw [hc.type] at hhead
        refine ⟨(head, content) :: cs, t', List.forall_mem_cons.mpr ⟨hhead, hcs⟩, ?_,
          (Except.ok.inj htext).symm, hfollows⟩
        rw [hptr, hrest', chunkBytes, chunkBytes, List.map_cons, List.flatten_cons]
        simp only [List.append_assoc]

theorem stringChunks_complete (hc : Chunking it c) (htype : it.type ≠ CborTagType)
    (hcount : 0 < it.remaining ∧ it.remaining ≤ UINT32_MAX)
    (hcs : ∀ x ∈ cs, Head it.type x.2.length x.1)
    (hptr : c.ptr = chunkBytes cs ++ BreakByte :: t) (hnext : Follows it t next)
    (hn : c.ptr.length < n) :
    ∃ it', stringChunks n c = (.ok (cs.map (·.2)).flatten, it') ∧ Follows it t it' := by
  obtain ⟨n, rfl⟩ := Nat.exists_eq_succ_of_ne_zero (Nat.ne_zero_of_lt hn)
  induction cs generalizing c n with
  | nil =>
    have htype' : c.type ≠ CborTagType := by
      rw [hc.type]
      exact htype
    obtain ⟨it', hlast, hfollows⟩ :=
      hnext.lastChunk (c := { c with ptr := t }) hcount htype' rfl hc.place
    have hptr' : c.ptr = BreakByte :: t := hptr
    refine ⟨it', ?_, hfollows⟩
    rw [stringChunks, hc.getStringChunk, nextChunk, hptr']
    dsimp only
    rw [if_pos rfl, hlast]
    rfl
  | cons x cs ih =>
    obtain ⟨hx, hcs⟩ := List.forall_mem_cons.mp hcs
    have hptr' : c.ptr = x.1 ++ (x.2 ++ (chunkBytes cs ++ BreakByte :: t)) := by
      rw [hptr, chunkBytes, List.map_cons, List.flatten_cons]
      simp only [List.append_assoc]
      rfl
    rw [← hc.type] at hx
    have hstep := nextChunk_head hx hptr'
    have hc' : Chunking it { c with ptr := chunkBytes cs ++ BreakByte :: t
                                    iteratingStringChunks := true } :=
      ⟨rfl, hc.unknown, hc.type, hc.place⟩
    have hshorter := (getStringChunk_ok (hc.getStringChunk.trans hstep)).1 (Option.some_ne_none _)
    have hlt : (chunkBytes cs ++ BreakByte :: t).length < n :=
      Nat.lt_of_lt_of_le hshorter (Nat.le_of_lt_succ hn)
    obtain ⟨n, rfl⟩ := Nat.exists_eq_succ_of_ne_zero (Nat.ne_zero_of_lt hlt)
    obtain ⟨it', hmore, hfollows⟩ := ih hc' hcs rfl n hlt
    refine ⟨it', ?_, hfollows⟩
    rw [stringChunks, hc.getStringChunk, hstep]
    dsimp only
    rw [hmore]
    rfl

theorem getStringChunk_first (hmode : c.iteratingStringChunks = false)
    (hknown : c.unknownLength = false) : getStringChunk c = nextChunk c := by
  rw [getStringChunk, prepareStringIteration, hmode, hknown]
  rfl

theorem getStringChunk_last (hmode : c.iteratingStringChunks = true)
    (hknown : c.unknownLength = false) : getStringChunk c = lastChunk c := by
  rw [getStringChunk, hmode, hknown]
  rfl

/-- In the string behind its first byte. -/
def atChunks (it : CborValue) : CborValue :=
  { it with ptr := it.ptr.tail, iteratingStringChunks := true }

theorem copyString_chunks (hmode : it.iteratingStringChunks = false)
    (hunknown : it.unknownLength = true) :
    Chunking it (atChunks it) ∧
      copyString it = stringChunks (it.ptr.length + 1) (atChunks it) := by
  have hc : Chunking it (atChunks it) := ⟨rfl, hunknown, rfl, rfl⟩
  have hstart : getStringChunk it = getStringChunk (atChunks it) := by
    rw [hc.getStringChunk, getStringChunk, prepareStringIteration,
      if_neg (by rw [hmode]; exact Bool.false_ne_true), if_pos (by rw [hmode, hunknown]; rfl)]
    rfl
  exact ⟨hc, by rw [copyString, stringChunks, stringChunks, hstart]⟩

theorem primed_mode (hit : Primed it) (htype : isFixedType it.type = false) :
    it.iteratingStringChunks = false :=
  (preparseValue_fresh hit.read htype).1

def IsString (type : UInt8) : Prop := type = CborTextStringType ∨ type = CborByteStringType

theorem IsString.long {type : UInt8} (h : IsString type) :
    isFixedType type = false ∧ type ≠ CborTagType := by
  rcases h with rfl | rfl <;> decide

theorem copyString_sound (hit : Primed it) (htype : IsString it.type)
    (h : copyString it = (.ok text, it')) :
    ∃ b t, Str it.type text b ∧ it.ptr = b ++ t ∧ Follows it t it' := by
  obtain ⟨hlong, htag⟩ := htype.long
  have hmode := primed_mode hit hlong
  rcases primed_long hit.read hlong with ⟨n, head, t, hh, hptr, hknown, -⟩ |
    ⟨byte, rest, hptr, hmajor, hinfo, hunknown⟩
  · rw [copyString, stringChunks, getStringChunk_first hmode hknown] at h
    rcases hfirst : nextChunk it with ⟨err | _ | content, c⟩ <;> rw [hfirst] at h
    · cases (Prod.mk.inj h).1
    · obtain ⟨t', hptr', -⟩ := nextChunk_end htag hit.counted rfl hfirst
      exact absurd (hptr.symm.trans hptr') (hh.ne_indefinite (by decide) _ _)
    · obtain ⟨head', t', hh', hptr', rfl⟩ := nextChunk_inv hfirst
      obtain ⟨k, hk⟩ : ∃ k, it.ptr.length = k + 1 := by
        obtain ⟨byte, u, hu⟩ := preparseValue_ok hit.read
        exact ⟨u.length, congrArg List.length hu⟩
      have hknown' : ({ it with ptr := t', iteratingStringChunks := true } :
        CborValue).unknownLength = false := hknown
      dsimp only at h
      rw [hk, stringChunks, getStringChunk_last rfl hknown'] at h
      rcases hl : lastChunk { it with ptr := t', iteratingStringChunks := true } with
        ⟨err | chunk, moved⟩
      · rw [hl] at h
        cases (Prod.mk.inj h).1
      · obtain ⟨rfl, hfollows⟩ := lastChunk_follows
          (c := { it with ptr := t', iteratingStringChunks := true }) htag hit.counted rfl hl
        rw [hl] at h
        obtain ⟨htext, rfl⟩ := Prod.mk.inj h
        rw [List.append_nil] at htext
        obtain rfl := Except.ok.inj htext
        exact ⟨head' ++ content, t', .known hh' rfl, by rw [hptr', List.append_assoc], hfollows⟩
  · obtain ⟨hc, hcopy⟩ := copyString_chunks hmode hunknown
    rw [hcopy] at h
    obtain ⟨cs, t, hcs, hbytes, rfl, hfollows⟩ := stringChunks_sound hc htag hit.counted h
    refine ⟨_, t, .chunks cs hmajor hinfo hcs, ?_, hfollows⟩
    have hrest : rest = chunkBytes cs ++ BreakByte :: t := by
      rw [← hbytes, atChunks, hptr]
      rfl
    rw [hptr, hrest, List.cons_append, List.append_assoc]
    rfl

theorem copyString_complete {content : Bytes} (hit : Primed it) (htype : IsString it.type)
    (hs : Str it.type content b) (hptr : it.ptr = b ++ t) (hnext : Follows it t next) :
    ∃ it', copyString it = (.ok content, it') ∧ Follows it t it' := by
  obtain ⟨hlong, htag⟩ := htype.long
  have hmode := primed_mode hit hlong
  generalize hm : it.type = m at hs
  cases hs with
  | @known n head content hh hlen =>
    have hsimple : m ≠ CborSimpleType := by
      rintro rfl
      rw [hm] at hlong
      exact absurd hlong (by decide)
    rw [List.append_assoc] at hptr
    have hknown := (primed_head hit.read hptr hh hsimple).2.2.2
    rw [← hm, ← hlen] at hh
    obtain ⟨k, hk⟩ : ∃ k, it.ptr.length = k + 1 := by
      obtain ⟨byte, u, hu⟩ := preparseValue_ok hit.read
      exact ⟨u.length, congrArg List.length hu⟩
    have hknown' : ({ it with ptr := t, iteratingStringChunks := true } :
      CborValue).unknownLength = false := hknown
    obtain ⟨it', hlast, hfollows⟩ := hnext.lastChunk
      (c := { it with ptr := t, iteratingStringChunks := true }) hit.counted htag rfl rfl
    refine ⟨it', ?_, hfollows⟩
    rw [copyString, stringChunks, getStringChunk_first hmode hknown, nextChunk_head hh hptr]
    dsimp only
    rw [hk, stringChunks, getStringChunk_last rfl hknown', hlast]
    dsimp only
    rw [List.append_nil]
  | @chunks start cs hmajor hinfo hcs =>
    have hunknown := (primed_indefinite hit.read hptr hinfo).2.2
    obtain ⟨hc, hcopy⟩ := copyString_chunks hmode hunknown
    rw [← hm] at hcs
    have hbytes : (atChunks it).ptr = chunkBytes cs ++ BreakByte :: t := by
      rw [atChunks, hptr, List.cons_append, List.tail_cons, List.append_assoc]
      rfl
    have hlt : (atChunks it).ptr.length < it.ptr.length + 1 := by
      rw [atChunks, List.length_tail]
      omega
    rw [hcopy]
    exact stringChunks_complete hc htag hit.counted hcs hbytes hnext hlt

theorem Before.copyString {content : Bytes} (h : Before it (b :: bs) t) (hs : Str m content b)
    (hm : IsString m) : it.type = m ∧
      ∃ it', copyString it = (.ok content, it') ∧ Before it' bs t := by
  obtain ⟨hit, rest, hptr, ⟨next, hnext⟩, hstep⟩ := h.step
  have htype : it.type = m := by
    rw [primed_type hit.read hs.begins hptr (by rcases hm with rfl | rfl <;> decide), if_neg]
    rcases hm with rfl | rfl <;> decide
  subst htype
  obtain ⟨it', hcopy, hfollows⟩ := copyString_complete hit hm hs hptr hnext
  exact ⟨rfl, it', hcopy, hstep it' hfollows⟩

theorem lastChunk_total (c : CborValue) : (lastChunk c).1 ≠ .error .aborted := by
  have hmoved := preparseNextValue_total c
  rw [lastChunk]
  rcases hp : preparseNextValue c with ⟨_ | err, next⟩
  · exact fun h => by cases h
  · rw [hp] at hmoved
    exact fun h => hmoved (congrArg some (Except.error.inj h))

theorem extractNumber_total (byte : UInt8) (rest : Bytes) :
    (extractNumber (byte :: rest)).1 ≠ .error .aborted := by
  rw [extractNumber]
  dsimp only
  split_ifs <;> exact fun h => by cases h

theorem nextChunk_total (c : CborValue) : (nextChunk c).1 ≠ .error .aborted := by
  rw [nextChunk]
  cases c.ptr with
  | nil => exact fun h => by cases h
  | cons byte rest =>
    dsimp only
    have hnumber := extractNumber_total byte rest
    split_ifs
    · exact lastChunk_total _
    · rcases hn : extractNumber (byte :: rest) with ⟨err | len, ptr⟩
      · rw [hn] at hnumber
        exact fun h => hnumber (congrArg Except.error (Except.error.inj h))
      · dsimp only
        split_ifs <;> exact fun h => by cases h
    · exact fun h => by cases h

theorem stringChunks_total (hn : c.ptr.length < n) :
    (stringChunks n c).1 ≠ .error .aborted := by
  induction n generalizing c with
  | zero => exact absurd hn (Nat.not_lt_zero _)
  | succ n ih =>
    have hchunk : (getStringChunk c).1 ≠ .error .aborted := by
      rw [getStringChunk]
      split_ifs
      · exact lastChunk_total c
      · exact nextChunk_total _
    rw [stringChunks]
    rcases hc : getStringChunk c with ⟨err | _ | content, c'⟩
    · rw [hc] at hchunk
      exact fun h => hchunk (congrArg Except.error (Except.error.inj h))
    · exact fun h => by cases h
    · have hlt := (getStringChunk_ok hc).1 (Option.some_ne_none _)
      have hrest := ih (Nat.lt_of_lt_of_le hlt (Nat.le_of_lt_succ hn))
      dsimp only
      rcases hs : stringChunks n c' with ⟨err | text, last⟩
      · rw [hs] at hrest
        exact hrest
      · exact fun h => by cases h

theorem copyString_total (it : CborValue) : (copyString it).1 ≠ .error .aborted :=
  stringChunks_total (Nat.lt_succ_self _)

end Strings

end TinyCbor
