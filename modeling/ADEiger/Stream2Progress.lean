import ADEiger.Stream2
import ADEiger.TinyCborProgress

/-! What reads a value moves the cursor on, never back, and leaves it before an item; the loop over
the entries of a map therefore ends by itself. -/
namespace Stream2

open CString (Text)
open TinyCbor
open Loop (whileLoop readMany)

variable {α μ : Type} {it it' next : CborValue} {n : ℕ}

theorem lift_ok {x : Except CborError α} {a : α} (h : lift x = .ok a) : x = .ok a := by
  cases x with
  | error err => cases h
  | ok b => exact congrArg Except.ok (Except.ok.inj h)

def Moves (it it' : CborValue) : Prop := it'.ptr.length ≤ it.ptr.length ∧ Fresh it'

theorem Moves.trans (h : Moves it next) (h' : Moves next it') : Moves it it' :=
  ⟨Nat.le_trans h'.1 h.1, h'.2⟩

def Reads (read : CborValue → Except Stream2Error (α × CborValue)) : Prop :=
  ∀ it a it', read it = .ok (a, it') → Moves it it'

theorem advanceFixed_moves (h : lift (advanceFixed it) = .ok it') : Moves it it' :=
  ⟨Nat.le_of_lt (advanceFixed_spec (lift_ok h)).1, (advanceFixed_spec (lift_ok h)).2⟩

theorem advance_moves (h : lift (advance it) = .ok it') : Moves it it' :=
  ⟨advance_advances.le (lift_ok h), advance_advances.fresh (lift_ok h)⟩

theorem enterContainer_moves (h : lift (enterContainer it) = .ok it') : Moves it it' :=
  ⟨enterContainer_le (lift_ok h), enterContainer_fresh (lift_ok h)⟩

/-- Whatever the cursor of the container was, the one inside it has moved. -/
theorem leaveContainer_moves {recursed : CborValue}
    (h : lift (leaveContainer it recursed) = .ok it')
    (hin : Moves next recursed) : Moves next it' :=
  ⟨Nat.le_trans (leaveContainer_spec (lift_ok h)).1 hin.1, (leaveContainer_spec (lift_ok h)).2⟩

theorem copyString_moves {text : Bytes} (h : copyString it = (.ok text, it')) : Moves it it' := by
  have hle : (copyString it).2.ptr.length ≤ it.ptr.length := stringChunks_length _ _
  rw [h] at hle
  exact ⟨hle, stringChunks_fresh h⟩

theorem parseTag_reads : Reads parseTag := by
  intro it a it' h
  rw [parseTag] at h
  obtain ⟨-, h⟩ := Loop.guard_ok h
  obtain ⟨next, hnext, h⟩ := Loop.bind_ok h
  obtain ⟨-, rfl⟩ := Prod.mk.inj (Except.ok.inj h)
  exact advanceFixed_moves hnext

theorem parseBool_reads : Reads parseBool := by
  intro it a it' h
  rw [parseBool] at h
  obtain ⟨-, h⟩ := Loop.guard_ok h
  obtain ⟨next, hnext, h⟩ := Loop.bind_ok h
  obtain ⟨-, rfl⟩ := Prod.mk.inj (Except.ok.inj h)
  exact advanceFixed_moves hnext

theorem parseDouble_reads : Reads parseDouble := by
  intro it a it' h
  obtain ⟨value, -, h⟩ := Loop.bind_ok h
  obtain ⟨next, hnext, h⟩ := Loop.bind_ok h
  obtain ⟨-, rfl⟩ := Prod.mk.inj (Except.ok.inj h)
  exact advanceFixed_moves hnext

theorem parseUint64_reads : Reads parseUint64 := by
  intro it a it' h
  rw [parseUint64] at h
  obtain ⟨-, h⟩ := Loop.guard_ok h
  obtain ⟨next, hnext, h⟩ := Loop.bind_ok h
  obtain ⟨-, rfl⟩ := Prod.mk.inj (Except.ok.inj h)
  exact advanceFixed_moves hnext

theorem parseTextString_reads : Reads parseTextString := by
  intro it a it' h
  rw [parseTextString] at h
  obtain ⟨-, h⟩ := Loop.guard_ok h
  rcases hs : copyString it with ⟨err | text, next⟩ <;> rw [hs] at h
  · cases h
  · obtain ⟨-, rfl⟩ := Prod.mk.inj (Except.ok.inj h)
    exact copyString_moves hs

theorem parseArray_reads {read : CborValue → Except Stream2Error (α × CborValue)}
    (hread : Reads read) : Reads (parseArray n read) := by
  intro it a it' h
  rw [parseArray] at h
  obtain ⟨-, h⟩ := Loop.guard_ok h
  obtain ⟨len, -, h⟩ := Loop.bind_ok h
  obtain ⟨-, h⟩ := Loop.guard_ok h
  obtain ⟨elt, henter, h⟩ := Loop.bind_ok h
  obtain ⟨⟨value, elt'⟩, hvalue, h⟩ := Loop.bind_ok h
  obtain ⟨last, hleave, h⟩ := Loop.bind_ok h
  obtain ⟨-, rfl⟩ := Prod.mk.inj (Except.ok.inj h)
  exact leaveContainer_moves hleave ((enterContainer_moves henter).trans (hread _ _ _ hvalue))

theorem parseArray2Uint64_reads : Reads parseArray2Uint64 := by
  apply parseArray_reads
  intro it a it' h
  obtain ⟨⟨x, next⟩, hx, h⟩ := Loop.bind_ok h
  obtain ⟨⟨y, last⟩, hy, h⟩ := Loop.bind_ok h
  obtain ⟨-, rfl⟩ := Prod.mk.inj (Except.ok.inj h)
  exact (parseUint64_reads _ _ _ hx).trans (parseUint64_reads _ _ _ hy)

theorem consumeByteString_reads : Reads consumeByteString := by
  intro it a it' h
  obtain ⟨len, -, h⟩ := Loop.bind_ok h
  split at h
  · cases h
  · split_ifs at h
    obtain ⟨next, hnext, h⟩ := Loop.bind_ok h
    obtain ⟨-, rfl⟩ := Prod.mk.inj (Except.ok.inj h)
    exact advance_moves hnext

theorem compressionItems_reads : Reads compressionItems := by
  intro it a it' h
  obtain ⟨⟨algorithm, elt⟩, halgorithm, h⟩ := Loop.bind_ok h
  obtain ⟨⟨elemSize, elt'⟩, helem, h⟩ := Loop.bind_ok h
  obtain ⟨-, h⟩ := Loop.guard_ok h
  obtain ⟨⟨⟨bstr, len⟩, last⟩, hbytes, h⟩ := Loop.bind_ok h
  dsimp only at h
  split_ifs at h
  obtain ⟨-, rfl⟩ := Prod.mk.inj (Except.ok.inj h)
  exact ((parseTextString_reads _ _ _ halgorithm).trans (parseUint64_reads _ _ _ helem)).trans
    (consumeByteString_reads _ _ _ hbytes)

theorem parseDectrisCompression_reads : Reads parseDectrisCompression := by
  intro it a it' h
  obtain ⟨⟨tag, next⟩, htag, h⟩ := Loop.bind_ok h
  obtain ⟨-, h⟩ := Loop.guard_ok h
  exact (parseTag_reads _ _ _ htag).trans (parseArray_reads compressionItems_reads _ _ _ h)

theorem parseBytes_reads : Reads parseBytes := by
  intro it a it' h
  rw [parseBytes] at h
  split_ifs at h
  · exact parseDectrisCompression_reads _ _ _ h
  · obtain ⟨⟨⟨bstr, len⟩, last⟩, hbytes, h⟩ := Loop.bind_ok h
    obtain ⟨-, rfl⟩ := Prod.mk.inj (Except.ok.inj h)
    exact consumeByteString_reads _ _ _ hbytes

theorem parseTypedArray_reads : Reads parseTypedArray := by
  intro it a it' h
  obtain ⟨⟨tag, next⟩, htag, h⟩ := Loop.bind_ok h
  obtain ⟨⟨data, last⟩, hdata, h⟩ := Loop.bind_ok h
  obtain ⟨elemSize, -, h⟩ := Loop.bind_ok h
  obtain ⟨-, h⟩ := Loop.guard_ok h
  obtain ⟨-, rfl⟩ := Prod.mk.inj (Except.ok.inj h)
  exact (parseTag_reads _ _ _ htag).trans (parseBytes_reads _ _ _ hdata)

theorem multidimItems_reads : Reads multidimItems := by
  intro it a it' h
  obtain ⟨⟨dim, elt⟩, hdim, h⟩ := Loop.bind_ok h
  obtain ⟨⟨⟨array, len⟩, last⟩, harray, h⟩ := Loop.bind_ok h
  obtain ⟨-, h⟩ := Loop.guard_ok h
  obtain ⟨-, rfl⟩ := Prod.mk.inj (Except.ok.inj h)
  exact (parseArray2Uint64_reads _ _ _ hdim).trans (parseTypedArray_reads _ _ _ harray)

theorem parseMultidimArray_reads : Reads parseMultidimArray := by
  intro it a it' h
  obtain ⟨⟨tag, next⟩, htag, h⟩ := Loop.bind_ok h
  obtain ⟨-, h⟩ := Loop.guard_ok h
  exact (parseTag_reads _ _ _ htag).trans (parseArray_reads multidimItems_reads _ _ _ h)

theorem readMany_moves {read : CborValue → Except Stream2Error (α × CborValue)}
    (hread : Reads read) {as : List α} (hit : Fresh it) (h : readMany read n it = .ok (as, it')) :
    Moves it it' := by
  induction n generalizing it as with
  | zero =>
    obtain ⟨-, rfl⟩ := Prod.mk.inj (Except.ok.inj h)
    exact ⟨Nat.le_refl _, hit⟩
  | succ n ih =>
    obtain ⟨⟨a, next⟩, ha, h⟩ := Loop.bind_ok h
    obtain ⟨⟨more, last⟩, hmore, h⟩ := Loop.bind_ok h
    obtain ⟨-, rfl⟩ := Prod.mk.inj (Except.ok.inj h)
    have hnext := hread _ _ _ ha
    exact hnext.trans (ih hnext.2 hmore)

theorem channelEntry_reads {read : CborValue → Except Stream2Error (α × CborValue)}
    (hread : Reads read) : Reads (channelEntry read) := by
  intro it a it' h
  obtain ⟨⟨channel, next⟩, hchannel, h⟩ := Loop.bind_ok h
  obtain ⟨⟨value, last⟩, hvalue, h⟩ := Loop.bind_ok h
  obtain ⟨-, rfl⟩ := Prod.mk.inj (Except.ok.inj h)
  exact (parseTextString_reads _ _ _ hchannel).trans (hread _ _ _ hvalue)

theorem parseChannels_reads {read : CborValue → Except Stream2Error (α × CborValue)}
    (hread : Reads read) : Reads (parseChannels read) := by
  intro it a it' h
  rw [parseChannels] at h
  obtain ⟨-, h⟩ := Loop.guard_ok h
  obtain ⟨len, -, h⟩ := Loop.bind_ok h
  obtain ⟨field, henter, h⟩ := Loop.bind_ok h
  obtain ⟨⟨values, field'⟩, hvalues, h⟩ := Loop.bind_ok h
  obtain ⟨last, hleave, h⟩ := Loop.bind_ok h
  obtain ⟨-, rfl⟩ := Prod.mk.inj (Except.ok.inj h)
  have hmoves := enterContainer_moves henter
  exact leaveContainer_moves hleave
    (hmoves.trans (readMany_moves (channelEntry_reads hread) hmoves.2 hvalues))

theorem parseChannelNames_reads : Reads parseChannelNames := by
  intro it a it' h
  rw [parseChannelNames] at h
  obtain ⟨-, h⟩ := Loop.guard_ok h
  obtain ⟨len, -, h⟩ := Loop.bind_ok h
  obtain ⟨elt, henter, h⟩ := Loop.bind_ok h
  obtain ⟨⟨names, elt'⟩, hnames, h⟩ := Loop.bind_ok h
  obtain ⟨last, hleave, h⟩ := Loop.bind_ok h
  obtain ⟨-, rfl⟩ := Prod.mk.inj (Except.ok.inj h)
  have hmoves := enterContainer_moves henter
  exact leaveContainer_moves hleave
    (hmoves.trans (readMany_moves parseTextString_reads hmoves.2 hnames))

theorem parseTranslation_reads : Reads parseTranslation := by
  apply parseArray_reads
  intro it a it' h
  obtain ⟨⟨x, next⟩, hx, h⟩ := Loop.bind_ok h
  obtain ⟨⟨more, last⟩, hmore, h⟩ := Loop.bind_ok h
  obtain ⟨-, rfl⟩ := Prod.mk.inj (Except.ok.inj h)
  have hnext := parseDouble_reads _ _ _ hx
  exact hnext.trans (readMany_moves parseDouble_reads hnext.2 hmore)

theorem parseKey_lt {key : Text} (hit : Fresh it) (h : parseKey it = .ok (key, it')) :
    it'.ptr.length < it.ptr.length := by
  rw [parseKey] at h
  obtain ⟨htype, h⟩ := Loop.guard_ok h
  have hlt := copyString_lt hit (by rw [not_not.mp htype]; rfl)
  rcases hs : copyString it with ⟨err | text, next⟩ <;> rw [hs] at h hlt
  all_goals
    obtain ⟨-, rfl⟩ := Prod.mk.inj (Except.ok.inj h)
    exact hlt

theorem skipTags_length {verified : Option Text} {key : Text}
    (h : skipTags verified key it = .ok it') : it'.ptr.length ≤ it.ptr.length := by
  rw [skipTags] at h
  split_ifs at h
  · obtain rfl := Except.ok.inj h
    exact Nat.le_refl _
  · exact skipTag_length (lift_ok h)

section Entries

variable {verified : Option Text}
  {field : Text → μ → CborValue → Except Stream2Error (μ × CborValue)}

theorem parseEntry_decreasing (hfield : ∀ key msg, Reads (field key msg)) :
    Loop.Decreasing (fun s : μ × CborValue => Fresh s.2) (fun s => s.2.isValid)
      (parseEntry verified field) (fun s => s.2.ptr.length) := by
  have hentry : ∀ s s', Fresh s.2 → parseEntry verified field s = .ok s' →
      s'.2.ptr.length < s.2.ptr.length ∧ Fresh s'.2 := by
    rintro ⟨msg, it⟩ ⟨msg', it'⟩ hit h
    obtain ⟨⟨key, next⟩, hkey, h⟩ := Loop.bind_ok h
    have hlt := parseKey_lt hit hkey
    obtain ⟨value, hvalue, h⟩ := Loop.bind_ok h
    have hmoves := hfield _ _ _ _ _ h
    exact ⟨Nat.lt_of_le_of_lt (Nat.le_trans hmoves.1 (skipTags_length hvalue)) hlt, hmoves.2⟩
  exact ⟨fun s s' hs _ h => (hentry s s' hs h).2, fun s s' hs _ h => (hentry s s' hs h).1⟩

theorem parseEntries_eq (hfield : ∀ key msg, Reads (field key msg)) (msg : μ) (hit : Fresh it) :
    parseEntries verified field msg it =
      if it.isValid then parseEntry verified field (msg, it) >>= fun s =>
        parseEntries verified field s.1 s.2
      else .ok (msg, it) :=
  Loop.whileLoop_eq (parseEntry_decreasing hfield) (s := (msg, it)) hit

theorem parseEntries_moves (hfield : ∀ key msg, Reads (field key msg)) {msg msg' : μ}
    (hit : Fresh it) (h : parseEntries verified field msg it = .ok (msg', it')) : Moves it it' := by
  have hd : Loop.Decreasing _ _ (parseEntry verified field) _ := parseEntry_decreasing hfield
  have hinv := Loop.whileLoop_invariant (P := fun s : μ × CborValue => Moves it s.2)
    (fun s s' hs hc hb => ⟨Nat.le_trans (Nat.le_of_lt (hd.decreases s s' hs.2 hc hb)) hs.1,
      hd.keeps s s' hs.2 hc hb⟩) ⟨Nat.le_refl _, hit⟩ h
  exact hinv.1

theorem parseMap_reads (hfield : ∀ key msg, Reads (field key msg)) (msg : μ) :
    Reads (parseMap field msg) := by
  intro it a it' h
  rw [parseMap] at h
  obtain ⟨-, h⟩ := Loop.guard_ok h
  obtain ⟨entries, henter, h⟩ := Loop.bind_ok h
  obtain ⟨⟨msg', entries'⟩, hloop, h⟩ := Loop.bind_ok h
  obtain ⟨last, hleave, h⟩ := Loop.bind_ok h
  obtain ⟨-, rfl⟩ := Prod.mk.inj (Except.ok.inj h)
  have hmoves := enterContainer_moves henter
  exact leaveContainer_moves hleave (hmoves.trans (parseEntries_moves hfield hmoves.2 hloop))

theorem store_reads {read : CborValue → Except Stream2Error (α × CborValue)} (hread : Reads read)
    (put : α → μ) : Reads (store read put) := by
  intro it a it' h
  obtain ⟨⟨value, next⟩, hvalue, h⟩ := Loop.bind_ok h
  obtain ⟨-, rfl⟩ := Prod.mk.inj (Except.ok.inj h)
  exact hread _ _ _ hvalue

theorem skip_reads (msg : μ) : Reads (skip msg) := by
  intro it a it' h
  obtain ⟨next, hnext, h⟩ := Loop.bind_ok h
  obtain ⟨-, rfl⟩ := Prod.mk.inj (Except.ok.inj h)
  exact advance_moves hnext

theorem ite_reads {p : Prop} [Decidable p]
    {read read' : CborValue → Except Stream2Error (α × CborValue)} (h : Reads read)
    (h' : Reads read') : Reads (if p then read else read') := by
  by_cases hp : p
  · rw [if_pos hp]
    exact h
  · rw [if_neg hp]
    exact h'

end Entries

theorem parseUserData_reads : Reads parseUserData := by
  intro it a it' h
  obtain ⟨next, hnext, h⟩ := Loop.bind_ok h
  obtain ⟨-, rfl⟩ := Prod.mk.inj (Except.ok.inj h)
  exact advance_moves hnext

theorem parseGoniometerAxis_reads (axis : GoniometerAxis) : Reads (parseGoniometerAxis axis) := by
  apply parseMap_reads
  intro key axis
  repeat' apply ite_reads
  · exact store_reads parseDouble_reads _
  · exact store_reads parseDouble_reads _
  · exact skip_reads axis

theorem parseGoniometer_reads (goniometer : Goniometer) : Reads (parseGoniometer goniometer) := by
  apply parseMap_reads
  intro key g
  repeat' apply ite_reads
  all_goals first
    | exact store_reads (parseGoniometerAxis_reads _) _
    | exact skip_reads g

theorem startField_reads (key : Text) (msg : StartMsg) : Reads (startField key msg) := by
  rw [startField]
  repeat' apply ite_reads
  all_goals first
    | exact store_reads parseDouble_reads _
    | exact store_reads parseTextString_reads _
    | exact store_reads parseUint64_reads _
    | exact store_reads parseBool_reads _
    | exact store_reads (parseChannels_reads parseMultidimArray_reads) _
    | exact store_reads (parseChannels_reads parseDouble_reads) _
    | exact store_reads parseChannelNames_reads _
    | exact store_reads parseTypedArray_reads _
    | exact store_reads parseTranslation_reads _
    | exact store_reads (parseGoniometer_reads _) _
    | exact store_reads parseUserData_reads _
    | exact skip_reads msg

theorem imageField_reads (key : Text) (msg : ImageMsg) : Reads (imageField key msg) := by
  rw [imageField]
  repeat' apply ite_reads
  all_goals first
    | exact store_reads parseUint64_reads _
    | exact store_reads parseTextString_reads _
    | exact store_reads parseArray2Uint64_reads _
    | exact store_reads parseUserData_reads _
    | exact store_reads (parseChannels_reads parseMultidimArray_reads) _
    | exact skip_reads msg

theorem endField_reads (key : Text) (msg : EndMsg) : Reads (endField key msg) := by
  rw [endField]
  repeat' apply ite_reads
  · exact store_reads parseUint64_reads _
  · exact store_reads parseTextString_reads _
  · exact skip_reads msg

end Stream2
