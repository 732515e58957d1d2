import ADEiger.FileWriter

/-! saveTask and the local file.
The file is opened for writing without being cut off, and its bytes are written from the start. -/
namespace SaveFile

open FileWriter (File)

abbrev Bytes := List UInt8

section Overwrite

variable {α : Type*}

/-- The file after `bytes` are written at `offset`. -/
def writeAt (content : List α) (offset : ℕ) (bytes : List α) : List α :=
  content.take offset ++ (bytes ++ content.drop (offset + bytes.length))

/-- A file whose first bytes come from `data` and the others from `old`. -/
def overlay (data old : List α) (n : ℕ) : List α := data.take n ++ old.drop n

theorem overlay_zero (data old : List α) : overlay data old 0 = old := rfl

theorem writeAt_overlay (data old : List α) {n k : ℕ} (hn : n ≤ data.length) :
    writeAt (overlay data old n) n ((data.drop n).take k) =
      overlay data old (n + ((data.drop n).take k).length) := by
  have hlen : (data.take n).length = n := List.length_take_of_le hn
  have htake : (overlay data old n).take n = data.take n := by
    rw [overlay, List.take_left' hlen]
  have hdrop : ∀ j, (overlay data old n).drop (n + j) = old.drop (n + j) := by
    intro j
    rw [overlay, ← List.drop_drop, List.drop_left' hlen, List.drop_drop]
  have hwritten : (data.drop n).take ((data.drop n).take k).length = (data.drop n).take k := by
    rw [List.length_take, ← List.take_take, List.take_of_length_le (Nat.le_refl _)]
  rw [writeAt, htake, hdrop, overlay, List.take_add, hwritten, List.append_assoc]

theorem overlay_all (data old : List α) {n : ℕ} (hn : data.length ≤ n) :
    overlay data old n = data ↔ old.length ≤ n := by
  rw [overlay, List.take_of_length_le hn]
  constructor
  · intro h
    exact List.drop_eq_nil_iff.mp (List.append_right_eq_self.mp h)
  · intro h
    rw [List.drop_eq_nil_of_le h, List.append_nil]

end Overwrite

section Task

/-- What the calls return: `open`, `fchmod`, and each `write` in turn. -/
structure Calls where
  opens : Bool
  changesMode : Bool
  writes : ℕ → ℤ

/-- The places where saveTask reports an error. -/
inductive Branch where
  | openFailed | modeFailed | writeFailed
  deriving DecidableEq, Repr

/-- The loop over partial writes, from the `i`-th call on; whether it ended with an error. -/
def writeLoop (data : Bytes) (writes : ℕ → ℤ) (i total : ℕ) (content : Bytes) : Bytes × Bool :=
  if total < data.length then
    if _h : writes i ≤ 0 then (content, true)
    else writeLoop data writes (i + 1) (total + (writes i).toNat)
      (writeAt content total ((data.drop total).take (writes i).toNat))
  else (content, false)
  termination_by data.length - total
  decreasing_by omega

/-- The local file, and the file as it is sent to the reap queue. -/
structure Saved where
  content : Option Bytes
  file : File
  branches : List Branch
  deriving DecidableEq

/-- The `len` bytes at `data`. -/
def bytesOf (file : File) : Bytes := (file.data.getD []).take file.len

/-- `O_CREAT` makes an empty file where there was none. -/
def saveTask (calls : Calls) (file : File) (previous : Option Bytes) : Saved :=
  if calls.opens = false then ⟨previous, { file with remove := false }, [.openFailed]⟩
  else
    let mode := if calls.changesMode then [] else [Branch.modeFailed]
    match writeLoop (bytesOf file) calls.writes 0 0 (previous.getD []) with
    | (content, false) => ⟨some content, file, mode⟩
    | (content, true) =>
      ⟨some content, { file with remove := false }, mode ++ [.writeFailed]⟩

/-- The bytes that the calls before the `i`-th have written, had they all succeeded. -/
def written (writes : ℕ → ℤ) : ℕ → ℕ
  | 0 => 0
  | i + 1 => written writes i + (writes i).toNat

/-- A call fails, or writes nothing, before the `n` bytes are written. -/
def WriteFails (writes : ℕ → ℤ) (n : ℕ) : Prop :=
  ∃ i, (∀ j < i, 0 < writes j) ∧ written writes i < n ∧ writes i ≤ 0

end Task

section Loop

variable {data old : Bytes} {writes : ℕ → ℤ} {i total : ℕ}

/-- What has been written is the beginning of the data, over the old content. -/
theorem writeLoop_content (data old : Bytes) (writes : ℕ → ℤ) (i : ℕ) (h : total ≤ data.length) :
    ∃ n, (writeLoop data writes i total (overlay data old total)).1 = overlay data old n ∧
      n ≤ data.length ∧
      ((writeLoop data writes i total (overlay data old total)).2 = false → n = data.length) := by
  induction hn : data.length - total using Nat.strong_induction_on generalizing i total with
  | _ n ih =>
    rw [writeLoop]
    by_cases hlt : total < data.length
    · rw [if_pos hlt]
      by_cases hw : writes i ≤ 0
      · rw [dif_pos hw]
        exact ⟨total, rfl, h, fun hf => by cases hf⟩
      · rw [dif_neg hw, writeAt_overlay data old h]
        have hlen : ((data.drop total).take (writes i).toNat).length =
            min (writes i).toNat (data.length - total) := by
          rw [List.length_take, List.length_drop]
        by_cases hle : total + (writes i).toNat ≤ data.length
        · have hsame : total + ((data.drop total).take (writes i).toNat).length =
              total + (writes i).toNat := by omega
          rw [hsame]
          exact ih (data.length - (total + (writes i).toNat)) (by omega) (i + 1) hle rfl
        · -- no call writes more than it was given
          have hall : total + ((data.drop total).take (writes i).toNat).length =
              data.length := by omega
          rw [hall, writeLoop, if_neg (by omega)]
          exact ⟨data.length, rfl, Nat.le_refl _, fun _ => rfl⟩
    · rw [if_neg hlt]
      exact ⟨total, rfl, h, fun _ => by omega⟩

theorem writeLoop_fails (hpos : ∀ j < i, 0 < writes j) (htotal : total = written writes i)
    (content : Bytes) :
    (writeLoop data writes i total content).2 = true ↔ WriteFails writes data.length := by
  induction hn : data.length - total using Nat.strong_induction_on
    generalizing i total content with
  | _ n ih =>
    rw [writeLoop]
    by_cases hlt : total < data.length
    · rw [if_pos hlt]
      by_cases hw : writes i ≤ 0
      · rw [dif_pos hw]
        constructor
        · intro _
          exact ⟨i, hpos, htotal ▸ hlt, hw⟩
        · intro _
          rfl
      · rw [dif_neg hw]
        have hpos' : ∀ j < i + 1, 0 < writes j := by
          intro j hj
          by_cases hji : j = i
          · subst hji
            omega
          · exact hpos j (by omega)
        have htotal' : total + (writes i).toNat = written writes (i + 1) := by
          rw [written, htotal]
        exact ih (data.length - (total + (writes i).toNat)) (by omega) hpos' htotal' _ rfl
    · rw [if_neg hlt]
      constructor
      · intro h
        cases h
      · rintro ⟨k, hk, hshort, hbad⟩
        -- the call that fails would come before all is written, and after the i-th it cannot
        exfalso
        have hmono : ∀ m, i ≤ m → written writes i ≤ written writes m := by
          intro m hm
          induction hm with
          | refl => exact Nat.le_refl _
          | step _ ih => exact Nat.le_trans ih (Nat.le_add_right _ _)
        by_cases hki : k < i
        · have := hpos k hki
          omega
        · have := hmono k (by omega)
          omega

end Loop

section Saving

variable (calls : Calls) (file : File) (previous : Option Bytes) (countsMode : Bool)

/-- The branches that count as errors; a failing `fchmod` is reported and nothing else. -/
def IsError : Branch → Prop
  | .openFailed | .writeFailed => True
  | .modeFailed => countsMode = true

/-- What saving a file comes to. -/
structure SavedExactly (r : Saved) : Prop where
  content : (∀ b ∈ r.branches, ¬ IsError countsMode b) → r.content = some (bytesOf file)
  kept : (∃ b ∈ r.branches, IsError countsMode b) → r.file.remove = false

/-- Nothing fails, the mode apart. -/
def Succeeds : Prop := calls.opens = true ∧ ¬ WriteFails calls.writes (bytesOf file).length

/-- An old file is not longer than the new one; and if a failing `fchmod` counts, it does not fail
for a file that is to be removed. -/
structure Fits : Prop where
  length : calls.changesMode = true ∨ countsMode = false →
    (previous.getD []).length ≤ (bytesOf file).length
  mode : calls.changesMode = false → countsMode = true → file.remove = false

variable {calls file}

theorem saveTask_openFails (h : calls.opens = false) : saveTask calls file previous =
    ⟨previous, { file with remove := false }, [.openFailed]⟩ := if_pos h

theorem saveTask_writeFails (hopen : calls.opens = true)
    (hfails : WriteFails calls.writes (bytesOf file).length) :
    .writeFailed ∈ (saveTask calls file previous).branches ∧
      (saveTask calls file previous).file.remove = false := by
  have hnot : ¬ calls.opens = false := by simp [hopen]
  have hloop := (writeLoop_fails (fun j hj => absurd hj (Nat.not_lt_zero j))
    (show 0 = written calls.writes 0 from rfl) (previous.getD [])).mpr hfails
  rw [saveTask, if_neg hnot]
  generalize writeLoop (bytesOf file) calls.writes 0 0 (previous.getD []) = r at hloop
  obtain ⟨content, fails⟩ := r
  obtain rfl : fails = true := hloop
  exact ⟨List.mem_append_right _ (List.mem_singleton_self _), rfl⟩

theorem saveTask_succeeds (h : Succeeds calls file) : saveTask calls file previous =
    ⟨some (overlay (bytesOf file) (previous.getD []) (bytesOf file).length), file,
      if calls.changesMode then [] else [.modeFailed]⟩ := by
  have hnot : ¬ calls.opens = false := by simp [h.1]
  have hno : ¬ (writeLoop (bytesOf file) calls.writes 0 0 (previous.getD [])).2 = true := by
    intro hfails
    exact h.2 ((writeLoop_fails (fun j hj => absurd hj (Nat.not_lt_zero j)) rfl _).mp hfails)
  obtain ⟨n, hcontent, -, hall⟩ :=
    writeLoop_content (bytesOf file) (previous.getD []) calls.writes 0 (Nat.zero_le _)
  rw [overlay_zero] at hcontent hall
  rw [Bool.not_eq_true] at hno
  obtain rfl := hall hno
  rw [saveTask, if_neg hnot]
  generalize writeLoop (bytesOf file) calls.writes 0 0 (previous.getD []) = r at hno hcontent
  obtain ⟨content, fails⟩ := r
  obtain rfl : fails = false := hno
  obtain rfl : content = _ := hcontent
  rfl

theorem mem_modeBranches {b : Branch} :
    b ∈ (if calls.changesMode then [] else [.modeFailed]) ↔
      calls.changesMode = false ∧ b = .modeFailed := by
  cases calls.changesMode <;> simp

theorem savedExactly_iff_fits (hs : Succeeds calls file) :
    SavedExactly file countsMode (saveTask calls file previous) ↔
      Fits calls file previous countsMode := by
  rw [saveTask_succeeds previous hs]
  constructor
  · intro h
    constructor
    · intro hmode
      have hnone : ∀ b ∈ (if calls.changesMode then [] else [.modeFailed]),
          ¬ IsError countsMode b := by
        intro b hb
        obtain ⟨hfails, rfl⟩ := mem_modeBranches.mp hb
        have hcounts := hmode.resolve_left (by simp [hfails])
        simp [IsError, hcounts]
      have hcontent := h.content hnone
      exact (overlay_all _ _ (Nat.le_refl _)).mp (Option.some.inj hcontent)
    · intro hmode hcounts
      exact h.kept ⟨.modeFailed, mem_modeBranches.mpr ⟨hmode, rfl⟩, hcounts⟩
  · intro h
    constructor
    · intro hnone
      refine congrArg some ((overlay_all _ _ (Nat.le_refl _)).mpr (h.length ?_))
      cases hc : calls.changesMode with
      | true => exact .inl rfl
      | false =>
        right
        have := hnone .modeFailed (mem_modeBranches.mpr ⟨hc, rfl⟩)
        simpa [IsError] using this
    · rintro ⟨b, hb, herror⟩
      obtain ⟨hmode, rfl⟩ := mem_modeBranches.mp hb
      exact h.mode hmode herror

theorem savedExactly_of_fails (hs : ¬ Succeeds calls file) :
    SavedExactly file countsMode (saveTask calls file previous) := by
  by_cases hopen : calls.opens = true
  · have hfails : WriteFails calls.writes (bytesOf file).length := by
      by_contra hno
      exact hs ⟨hopen, hno⟩
    obtain ⟨hbranch, hremove⟩ := saveTask_writeFails previous hopen hfails
    exact ⟨fun hnone => absurd trivial (hnone _ hbranch), fun _ => hremove⟩
  · rw [saveTask_openFails previous (by simpa using hopen)]
    exact ⟨fun hnone => absurd trivial (hnone .openFailed (List.mem_singleton_self _)),
      fun _ => rfl⟩

/-- Whether a failing `fchmod` counts as an error branch or not. -/
theorem saved_exactly_iff (calls : Calls) (file : File) (previous : Option Bytes)
    (countsMode : Bool) : SavedExactly file countsMode (saveTask calls file previous) ↔
      (Succeeds calls file → Fits calls file previous countsMode) := by
  by_cases hs : Succeeds calls file
  · rw [savedExactly_iff_fits previous countsMode hs]
    exact ⟨fun h _ => h, fun h => h hs⟩
  · exact iff_of_true (savedExactly_of_fails previous countsMode hs) fun h => absurd h hs

/-- A file of one byte, over a file of two. -/
theorem longer_file_kept : ¬ ∀ (calls : Calls) (file : File) (previous : Option Bytes)
    (countsMode : Bool), SavedExactly file countsMode (saveTask calls file previous) := by
  intro h
  have hsaved := h ⟨true, true, fun _ => 1⟩
    ⟨[], some [1], 1, true, false, true, 1, 0, 0, 0o644⟩ (some [2, 3]) false
  have hcontent : (saveTask ⟨true, true, fun _ => 1⟩
      ⟨[], some [1], 1, true, false, true, 1, 0, 0, 0o644⟩ (some [2, 3])) =
        ⟨some [1, 3], ⟨[], some [1], 1, true, false, true, 1, 0, 0, 0o644⟩, []⟩ := by
    simp [saveTask, bytesOf, writeLoop, writeAt]
  have hexact := hsaved.content fun b hb => ?_
  · rw [hcontent] at hexact
    exact absurd hexact (by decide)
  · rw [hcontent] at hb
    cases hb

end Saving

end SaveFile
