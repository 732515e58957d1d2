import ADEiger.CString
import ADEiger.FileWriter
import Mathlib.Data.List.Nodup

/-! The names that pollTask stores for the files of an acquisition.
The pattern is cut to the buffer of the acquisition, and every name to that of its file. -/
namespace FileNames

open CString (Text)
open RestNames
open FileWriter (Acquisition buildFile MAX_BUF_SIZE DEFAULT_NR_START)

/-- `strncpy` into `acq.pattern`, with a terminator at its end. -/
def copyPattern (pattern : Text) : Text := pattern.take (MAX_BUF_SIZE - 1)

/-- The names of the list that pollTask makes of an acquisition. -/
def storedNames (pattern : Text) (acq : Acquisition) (uid gid : ℕ) : List Text :=
  (List.range (acq.nDataFiles + 1)).map fun i =>
    (buildFile { acq with pattern := copyPattern pattern } uid gid i).name

/-- A pattern with its first `$id`, if there is one, replaced by the sequence id. -/
inductive Expanded (pattern : Text) (seqId : ℤ) : Text → Prop where
  | id {before after} : pattern = before ++ (ID_STR ++ after) →
      (∀ u v, pattern = u ++ (ID_STR ++ v) → before.length ≤ u.length) →
      Expanded pattern seqId (before ++ decimal seqId ++ after)
  | plain : (∀ u v, pattern ≠ u ++ (ID_STR ++ v)) → Expanded pattern seqId pattern

/-- The whole name; number 0 is the master file. -/
def fullName (expanded : Text) (i : ℕ) : Text :=
  if i = 0 then expanded ++ "_master.h5".toList
  else expanded ++ "_data_".toList ++ decimal06 i ++ ".h5".toList

section Expansion

variable {needle t u v pattern e : Text} {seqId : ℤ} {i : ℕ}

theorem strstr_some (h : strstr needle t = some i) :
    t = t.take i ++ (needle ++ t.drop (i + needle.length)) ∧
      ∀ u v, t = u ++ (needle ++ v) → i ≤ u.length := by
  induction t generalizing i with
  | nil =>
    rw [strstr] at h
    split_ifs at h with hnil
    obtain rfl := Option.some.inj h
    exact ⟨by simp [hnil], fun u v _ => Nat.zero_le _⟩
  | cons c t ih =>
    rw [strstr] at h
    split_ifs at h with hprefix
    · obtain rfl := Option.some.inj h
      obtain ⟨rest, hrest⟩ := List.isPrefixOf_iff_prefix.mp hprefix
      refine ⟨?_, fun u v _ => Nat.zero_le _⟩
      rw [← hrest, List.take_zero, List.nil_append, Nat.zero_add, List.drop_left]
    · obtain ⟨j, hj, rfl⟩ := Option.map_eq_some_iff.mp h
      obtain ⟨hsplit, hfirst⟩ := ih hj
      constructor
      · rw [List.take_succ_cons, List.cons_append, Nat.add_right_comm, List.drop_succ_cons,
          ← hsplit]
      · intro u v huv
        cases u with
        | nil => exact absurd (List.isPrefixOf_iff_prefix.mpr ⟨v, huv.symm⟩) hprefix
        | cons d u => exact Nat.succ_le_succ (hfirst u v (List.cons.inj huv).2)

theorem strstr_none (h : strstr needle t = none) : ∀ u v, t ≠ u ++ (needle ++ v) := by
  induction t with
  | nil =>
    intro u v huv
    obtain ⟨-, hnil⟩ := List.append_eq_nil_iff.mp huv.symm
    rw [strstr, if_pos (List.append_eq_nil_iff.mp hnil).1] at h
    cases h
  | cons c t ih =>
    rw [strstr] at h
    split_ifs at h with hprefix
    intro u v huv
    cases u with
    | nil => exact hprefix (List.isPrefixOf_iff_prefix.mpr ⟨v, huv.symm⟩)
    | cons d u => exact ih (Option.map_eq_none_iff.mp h) u v (List.cons.inj huv).2

theorem expanded_expandId (pattern : Text) (seqId : ℤ) :
    Expanded pattern seqId (expandId pattern seqId) := by
  rw [expandId]
  cases h : strstr ID_STR pattern with
  | none => exact .plain (strstr_none h)
  | some i =>
    obtain ⟨hsplit, hfirst⟩ := strstr_some h
    refine .id hsplit fun u v huv => Nat.le_trans (List.length_take_le _ _) (hfirst u v huv)

/-- There is one way to replace the first `$id`. -/
theorem Expanded.unique {e' : Text} (h : Expanded pattern seqId e)
    (h' : Expanded pattern seqId e') : e = e' := by
  cases h with
  | plain hno =>
    cases h' with
    | plain => rfl
    | id hsplit => exact absurd hsplit (hno _ _)
  | id hsplit hfirst =>
    cases h' with
    | plain hno => exact absurd hsplit (hno _ _)
    | id hsplit' hfirst' =>
      have hlen := Nat.le_antisymm (hfirst _ _ hsplit') (hfirst' _ _ hsplit)
      obtain ⟨rfl, htail⟩ := List.append_inj (hsplit.symm.trans hsplit') hlen
      rw [List.append_cancel_left htail]

end Expansion

section Numbers

variable {m n : ℕ}

theorem decimal06_natCast (n : ℕ) : decimal06 n =
    List.replicate (6 - (Nat.toDigits 10 n).length) '0' ++ Nat.toDigits 10 n := by
  have hsign : ¬ (n : ℤ) < 0 := by omega
  rw [decimal06, if_neg hsign, Int.natAbs_natCast, decimal_natCast]

theorem isDigit_of_mem_decimal06 {c : Char} (h : c ∈ decimal06 n) : c.isDigit = true := by
  rw [decimal06_natCast] at h
  rcases List.mem_append.mp h with h | h
  · rw [List.eq_of_mem_replicate h]
    decide
  · exact CString.isDigit_of_mem_digits h

theorem ofDigitChars_zeros (k : ℕ) (t : Text) :
    Nat.ofDigitChars 10 (List.replicate k '0' ++ t) 0 = Nat.ofDigitChars 10 t 0 := by
  induction k with
  | zero => rfl
  | succ k ih => exact ih

theorem decimal06_value (n : ℕ) : Nat.ofDigitChars 10 (decimal06 n) 0 = n := by
  rw [decimal06_natCast, ofDigitChars_zeros, Nat.ofDigitChars_ten_toDigits]

theorem length_decimal06 (n : ℕ) : 6 ≤ (decimal06 n).length := by
  rw [decimal06_natCast, List.length_append, List.length_replicate]
  omega

end Numbers

section Names

variable {e e' : Text} {i j : ℕ}

theorem fullName_last (e : Text) (i : ℕ) : ∃ tail, '_' ∉ tail ∧
    ((i = 0 ∧ tail = "master.h5".toList ∧ fullName e i = e ++ '_' :: tail) ∨
      (i ≠ 0 ∧ tail = decimal06 i ++ ".h5".toList ∧
        fullName e i = (e ++ "_data".toList) ++ '_' :: tail)) := by
  by_cases hi : i = 0
  · exact ⟨"master.h5".toList, by decide, .inl ⟨hi, rfl, if_pos hi⟩⟩
  · refine ⟨decimal06 i ++ ".h5".toList, ?_, .inr ⟨hi, rfl, ?_⟩⟩
    · intro hmem
      rcases List.mem_append.mp hmem with hmem | hmem
      · exact absurd (isDigit_of_mem_decimal06 hmem) (by decide)
      · exact absurd hmem (by decide)
    · rw [fullName, if_neg hi]
      simp

theorem tail_ne (i : ℕ) : "master.h5".toList ≠ decimal06 i ++ ".h5".toList := by
  intro h
  have hpos : decimal06 i ≠ [] := by
    intro hnil
    have := length_decimal06 i
    rw [hnil] at this
    exact absurd this (by decide)
  obtain ⟨c, t, ht⟩ := List.exists_cons_of_ne_nil hpos
  have hdigit : c.isDigit = true := isDigit_of_mem_decimal06 (ht ▸ List.mem_cons_self)
  rw [ht] at h
  rw [← (List.cons.inj h).1] at hdigit
  cases hdigit

theorem fullName_injective (h : fullName e i = fullName e' j) : e = e' ∧ i = j := by
  obtain ⟨tail, hno, hname⟩ := fullName_last e i
  obtain ⟨tail', hno', hname'⟩ := fullName_last e' j
  rcases hname with ⟨hi, htail, hname⟩ | ⟨hi, htail, hname⟩ <;>
    rcases hname' with ⟨hj, htail', hname'⟩ | ⟨hj, htail', hname'⟩
  · rw [hname, hname'] at h
    exact ⟨(CString.last_unique h hno hno').1, hi.trans hj.symm⟩
  · rw [hname, hname'] at h
    have := (CString.last_unique h hno hno').2
    exact absurd (htail.symm.trans (this.trans htail')) (tail_ne j)
  · rw [hname, hname'] at h
    have := (CString.last_unique h hno hno').2
    exact absurd (htail'.symm.trans (this.symm.trans htail)) (tail_ne i)
  · rw [hname, hname'] at h
    obtain ⟨hhead, hsame⟩ := CString.last_unique h hno hno'
    rw [htail, htail'] at hsame
    have hindex := congrArg (Nat.ofDigitChars 10 · 0) (List.append_cancel_right hsame)
    simp only [decimal06_value] at hindex
    exact ⟨List.append_cancel_right hhead, hindex⟩

theorem expanded_injective {pattern : Text} {a b : ℤ} (hid : ∃ u v, pattern = u ++ (ID_STR ++ v))
    (ha : Expanded pattern a e) (hb : Expanded pattern b e) : a = b := by
  obtain ⟨u, v, huv⟩ := hid
  generalize he : e = e' at hb
  cases ha with
  | plain hno => exact absurd huv (hno u v)
  | id hsplit hfirst =>
    cases hb with
    | plain hno => exact absurd huv (hno u v)
    | id hsplit' hfirst' =>
      have hlen := Nat.le_antisymm (hfirst _ _ hsplit') (hfirst' _ _ hsplit)
      obtain ⟨rfl, htail⟩ := List.append_inj (hsplit.symm.trans hsplit') hlen
      rw [List.append_cancel_left htail, List.append_assoc, List.append_assoc] at he
      exact decimal_injective (List.append_cancel_right (List.append_cancel_left he))

end Names

section Lists

variable (pattern : Text) (a b : Acquisition) (uid gid : ℕ)

/-- A value of FWNamePattern: up to 255 characters. -/
def NamePattern : Type := { t : Text // t.length < MAX_BUF_SIZE }

/-- The names of two acquisitions with one pattern. -/
structure Faithful : Prop where
  named : ∀ acq ∈ [a, b], ∃ e, Expanded pattern acq.sequenceId e ∧
    storedNames pattern acq uid gid = (List.range (acq.nDataFiles + 1)).map (fullName e)
  distinct : ∀ acq ∈ [a, b], (storedNames pattern acq uid gid).Nodup
  apart : (∃ u v, pattern = u ++ (ID_STR ++ v)) → a.sequenceId ≠ b.sequenceId →
    (storedNames pattern a uid gid).Disjoint (storedNames pattern b uid gid)

/-- Every name fits in its buffer, and the number of files in an `int`. -/
structure Fits (acq : Acquisition) : Prop where
  names : ∀ e, Expanded pattern acq.sequenceId e →
    ∀ i ≤ acq.nDataFiles, (fullName e i).length < MAX_BUF_SIZE
  number : acq.nDataFiles < 2 ^ 31

variable {pattern a b}

theorem stored_name (hlen : pattern.length < MAX_BUF_SIZE) (acq : Acquisition) {i : ℕ}
    (hi : i < 2 ^ 31) : (buildFile { acq with pattern := copyPattern pattern } uid gid i).name =
      (fullName (expandId pattern acq.sequenceId) i).take (MAX_BUF_SIZE - 1) := by
  have hcopy : copyPattern pattern = pattern := List.take_of_length_le (by omega)
  by_cases h0 : i = 0
  · subst h0
    rw [buildFile, hcopy]
    rfl
  · have hindex : Int.bmod ((i - 1 + DEFAULT_NR_START : ℕ) : ℤ) (2 ^ 32) = i := by
      rw [DEFAULT_NR_START, Nat.sub_add_cancel (by omega)]
      rw [Int.bmod_eq_of_le] <;> omega
    simp only [buildFile, hcopy, fullName, if_neg h0, beq_iff_eq, hindex]
    rfl

theorem length_stored_name (acq : Acquisition) (i : ℕ) :
    (buildFile acq uid gid i).name.length < MAX_BUF_SIZE := by
  have htake : ∀ t : Text, (epicsSnprintf MAX_BUF_SIZE t).length < MAX_BUF_SIZE := by
    intro t
    exact Nat.lt_of_le_of_lt (List.length_take_le _ _) (by decide)
  by_cases h0 : i = 0
  · subst h0
    exact htake _
  · simp only [buildFile, beq_iff_eq, if_neg h0]
    exact htake _

/-- The first number that an `int` does not hold is printed with a minus. -/
theorem stored_name_minus (hlen : pattern.length < MAX_BUF_SIZE) (acq : Acquisition) :
    ∃ t, (buildFile { acq with pattern := copyPattern pattern } uid gid (2 ^ 31)).name <+:
      expandId pattern acq.sequenceId ++ "_data_".toList ++ '-' :: t := by
  have hcopy : copyPattern pattern = pattern := List.take_of_length_le (by omega)
  have hindex : Int.bmod ((2 ^ 31 - 1 + DEFAULT_NR_START : ℕ) : ℤ) (2 ^ 32) = -2 ^ 31 := by decide
  have hnegative : (-2 ^ 31 : ℤ) < 0 := by decide
  obtain ⟨t, ht⟩ : ∃ t, decimal06 (-2 ^ 31) = '-' :: t := by
    rw [decimal06, if_pos hnegative]
    exact ⟨_, rfl⟩
  refine ⟨t ++ ".h5".toList, ?_⟩
  have hne : ¬ (2 ^ 31 : ℕ) = 0 := by decide
  simp only [buildFile, beq_iff_eq, if_neg hne, hcopy, hindex, buildDataName, ht]
  rw [List.append_assoc (_ ++ _), List.cons_append]
  exact List.take_prefix _ _

theorem fits_of_named (hlen : pattern.length < MAX_BUF_SIZE) {acq : Acquisition} {e : Text}
    (he : Expanded pattern acq.sequenceId e)
    (h : storedNames pattern acq uid gid = (List.range (acq.nDataFiles + 1)).map (fullName e)) :
    Fits pattern acq := by
  have hname : ∀ i ≤ acq.nDataFiles,
      (buildFile { acq with pattern := copyPattern pattern } uid gid i).name = fullName e i := by
    intro i hi
    exact List.map_inj_left.mp h i (List.mem_range.mpr (Nat.lt_succ_of_le hi))
  constructor
  · intro e' he' i hi
    rw [he'.unique he, ← hname i hi]
    exact length_stored_name uid gid _ i
  · by_contra hle
    obtain ⟨t, ht⟩ := stored_name_minus uid gid hlen acq
    rw [hname (2 ^ 31) (Nat.le_of_not_lt hle), (expanded_expandId _ _).unique he] at ht
    have hdigits : decimal06 ((2 ^ 31 : ℕ) : ℤ) ≠ [] := by
      intro hnil
      have := length_decimal06 (2 ^ 31)
      rw [hnil] at this
      exact absurd this (by decide)
    obtain ⟨c, ds, hds⟩ := List.exists_cons_of_ne_nil hdigits
    have hc : c.isDigit = true := isDigit_of_mem_decimal06 (hds ▸ List.mem_cons_self)
    have hne : ¬ (2 ^ 31 : ℕ) = 0 := by decide
    rw [fullName, if_neg hne, hds, List.append_assoc, List.prefix_append_right_inj,
      List.cons_append, List.cons_prefix_cons] at ht
    rw [ht.1] at hc
    cases hc

theorem named_of_fits (hlen : pattern.length < MAX_BUF_SIZE) {acq : Acquisition}
    (h : Fits pattern acq) : storedNames pattern acq uid gid =
      (List.range (acq.nDataFiles + 1)).map (fullName (expandId pattern acq.sequenceId)) := by
  refine List.map_congr_left fun i hi => ?_
  have hi : i ≤ acq.nDataFiles := Nat.le_of_lt_succ (List.mem_range.mp hi)
  have hfits := h.names _ (expanded_expandId _ _) i hi
  rw [stored_name uid gid hlen acq (Nat.lt_of_le_of_lt hi h.number),
    List.take_of_length_le (by omega)]

theorem names_faithful_iff (pattern : NamePattern) (a b : Acquisition) (uid gid : ℕ) :
    Faithful pattern.1 a b uid gid ↔ Fits pattern.1 a ∧ Fits pattern.1 b := by
  obtain ⟨pattern, hlen⟩ := pattern
  constructor
  · intro h
    obtain ⟨e, he, hnames⟩ := h.named a List.mem_cons_self
    obtain ⟨e', he', hnames'⟩ := h.named b (List.mem_cons_of_mem _ List.mem_cons_self)
    exact ⟨fits_of_named uid gid hlen he hnames, fits_of_named uid gid hlen he' hnames'⟩
  · rintro ⟨ha, hb⟩
    have hfits : ∀ acq ∈ [a, b], Fits pattern acq := by
      intro acq hacq
      rcases List.mem_pair.mp hacq with rfl | rfl
      · exact ha
      · exact hb
    refine ⟨fun acq hacq => ?_, fun acq hacq => ?_, fun hid hne => ?_⟩
    · exact ⟨_, expanded_expandId _ _, named_of_fits uid gid hlen (hfits acq hacq)⟩
    · rw [named_of_fits uid gid hlen (hfits acq hacq)]
      exact List.nodup_range.map fun i j hij => (fullName_injective hij).2
    · rw [named_of_fits uid gid hlen ha, named_of_fits uid gid hlen hb]
      intro name hina hinb
      obtain ⟨i, -, rfl⟩ := List.mem_map.mp hina
      obtain ⟨j, -, hj⟩ := List.mem_map.mp hinb
      have hsame := (fullName_injective hj).1
      exact hne (expanded_injective hid (expanded_expandId _ _)
        (hsame ▸ expanded_expandId pattern b.sequenceId))

/-- With 246 characters the master's name loses its last one. -/
theorem long_pattern_cut : ¬ ∀ (pattern : NamePattern) (a b : Acquisition) (uid gid : ℕ),
    Faithful pattern.1 a b uid gid := by
  intro h
  have hpattern : (List.replicate 246 'x').length < MAX_BUF_SIZE := by
    rw [List.length_replicate]
    decide
  have hplain : ∀ u v, List.replicate 246 'x' ≠ u ++ (ID_STR ++ v) := by
    intro u v huv
    have hmem : '$' ∈ List.replicate 246 'x' := by
      rw [huv]
      exact List.mem_append_right u (List.mem_append_left v List.mem_cons_self)
    exact absurd (List.eq_of_mem_replicate hmem) (by decide)
  have hnamed := (h ⟨List.replicate 246 'x', hpattern⟩ ⟨[], 1, 0, true, false, false, 0⟩
    ⟨[], 1, 0, true, false, false, 0⟩ 0 0).named
  obtain ⟨e, he, hnames⟩ := hnamed _ List.mem_cons_self
  have hfits := (fits_of_named 0 0 hpattern he hnames).names _ (.plain hplain) 0 (Nat.zero_le _)
  rw [fullName, if_pos rfl, List.length_append, List.length_replicate] at hfits
  exact absurd hfits (by decide)

end Lists

end FileNames
