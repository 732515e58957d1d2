import ADEiger.StreamFraming

/-! parseH5File: the arrays that are made of a data file, and the threshold that each is given.
The calls of HDF5 succeed; the parameters and the pool are arguments. -/
namespace ParseH5File

open StreamFraming (DataType)

/-- `eigerModel_t`. -/
inductive EigerModel where
  | eiger1 | eiger2 | pilatus4
  deriving DecidableEq, Repr

/-- What `mThresholdNEnable` and `mThresholdN` give; the threshold of an Eiger1 is `mThreshold`
and cannot be disabled. -/
structure Thresholds (ε : Type*) where
  enable : ℕ → Bool
  energy : ℕ → ε

section Active

variable {ε : Type*}

/-- The two arrays, where `none` is an element that is not assigned, and `nextThreshold`. -/
structure Active (ε : Type*) where
  activeThresholds : ℕ → Option ℕ
  thresholdEnergy : ℕ → Option ε
  nextThreshold : ℕ

def Active.empty : Active ε := ⟨fun _ => none, fun _ => none, 0⟩

/-- At `nextThreshold`. -/
def Active.store (a : Active ε) (number : ℕ) (energy : ε) : Active ε :=
  { a with
    activeThresholds := fun j =>
      if j = a.nextThreshold then some number else a.activeThresholds j
    thresholdEnergy := fun j =>
      if j = a.nextThreshold then some energy else a.thresholdEnergy j }

/-- One threshold with its enable. -/
def Active.read (t : Thresholds ε) (a : Active ε) (number : ℕ) : Active ε :=
  if t.enable number then
    { a.store number (t.energy number) with nextThreshold := a.nextThreshold + 1 }
  else a

def findActive (model : EigerModel) (t : Thresholds ε) : Active ε :=
  if model = .eiger1 then Active.empty.store 1 (t.energy 1)
  else if model = .eiger2 ∨ model = .pilatus4 then (Active.empty.read t 1).read t 2
  else if model = .pilatus4 then (Active.empty.read t 3).read t 4
  else Active.empty

end Active

section Parse

variable {ε : Type*}

/-- The dimensions of the dataset, and the type of its data where it is one that is known. -/
structure Dataset where
  dims : List ℕ
  dType : Option DataType
  deriving DecidableEq, Repr

/-- `nImages`, `nThresh`, `height` and `width`. -/
def Dataset.sizes (d : Dataset) : Option (ℕ × ℕ × ℕ × ℕ) :=
  match d.dims with
  | [nImages, height, width] => some (nImages, 1, height, width)
  | [nImages, nThresh, height, width] => some (nImages, nThresh, height, width)
  | _ => none

/-- What is set when the file is parsed. -/
structure Settings where
  signedData : Bool
  arrayCallbacks : Bool
  imageCounter : ℕ
  alloc : ℕ → ℕ → Bool

/-- An array as it is handed on; `none` is an attribute from an element that is not assigned. -/
structure Image (ε : Type*) where
  offset : ℕ × ℕ
  dims : ℕ × ℕ
  dataType : DataType
  uniqueId : ℕ
  thresholdNumber : Option ℕ
  thresholdEnergy : Option ε
  addresses : List ℕ

/-- The bound of a loop, a `size_t` cast to `int`. -/
def intBound (n : ℕ) : ℕ := if n % 2 ^ 32 < 2 ^ 31 then n % 2 ^ 32 else 0

/-- The thresholds of the `i`-th image, until there is no array. -/
def thresholdsMade (alloc : ℕ → ℕ → Bool) (i nThresh : ℕ) : List ℕ :=
  (List.range (intBound nThresh)).takeWhile (alloc i)

/-- The images and thresholds of which an array is made, in order. -/
def made (alloc : ℕ → ℕ → Bool) (nImages nThresh : ℕ) : List (ℕ × ℕ) :=
  (List.range (intBound nImages)).flatMap fun i => (thresholdsMade alloc i nThresh).map (i, ·)

def parseH5File (model : EigerModel) (t : Thresholds ε) (settings : Settings) (d : Dataset) :
    List (Image ε) :=
  match d.sizes, d.dType with
  | some (nImages, nThresh, height, width), some dType =>
    let active := findActive model t
    (made settings.alloc nImages nThresh).mapIdx fun k (i, j) =>
      { offset := (i, j)
        dims := (width, height)
        dataType := if settings.signedData then dType.signed else dType
        uniqueId := settings.imageCounter + k
        thresholdNumber := active.activeThresholds j
        thresholdEnergy := active.thresholdEnergy j
        addresses := if settings.arrayCallbacks then
          0 :: (if d.dims.length = 4 then [j + 1] else []) else [] }
  | _, _ => []

end Parse

section Attribution

variable {ε : Type*} (t : Thresholds ε)

/-- The thresholds that can be enabled. -/
def thresholdsOf : EigerModel → List ℕ
  | .eiger1 => [1]
  | .eiger2 => [1, 2]
  | .pilatus4 => [1, 2, 3, 4]

/-- The enabled thresholds in order. -/
def enabled (model : EigerModel) : List ℕ :=
  if model = .eiger1 then [1] else (thresholdsOf model).filter t.enable

/-- Every array has the number and the energy of the threshold at its place. -/
def Attributed (model : EigerModel) (images : List (Image ε)) : Prop :=
  ∀ image ∈ images, ∃ number, (enabled t model)[image.offset.2]? = some number ∧
    image.thresholdNumber = some number ∧ image.thresholdEnergy = some (t.energy number)

/-- The thresholds that the arrays hold, in order. -/
def Active.holds (a : Active ε) (numbers : List ℕ) : Prop :=
  a.nextThreshold = numbers.length ∧ ∀ j, a.activeThresholds j = numbers[j]? ∧
    a.thresholdEnergy j = (numbers[j]?).map t.energy

theorem holds_empty : (Active.empty : Active ε).holds t [] := ⟨rfl, fun _ => ⟨rfl, rfl⟩⟩

theorem getElem?_concat {α : Type*} (l : List α) (a : α) (j : ℕ) :
    (l ++ [a])[j]? = if j = l.length then some a else l[j]? := by
  by_cases hj : j = l.length
  · rw [if_pos hj, hj, List.getElem?_concat_length]
  · rw [if_neg hj]
    by_cases hlt : j < l.length
    · exact List.getElem?_append_left hlt
    · rw [List.getElem?_eq_none (by rw [List.length_append, List.length_singleton]; omega),
        List.getElem?_eq_none (by omega)]

variable {t} in
theorem Active.holds.store {a : Active ε} {numbers : List ℕ} (h : a.holds t numbers)
    (number : ℕ) (j : ℕ) :
    (a.store number (t.energy number)).activeThresholds j = (numbers ++ [number])[j]? ∧
      (a.store number (t.energy number)).thresholdEnergy j =
        ((numbers ++ [number])[j]?).map t.energy := by
  rw [getElem?_concat]
  simp only [Active.store, h.1]
  by_cases hj : j = numbers.length
  · rw [if_pos hj, if_pos hj, if_pos hj]
    exact ⟨rfl, rfl⟩
  · rw [if_neg hj, if_neg hj, if_neg hj]
    exact h.2 j

variable {t} in
theorem Active.holds.read {a : Active ε} {numbers : List ℕ} (h : a.holds t numbers)
    (number : ℕ) : (a.read t number).holds t (numbers ++ [number].filter t.enable) := by
  rw [Active.read]
  cases he : t.enable number with
  | true =>
    rw [if_pos rfl, List.filter_cons_of_pos he, List.filter_nil]
    refine ⟨?_, h.store number⟩
    rw [List.length_append, List.length_singleton, h.1]
  | false =>
    rw [if_neg Bool.false_ne_true, List.filter_cons_of_neg (by simp [he]), List.filter_nil,
      List.append_nil]
    exact h

/-- The thresholds that are found: never the third and the fourth. -/
def recorded (model : EigerModel) : List ℕ :=
  if model = .eiger1 then [1] else [1, 2].filter t.enable

theorem findActive_eq (model : EigerModel) (j : ℕ) :
    (findActive model t).activeThresholds j = (recorded t model)[j]? ∧
      (findActive model t).thresholdEnergy j = ((recorded t model)[j]?).map t.energy := by
  rw [findActive, recorded]
  by_cases h1 : model = .eiger1
  · rw [if_pos h1, if_pos h1]
    exact (holds_empty t).store 1 j
  · have h2 : model = .eiger2 ∨ model = .pilatus4 := by
      cases model with
      | eiger1 => exact absurd rfl h1
      | eiger2 => exact .inl rfl
      | pilatus4 => exact .inr rfl
    rw [if_neg h1, if_pos h2, if_neg h1]
    have hread := (((holds_empty t).read 1).read 2).2 j
    rwa [List.nil_append, ← List.filter_append] at hread

theorem enabled_eq (model : EigerModel) : ∃ others, enabled t model = recorded t model ++ others ∧
    (others = [] ↔ model = .pilatus4 → t.enable 3 = false ∧ t.enable 4 = false) := by
  cases model with
  | eiger1 => exact ⟨[], rfl, by simp⟩
  | eiger2 => exact ⟨[], by simp [enabled, recorded, thresholdsOf], by simp⟩
  | pilatus4 =>
    refine ⟨[3, 4].filter t.enable, ?_, by simp [List.filter_eq_nil_iff]⟩
    change [1, 2, 3, 4].filter t.enable = [1, 2].filter t.enable ++ [3, 4].filter t.enable
    rw [← List.filter_append]
    rfl

theorem length_enabled_le (model : EigerModel) : (enabled t model).length ≤ 4 := by
  rw [enabled]
  split_ifs
  · decide
  · apply Nat.le_trans (List.length_filter_le _ _)
    cases model <;> decide

end Attribution

section Loops

variable {p : ℕ → Bool} {alloc : ℕ → ℕ → Bool} {i j n : ℕ}

theorem mem_takeWhile_range' {start : ℕ} : j ∈ (List.range' start n).takeWhile p ↔
    start ≤ j ∧ j < start + n ∧ ∀ k, start ≤ k → k ≤ j → p k = true := by
  induction n generalizing start with
  | zero =>
    rw [List.range'_zero, List.takeWhile_nil]
    constructor
    · intro h
      cases h
    · intro h
      omega
  | succ n ih =>
    rw [List.range'_succ]
    by_cases hp : p start = true
    · rw [List.takeWhile_cons_of_pos hp, List.mem_cons, ih]
      constructor
      · rintro (rfl | ⟨hle, hlt, hall⟩)
        · refine ⟨Nat.le_refl _, by omega, fun k hk hkj => ?_⟩
          obtain rfl := Nat.le_antisymm hkj hk
          exact hp
        · refine ⟨by omega, by omega, fun k hk hkj => ?_⟩
          by_cases hks : k = start
          · rw [hks]
            exact hp
          · exact hall k (by omega) hkj
      · rintro ⟨hle, hlt, hall⟩
        by_cases hj : j = start
        · exact .inl hj
        · exact .inr ⟨by omega, by omega, fun k hk hkj => hall k (by omega) hkj⟩
    · rw [List.takeWhile_cons_of_neg hp]
      constructor
      · intro h
        cases h
      · intro h
        exact absurd (h.2.2 start (Nat.le_refl _) h.1) hp

theorem intBound_of_lt {n : ℕ} (h : n < 2 ^ 31) : intBound n = n := by
  have hmod : n % 2 ^ 32 = n := Nat.mod_eq_of_lt (by omega)
  rw [intBound, hmod, if_pos h]

theorem mem_made {nImages nThresh : ℕ} : (i, j) ∈ made alloc nImages nThresh ↔
    i < intBound nImages ∧ j < intBound nThresh ∧ ∀ k ≤ j, alloc i k = true := by
  have hrange : j ∈ thresholdsMade alloc i nThresh ↔
      j < intBound nThresh ∧ ∀ k ≤ j, alloc i k = true := by
    rw [thresholdsMade, List.range_eq_range', mem_takeWhile_range']
    constructor
    · rintro ⟨-, hlt, hall⟩
      exact ⟨by omega, fun k hk => hall k (Nat.zero_le _) hk⟩
    · rintro ⟨hlt, hall⟩
      exact ⟨Nat.zero_le _, by omega, fun k _ hk => hall k hk⟩
  rw [made, List.mem_flatMap]
  constructor
  · rintro ⟨i', hi, hmem⟩
    obtain ⟨j', hj, hpair⟩ := List.mem_map.mp hmem
    obtain ⟨rfl, rfl⟩ := Prod.mk.inj hpair
    exact ⟨List.mem_range.mp hi, hrange.mp hj⟩
  · rintro ⟨hi, hj⟩
    exact ⟨i, List.mem_range.mpr hi, List.mem_map.mpr ⟨j, hrange.mpr hj, rfl⟩⟩

end Loops

section Correct

variable {ε : Type*} {t : Thresholds ε} {model : EigerModel} {settings : Settings} {d : Dataset}
  {nImages nThresh height width : ℕ} {dType : DataType}
  (hsizes : d.sizes = some (nImages, nThresh, height, width)) (htype : d.dType = some dType)

include hsizes htype

theorem image_made {image : Image ε} (h : image ∈ parseH5File model t settings d) :
    image.offset ∈ made settings.alloc nImages nThresh ∧
      image.thresholdNumber = (recorded t model)[image.offset.2]? ∧
      image.thresholdEnergy = ((recorded t model)[image.offset.2]?).map t.energy := by
  simp only [parseH5File, hsizes, htype] at h
  obtain ⟨k, hk, rfl⟩ := List.mem_mapIdx.mp h
  exact ⟨List.getElem_mem hk, findActive_eq t model _⟩

theorem made_image (t : Thresholds ε) (model : EigerModel) {offset : ℕ × ℕ}
    (h : offset ∈ made settings.alloc nImages nThresh) :
    ∃ image ∈ parseH5File model t settings d, image.offset = offset := by
  obtain ⟨k, hk, rfl⟩ := List.getElem_of_mem h
  simp only [parseH5File, hsizes, htype]
  exact ⟨_, List.mem_mapIdx.mpr ⟨k, hk, rfl⟩, rfl⟩

/-- For every file with as many thresholds as are enabled. -/
theorem thresholds_attributed_iff (hthresh : nThresh = (enabled t model).length) :
    Attributed t model (parseH5File model t settings d) ↔
      (model = .pilatus4 → t.enable 3 = false ∧ t.enable 4 = false) ∨
        ∀ i < intBound nImages, ∃ j ≤ ([1, 2].filter t.enable).length,
          settings.alloc i j = false := by
  obtain ⟨others, henabled, hothers⟩ := enabled_eq t model
  have hle := length_enabled_le t model
  have hbound : intBound nThresh = nThresh := intBound_of_lt (by omega)
  have hmodel : others ≠ [] → model = .pilatus4 := by
    intro hsome
    by_contra hmodel
    exact hsome (hothers.mpr fun h => absurd h hmodel)
  have hplace : ∀ image ∈ parseH5File model t settings d,
      image.offset.2 < (recorded t model).length → ∃ number,
        (enabled t model)[image.offset.2]? = some number ∧
          image.thresholdNumber = some number ∧
            image.thresholdEnergy = some (t.energy number) := by
    intro image himage hlt
    obtain ⟨-, hnumber, henergy⟩ := image_made hsizes htype himage
    have hget := List.getElem?_eq_getElem hlt
    refine ⟨(recorded t model)[image.offset.2], ?_, hnumber.trans hget, ?_⟩
    · rw [henabled, List.getElem?_append_left hlt, hget]
    · rw [henergy, hget]
      rfl
  constructor
  · intro h
    by_cases hnone : others = []
    · exact .inl (hothers.mp hnone)
    · right
      intro i hi
      by_contra hall
      -- an array is made at the place behind those that are found
      have hpos : 0 < others.length := List.length_pos_iff.mpr hnone
      have hlen : nThresh = (recorded t model).length + others.length := by
        rw [hthresh, henabled, List.length_append]
      have hmade : (i, (recorded t model).length) ∈ made settings.alloc nImages nThresh := by
        refine mem_made.mpr ⟨hi, by omega, fun k hk => ?_⟩
        by_contra hk'
        refine hall ⟨k, ?_, by simpa using hk'⟩
        rw [hmodel hnone] at hk
        exact hk
      obtain ⟨image, himage, hoffset⟩ :=
        made_image hsizes htype t model hmade
      obtain ⟨number, -, hnumber, -⟩ := h image himage
      rw [(image_made hsizes htype himage).2.1, hoffset, List.getElem?_eq_none (Nat.le_refl _)]
        at hnumber
      cases hnumber
  · intro h image himage
    obtain ⟨hmade, -⟩ := image_made hsizes htype himage
    obtain ⟨hi, hj, hall⟩ := mem_made.mp hmade
    apply hplace image himage
    by_cases hnone : others = []
    · rw [hnone, List.append_nil] at henabled
      rw [← henabled, ← hthresh, ← hbound]
      exact hj
    · obtain ⟨j, hle, hfalse⟩ :=
        (h.resolve_left fun hno => hnone (hothers.mpr hno)) image.offset.1 hi
      by_contra hge
      refine Bool.false_ne_true (hfalse.symm.trans (hall j ?_))
      rw [hmodel hnone] at hge
      exact Nat.le_trans hle (Nat.le_of_not_lt hge)

end Correct

section Examples

/-- Only the thresholds of `numbers` are enabled. -/
def withThresholds (numbers : List ℕ) : Thresholds ℕ := ⟨fun n => numbers.contains n, fun n => n⟩

def allocates : Settings := ⟨false, true, 0, fun _ _ => true⟩

/-- One image of one pixel, with `n` thresholds. -/
def onePixel (n : ℕ) : Dataset := ⟨[1, n, 1, 1], some .uint32⟩

theorem thresholds_attributed_two :
    Attributed (withThresholds [1, 2]) .pilatus4
      (parseH5File .pilatus4 (withThresholds [1, 2]) allocates (onePixel 2)) ↔
      (EigerModel.pilatus4 = .pilatus4 → (withThresholds [1, 2]).enable 3 = false ∧
        (withThresholds [1, 2]).enable 4 = false) ∨
        ∀ i < intBound 1, ∃ j ≤ ([1, 2].filter (withThresholds [1, 2]).enable).length,
          allocates.alloc i j = false :=
  thresholds_attributed_iff rfl rfl rfl

/-- The third threshold alone. -/
theorem third_threshold_not_attributed : ¬ ∀ (model : EigerModel) (t : Thresholds ℕ)
    (settings : Settings) (d : Dataset) (nImages nThresh height width : ℕ),
    d.sizes = some (nImages, nThresh, height, width) → d.dType ≠ none →
      nThresh = (enabled t model).length →
        Attributed t model (parseH5File model t settings d) := by
  intro h
  have hattributed := h .pilatus4 (withThresholds [3]) allocates (onePixel 1) 1 1 1 1 rfl
    (Option.some_ne_none _) rfl
  obtain ⟨number, -, hnumber, -⟩ := hattributed _ (List.mem_singleton_self _)
  cases hnumber

end Examples

end ParseH5File
