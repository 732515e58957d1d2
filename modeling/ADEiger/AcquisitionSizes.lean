import ADEiger.Binary64
import ADEiger.ExpectedImages
import ADEiger.FileWriter
import Mathlib.Order.Bounds.Basic

/-! The sizes that controlTask computes for an acquisition.
The product of images and triggers is one of `int`; the number of files comes from a division of
`double`. -/
namespace AcquisitionSizes

open FileWriter (File buildFile)

/-- The parameters as they stand when the product is formed: `numImages` is 1 by then in the modes
INTE and EXTE. -/
structure Latched where
  numImages : ℤ
  numTriggers : ℤ
  numImagesPerFile : ℤ
  images_pos : 1 ≤ numImages
  triggers_pos : 1 ≤ numTriggers
  perFile_pos : 1 ≤ numImagesPerFile
  images_int : numImages < 2 ^ 31
  triggers_int : numTriggers < 2 ^ 31
  perFile_int : numImagesPerFile < 2 ^ 31

namespace Latched

variable (l : Latched)

/-- The images that the detector takes. -/
def images : ℤ := l.numImages * l.numTriggers

/-- `numImages*numTriggers` in `int`. -/
def product : ℤ := Int.bmod l.images (2 ^ 32)

/-- `int expectedImages = numImages * numTriggers;` -/
def expectedImages : ℤ := l.product

/-- A `double` that is converted to `size_t`. -/
def toSizeT (x : ℤ) : ℕ := (x % 2 ^ 64).toNat

/-- `ceil(((double)(numImages*numTriggers))/((double)numImagesPerFile))`; an `int` is exact as a
`double`. -/
def nDataFiles : ℕ :=
  toSizeT ⌈Binary64.round ((l.product : ℚ) / l.numImagesPerFile)⌉

/-- What is sent to pollTask, with the other fields of `acq`. -/
def acquisition (acq : FileWriter.Acquisition) : FileWriter.Acquisition :=
  { acq with nDataFiles := l.nDataFiles }

/-- The list that pollTask makes: `totalFiles` files from the master on. -/
def filesList (acq : FileWriter.Acquisition) (uid gid : ℕ) : List File :=
  (List.range (acq.nDataFiles + 1)).map (buildFile acq uid gid)

/-- It is the memory that pollTask works on. -/
theorem filesList_received (s : FileWriter.State) (acq : FileWriter.Acquisition) (uid gid : ℕ) :
    (FileWriter.next s (.receiveAcquisition acq uid gid)).totalFiles =
      (filesList acq uid gid).length ∧
    ∀ i (hi : i < (filesList acq uid gid).length),
      (FileWriter.next s (.receiveAcquisition acq uid gid)).files ⟨s.block + 1, i⟩ =
        (filesList acq uid gid)[i] := by
  constructor
  · rw [filesList, List.length_map, List.length_range]
    rfl
  · intro i hi
    simp only [filesList, List.getElem_map, List.getElem_range]
    exact if_pos rfl

theorem expectedImages_eq (thresholds : ℕ) (source : ExpectedImages.Source) :
    l.expectedImages =
      (⟨l.numImages, l.numTriggers, thresholds, source⟩ :
        ExpectedImages.Acquisition).expectedImages := rfl

/-- As the numbers are without any bounds. -/
structure Exact (acq : FileWriter.Acquisition) (uid gid : ℕ) : Prop where
  least : IsLeast {n : ℕ | l.images ≤ n * l.numImagesPerFile} (l.acquisition acq).nDataFiles
  expected : l.expectedImages = l.images
  listed : ∀ k : ℕ, k + 1 < (filesList (l.acquisition acq) uid gid).length ↔
    ∃ image : ℤ, 0 ≤ image ∧ image < l.images ∧ image / l.numImagesPerFile = k

variable {l}

theorem images_pos' : 1 ≤ l.images := by
  have h := mul_le_mul l.images_pos l.triggers_pos (by decide)
    (le_trans (by decide) l.images_pos)
  exact le_trans (by decide) h

theorem product_eq (h : l.images < 2 ^ 31) : l.product = l.images := by
  have hpos := l.images_pos'
  exact Int.bmod_eq_of_le (by omega) (by omega)

theorem product_lt : l.product < 2 ^ 31 := by
  have h := Int.bmod_lt (x := l.images) (m := 2 ^ 32) (by decide)
  exact lt_of_lt_of_le h (by decide)

theorem least_ceil : IsLeast {n : ℕ | l.images ≤ n * l.numImagesPerFile}
    ⌈(l.images : ℚ) / l.numImagesPerFile⌉.toNat := by
  have hperFile : (0 : ℚ) < l.numImagesPerFile := Int.cast_pos.mpr l.perFile_pos
  have hle : ∀ n : ℕ, l.images ≤ n * l.numImagesPerFile ↔
      ⌈(l.images : ℚ) / l.numImagesPerFile⌉ ≤ n := by
    intro n
    rw [Int.ceil_le, div_le_iff₀ hperFile]
    push_cast
    exact_mod_cast Iff.rfl
  constructor
  · exact (hle _).mpr (Int.self_le_toNat _)
  · intro n hn
    exact Int.toNat_le.mpr ((hle n).mp hn)

theorem nDataFiles_least (h : l.images < 2 ^ 31) :
    IsLeast {n : ℕ | l.images ≤ n * l.numImagesPerFile} l.nDataFiles := by
  have hpos := l.images_pos'
  have hceil : ⌈Binary64.round ((l.product : ℚ) / l.numImagesPerFile)⌉ =
      ⌈(l.images : ℚ) / l.numImagesPerFile⌉ := by
    rw [product_eq h]
    exact Binary64.ceil_round_div hpos l.perFile_pos (lt_trans h (by decide))
  have hbound : ⌈(l.images : ℚ) / l.numImagesPerFile⌉ ≤ l.images := by
    rw [Int.ceil_le]
    apply div_le_self
    · exact_mod_cast le_trans (by decide) hpos
    · exact_mod_cast l.perFile_pos
  have hnonneg : 0 ≤ ⌈(l.images : ℚ) / l.numImagesPerFile⌉ := by
    apply Int.ceil_nonneg
    apply div_nonneg
    · exact_mod_cast le_trans (by decide) hpos
    · exact_mod_cast le_trans (by decide) l.perFile_pos
  have hsize : l.nDataFiles = ⌈(l.images : ℚ) / l.numImagesPerFile⌉.toNat := by
    rw [nDataFiles, hceil, toSizeT, Int.emod_eq_of_lt hnonneg (by omega)]
  rw [hsize]
  exact least_ceil

theorem listed_iff {n : ℕ} (hleast : IsLeast {n : ℕ | l.images ≤ n * l.numImagesPerFile} n)
    (k : ℕ) : k < n ↔ ∃ image : ℤ, 0 ≤ image ∧ image < l.images ∧
      image / l.numImagesPerFile = k := by
  have hperFile : 0 < l.numImagesPerFile := l.perFile_pos
  constructor
  · intro hk
    refine ⟨k * l.numImagesPerFile, by positivity, ?_, Int.mul_ediv_cancel _ hperFile.ne'⟩
    by_contra hle
    exact absurd (hleast.2 (not_lt.mp hle)) (Nat.not_le.mpr hk)
  · rintro ⟨image, -, hlt, hdiv⟩
    by_contra hle
    have hfile : (k : ℤ) * l.numImagesPerFile ≤ image := by
      rw [← hdiv]
      exact Int.ediv_mul_le _ hperFile.ne'
    have hall : (n : ℤ) * l.numImagesPerFile ≤ k * l.numImagesPerFile :=
      mul_le_mul_of_nonneg_right (by omega) hperFile.le
    have hmem : l.images ≤ n * l.numImagesPerFile := hleast.1
    omega

theorem exact_iff (l : Latched) (acq : FileWriter.Acquisition) (uid gid : ℕ) :
    l.Exact acq uid gid ↔ l.images < 2 ^ 31 := by
  constructor
  · intro h
    rw [← h.expected]
    exact product_lt
  · intro h
    constructor
    · exact nDataFiles_least h
    · exact product_eq h
    · intro k
      rw [filesList, List.length_map, List.length_range, Nat.add_lt_add_iff_right]
      exact listed_iff (nDataFiles_least h) k

/-- 65536 images for each of 32768 triggers. -/
def largeSeries : Latched where
  numImages := 65536
  numTriggers := 32768
  numImagesPerFile := 1000
  images_pos := by decide
  triggers_pos := by decide
  perFile_pos := by decide
  images_int := by decide
  triggers_int := by decide
  perFile_int := by decide

theorem product_wraps : ¬ ∀ (l : Latched) (acq : FileWriter.Acquisition) (uid gid : ℕ),
    l.Exact acq uid gid := by
  intro h
  have hexpected := (h largeSeries ⟨[], 1, 0, true, false, false, 0o644⟩ 0 0).expected
  exact absurd hexpected (by decide)

end Latched

end AcquisitionSizes
