import Ammalloc.Config

set_option relaxedAutoImplicit false
set_option autoImplicit false

/-!
# Size classes

The ladder of `include/ammalloc/size_class.h`: a linear region in steps of `ALIGNMENT` up to
128 bytes, then four classes for each power-of-two interval, and the two policies indexed by
class (objects moved in one batch, pages borrowed for one span).

## Main definitions

* `Ammalloc.SizeClass.calculateIndex`, `Ammalloc.SizeClass.calculateSize` — the formulas.
* `Ammalloc.SizeClass.index`, `size`, `roundUp`, `calculateBatchSize`, `getMovePageNum` — the
  interface used by the caches.

## Main results

* `Ammalloc.SizeClass.le_calculateSize_calculateIndex` — a request fits its class.
* `Ammalloc.SizeClass.index_lt`, `Ammalloc.SizeClass.size_bounds` — the class table.
-/

namespace Ammalloc

namespace SizeClass

/-! ## The formulas -/

/-- `detail::CalculateIndex`. For `s > 128` the interval number `msb` is the top bit of
`s - 1`, and the two bits below it select one of four classes. -/
def calculateIndex (originalSize : ℕ) : ℕ :=
  if originalSize = 0 then 0
  else if originalSize ≤ 128 then (originalSize - 1) >>> 4
  else
    let msb := Nat.log2 (originalSize - 1)
    let groupIdx := msb - 7
    let baseIdx := 8 + (groupIdx <<< 2)
    let shift := msb - 2
    let groupOffset := ((originalSize - 1) >>> shift) &&& 3
    baseIdx + groupOffset

/-- `detail::CalculateSize`. -/
def calculateSize (idx : ℕ) : ℕ :=
  if idx < 8 then (idx + 1) <<< 4
  else
    let relativeIdx := idx - 8
    let groupIdx := relativeIdx >>> 2
    let stepIdx := relativeIdx &&& 3
    let msb := groupIdx + 7
    let baseSize := 1 <<< msb
    let stepSize := 1 <<< (msb - 2)
    baseSize + (stepIdx + 1) * stepSize

/-- `SizeClass::kNumSizeClasses`, which is `CalculateIndex(MAX_TC_SIZE) + 1`. -/
def kNumSizeClasses : ℕ := 40

/-- `SizeClass::kMaxBatchSize`. -/
def kMaxBatchSize : ℕ := 512

/-- `SizeClass::Index`; the small-size table holds the values of the formula. -/
def index (originalSize : ℕ) : ℕ :=
  if originalSize > maxTcSize then sizeMax else calculateIndex originalSize

/-- `SizeClass::Size`, a table of the values of the formula. -/
def size (idx : ℕ) : ℕ := calculateSize idx

/-- `SizeClass::RoundUp`. -/
def roundUp (originalSize : ℕ) : ℕ :=
  if index originalSize = sizeMax then originalSize else size (index originalSize)

/-- One entry of `batch_table_`. -/
def batchByIndex (idx : ℕ) : ℕ :=
  let batch := maxTcSize / size idx
  let batch := if batch < 2 then 2 else batch
  if batch > kMaxBatchSize then kMaxBatchSize else batch

/-- `SizeClass::CalculateBatchSize`. -/
def calculateBatchSize (alignedSize : ℕ) : ℕ :=
  if alignedSize = 0 ∨ alignedSize > maxTcSize then 0 else batchByIndex (index alignedSize)

/-- One entry of `move_page_table_`. -/
def movePagesByIndex (idx : ℕ) : ℕ :=
  let totalObjs := batchByIndex idx <<< 3
  let totalBytes := totalObjs * size idx
  let totalBytes := if totalBytes < 32 * 1024 then 32 * 1024 else totalBytes
  let pages := (totalBytes + pageSize - 1) >>> pageShift
  if pages > maxPageNum then maxPageNum else pages

/-- `SizeClass::GetMovePageNum`. -/
def getMovePageNum (alignedSize : ℕ) : ℕ :=
  if alignedSize = 0 ∨ alignedSize > maxTcSize then 0 else movePagesByIndex (index alignedSize)

/-! ## A request fits its class -/

/-- The two bits selected by the mask in the geometric region are `q - 4` when `4 ≤ q < 8`. -/
lemma and_three_of_bounds {q : ℕ} (h₁ : 4 ≤ q) (h₂ : q < 8) : q &&& 3 = q - 4 := by
  interval_cases q <;> rfl

/-- The class of a request above 128 bytes, decoded: with `m` the top bit of `s - 1` and
`q = (s - 1) / 2 ^ (m - 2)`, the index is `8 + 4 (m - 7) + (q - 4)`. -/
lemma calculateIndex_of_gt {s : ℕ} (hs : 128 < s) :
    ∃ m q, 7 ≤ m ∧ 4 ≤ q ∧ q < 8 ∧ q * 2 ^ (m - 2) ≤ s - 1 ∧ s - 1 < (q + 1) * 2 ^ (m - 2) ∧
      2 ^ m ≤ s - 1 ∧ calculateIndex s = 8 + 4 * (m - 7) + (q - 4) := by
  have hne : s - 1 ≠ 0 := by omega
  set m := Nat.log2 (s - 1) with hm
  have hlo : 2 ^ m ≤ s - 1 := Nat.log2_self_le hne
  have hhi : s - 1 < 2 ^ (m + 1) := Nat.lt_log2_self
  have hm7 : 7 ≤ m := by
    have h : 2 ^ 7 ≤ s - 1 := by omega
    exact (Nat.le_log2 hne).2 h
  have hsplit : 2 ^ m = 4 * 2 ^ (m - 2) := by
    rw [show m = (m - 2) + 2 by omega, pow_add]
    simp [mul_comm]
  have hpos : 0 < 2 ^ (m - 2) := by positivity
  refine ⟨m, (s - 1) / 2 ^ (m - 2), hm7, ?_, ?_, Nat.div_mul_le_self _ _, ?_, hlo, ?_⟩
  · rw [Nat.le_div_iff_mul_le hpos]; omega
  · rw [Nat.div_lt_iff_lt_mul hpos]
    rw [pow_succ] at hhi; omega
  · have := Nat.lt_div_mul_add (a := s - 1) hpos
    rw [add_mul, one_mul]; exact this
  · have h4 : 4 ≤ (s - 1) / 2 ^ (m - 2) := by rw [Nat.le_div_iff_mul_le hpos]; omega
    have h8 : (s - 1) / 2 ^ (m - 2) < 8 := by
      rw [Nat.div_lt_iff_lt_mul hpos]
      rw [pow_succ] at hhi; omega
    have hand := and_three_of_bounds h4 h8
    simp only [calculateIndex, if_neg (show s ≠ 0 by omega), if_neg (show ¬ s ≤ 128 by omega),
      ← hm, Nat.shiftRight_eq_div_pow, Nat.shiftLeft_eq]
    rw [hand]
    omega

/-- The size of the class with group `m - 7` and step `q - 4` is `(q + 1) * 2 ^ (m - 2)`. -/
lemma calculateSize_group {m q : ℕ} (hm : 7 ≤ m) (h₁ : 4 ≤ q) (h₂ : q < 8) :
    calculateSize (8 + 4 * (m - 7) + (q - 4)) = (q + 1) * 2 ^ (m - 2) := by
  have hrel : 8 + 4 * (m - 7) + (q - 4) - 8 = 4 * (m - 7) + (q - 4) := by omega
  have hgrp : (4 * (m - 7) + (q - 4)) / 2 ^ 2 = m - 7 := by omega
  have hstep : (4 * (m - 7) + (q - 4)) &&& 3 = q - 4 := by
    rw [show (3 : ℕ) = 2 ^ 2 - 1 by norm_num, Nat.and_two_pow_sub_one_eq_mod]; omega
  have hsplit : 2 ^ m = 4 * 2 ^ (m - 2) := by
    rw [show m = (m - 2) + 2 by omega, pow_add]
    simp [mul_comm]
  simp only [calculateSize, if_neg (show ¬ 8 + 4 * (m - 7) + (q - 4) < 8 by omega), hrel,
    Nat.shiftRight_eq_div_pow, hgrp, hstep, Nat.shiftLeft_eq, one_mul]
  rw [show m - 7 + 7 = m by omega, hsplit, ← add_mul]
  congr 1; omega

/-- **A request fits its class**: `s ≤ CalculateSize(CalculateIndex(s))`. -/
theorem le_calculateSize_calculateIndex (s : ℕ) : s ≤ calculateSize (calculateIndex s) := by
  rcases Nat.eq_zero_or_pos s with rfl | hpos
  · simp
  by_cases hs : s ≤ 128
  · have hidx : calculateIndex s = (s - 1) / 16 := by
      simp only [calculateIndex, if_neg (show s ≠ 0 by omega), if_pos hs,
        Nat.shiftRight_eq_div_pow]
    rw [hidx]
    have hlt : (s - 1) / 16 < 8 := by omega
    simp only [calculateSize, if_pos hlt, Nat.shiftLeft_eq]
    omega
  · obtain ⟨m, q, hm, h₁, h₂, -, hhi, -, hidx⟩ := calculateIndex_of_gt (show 128 < s by omega)
    rw [hidx, calculateSize_group hm h₁ h₂]
    omega

/-- Requests a ThreadCache serves have a class below `kNumSizeClasses`. -/
theorem index_lt {s : ℕ} (hs : s ≤ maxTcSize) : index s < kNumSizeClasses := by
  rw [index, if_neg (show ¬ s > maxTcSize by omega)]
  unfold maxTcSize at hs
  unfold kNumSizeClasses
  by_cases h : s ≤ 128
  · rw [calculateIndex]
    split
    · omega
    · rw [Nat.shiftRight_eq_div_pow]; omega
  · obtain ⟨m, q, hm, h₁, h₂, -, -, hlo, hidx⟩ := calculateIndex_of_gt (show 128 < s by omega)
    have hm15 : m < 15 := by
      by_contra hge
      have : 2 ^ 15 ≤ 2 ^ m := Nat.pow_le_pow_right (by norm_num) (by omega)
      omega
    omega

/-- `SizeClass::RoundUp` on the requests a ThreadCache serves. -/
theorem roundUp_eq {s : ℕ} (hs : s ≤ maxTcSize) : roundUp s = size (index s) := by
  have hlt := index_lt hs
  unfold kNumSizeClasses at hlt
  have hne : index s ≠ sizeMax := by unfold sizeMax; omega
  simp only [roundUp, if_neg hne]

/-- A ThreadCache request fits the class it is rounded up to. -/
theorem le_size_index {s : ℕ} (hs : s ≤ maxTcSize) : s ≤ size (index s) := by
  have h := le_calculateSize_calculateIndex s
  simpa only [index, if_neg (show ¬ s > maxTcSize by omega), size] using h

/-! ## The class table -/

/-- Every class size is a positive multiple of `ALIGNMENT` and at most `MAX_TC_SIZE`. -/
theorem size_bounds : ∀ idx < kNumSizeClasses,
    0 < size idx ∧ size idx ≤ maxTcSize ∧ size idx % alignment = 0 := by
  decide

/-- `Index` is a left inverse of `Size` on the class table. -/
theorem index_size : ∀ idx < kNumSizeClasses, index (size idx) = idx := by
  decide

/-- Batches hold at least two and at most `kMaxBatchSize` objects. -/
theorem batchByIndex_bounds : ∀ idx < kNumSizeClasses,
    2 ≤ batchByIndex idx ∧ batchByIndex idx ≤ kMaxBatchSize := by
  decide

/-- A class size is accepted by the two policies, which then read the class tables. -/
theorem calculateBatchSize_size {idx : ℕ} (h : idx < kNumSizeClasses) :
    calculateBatchSize (size idx) = batchByIndex idx := by
  obtain ⟨h₁, h₂, -⟩ := size_bounds idx h
  simp only [calculateBatchSize, index_size idx h,
    if_neg (show ¬ (size idx = 0 ∨ size idx > maxTcSize) by omega)]

/-- The batch size of a class is between 2 and `kMaxBatchSize`. -/
theorem calculateBatchSize_bounds {idx : ℕ} (h : idx < kNumSizeClasses) :
    2 ≤ calculateBatchSize (size idx) ∧ calculateBatchSize (size idx) ≤ kMaxBatchSize := by
  rw [calculateBatchSize_size h]
  exact batchByIndex_bounds idx h

end SizeClass

end Ammalloc
