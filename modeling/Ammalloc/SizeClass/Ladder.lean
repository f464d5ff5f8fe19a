import Ammalloc.Lib.Checked
import Ammalloc.SizeClass

set_option relaxedAutoImplicit false
set_option autoImplicit false

/-!
# The ladder of size classes

`CalculateIndex` and `CalculateSize` over the whole 64-bit range. The index of a request is the
least index whose class holds it: the two formulas form a Galois connection, and everything else
about the ladder follows from that. On checked words the formulas compute the same values, so no
shift or addition overflows.

## Main definitions

* `Ammalloc.SizeClass.checkedIndex`, `Ammalloc.SizeClass.checkedSize` — the formulas on checked
  words.

## Main results

* `Ammalloc.SizeClass.calculateSize_strictMono`, `Ammalloc.SizeClass.calculateSize_lt_of_index`.
* `Ammalloc.SizeClass.calculateIndex_le_iff` — the Galois connection.
* `Ammalloc.SizeClass.ladder_law`.
-/

namespace Ammalloc

namespace SizeClass

/-! ## The formulas on checked words -/

/-- `detail::CalculateIndex` on checked words; `msb`, `group_idx` and `shift` are of type `int`. -/
def checkedIndex (originalSize : ℕ) : Option ℕ :=
  if originalSize = 0 then some 0
  else if originalSize ≤ 128 then do
    let top ← Checked.sub originalSize 1
    Checked.shiftRight 64 top 4
  else do
    let top ← Checked.sub originalSize 1
    let bitWidth ← Checked.fit 31 (Nat.log2 top + 1)
    let msb ← Checked.sub bitWidth 1
    let groupIdx ← Checked.sub msb 7
    let steps ← Checked.shiftLeft 31 groupIdx 2
    let baseIdx ← Checked.fit 64 (8 + steps)
    let shift ← Checked.sub msb 2
    let high ← Checked.shiftRight 64 top shift
    Checked.fit 64 (baseIdx + (high &&& 3))

/-- `detail::CalculateSize` on checked words. -/
def checkedSize (idx : ℕ) : Option ℕ :=
  if idx < 8 then do
    let next ← Checked.fit 64 (idx + 1)
    Checked.shiftLeft 64 next 4
  else do
    let relativeIdx ← Checked.sub idx 8
    let groupIdx ← Checked.shiftRight 64 relativeIdx 2
    let stepIdx := relativeIdx &&& 3
    let msb ← Checked.fit 64 (groupIdx + 7)
    let baseSize ← Checked.shiftLeft 64 1 msb
    let stepShift ← Checked.sub msb 2
    let stepSize ← Checked.shiftLeft 64 1 stepShift
    let next ← Checked.fit 64 (stepIdx + 1)
    let bytes ← Checked.fit 64 (next * stepSize)
    Checked.fit 64 (baseSize + bytes)

/-! ## The ladder -/

/-- The linear region. -/
lemma calculateSize_of_lt {i : ℕ} (h : i < 8) : calculateSize i = 16 * (i + 1) := by
  rw [calculateSize, if_pos h, Nat.shiftLeft_eq]
  omega

/-- An index above the linear region, by group and step. -/
lemma exists_group {i : ℕ} (h : 8 ≤ i) :
    ∃ m q, 7 ≤ m ∧ 4 ≤ q ∧ q < 8 ∧ i = 8 + 4 * (m - 7) + (q - 4) :=
  ⟨(i - 8) / 4 + 7, (i - 8) % 4 + 4, by omega, by omega, by omega, by omega⟩

/-- A step of group `m`, in steps of group `m - 1`. -/
lemma two_pow_step {m : ℕ} (h : 3 ≤ m) : 2 ^ (m - 2) = 2 * 2 ^ (m - 3) := by
  rw [show m - 2 = m - 3 + 1 by omega, pow_succ]
  omega

/-- **The class sizes increase.** -/
theorem calculateSize_strictMono : StrictMono calculateSize := by
  refine strictMono_nat_of_lt_succ fun i => ?_
  rcases Nat.lt_or_ge i 7 with hlt | hge
  · rw [calculateSize_of_lt (by omega), calculateSize_of_lt (by omega)]
    omega
  rcases Nat.eq_or_lt_of_le hge with rfl | hgt
  · decide
  obtain ⟨m, q, hm, h₁, h₂, rfl⟩ := exists_group (show 8 ≤ i by omega)
  have hpos : 0 < 2 ^ (m - 2) := Nat.two_pow_pos _
  rw [calculateSize_group hm h₁ h₂]
  rcases Nat.lt_or_ge q 7 with hq | hq
  · -- the next step of the same group
    have hnext : 8 + 4 * (m - 7) + (q - 4) + 1 = 8 + 4 * (m - 7) + (q + 1 - 4) := by omega
    rw [hnext, calculateSize_group hm (by omega) (by omega)]
    exact Nat.mul_lt_mul_of_pos_right (by omega) hpos
  · -- the first step of the next group
    obtain rfl : q = 7 := by omega
    have hnext : 8 + 4 * (m - 7) + (7 - 4) + 1 = 8 + 4 * (m + 1 - 7) + (4 - 4) := by omega
    have hstep := two_pow_step (show 3 ≤ m + 1 by omega)
    rw [hnext, calculateSize_group (by omega) le_rfl (by omega), hstep]
    show (7 + 1) * 2 ^ (m - 2) < (4 + 1) * (2 * 2 ^ (m - 2))
    omega

/-- The class below that of a request is too small. -/
lemma calculateSize_lt_of_index {s j : ℕ} (h : calculateIndex s = j + 1) : calculateSize j < s := by
  have hs₀ : s ≠ 0 := by
    rintro rfl
    exact absurd h (by simp [calculateIndex])
  by_cases hs : s ≤ 128
  · rw [calculateIndex, if_neg hs₀, if_pos hs, Nat.shiftRight_eq_div_pow] at h
    rw [calculateSize_of_lt (by omega)]
    omega
  obtain ⟨m, q, hm, h₁, h₂, hlo, -, htop, hidx⟩ := calculateIndex_of_gt (show 128 < s by omega)
  rw [h] at hidx
  rcases Nat.eq_or_lt_of_le h₁ with rfl | hq
  · rcases Nat.eq_or_lt_of_le hm with rfl | hm'
    · -- the end of the linear region
      obtain rfl : j = 7 := by omega
      rw [calculateSize_of_lt (by omega)]
      omega
    · -- the last step of the group below
      obtain rfl : j = 8 + 4 * (m - 1 - 7) + (7 - 4) := by omega
      have hstep := two_pow_step (show 3 ≤ m by omega)
      rw [calculateSize_group (by omega) (by omega) (by omega), show m - 1 - 2 = m - 3 by omega]
      omega
  · obtain rfl : j = 8 + 4 * (m - 7) + (q - 1 - 4) := by omega
    rw [calculateSize_group hm (by omega) (by omega), Nat.sub_add_cancel (by omega)]
    omega

/-- **The Galois connection**: the index of a request is at most `i` exactly if class `i` holds
it.

**Proof sketch.** A request fits its class and not the one below it, and the sizes increase. -/
theorem calculateIndex_le_iff (s i : ℕ) : calculateIndex s ≤ i ↔ s ≤ calculateSize i := by
  constructor
  · intro h
    exact (le_calculateSize_calculateIndex s).trans (calculateSize_strictMono.monotone h)
  · intro h
    by_contra hlt
    obtain ⟨j, hj⟩ := Nat.exists_eq_succ_of_ne_zero (show calculateIndex s ≠ 0 by omega)
    have hsize := calculateSize_lt_of_index hj
    have hmono := calculateSize_strictMono.monotone (show i ≤ j by omega)
    omega

/-- `CalculateIndex` is a left inverse of `CalculateSize`. -/
theorem calculateIndex_calculateSize (i : ℕ) : calculateIndex (calculateSize i) = i := by
  refine le_antisymm ((calculateIndex_le_iff _ i).mpr le_rfl) ?_
  exact calculateSize_strictMono.le_iff_le.mp (le_calculateSize_calculateIndex _)

/-- Larger requests have larger classes. -/
lemma calculateIndex_mono : Monotone calculateIndex := fun s s' h =>
  (calculateIndex_le_iff s _).mpr (h.trans (le_calculateSize_calculateIndex s'))

/-- Every class size is a multiple of `ALIGNMENT`. -/
lemma alignment_dvd_calculateSize (i : ℕ) : alignment ∣ calculateSize i := by
  rcases Nat.lt_or_ge i 8 with hlt | hge
  · rw [calculateSize_of_lt hlt]
    exact Dvd.intro _ rfl
  · obtain ⟨m, q, hm, h₁, h₂, rfl⟩ := exists_group hge
    rw [calculateSize_group hm h₁ h₂]
    exact Dvd.dvd.mul_left (pow_dvd_pow 2 (show 4 ≤ m - 2 by omega)) (q + 1)

/-- **The waste of a class** is below `ALIGNMENT` in the linear region, and below a quarter of the
request above it. -/
lemma waste_lt {s : ℕ} (hs : 1 ≤ s) :
    (s ≤ 128 → calculateSize (calculateIndex s) - s < alignment) ∧
      (128 < s → calculateSize (calculateIndex s) - s < s / 4) := by
  constructor
  · intro hle
    have hidx : calculateIndex s = (s - 1) / 16 := by
      rw [calculateIndex, if_neg (by omega), if_pos hle, Nat.shiftRight_eq_div_pow]
    rw [hidx, calculateSize_of_lt (by omega)]
    unfold alignment
    omega
  · intro hgt
    obtain ⟨m, q, hm, h₁, h₂, hlo, -, -, hidx⟩ := calculateIndex_of_gt hgt
    rw [hidx, calculateSize_group hm h₁ h₂, Nat.add_mul, Nat.one_mul]
    -- the class is at most one step above the request, which has four steps below it
    have hfour : 4 * 2 ^ (m - 2) ≤ q * 2 ^ (m - 2) := Nat.mul_le_mul_right _ h₁
    have hpos : 0 < 2 ^ (m - 2) := Nat.two_pow_pos _
    omega

/-! ## No overflow -/

/-- The last index of the 64-bit range. -/
lemma calculateIndex_top : calculateIndex (2 ^ 63) = 231 := by decide +kernel

/-- **No step of `CalculateIndex` overflows.** -/
theorem checkedIndex_eq {s : ℕ} (hs : s < 2 ^ 64) : checkedIndex s = some (calculateIndex s) := by
  unfold checkedIndex calculateIndex
  split_ifs with h₀ hle
  · rfl
  · rw [Checked.sub_of_le (by omega), Option.bind_eq_bind, Option.bind_some,
      Checked.shiftRight_of_lt _ (by norm_num)]
  · have hne : s - 1 ≠ 0 := by omega
    have hlow : 7 ≤ Nat.log2 (s - 1) := (Nat.le_log2 hne).mpr (by omega)
    have hhigh : Nat.log2 (s - 1) < 64 := (Nat.log2_lt hne).mpr (by omega)
    have hand : ∀ x : ℕ, x &&& 3 < 4 := fun x => Nat.and_lt_two_pow x (n := 2) (by norm_num)
    have hoff := hand ((s - 1) >>> (Nat.log2 (s - 1) - 2))
    have hgroup : (Nat.log2 (s - 1) - 7) <<< 2 ≤ 224 := by
      rw [Nat.shiftLeft_eq]
      omega
    rw [Checked.sub_of_le (show 1 ≤ s by omega)]
    simp only [Option.bind_eq_bind, Option.bind_some]
    generalize Nat.log2 (s - 1) = m at *
    rw [Checked.fit_of_lt (by omega), Option.bind_some, Checked.sub_of_le (by omega),
      Option.bind_some, Nat.add_sub_cancel, Checked.sub_of_le hlow, Option.bind_some,
      Checked.shiftLeft_of_lt (by norm_num) (by omega), Option.bind_some,
      Checked.fit_of_lt (by omega), Option.bind_some, Checked.sub_of_le (by omega),
      Option.bind_some, Checked.shiftRight_of_lt _ (by omega), Option.bind_some,
      Checked.fit_of_lt (by omega)]

/-- **No step of `CalculateSize` overflows** in the 64-bit range. -/
theorem checkedSize_eq {i : ℕ} (hi : i ≤ 231) : checkedSize i = some (calculateSize i) := by
  unfold checkedSize calculateSize
  split_ifs with hlt
  · rw [Checked.fit_of_lt (by omega), Option.bind_eq_bind, Option.bind_some,
      Checked.shiftLeft_of_lt (by norm_num) (by rw [Nat.shiftLeft_eq]; omega)]
  · have hgroup : (i - 8) >>> 2 ≤ 55 := by
      rw [Nat.shiftRight_eq_div_pow]
      omega
    have hstep : (i - 8) &&& 3 < 4 := Nat.and_lt_two_pow _ (n := 2) (by norm_num)
    rw [Checked.sub_of_le (by omega)]
    simp only [Option.bind_eq_bind, Option.bind_some]
    rw [Checked.shiftRight_of_lt _ (by norm_num), Option.bind_some]
    generalize (i - 8) >>> 2 = g at *
    generalize (i - 8) &&& 3 = step at *
    have hbase : 2 ^ (g + 7) ≤ 2 ^ 62 := Nat.pow_le_pow_right (by norm_num) (by omega)
    have hsize : 2 ^ (g + 7 - 2) ≤ 2 ^ 60 := Nat.pow_le_pow_right (by norm_num) (by omega)
    have hbytes : (step + 1) * 2 ^ (g + 7 - 2) ≤ 4 * 2 ^ 60 := Nat.mul_le_mul (by omega) hsize
    simp only [Nat.shiftLeft_eq, Nat.one_mul] at *
    rw [Checked.fit_of_lt (by omega), Option.bind_some,
      Checked.shiftLeft_of_lt (by omega) (by rw [Nat.shiftLeft_eq]; omega), Option.bind_some,
      Checked.sub_of_le (by omega), Option.bind_some,
      Checked.shiftLeft_of_lt (by omega) (by rw [Nat.shiftLeft_eq]; omega), Option.bind_some,
      Checked.fit_of_lt (by omega), Option.bind_some, Nat.shiftLeft_eq, Nat.shiftLeft_eq,
      Nat.one_mul, Nat.one_mul, Checked.fit_of_lt (by omega), Option.bind_some,
      Checked.fit_of_lt (by omega)]

/-- **The ladder law.** For all requests `s` in `[1, 2 ^ 63]` and all indices `i` up to that of
`2 ^ 63`: the index of `s` is at most `i` exactly if `s` fits class `i`. So the class of a request
is the least that holds it, both formulas are monotone, and the index of a class size is the class.
Every class size is a multiple of `ALIGNMENT`, the waste is bounded, and nothing overflows. -/
theorem ladder_law :
    (∀ s i, 1 ≤ s → s ≤ 2 ^ 63 → i ≤ calculateIndex (2 ^ 63) →
      (calculateIndex s ≤ i ↔ s ≤ calculateSize i)) ∧
    (∀ s, 1 ≤ s → s ≤ 2 ^ 63 →
      IsLeast { size | s ≤ size ∧ ∃ i ≤ calculateIndex (2 ^ 63), calculateSize i = size }
        (calculateSize (calculateIndex s)) ∧
      (s ≤ 128 → calculateSize (calculateIndex s) - s < alignment) ∧
      (128 < s → calculateSize (calculateIndex s) - s < s / 4) ∧
      checkedIndex s = some (calculateIndex s)) ∧
    MonotoneOn calculateIndex (Set.Icc 1 (2 ^ 63)) ∧
    MonotoneOn calculateSize (Set.Iic (calculateIndex (2 ^ 63))) ∧
    ∀ i ≤ calculateIndex (2 ^ 63), calculateIndex (calculateSize i) = i ∧
      alignment ∣ calculateSize i ∧ checkedSize i = some (calculateSize i) := by
  refine ⟨fun s i _ _ _ => calculateIndex_le_iff s i, fun s hs hmax => ⟨?_, ?_⟩,
    calculateIndex_mono.monotoneOn _, calculateSize_strictMono.monotone.monotoneOn _,
    fun i hi => ?_⟩
  · refine ⟨⟨le_calculateSize_calculateIndex s, _, calculateIndex_mono hmax, rfl⟩, ?_⟩
    rintro _ ⟨hle, i, -, rfl⟩
    exact calculateSize_strictMono.monotone ((calculateIndex_le_iff s i).mpr hle)
  · obtain ⟨hlinear, hgeometric⟩ := waste_lt hs
    exact ⟨hlinear, hgeometric, checkedIndex_eq (by omega)⟩
  · rw [calculateIndex_top] at hi
    exact ⟨calculateIndex_calculateSize i, alignment_dvd_calculateSize i, checkedSize_eq hi⟩

end SizeClass

end Ammalloc
