import Ammalloc.Config
import Ammalloc.Lib.Checked

set_option relaxedAutoImplicit false
set_option autoImplicit false

/-!
# The layout of a span

`ComputeSpanLayout` of `include/ammalloc/span.h`: how many objects a page range holds behind its
bitmap, and where they begin. The function is defined for all 64-bit arguments. Besides the words
it computes with, it is given here with checked words, which have no result where an operation of
the source would wrap or a narrowing would lose bits.

## Main definitions

* `Ammalloc.SpanLayout`, `Ammalloc.computeSpanLayout` — the layout.
* `Ammalloc.checkedSpanLayout` — the same computation on checked words.
* `Ammalloc.SpanLayout.maxObjs`, `words`, `dataStart`, `slots` — its local variables, as numbers.

## Main results

* `Ammalloc.SpanLayout.computeSpanLayout_eq`, `Ammalloc.SpanLayout.checkedSpanLayout_eq` — both
  computations give the numbers, or the empty layout.
* `Ammalloc.SpanLayout.computeSpanLayout_facts` — a layout with objects fits the pages.
* `Ammalloc.SpanLayout.layout_sound` — no operation wraps, and when there is room for an object.
-/

namespace Ammalloc

/-- `struct SpanLayout`. -/
structure SpanLayout where
  bitmapNum : ℕ := 0
  objOffset : ℕ := 0
  capacity : ℕ := 0
  deriving DecidableEq, Repr

/-- The 64-bit multiplication, which wraps. -/
def mulU64 (a b : ℕ) : ℕ := a * b % 2 ^ 64

/-- A multiplication that stays below `2 ^ 64` does not wrap. -/
lemma mulU64_of_lt {a b : ℕ} (h : a * b < 2 ^ 64) : mulU64 a b = a * b := Nat.mod_eq_of_lt h

/-- `ComputeSpanLayout`: estimate the objects from one bit and `aligned_size` bytes each, round
the bitmap up to words and to `ALIGNMENT`, and recompute what fits behind it. -/
def computeSpanLayout (alignedSize pageNum : ℕ) : SpanLayout :=
  if alignedSize = 0 ∨ pageNum = 0 ∨ pageNum > sizeMax >>> pageShift ∨
      alignedSize > (sizeMax - 1) / 8 then {}
  else
    let totalBytes := (pageNum <<< pageShift) % 2 ^ 64
    if totalBytes > sizeMax / 8 then {}
    else
      let maxObjs := mulU64 totalBytes 8 / addU64 (mulU64 alignedSize 8) 1
      let bitmapNum := addU64 (maxObjs >>> 6) (if maxObjs &&& 63 ≠ 0 then 1 else 0)
      if bitmapNum > sizeMax / 8 then {}
      else
        let bitmapBytes := mulU64 bitmapNum 8
        if bitmapBytes > sizeMax - (alignment - 1) then {}
        else
          let dataStart := alignUp bitmapBytes alignment
          let rawCapacity :=
            if dataStart ≥ totalBytes then 0 else subU64 totalBytes dataStart / alignedSize
          let capacity := min maxObjs rawCapacity
          if dataStart > uint32Max ∨ capacity > uint32Max then {}
          else { bitmapNum := bitmapNum, objOffset := dataStart, capacity := capacity }

/-- `detail::AlignUp` on checked words. -/
def checkedAlignUp (size align : ℕ) : Option ℕ :=
  if size = 0 then some align
  else do
    let sum ← Checked.fit 64 (size + align)
    let top ← Checked.sub sum 1
    return top / align * align

/-- `raw_capacity` on checked words. -/
def checkedRawCapacity (dataStart totalBytes alignedSize : ℕ) : Option ℕ :=
  if dataStart ≥ totalBytes then some 0
  else do
    let room ← Checked.sub totalBytes dataStart
    Checked.div room alignedSize

/-- `ComputeSpanLayout` on checked words. -/
def checkedSpanLayout (alignedSize pageNum : ℕ) : Option SpanLayout :=
  if alignedSize = 0 ∨ pageNum = 0 ∨ pageNum > sizeMax >>> pageShift ∨
      alignedSize > (sizeMax - 1) / 8 then some {}
  else do
    let totalBytes ← Checked.fit 64 (pageNum <<< pageShift)
    if totalBytes > sizeMax / 8 then return {}
    else
      let totalBits ← Checked.fit 64 (totalBytes * 8)
      let objectBits ← Checked.fit 64 (alignedSize * 8)
      let bitsPerObject ← Checked.fit 64 (objectBits + 1)
      let maxObjs ← Checked.div totalBits bitsPerObject
      let bitmapNum ← Checked.fit 64 ((maxObjs >>> 6) + (if maxObjs &&& 63 ≠ 0 then 1 else 0))
      if bitmapNum > sizeMax / 8 then return {}
      else
        let bitmapBytes ← Checked.fit 64 (bitmapNum * 8)
        if bitmapBytes > sizeMax - (alignment - 1) then return {}
        else
          let dataStart ← checkedAlignUp bitmapBytes alignment
          let rawCapacity ← checkedRawCapacity dataStart totalBytes alignedSize
          let capacity := min maxObjs rawCapacity
          if dataStart > uint32Max ∨ capacity > uint32Max then return {}
          else
            let objOffset ← Checked.fit 32 dataStart
            let slots ← Checked.fit 32 capacity
            return { bitmapNum := bitmapNum, objOffset := objOffset, capacity := slots }

namespace SpanLayout

/-! ## The numbers -/

variable (alignedSize pageNum : ℕ)

/-- The value of `max_objs`. -/
def maxObjs : ℕ := pageNum * pageSize * 8 / (alignedSize * 8 + 1)

/-- The value of `bitmap_num`. -/
def words : ℕ := (maxObjs alignedSize pageNum + 63) / 64

/-- The value of `data_start`. -/
def dataStart : ℕ :=
  max alignment ((words alignedSize pageNum * 8 + (alignment - 1)) / alignment * alignment)

/-- The value of `capacity`, before it is narrowed. -/
def slots : ℕ :=
  min (maxObjs alignedSize pageNum)
    ((pageNum * pageSize - dataStart alignedSize pageNum) / alignedSize)

/-- The arguments that no size guard rejects. -/
def Accepted : Prop :=
  0 < alignedSize ∧ 0 < pageNum ∧ pageNum ≤ sizeMax >>> pageShift ∧
    alignedSize ≤ (sizeMax - 1) / 8 ∧ pageNum * pageSize ≤ sizeMax / 8

instance : Decidable (Accepted alignedSize pageNum) := inferInstanceAs (Decidable (_ ∧ _))

/-- The results fit in 32 bits. -/
def Narrow : Prop :=
  dataStart alignedSize pageNum ≤ uint32Max ∧ slots alignedSize pageNum ≤ uint32Max

instance : Decidable (Narrow alignedSize pageNum) := inferInstanceAs (Decidable (_ ∧ _))

/-- The layout of the numbers. -/
def exact : SpanLayout :=
  { bitmapNum := words alignedSize pageNum
    objOffset := dataStart alignedSize pageNum
    capacity := slots alignedSize pageNum }

/-- The number of slots: what the bitmap covers, and what there is room for. -/
lemma slots_eq : slots alignedSize pageNum = min (maxObjs alignedSize pageNum)
    ((pageNum * pageSize - dataStart alignedSize pageNum) / alignedSize) := rfl

variable {alignedSize pageNum}

/-- The guards leave room for every operation. -/
lemma Accepted.bounds (h : Accepted alignedSize pageNum) :
    pageNum * pageSize * 8 < 2 ^ 64 ∧ alignedSize * 8 + 1 < 2 ^ 64 ∧
      maxObjs alignedSize pageNum < 2 ^ 64 ∧ words alignedSize pageNum ≤ 2 ^ 58 := by
  obtain ⟨-, -, -, hsize, htotal⟩ := h
  unfold sizeMax at hsize htotal
  have hbits : pageNum * pageSize * 8 < 2 ^ 64 := by omega
  have hobjs : maxObjs alignedSize pageNum < 2 ^ 64 := lt_of_le_of_lt (Nat.div_le_self _ _) hbits
  refine ⟨hbits, by omega, hobjs, ?_⟩
  unfold words
  omega

/-- The first two guards of the source, one after the other. -/
lemma accepted_cases (alignedSize pageNum : ℕ) :
    let guard := alignedSize = 0 ∨ pageNum = 0 ∨ pageNum > sizeMax >>> pageShift ∨
      alignedSize > (sizeMax - 1) / 8
    (guard ∧ ¬ Accepted alignedSize pageNum) ∨
      (¬ guard ∧ pageNum <<< pageShift = pageNum * pageSize ∧ pageNum * pageSize < 2 ^ 64 ∧
        (pageNum * pageSize > sizeMax / 8 ↔ ¬ Accepted alignedSize pageNum)) := by
  intro guard
  by_cases hguard : guard
  · refine Or.inl ⟨hguard, ?_⟩
    rintro ⟨h₁, h₂, h₃, h₄, -⟩
    omega
  refine Or.inr ⟨hguard, Nat.shiftLeft_eq _ _, ?_, ?_⟩
  · have hshift : sizeMax >>> pageShift = 2 ^ 52 - 1 := by
      norm_num [sizeMax, pageShift, Nat.shiftRight_eq_div_pow]
    unfold pageSize
    omega
  · unfold Accepted
    omega

/-- The whole words of a bitmap, and one more for the rest. -/
lemma wholeWords_eq (m : ℕ) : (m >>> 6) + (if m &&& 63 ≠ 0 then 1 else 0) = (m + 63) / 64 := by
  have hand : m &&& 63 = m % 64 := Nat.and_two_pow_sub_one_eq_mod m 6
  rw [hand, Nat.shiftRight_eq_div_pow]
  split <;> omega

/-- `AlignUp` where nothing wraps: the next multiple, and at least the alignment. -/
lemma alignUp_eq {size : ℕ} (h : size + alignment < 2 ^ 64) :
    alignUp size alignment =
      max alignment ((size + (alignment - 1)) / alignment * alignment) := by
  unfold alignment at *
  unfold alignUp
  split
  · omega
  · rw [addU64_of_lt (by omega)]
    omega

/-- Where nothing wraps, `AlignUp` is computed without an overflow. -/
lemma checkedAlignUp_eq {size : ℕ} (h : size + alignment < 2 ^ 64) :
    checkedAlignUp size alignment =
      some (max alignment ((size + (alignment - 1)) / alignment * alignment)) := by
  unfold alignment at *
  unfold checkedAlignUp
  split
  · rw [Option.some_inj]
    omega
  · rw [Checked.fit_of_lt h, Option.bind_eq_bind, Option.bind_some, Checked.sub_of_le (by omega),
      Option.bind_some]
    refine congrArg some ?_
    omega

/-- What fits behind the bitmap. -/
lemma room_eq (a total start : ℕ) :
    (if start ≥ total then 0 else (total - start) / a) = (total - start) / a := by
  split
  · rw [Nat.sub_eq_zero_of_le ‹_›, Nat.zero_div]
  · rfl

/-- The guards on the results. -/
lemma not_narrow_iff :
    (dataStart alignedSize pageNum > uint32Max ∨ slots alignedSize pageNum > uint32Max) ↔
      ¬ Narrow alignedSize pageNum := by
  rw [Narrow, not_and_or, not_le, not_le]

/-- **The layout** is the numbers, or empty where a guard rejects them. -/
theorem computeSpanLayout_eq (alignedSize pageNum : ℕ) :
    computeSpanLayout alignedSize pageNum =
      if Accepted alignedSize pageNum ∧ Narrow alignedSize pageNum then exact alignedSize pageNum
      else {} := by
  unfold computeSpanLayout
  rcases accepted_cases alignedSize pageNum with ⟨hguard, hacc⟩ | ⟨hguard, htotal, hlt, hbits⟩
  · rw [if_pos hguard, if_neg fun h => hacc h.1]
  rw [if_neg hguard]
  simp only [htotal, Nat.mod_eq_of_lt hlt]
  by_cases hacc : Accepted alignedSize pageNum
  swap
  · rw [if_pos (hbits.mpr hacc), if_neg fun h => hacc h.1]
  rw [if_neg fun h => hbits.mp h hacc]
  obtain ⟨hb₁, hb₂, hb₃, hb₄⟩ := hacc.bounds
  have hobjs : mulU64 (pageNum * pageSize) 8 / addU64 (mulU64 alignedSize 8) 1 =
      maxObjs alignedSize pageNum := by
    rw [mulU64_of_lt hb₁, mulU64_of_lt (by omega), addU64_of_lt hb₂]
    rfl
  have hwords : addU64 (maxObjs alignedSize pageNum >>> 6)
      (if maxObjs alignedSize pageNum &&& 63 ≠ 0 then 1 else 0) = words alignedSize pageNum := by
    have heq := wholeWords_eq (maxObjs alignedSize pageNum)
    rw [addU64_of_lt (by rw [heq]; omega), heq]
    rfl
  have hstart : alignUp (words alignedSize pageNum * 8) alignment = dataStart alignedSize pageNum :=
    alignUp_eq (by unfold alignment; omega)
  have hroom : (if dataStart alignedSize pageNum ≥ pageNum * pageSize then 0
      else subU64 (pageNum * pageSize) (dataStart alignedSize pageNum) / alignedSize) =
      (pageNum * pageSize - dataStart alignedSize pageNum) / alignedSize := by
    rw [← room_eq]
    split
    · rfl
    · rw [subU64_of_le hlt (by omega)]
  rw [hobjs, hwords, if_neg (by unfold sizeMax; omega), mulU64_of_lt (by omega),
    if_neg (by unfold sizeMax alignment; omega), hstart, hroom, ← slots_eq]
  by_cases hnarrow : Narrow alignedSize pageNum
  · rw [if_neg fun h => not_narrow_iff.mp h hnarrow, if_pos ⟨hacc, hnarrow⟩]
    rfl
  · rw [if_pos (not_narrow_iff.mpr hnarrow), if_neg fun h => hnarrow h.2]

/-- **No step wraps**: on checked words the computation gives the same result. -/
theorem checkedSpanLayout_eq (alignedSize pageNum : ℕ) :
    checkedSpanLayout alignedSize pageNum =
      some (if Accepted alignedSize pageNum ∧ Narrow alignedSize pageNum then
        exact alignedSize pageNum else {}) := by
  unfold checkedSpanLayout
  rcases accepted_cases alignedSize pageNum with ⟨hguard, hacc⟩ | ⟨hguard, htotal, hlt, hbits⟩
  · rw [if_pos hguard, if_neg fun h => hacc h.1]
  rw [if_neg hguard]
  simp only [htotal, Checked.fit_of_lt hlt, Option.bind_eq_bind, Option.bind_some]
  by_cases hacc : Accepted alignedSize pageNum
  swap
  · rw [if_pos (hbits.mpr hacc), if_neg fun h => hacc h.1]
    rfl
  rw [if_neg fun h => hbits.mp h hacc]
  obtain ⟨hb₁, hb₂, hb₃, hb₄⟩ := hacc.bounds
  have hpos : 0 < alignedSize := hacc.1
  have hobjs : Checked.div (pageNum * pageSize * 8) (alignedSize * 8 + 1) =
      some (maxObjs alignedSize pageNum) := Checked.div_of_pos _ (Nat.succ_pos _)
  have hwords : Checked.fit 64 ((maxObjs alignedSize pageNum >>> 6) +
      (if maxObjs alignedSize pageNum &&& 63 ≠ 0 then 1 else 0)) =
      some (words alignedSize pageNum) := by
    rw [wholeWords_eq]
    exact Checked.fit_of_lt (lt_of_le_of_lt hb₄ (by norm_num))
  have hstart : checkedAlignUp (words alignedSize pageNum * 8) alignment =
      some (dataStart alignedSize pageNum) := checkedAlignUp_eq (by unfold alignment; omega)
  have hroom : checkedRawCapacity (dataStart alignedSize pageNum) (pageNum * pageSize) alignedSize =
      some ((pageNum * pageSize - dataStart alignedSize pageNum) / alignedSize) := by
    rw [← room_eq, checkedRawCapacity]
    split
    · rfl
    · rw [Checked.sub_of_le (by omega), Option.bind_eq_bind, Option.bind_some,
        Checked.div_of_pos _ hpos]
  simp only [Checked.fit_of_lt hb₁, Option.bind_some,
    Checked.fit_of_lt (show alignedSize * 8 < 2 ^ 64 by omega), Checked.fit_of_lt hb₂, hobjs,
    hwords]
  rw [if_neg (by unfold sizeMax; omega), Checked.fit_of_lt (by omega), Option.bind_some,
    if_neg (by unfold sizeMax alignment; omega), hstart, Option.bind_some, hroom, Option.bind_some,
    ← slots_eq]
  by_cases hnarrow : Narrow alignedSize pageNum
  · rw [if_neg fun h => not_narrow_iff.mp h hnarrow, if_pos ⟨hacc, hnarrow⟩]
    have h₁ : dataStart alignedSize pageNum < 2 ^ 32 := Nat.lt_of_le_pred (by norm_num) hnarrow.1
    have h₂ : slots alignedSize pageNum < 2 ^ 32 := Nat.lt_of_le_pred (by norm_num) hnarrow.2
    rw [Checked.fit_of_lt h₁, Option.bind_some]
    rw [Checked.fit_of_lt h₂, Option.bind_some]
    rfl
  · rw [if_pos (not_narrow_iff.mpr hnarrow), if_neg fun h => hnarrow h.2]
    rfl

/-! ## What fits -/

/-- The bitmap ends before the first slot, which is aligned. -/
lemma words_le_dataStart (alignedSize pageNum : ℕ) :
    8 * words alignedSize pageNum ≤ dataStart alignedSize pageNum ∧
      dataStart alignedSize pageNum % alignment = 0 ∧
      alignment ≤ dataStart alignedSize pageNum := by
  unfold dataStart alignment
  omega

/-- The slots have a bit each and end inside the pages. -/
lemma slots_fit (h : 0 < slots alignedSize pageNum) :
    slots alignedSize pageNum ≤ 64 * words alignedSize pageNum ∧
      dataStart alignedSize pageNum + slots alignedSize pageNum * alignedSize ≤
        pageNum * pageSize := by
  have hbits : maxObjs alignedSize pageNum ≤ 64 * words alignedSize pageNum := by
    unfold words
    omega
  rw [slots_eq] at h ⊢
  set room := pageNum * pageSize - dataStart alignedSize pageNum with hroom
  have hmul := Nat.div_mul_le_self room alignedSize
  have hmin := Nat.mul_le_mul_right alignedSize
    (Nat.min_le_right (maxObjs alignedSize pageNum) (room / alignedSize))
  have hpos : 0 < room / alignedSize := lt_of_lt_of_le h (Nat.min_le_right _ _)
  have hroom' : 0 < room := Nat.pos_of_ne_zero fun h₀ => by simp [h₀] at hpos
  exact ⟨(Nat.min_le_left _ _).trans hbits, by omega⟩

/-- **When there is room for an object**: behind one unit of `ALIGNMENT` for the bitmap.

**Proof sketch.** Up to 128 objects the bitmap takes one unit. Beyond, the estimate leaves out all
but the bits of the bitmap, and rounding them up costs less than the other 127 objects. -/
lemma slots_pos_iff (hsize : 0 < alignedSize) :
    0 < slots alignedSize pageNum ↔ alignedSize + alignment ≤ pageNum * pageSize := by
  have hunit := (words_le_dataStart alignedSize pageNum).2.2
  rw [slots_eq, lt_min_iff, Nat.div_pos_iff]
  constructor
  · rintro ⟨-, -, hroom⟩
    omega
  intro hfit
  have hestimate : maxObjs alignedSize pageNum * (alignedSize * 8 + 1) ≤ pageNum * pageSize * 8 :=
    Nat.div_mul_le_self _ _
  rw [Nat.mul_add, Nat.mul_one] at hestimate
  have hobjs : 0 < maxObjs alignedSize pageNum := by
    rw [maxObjs, Nat.div_pos_iff]
    unfold alignment at hfit
    omega
  refine ⟨hobjs, hsize, ?_⟩
  suffices hstart : dataStart alignedSize pageNum + alignedSize ≤ pageNum * pageSize by omega
  unfold dataStart words alignment at *
  rcases Nat.lt_or_ge 128 (maxObjs alignedSize pageNum) with hmany | hfew
  · have hothers := Nat.mul_le_mul_right (alignedSize * 8) hmany
    omega
  · omega

/-- **The layout of a span** that holds at least one object: the bitmap covers the slots, the slots
lie behind it at an aligned offset, and inside the pages. -/
lemma computeSpanLayout_facts {c n : ℕ} (hcap : 0 < (computeSpanLayout c n).capacity) :
    let l := computeSpanLayout c n
    l.capacity ≤ uint32Max ∧ l.capacity ≤ 64 * l.bitmapNum ∧ 8 * l.bitmapNum ≤ l.objOffset ∧
      l.objOffset % alignment = 0 ∧ l.objOffset + l.capacity * c ≤ n * pageSize := by
  rw [computeSpanLayout_eq] at hcap ⊢
  split at hcap
  · rename_i h
    rw [if_pos h]
    obtain ⟨hcover, hfits⟩ := slots_fit hcap
    obtain ⟨hbehind, haligned, -⟩ := words_le_dataStart c n
    exact ⟨h.2.2, hcover, hbehind, haligned, hfits⟩
  · exact absurd hcap (Nat.lt_irrefl 0)

/-- **Soundness and fit of `ComputeSpanLayout`.** For all arguments no operation of the computation
wraps and no narrowing loses bits. A layout with objects puts them behind the bitmap, at an aligned
offset, with a bit for each, and inside the pages. Where no guard rejects the arguments and the
results fit in 32 bits, there are objects exactly if one of them fits behind one unit of
`ALIGNMENT`. -/
theorem layout_sound (alignedSize pageNum : ℕ) :
    let layout := computeSpanLayout alignedSize pageNum
    let total := pageNum * pageSize
    checkedSpanLayout alignedSize pageNum = some layout ∧
      (0 < layout.capacity →
        8 * layout.bitmapNum ≤ layout.objOffset ∧ layout.objOffset % alignment = 0 ∧
        layout.capacity ≤ 64 * layout.bitmapNum ∧
        layout.objOffset + layout.capacity * alignedSize ≤ total) ∧
      (Accepted alignedSize pageNum → Narrow alignedSize pageNum →
        (0 < layout.capacity ↔ alignedSize + alignment ≤ total)) := by
  intro layout total
  refine ⟨?_, fun hcap => ?_, fun hacc hnarrow => ?_⟩
  · rw [checkedSpanLayout_eq, ← computeSpanLayout_eq]
  · obtain ⟨-, hcover, hbehind, haligned, hfits⟩ := computeSpanLayout_facts hcap
    exact ⟨hbehind, haligned, hcover, hfits⟩
  · have heq : layout = exact alignedSize pageNum :=
      (computeSpanLayout_eq _ _).trans (if_pos ⟨hacc, hnarrow⟩)
    rw [heq]
    exact slots_pos_iff hacc.1

/-- One page of 48-byte objects, and one object that needs the whole page. -/
example : computeSpanLayout 48 1 = ⟨2, 16, 85⟩ ∧ (computeSpanLayout 4080 1).capacity = 1 ∧
    (computeSpanLayout 4081 1).capacity = 0 := by decide

end SpanLayout

end Ammalloc
