import Ammalloc.Lib.WordBitmap
import Ammalloc.SizeClass
import Ammalloc.Span.Layout

set_option relaxedAutoImplicit false
set_option autoImplicit false

/-!
# Spans

The descriptor of a contiguous page range (`include/ammalloc/span.h`) and the bitmap machine
that carves it into objects (`src/span.cpp`). The intrusive links are left to the lists the
span is on; the bitmap words live at the base of the page range and are kept with the
descriptor.

## Main definitions

* `Ammalloc.Span` — the descriptor.
* `Ammalloc.Span.init`, `allocObject`, `freeObject`, `objectSlotOf` — the bitmap machine.
* `Ammalloc.Span.Carved` — the invariant of an initialised span of a class.

## Main results

* `Ammalloc.Span.init_eq_ok` — the spans that `Init` accepts are carved.
* `Ammalloc.Span.init_carved` — a span of the class's page count is carved.
* `Ammalloc.Span.Carved.allocObject_some`, `Ammalloc.Span.Carved.allocObject_none` — what
  `AllocObject` returns.
* `Ammalloc.Span.Carved.freeObject_ok` — `FreeObject` on an allocated slot.
* `Ammalloc.Span.freeObject_of_not_slot` — the hardened `FreeObject` rejects everything that
  `ObjectSlotOf` does.
-/

namespace Ammalloc

/-- `struct Span`. The two flag bits are kept as two Booleans; `bitmap` holds the words at
`GetBitmap()`. -/
structure Span where
  startPageIdx : ℕ
  pageNum : ℕ
  used : Bool := false
  committed : Bool := false
  sizeClassIdx : ℕ := 0
  alignedObjSize : ℕ := 0
  capacity : ℕ := 0
  useCount : ℕ := 0
  scanCursor : ℕ := 0
  objOffset : ℕ := 0
  ownerShardId : ℕ := 0
  lastUsedTimeMs : ℕ := 0
  bitmap : List (BitVec 64) := []
  deriving DecidableEq, Repr

/-- `AM_HCHECK`: active only in hardened (and debug) builds. -/
def hcheck (hardened : Bool) (condition : Bool) (message : String) : Except Fault Unit :=
  if hardened && !condition then .error (.check message) else .ok ()

namespace Span

/-! ## Accessors -/

/-- `Span::GetPageBaseAddr`. -/
def getPageBaseAddr (s : Span) : ℕ := s.startPageIdx <<< pageShift

/-- `Span::GetBitmapNum`. -/
def getBitmapNum (s : Span) : ℕ := (s.capacity + 63) >>> 6

/-- `Span::GetDataBasePtr`. -/
def getDataBasePtr (s : Span) : ℕ := s.getPageBaseAddr + s.objOffset

/-- `Span::IsFull`. -/
def isFull (s : Span) : Bool := decide (s.useCount ≥ s.capacity)

/-- Page `q` belongs to the span. -/
def Covers (s : Span) (q : ℕ) : Prop := s.startPageIdx ≤ q ∧ q < s.startPageIdx + s.pageNum

instance (s : Span) (q : ℕ) : Decidable (s.Covers q) := inferInstanceAs (Decidable (_ ∧ _))

/-- The address of object slot `k`. -/
def slotAddr (s : Span) (k : ℕ) : ℕ := s.getDataBasePtr + k * s.alignedObjSize

/-- Slot `k` is free: its bitmap bit is set. -/
def freeSlot (s : Span) (k : ℕ) : Bool := WordBitmap.testBit s.bitmap k

/-! ## The bitmap machine -/

/-- The fields and bitmap words `Span::Init` writes once its checks have passed. -/
def carve (s : Span) (alignedObjectSize idx : ℕ) (layout : SpanLayout) : Span :=
  { s with
    alignedObjSize := alignedObjectSize
    sizeClassIdx := idx
    objOffset := layout.objOffset
    capacity := layout.capacity
    bitmap := WordBitmap.ones layout.capacity layout.bitmapNum
    useCount := 0
    scanCursor := 0 }

/-- `Span::Init`; the `AM_CHECK`s are active in every build. -/
def init (s : Span) (alignedObjectSize : ℕ) : Except Fault Span :=
  let idx := SizeClass.index alignedObjectSize
  let layout := computeSpanLayout alignedObjectSize s.pageNum
  let totalBytes := s.pageNum <<< pageShift
  let neededWords := (layout.capacity >>> 6) + (if layout.capacity &&& 63 ≠ 0 then 1 else 0)
  if ¬ (alignedObjectSize > 0 ∧ alignedObjectSize ≤ maxTcSize) then
    .error (.check "aligned_object_size > 0 && aligned_object_size <= SizeConfig::MAX_TC_SIZE")
  else if ¬ (idx < SizeClass.kNumSizeClasses ∧ SizeClass.size idx = alignedObjectSize) then
    .error (.check
      "idx < SizeClass::kNumSizeClasses && SizeClass::Size(idx) == aligned_object_size")
  else if ¬ layout.capacity > 0 then .error (.check "layout.capacity > 0")
  else if ¬ layout.bitmapNum ≥ neededWords then
    .error (.check "layout.bitmap_num >= needed_bitmap_words")
  else if ¬ (layout.objOffset ≤ totalBytes ∧
      layout.capacity ≤ (totalBytes - layout.objOffset) / alignedObjectSize) then
    .error (.check "layout.obj_offset <= total_bytes && layout.capacity fits behind it")
  else .ok (s.carve alignedObjectSize idx layout)

/-- `Span::AllocObject`: the lowest set bit of the first nonzero word from the cursor on. -/
def allocObject (s : Span) : Option (ℕ × Span) :=
  if s.isFull then none
  else
    match WordBitmap.firstNonzero s.bitmap (s.getBitmapNum - s.scanCursor) s.scanCursor with
    | none => none
    | some i =>
      let bitPos := WordBitmap.countrZero (s.bitmap.getD i 0)
      let bitmap := WordBitmap.clear s.bitmap i bitPos
      let globalObjIdx := i * 64 + bitPos
      some (s.slotAddr globalObjIdx,
        { s with
          bitmap := bitmap
          useCount := s.useCount + 1
          scanCursor := if bitmap.getD i 0 = 0 then i + 1 else i })

/-- `std::has_single_bit`. -/
def hasSingleBit (n : ℕ) : Bool := n ≠ 0 && n &&& (n - 1) = 0

/-- The slot index `FreeObject` computes: a shift for power-of-two sizes, else a division. -/
def globalObjIdx (s : Span) (offset : ℕ) : ℕ :=
  if hasSingleBit s.alignedObjSize then
    offset >>> WordBitmap.countrZero (BitVec.ofNat 64 s.alignedObjSize)
  else offset / s.alignedObjSize

/-- `Span::FreeObject`. -/
def freeObject (hardened : Bool) (s : Span) (ptr : ℕ) : Except Fault Span := do
  let base := s.getDataBasePtr
  let offset := subU64 ptr base
  hcheck hardened (ptr ≥ base) "Pointer underflow detected!"
  hcheck hardened (offset % s.alignedObjSize = 0) "Pointer misaligned!"
  let idx := s.globalObjIdx offset
  hcheck hardened (idx < s.capacity) "Pointer overflow detected!"
  let bitmapIdx := idx >>> 6
  hcheck hardened (bitmapIdx < s.getBitmapNum) "bitmap_idx < GetBitmapNum()"
  hcheck hardened (!WordBitmap.testBit s.bitmap idx) "double free detected."
  hcheck hardened (s.useCount > 0) "use_count underflow detected."
  pure { s with
    bitmap := WordBitmap.set s.bitmap bitmapIdx (idx &&& 63)
    useCount := (s.useCount + uint32Max) % 2 ^ 32
    scanCursor := min s.scanCursor bitmapIdx }

/-- `Span::ObjectSlotOf`; `SIZE_MAX` for everything that is not the start of a slot. -/
def objectSlotOf (s : Span) (ptr : ℕ) : ℕ :=
  let base := s.getDataBasePtr
  if ptr < base ∨ ptr - base ≥ s.capacity * s.alignedObjSize then sizeMax
  else if (ptr - base) % s.alignedObjSize ≠ 0 then sizeMax
  else (ptr - base) / s.alignedObjSize

/-! ## Carved spans -/

/-- The invariant of a span carved for class `idx`: the layout fits the pages, the bitmap
counts the free slots and has no bit past the capacity, and no free slot lies below the
cursor. -/
structure Carved (s : Span) (idx : ℕ) : Prop where
  idx_lt : idx < SizeClass.kNumSizeClasses
  class_idx : s.sizeClassIdx = idx
  obj_size : s.alignedObjSize = SizeClass.size idx
  capacity_pos : 0 < s.capacity
  capacity_le : s.capacity ≤ uint32Max
  words : s.capacity ≤ 64 * s.bitmap.length
  bitmap_fits : 8 * s.bitmap.length ≤ s.objOffset
  offset_aligned : s.objOffset % alignment = 0
  slots_fit : s.objOffset + s.capacity * s.alignedObjSize ≤ s.pageNum * pageSize
  free_count : WordBitmap.count s.bitmap s.capacity + s.useCount = s.capacity
  free_lt : ∀ k, s.freeSlot k = true → k < s.capacity
  below_cursor : ∀ j < s.scanCursor, s.bitmap.getD j 0 = 0

/-- `Init` accepts an exact class size if its layout holds an object. -/
lemma init_of_capacity_pos {s : Span} {idx : ℕ} (hidx : idx < SizeClass.kNumSizeClasses)
    (hcap : 0 < (computeSpanLayout (SizeClass.size idx) s.pageNum).capacity) :
    s.init (SizeClass.size idx) = .ok (s.carve (SizeClass.size idx) idx
      (computeSpanLayout (SizeClass.size idx) s.pageNum)) := by
  obtain ⟨hs₁, hs₂, -⟩ := SizeClass.size_bounds idx hidx
  have hix := SizeClass.index_size idx hidx
  obtain ⟨-, hcover, -, -, hfits⟩ := SpanLayout.computeSpanLayout_facts hcap
  set l := computeSpanLayout (SizeClass.size idx) s.pageNum with hl
  have hwords : l.bitmapNum ≥ (l.capacity >>> 6) + (if l.capacity &&& 63 ≠ 0 then 1 else 0) := by
    rw [SpanLayout.wholeWords_eq]
    omega
  have htot : s.pageNum <<< pageShift = s.pageNum * pageSize := by
    rw [Nat.shiftLeft_eq]; rfl
  have hfit : l.objOffset ≤ s.pageNum * pageSize ∧
      l.capacity ≤ (s.pageNum * pageSize - l.objOffset) / SizeClass.size idx := by
    refine ⟨by omega, ?_⟩
    rw [Nat.le_div_iff_mul_le hs₁]
    omega
  unfold init
  simp only [hix, ← hl, htot]
  rw [if_neg (not_not.mpr ⟨hs₁, hs₂⟩), if_neg (not_not.mpr ⟨hidx, trivial⟩),
    if_neg (not_not.mpr hcap), if_neg (not_not.mpr hwords), if_neg (not_not.mpr hfit)]

/-- A span is carved with all slots free. -/
lemma carve_carved {s : Span} {idx : ℕ} (hidx : idx < SizeClass.kNumSizeClasses)
    (hcap : 0 < (computeSpanLayout (SizeClass.size idx) s.pageNum).capacity) :
    (s.carve (SizeClass.size idx) idx
      (computeSpanLayout (SizeClass.size idx) s.pageNum)).Carved idx := by
  obtain ⟨hwidth, hcover, hbehind, haligned, hfits⟩ := SpanLayout.computeSpanLayout_facts hcap
  refine ⟨hidx, rfl, rfl, hcap, hwidth, ?_, ?_, haligned, hfits, ?_, fun k hk => ?_, fun j hj => ?_⟩
  · simpa [carve] using hcover
  · simpa [carve] using hbehind
  · simp only [carve, WordBitmap.count_ones hcover]; rfl
  · simpa [carve, freeSlot, WordBitmap.testBit_ones hcover] using hk
  · exact absurd hj (Nat.not_lt_zero _)

/-- **`Init` accepts** exactly the class sizes whose layout holds an object, and carves. -/
theorem init_eq_ok {s s' : Span} {size : ℕ} (h : s.init size = .ok s') :
    ∃ idx, s'.Carved idx ∧ size = SizeClass.size idx ∧
      s' = s.carve size idx (computeSpanLayout size s.pageNum) := by
  have hcases := h
  unfold init at hcases
  simp only at hcases
  split at hcases
  · exact absurd hcases (by simp)
  split at hcases
  · exact absurd hcases (by simp)
  split at hcases
  · exact absurd hcases (by simp)
  rename_i hidx hcap
  obtain ⟨hidx, hsize⟩ := not_not.mp hidx
  have hpos : 0 <
      (computeSpanLayout (SizeClass.size (SizeClass.index size)) s.pageNum).capacity := by
    rw [hsize]
    exact not_not.mp hcap
  rw [← hsize, init_of_capacity_pos hidx hpos] at h
  refine ⟨SizeClass.index size, ?_, hsize.symm, ?_⟩
  · rw [← Except.ok.inj h]
    exact carve_carved hidx hpos
  · rw [← Except.ok.inj h, hsize]

/-- Every class has an object on its own page count. -/
lemma capacity_pos_getMovePageNum : ∀ idx < SizeClass.kNumSizeClasses,
    0 < (computeSpanLayout (SizeClass.size idx)
      (SizeClass.getMovePageNum (SizeClass.size idx))).capacity := by
  decide

/-- **`Init` carves** every span of the class's own page count: all slots free, none used. -/
theorem init_carved {s : Span} {idx : ℕ} (hidx : idx < SizeClass.kNumSizeClasses)
    (hp : s.pageNum = SizeClass.getMovePageNum (SizeClass.size idx)) :
    ∃ s', s.init (SizeClass.size idx) = .ok s' ∧ s'.Carved idx ∧ s'.useCount = 0 ∧
      s'.startPageIdx = s.startPageIdx ∧ s'.pageNum = s.pageNum ∧ s'.used = s.used ∧
      s'.committed = s.committed ∧ s'.ownerShardId = s.ownerShardId ∧
      s'.lastUsedTimeMs = s.lastUsedTimeMs := by
  have hcap : 0 < (computeSpanLayout (SizeClass.size idx) s.pageNum).capacity :=
    hp ▸ capacity_pos_getMovePageNum idx hidx
  exact ⟨_, init_of_capacity_pos hidx hcap, carve_carved hidx hcap, rfl, rfl, rfl, rfl, rfl, rfl,
    rfl⟩

namespace Carved

variable {s : Span} {idx : ℕ}

/-- The objects of a carved span have a positive size. -/
lemma size_pos (h : s.Carved idx) : 0 < s.alignedObjSize := by
  rw [h.obj_size]; exact (SizeClass.size_bounds idx h.idx_lt).1

/-- No more objects of a carved span are in use than it has slots. -/
lemma useCount_le (h : s.Carved idx) : s.useCount ≤ s.capacity := by
  have := h.free_count; omega

/-- Slots have distinct addresses. -/
lemma slotAddr_inj (h : s.Carved idx) {j k : ℕ} (he : s.slotAddr j = s.slotAddr k) : j = k := by
  simp only [slotAddr, Nat.add_left_cancel_iff] at he
  exact Nat.eq_of_mul_eq_mul_right h.size_pos he

/-- A span with nothing handed out has all its slots free. -/
lemma freeSlot_of_useCount_eq_zero (h : s.Carved idx) (h0 : s.useCount = 0) {k : ℕ}
    (hk : k < s.capacity) : s.freeSlot k = true :=
  WordBitmap.testBit_of_count_eq (by have := h.free_count; omega) hk

/-- A span with something handed out has a slot that is not free. -/
lemma exists_used_slot (h : s.Carved idx) (h0 : 0 < s.useCount) :
    ∃ k < s.capacity, s.freeSlot k = false := by
  by_contra hno
  push Not at hno
  have hall : WordBitmap.count s.bitmap s.capacity = s.capacity := by
    unfold WordBitmap.count
    rw [Finset.filter_true_of_mem, Finset.card_range]
    intro k hk
    simpa [freeSlot] using hno k (Finset.mem_range.mp hk)
  have := h.free_count
  omega

/-- `IsFull` on the bitmap: no slot is free. -/
lemma isFull_iff (h : s.Carved idx) : s.isFull = true ↔ ∀ k < s.capacity, s.freeSlot k = false := by
  have hcount := h.free_count
  rw [isFull, decide_eq_true_eq]
  constructor
  · intro hfull k hk
    have hempty : WordBitmap.count s.bitmap s.capacity = 0 := by omega
    rw [WordBitmap.count, Finset.card_eq_zero, Finset.filter_eq_empty_iff] at hempty
    simpa [freeSlot] using hempty (Finset.mem_range.mpr hk)
  · intro hnone
    by_contra hlt
    obtain ⟨k, hk, hbit⟩ := WordBitmap.exists_of_count_pos
      (n := s.capacity) (by omega : 0 < WordBitmap.count s.bitmap s.capacity)
    have hclear : WordBitmap.testBit s.bitmap k = false := hnone k hk
    rw [hclear] at hbit
    exact absurd hbit (by simp)

/-- A nonzero bitmap word within the capacity lies at or above the cursor. -/
lemma cursor_le_of_free (h : s.Carved idx) {k : ℕ} (hk : s.freeSlot k = true) :
    s.scanCursor ≤ k / 64 := by
  by_contra hlt
  have h0 := h.below_cursor (k / 64) (by omega)
  rw [freeSlot, WordBitmap.testBit_of_word_eq_zero h0] at hk
  exact Bool.false_ne_true hk

/-- **`AllocObject` fails exactly on a full span.** -/
theorem allocObject_none (h : s.Carved idx) : s.allocObject = none ↔ s.capacity ≤ s.useCount := by
  constructor
  · intro hnone
    by_contra hlt
    have hcnt : 0 < WordBitmap.count s.bitmap s.capacity := by have := h.free_count; omega
    obtain ⟨k, hk, hb⟩ := WordBitmap.exists_of_count_pos hcnt
    have hcur := h.cursor_le_of_free hb
    have hfull : s.isFull = false := by simp [isFull]; omega
    unfold allocObject at hnone
    rw [hfull] at hnone
    simp only [Bool.false_eq_true, if_false] at hnone
    split at hnone
    · rename_i hscan
      have hz := WordBitmap.firstNonzero_eq_none hscan (k / 64) hcur (by
        simp only [getBitmapNum, Nat.shiftRight_eq_div_pow]; omega)
      rw [WordBitmap.testBit_of_word_eq_zero hz] at hb
      exact Bool.false_ne_true hb
    · simp at hnone
  · intro hge
    simp [allocObject, isFull, hge]

/-- **`AllocObject` hands out the lowest free slot** and clears exactly its bit.

The invariant of the scan cursor is what makes the scan from the cursor a scan from the first
word: every word below it is zero. -/
theorem allocObject_some (h : s.Carved idx) {a : ℕ} {s' : Span}
    (ha : s.allocObject = some (a, s')) :
    ∃ k, s.freeSlot k = true ∧ (∀ j < k, s.freeSlot j = false) ∧ a = s.slotAddr k ∧
      (∀ j, s'.freeSlot j = (s.freeSlot j && !decide (j = k))) ∧ s'.Carved idx ∧
      s' = { s with bitmap := s'.bitmap, useCount := s.useCount + 1,
                    scanCursor := s'.scanCursor } := by
  unfold allocObject at ha
  split at ha
  · simp at ha
  split at ha
  · simp at ha
  rename_i hfull i hscan
  obtain ⟨hci, hlt, hne, hz⟩ := WordBitmap.firstNonzero_eq_some hscan
  obtain ⟨hb64, hbit, hlow⟩ := WordBitmap.countrZero_spec hne
  simp only [Option.some.injEq, Prod.mk.injEq] at ha
  obtain ⟨rfl, rfl⟩ := ha
  set p := WordBitmap.countrZero (s.bitmap.getD i 0) with hp
  have hi : i < s.bitmap.length := by
    by_contra hge
    exact hne (by rw [List.getD_eq_getElem?_getD, List.getElem?_eq_none (by omega)]; rfl)
  have hk : i * 64 + p = 64 * i + p := by omega
  have hfree : s.freeSlot (i * 64 + p) = true := by
    rw [freeSlot, WordBitmap.testBit, show (i * 64 + p) / 64 = i by omega,
      show (i * 64 + p) % 64 = p by omega]
    exact hbit
  have hcap := h.free_lt _ hfree
  have hnew : ∀ j, WordBitmap.testBit (WordBitmap.clear s.bitmap i p) j =
      (s.freeSlot j && !decide (j = i * 64 + p)) := by
    intro j
    rw [WordBitmap.testBit_clear hi hb64, hk]
    rfl
  refine ⟨i * 64 + p, hfree, fun j hj => ?_, rfl, hnew, ?_, rfl⟩
  · -- a lower slot is in an earlier word, or a lower bit of the same word
    rw [freeSlot]
    by_cases hji : j / 64 = i
    · rw [WordBitmap.testBit, hji]
      exact hlow _ (by omega)
    · refine WordBitmap.testBit_of_word_eq_zero ?_
      rcases Nat.lt_or_ge (j / 64) s.scanCursor with hc | hc
      · exact h.below_cursor _ hc
      · exact hz _ hc (by omega)
  · refine ⟨h.idx_lt, h.class_idx, h.obj_size, h.capacity_pos, h.capacity_le, ?_, ?_,
      h.offset_aligned, h.slots_fit, ?_, fun j hj => ?_, fun j hj => ?_⟩
    · simpa using h.words
    · simpa using h.bitmap_fits
    · have hcnt := WordBitmap.count_clear hi hb64 (n := s.capacity) (by omega)
        (by rw [← hk]; exact hfree)
      have := h.free_count
      simp only
      omega
    · simp only [freeSlot] at hj
      rw [hnew] at hj
      simp only [Bool.and_eq_true] at hj
      exact h.free_lt j hj.1
    · simp only at hj ⊢
      have hword : ∀ j < i, s.bitmap.getD j 0 = 0 := by
        intro j hj
        rcases Nat.lt_or_ge j s.scanCursor with hc | hc
        · exact h.below_cursor _ hc
        · exact hz _ hc hj
      have hother : ∀ j ≠ i, (WordBitmap.clear s.bitmap i p).getD j 0 = s.bitmap.getD j 0 := by
        intro j hj
        rw [WordBitmap.clear, WordBitmap.getD_set_word _ _ _ _ hi, if_neg hj]
      split at hj
      · rename_i h0
        rcases Nat.lt_or_ge j i with hlt | hge
        · rw [hother j (by omega)]; exact hword j hlt
        · obtain rfl : j = i := by omega
          exact h0
      · rw [hother j (by omega)]; exact hword j hj

end Carved

/-! ## Freeing one object -/

/-- The shift amount of a power-of-two class size is its exponent. -/
lemma size_eq_two_pow : ∀ idx < SizeClass.kNumSizeClasses,
    hasSingleBit (SizeClass.size idx) = true →
      SizeClass.size idx = 2 ^ WordBitmap.countrZero (BitVec.ofNat 64 (SizeClass.size idx)) := by
  decide

/-- The shift and the division compute the same slot index for every class size. -/
lemma globalObjIdx_eq {s : Span} {idx : ℕ} (hidx : idx < SizeClass.kNumSizeClasses)
    (hs : s.alignedObjSize = SizeClass.size idx) (offset : ℕ) :
    s.globalObjIdx offset = offset / s.alignedObjSize := by
  unfold globalObjIdx
  split
  · rename_i hb
    rw [hs] at hb
    have h := size_eq_two_pow idx hidx hb
    rw [hs, Nat.shiftRight_eq_div_pow, ← h]
  · rfl

/-- A check whose condition holds passes. -/
lemma hcheck_true {hardened c : Bool} {m : String} (h : c = true) :
    hcheck hardened c m = .ok () := by
  simp [hcheck, h]

/-- **`FreeObject` on an allocated slot** passes every check, in every build, and sets exactly
the slot's bit. -/
theorem Carved.freeObject_ok {s : Span} {idx k : ℕ} (h : s.Carved idx) (hardened : Bool)
    (hk : k < s.capacity) (hused : s.freeSlot k = false) (haddr : s.slotAddr k < 2 ^ 64) :
    ∃ s', s.freeObject hardened (s.slotAddr k) = .ok s' ∧ s'.Carved idx ∧
      (∀ j, s'.freeSlot j = (s.freeSlot j || decide (j = k))) ∧
      s' = { s with bitmap := s'.bitmap, useCount := s.useCount - 1,
                    scanCursor := s'.scanCursor } := by
  have hsz := h.size_pos
  have hbase : s.getDataBasePtr ≤ s.slotAddr k := Nat.le_add_right _ _
  have hoff : subU64 (s.slotAddr k) s.getDataBasePtr = k * s.alignedObjSize := by
    rw [subU64_of_le haddr hbase]; simp [slotAddr]
  have hidx : s.globalObjIdx (k * s.alignedObjSize) = k := by
    rw [globalObjIdx_eq h.idx_lt h.obj_size, Nat.mul_div_cancel _ hsz]
  have hshift : k >>> 6 = k / 64 := Nat.shiftRight_eq_div_pow k 6
  have hand : k &&& 63 = k % 64 := Nat.and_two_pow_sub_one_eq_mod k 6
  have hword : k / 64 < s.bitmap.length := by have := h.words; omega
  have hlow : k % 64 < 64 := Nat.mod_lt _ (by norm_num)
  have hk' : 64 * (k / 64) + k % 64 = k := by omega
  have hpos : 0 < s.useCount := by
    by_contra h0
    rw [h.freeSlot_of_useCount_eq_zero (by omega) hk] at hused
    exact Bool.false_ne_true hused.symm
  have hcnt : (s.useCount + uint32Max) % 2 ^ 32 = s.useCount - 1 := by
    have h₁ := h.useCount_le
    have h₂ := h.capacity_le
    unfold uint32Max at h₂ ⊢
    rw [show s.useCount + (2 ^ 32 - 1) = s.useCount - 1 + 2 ^ 32 by omega, Nat.add_mod_right]
    exact Nat.mod_eq_of_lt (by omega)
  have hbits : ∀ j, WordBitmap.testBit (WordBitmap.set s.bitmap (k / 64) (k % 64)) j =
      (s.freeSlot j || decide (j = k)) := by
    intro j
    rw [WordBitmap.testBit_set hword hlow, hk']
    rfl
  have hrun : s.freeObject hardened (s.slotAddr k) = .ok { s with
      bitmap := WordBitmap.set s.bitmap (k / 64) (k % 64)
      useCount := s.useCount - 1
      scanCursor := min s.scanCursor (k / 64) } := by
    unfold freeObject
    simp only [hoff, hidx, hshift, hand, hcnt]
    rw [hcheck_true (by simpa using hbase), hcheck_true (by simp), hcheck_true (by simpa using hk),
      hcheck_true
        (by simp only [getBitmapNum, Nat.shiftRight_eq_div_pow, decide_eq_true_eq]; omega),
      hcheck_true (by simpa [freeSlot] using hused), hcheck_true (by simpa using hpos)]
    rfl
  refine ⟨_, hrun, ?_, hbits, rfl⟩
  refine ⟨h.idx_lt, h.class_idx, h.obj_size, h.capacity_pos, h.capacity_le, ?_, ?_,
    h.offset_aligned, h.slots_fit, ?_, fun j hj => ?_, fun j hj => ?_⟩
  · simpa using h.words
  · simpa using h.bitmap_fits
  · have hset := WordBitmap.count_set hword hlow (n := s.capacity) (by omega)
      (by rw [hk']; exact hused)
    have := h.free_count
    simp only
    omega
  · simp only [freeSlot] at hj
    rw [hbits] at hj
    simp only [Bool.or_eq_true, decide_eq_true_eq] at hj
    rcases hj with hj | rfl
    · exact h.free_lt j hj
    · exact hk
  · simp only [lt_min_iff] at hj ⊢
    rw [WordBitmap.set, WordBitmap.getD_set_word _ _ _ _ hword, if_neg (by omega)]
    exact h.below_cursor j hj.1

/-- `ObjectSlotOf` on the start of a slot. -/
lemma Carved.objectSlotOf_slotAddr {s : Span} {idx k : ℕ} (h : s.Carved idx)
    (hk : k < s.capacity) : s.objectSlotOf (s.slotAddr k) = k := by
  have hpos := h.size_pos
  have hoff : s.slotAddr k - s.getDataBasePtr = k * s.alignedObjSize := by
    simp [slotAddr]
  have hlt : k * s.alignedObjSize < s.capacity * s.alignedObjSize :=
    Nat.mul_lt_mul_of_pos_right hk hpos
  have hle : s.getDataBasePtr ≤ s.slotAddr k := Nat.le_add_right _ _
  simp only [objectSlotOf, hoff]
  rw [if_neg (by omega), if_neg (by simp), Nat.mul_div_cancel _ hpos]

/-- An address that is not the start of a slot fails one of the three tests of
`ObjectSlotOf`. -/
lemma objectSlotOf_eq_sizeMax {s : Span} {idx ptr : ℕ} (hidx : idx < SizeClass.kNumSizeClasses)
    (hs : s.alignedObjSize = SizeClass.size idx) (hptr : ptr < 2 ^ 64)
    (h : s.objectSlotOf ptr = sizeMax) :
    ptr < s.getDataBasePtr ∨ s.capacity * s.alignedObjSize ≤ ptr - s.getDataBasePtr ∨
      (ptr - s.getDataBasePtr) % s.alignedObjSize ≠ 0 := by
  by_contra hno
  push Not at hno
  obtain ⟨h₁, h₂, h₃⟩ := hno
  have hmin : ∀ idx < SizeClass.kNumSizeClasses, 16 ≤ SizeClass.size idx := by decide
  have hsz := hmin idx hidx
  simp only [objectSlotOf, ge_iff_le] at h
  rw [if_neg (by omega), if_neg (by omega)] at h
  have hle : (ptr - s.getDataBasePtr) / s.alignedObjSize ≤ (ptr - s.getDataBasePtr) / 16 :=
    Nat.div_le_div_left (by omega) (by norm_num)
  unfold sizeMax at h
  omega

/-- **The hardened `FreeObject` rejects every address that is not the start of a slot.** -/
theorem freeObject_of_not_slot {s : Span} {idx ptr : ℕ} (hidx : idx < SizeClass.kNumSizeClasses)
    (hs : s.alignedObjSize = SizeClass.size idx) (hptr : ptr < 2 ^ 64)
    (h : s.objectSlotOf ptr = sizeMax) : ∃ m, s.freeObject true ptr = .error (.check m) := by
  have hcase := objectSlotOf_eq_sizeMax hidx hs hptr h
  by_cases h₁ : s.getDataBasePtr ≤ ptr
  swap
  · exact ⟨"Pointer underflow detected!", by simp [freeObject, hcheck, h₁]; rfl⟩
  have hoff := subU64_of_le hptr h₁
  by_cases h₂ : (ptr - s.getDataBasePtr) % s.alignedObjSize = 0
  swap
  · exact ⟨"Pointer misaligned!", by simp [freeObject, hcheck, h₁, hoff, h₂]; rfl⟩
  have hslot := globalObjIdx_eq hidx hs (ptr - s.getDataBasePtr)
  have h₃ : ¬ (ptr - s.getDataBasePtr) / s.alignedObjSize < s.capacity := by
    have hsz := (SizeClass.size_bounds idx hidx).1
    rw [not_lt, Nat.le_div_iff_mul_le (by omega)]
    rcases hcase with hc | hc | hc
    · omega
    · exact hc
    · exact absurd h₂ hc
  exact ⟨"Pointer overflow detected!", by
    simp [freeObject, hcheck, h₁, hoff, h₂, hslot, h₃]; rfl⟩

end Span

end Ammalloc
