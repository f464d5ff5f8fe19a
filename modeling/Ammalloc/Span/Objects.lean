import Ammalloc.Lib.ExtentMap
import Ammalloc.Lib.Machine
import Ammalloc.Span

set_option relaxedAutoImplicit false
set_option autoImplicit false

/-!
# The objects of a span

Once `Init` has carved a span, `AllocObject` and `FreeObject` hand its slots out and take them back.
Whatever the sequence of calls, the bitmap, the use count and the scan cursor agree with the
objects that are out.

## Main definitions

* `Ammalloc.Span.bytes`, `Ammalloc.Span.bitmapBytes`, `Ammalloc.Span.slotBytes` — the memory of a
  span, of its bitmap and of a slot.
* `Ammalloc.Span.Objects`, `Ammalloc.Span.objectMachine` — a span under a sequence of calls.

## Main results

* `Ammalloc.Span.ObjectsOk.next` — one call keeps the books.
* `Ammalloc.Span.bitmap_machine` — bitmap, counters and objects after any sequence of calls.
-/

namespace Ammalloc

/-! ## The memory of a span -/

namespace Span

/-- The memory of a span. -/
def bytes (s : Span) : Extent := ⟨s.getPageBaseAddr, s.pageNum * pageSize⟩

/-- The memory of its bitmap, at the beginning of the first page. -/
def bitmapBytes (s : Span) : Extent := ⟨s.getPageBaseAddr, 8 * s.bitmap.length⟩

/-- The memory of slot `k`. -/
def slotBytes (s : Span) (k : ℕ) : Extent := ⟨s.slotAddr k, s.alignedObjSize⟩

variable {s : Span} {idx k j : ℕ}

/-- The first byte of a span. -/
lemma getPageBaseAddr_eq (s : Span) : s.getPageBaseAddr = s.startPageIdx * pageSize := by
  rw [getPageBaseAddr, Nat.shiftLeft_eq]
  rfl

/-- The slots before slot `k` end where it begins. -/
lemma mul_le_of_lt (hk : k < j) (size : ℕ) : k * size + size ≤ j * size := by
  have := Nat.mul_le_mul_right size (Nat.succ_le_of_lt hk)
  rwa [Nat.succ_mul] at this

/-- A slot lies in the pages of its span. -/
lemma Carved.slotBytes_within (h : s.Carved idx) (hk : k < s.capacity) :
    (s.slotBytes k).Within s.bytes := by
  have hmul := mul_le_of_lt hk s.alignedObjSize
  have hfit := h.slots_fit
  simp only [Extent.Within, slotBytes, bytes, slotAddr, getDataBasePtr]
  omega

/-- The bitmap lies in the pages of its span. -/
lemma Carved.bitmapBytes_within (h : s.Carved idx) : s.bitmapBytes.Within s.bytes := by
  have hfit := h.slots_fit
  have hbitmap := h.bitmap_fits
  simp only [Extent.Within, bitmapBytes, bytes]
  omega

/-- A slot lies behind the bitmap. -/
lemma Carved.slotBytes_disjoint_bitmap (h : s.Carved idx) (k : ℕ) :
    (s.slotBytes k).Disjoint s.bitmapBytes := by
  have hbitmap := h.bitmap_fits
  simp only [Extent.Disjoint, slotBytes, bitmapBytes, slotAddr, getDataBasePtr]
  omega

/-- Different slots are disjoint. -/
lemma slotBytes_disjoint (hkj : k ≠ j) : (s.slotBytes k).Disjoint (s.slotBytes j) := by
  simp only [Extent.Disjoint, slotBytes, slotAddr]
  rcases Nat.lt_or_gt_of_ne hkj with h | h
  · have := mul_le_of_lt h s.alignedObjSize
    omega
  · have := mul_le_of_lt h s.alignedObjSize
    omega

/-- Slots are aligned. -/
lemma Carved.slotAddr_aligned (h : s.Carved idx) (k : ℕ) : s.slotAddr k % alignment = 0 := by
  have hsize : s.alignedObjSize % alignment = 0 := by
    rw [h.obj_size]
    exact (SizeClass.size_bounds idx h.idx_lt).2.2
  have hoff := h.offset_aligned
  rw [slotAddr, getDataBasePtr, getPageBaseAddr_eq]
  unfold alignment pageSize at *
  have hmul : k * s.alignedObjSize % 16 = 0 := by
    rw [Nat.mul_mod, hsize, Nat.mul_zero, Nat.zero_mod]
  omega

/-! ## Sequences of calls -/

/-- A span and the objects that are out. -/
structure Objects where
  span : Span
  live : List ℕ := []
  fault : Option Fault := none

/-- A call; `FreeObject` is called on objects that are out. -/
inductive ObjectCall where
  | allocObject
  | freeObject (ptr : ℕ)

/-- A carved span under a sequence of calls. -/
def objectMachine (hardened : Bool) (s : Span) : Machine Objects ObjectCall where
  init := {{ span := s }}
  next st
    | .allocObject =>
      match st.span.allocObject with
      | some (a, s') => { st with span := s', live := a :: st.live }
      | none => st
    | .freeObject ptr =>
      if ptr ∈ st.live then
        match st.span.freeObject hardened ptr with
        | .ok s' => { st with span := s', live := st.live.erase ptr }
        | .error e => { st with fault := some e }
      else st

/-- The objects that are out are the slots whose bits are clear. -/
structure ObjectsOk (s : Span) (idx : ℕ) (st : Objects) : Prop where
  carved : st.span.Carved idx
  fault : st.fault = none
  bytes : st.span.bytes = s.bytes
  nodup : st.live.Nodup
  mem : ∀ a, a ∈ st.live ↔
    ∃ k < st.span.capacity, st.span.freeSlot k = false ∧ a = st.span.slotAddr k

/-- `AllocObject` on the books: a slot that was free is out. -/
lemma ObjectsOk.alloc {s s' : Span} {st : Objects} (h : ObjectsOk s idx st) {a : ℕ}
    (ha : st.span.allocObject = some (a, s')) :
    ObjectsOk s idx { st with span := s', live := a :: st.live } := by
  obtain ⟨k, hfree, -, haddr, hbits, hcarved, heq⟩ := h.carved.allocObject_some ha
  have hcap : s'.capacity = st.span.capacity := by rw [heq]
  have hslot : s'.slotAddr = st.span.slotAddr := by rw [heq]; rfl
  have hnew : a ∉ st.live := by
    intro hmem
    obtain ⟨j, -, hused, hj⟩ := (h.mem a).mp hmem
    rw [h.carved.slotAddr_inj (haddr.symm.trans hj), hused] at hfree
    exact Bool.false_ne_true hfree
  refine ⟨hcarved, h.fault, ?_, List.nodup_cons.mpr ⟨hnew, h.nodup⟩, fun b => ?_⟩
  · rw [← h.bytes, heq]
    rfl
  · simp only [List.mem_cons, h.mem b, hcap, hslot, hbits]
    constructor
    · rintro (rfl | ⟨j, hj, hused, rfl⟩)
      · exact ⟨k, h.carved.free_lt k hfree, by simp, haddr⟩
      · exact ⟨j, hj, by simp [hused], rfl⟩
    · rintro ⟨j, hj, hused, rfl⟩
      by_cases hjk : j = k
      · exact Or.inl (by rw [hjk, haddr])
      · exact Or.inr ⟨j, hj, by simpa [hjk] using hused, rfl⟩

/-- `FreeObject` on the books: an object that was out is a free slot again. -/
lemma ObjectsOk.free {s : Span} {st : Objects} (h : ObjectsOk s idx st) (hardened : Bool) {ptr : ℕ}
    (hmem : ptr ∈ st.live) (hptr : ptr < 2 ^ 64) :
    ∃ s', st.span.freeObject hardened ptr = .ok s' ∧
      ObjectsOk s idx { st with span := s', live := st.live.erase ptr } := by
  obtain ⟨k, hk, hused, rfl⟩ := (h.mem ptr).mp hmem
  obtain ⟨s', hrun, hcarved, hbits, heq⟩ := h.carved.freeObject_ok hardened hk hused hptr
  have hcap : s'.capacity = st.span.capacity := by rw [heq]
  have hslot : s'.slotAddr = st.span.slotAddr := by rw [heq]; rfl
  refine ⟨s', hrun, hcarved, h.fault, ?_, h.nodup.erase _, fun b => ?_⟩
  · rw [← h.bytes, heq]
    rfl
  · simp only [h.nodup.mem_erase_iff, h.mem b, hcap, hslot, hbits]
    constructor
    · rintro ⟨hne, j, hj, hfree, rfl⟩
      have hjk : j ≠ k := fun heq => hne (by rw [heq])
      exact ⟨j, hj, by simp [hfree, hjk], rfl⟩
    · rintro ⟨j, hj, hfree, rfl⟩
      simp only [Bool.or_eq_false_iff, decide_eq_false_iff_not] at hfree
      refine ⟨fun heq => hfree.2 (h.carved.slotAddr_inj heq), j, hj, hfree.1, rfl⟩

/-- **One call keeps the books.** -/
lemma ObjectsOk.next {s s₀ : Span} {st : Objects} (h : ObjectsOk s idx st)
    (hpages : (s.startPageIdx + s.pageNum) * pageSize ≤ 2 ^ 64) (hardened : Bool) (c : ObjectCall) :
    ObjectsOk s idx ((objectMachine hardened s₀).next st c) := by
  cases c with
  | allocObject =>
    simp only [objectMachine]
    split
    · exact h.alloc ‹_›
    · exact h
  | freeObject ptr =>
    simp only [objectMachine]
    split
    · rename_i hmem
      obtain ⟨k, hk, hused, rfl⟩ := (h.mem ptr).mp hmem
      have hwithin := h.carved.slotBytes_within hk
      have hsize := h.carved.size_pos
      rw [h.bytes] at hwithin
      have hlt : st.span.slotAddr k < 2 ^ 64 := by
        simp only [Extent.Within, slotBytes, Span.bytes, getPageBaseAddr_eq,
          ← Nat.add_mul] at hwithin
        omega
      obtain ⟨s', hrun, hok⟩ := h.free hardened hmem hlt
      rw [hrun]
      exact hok
    · exact h

/-- A span that `Init` has just carved: nothing is out. -/
lemma Carved.objectsOk {s₀ : Span} (h : s₀.Carved idx) (h₀ : s₀.useCount = 0)
    (hbytes : s₀.bytes = s.bytes) : ObjectsOk s idx { span := s₀ } := by
  refine ⟨h, rfl, hbytes, List.nodup_nil, fun a => ?_⟩
  simp only [List.not_mem_nil, false_iff, not_exists, not_and]
  intro k hk hused
  rw [h.freeSlot_of_useCount_eq_zero h₀ hk] at hused
  exact absurd hused (by simp)

/-- The bits beyond the capacity are clear, so they do not count. -/
lemma Carved.count_words (h : s.Carved idx) :
    WordBitmap.count s.bitmap (64 * s.bitmap.length) = WordBitmap.count s.bitmap s.capacity := by
  unfold WordBitmap.count
  congr 1
  ext k
  simp only [Finset.mem_filter, Finset.mem_range]
  constructor
  · rintro ⟨-, hbit⟩
    exact ⟨h.free_lt k hbit, hbit⟩
  · rintro ⟨hk, hbit⟩
    exact ⟨lt_of_lt_of_le hk h.words, hbit⟩

/-- **The use count is the number of objects that are out.** Slots have different addresses, so the
objects that are out are as many as the clear bits below the capacity, and these are what the set
bits leave of the capacity. -/
lemma ObjectsOk.useCount_eq {st : Objects} (h : ObjectsOk s idx st) :
    st.span.useCount = st.live.length := by
  have himage : st.live.toFinset = ((Finset.range st.span.capacity).filter fun k =>
      ¬ st.span.freeSlot k = true).image st.span.slotAddr := by
    ext a
    simp only [List.mem_toFinset, h.mem a, Finset.mem_image, Finset.mem_filter, Finset.mem_range,
      Bool.not_eq_true]
    constructor
    · rintro ⟨k, hk, hused, rfl⟩
      exact ⟨k, ⟨hk, hused⟩, rfl⟩
    · rintro ⟨k, ⟨hk, hused⟩, rfl⟩
      exact ⟨k, hk, hused, rfl⟩
  have hlive : st.live.length = ((Finset.range st.span.capacity).filter fun k =>
      ¬ st.span.freeSlot k = true).card := by
    rw [← List.toFinset_card_of_nodup h.nodup, himage]
    exact Finset.card_image_of_injective _ fun k j hkj => h.carved.slotAddr_inj hkj
  have hbits := Finset.card_filter_add_card_filter_not (s := Finset.range st.span.capacity)
    fun k => st.span.freeSlot k = true
  have hcount : ((Finset.range st.span.capacity).filter fun k =>
      st.span.freeSlot k = true).card + st.span.useCount = st.span.capacity := h.carved.free_count
  rw [Finset.card_range] at hbits
  omega

/-- **The bitmap machine.** Let `Init` accept a span whose pages lie in the address space, and let
any sequence of `AllocObject` and of `FreeObject` of objects that are out follow, in either build.
No call aborts. The objects that are out are exactly the slots below the capacity whose bits are
clear, and the use count is their number, so that no slot is stranded; the set bits and the use
count make up the capacity; no bit beyond the capacity is set; the words below the scan cursor are
zero; `AllocObject` fails exactly if the span is full, and otherwise returns the lowest free slot.
The objects that are out are distinct, aligned, disjoint from each other and from the bitmap, and
inside the pages. -/
theorem bitmap_machine {s s₀ : Span} {size : ℕ} (hinit : s.init size = .ok s₀)
    (hpages : (s.startPageIdx + s.pageNum) * pageSize ≤ 2 ^ 64) (hardened : Bool)
    (cs : List ObjectCall) :
    let st := (objectMachine hardened s₀).run { span := s₀ } cs
    st.fault = none ∧
      (∀ a, a ∈ st.live ↔
        ∃ k < st.span.capacity, st.span.freeSlot k = false ∧ a = st.span.slotAddr k) ∧
      st.span.useCount = st.live.length ∧
      WordBitmap.count st.span.bitmap (64 * st.span.bitmap.length) + st.span.useCount =
        st.span.capacity ∧
      (∀ k, st.span.freeSlot k = true → k < st.span.capacity) ∧
      (∀ j < st.span.scanCursor, st.span.bitmap.getD j 0 = 0) ∧
      (st.span.allocObject = none ↔ st.span.useCount = st.span.capacity) ∧
      (∀ a s', st.span.allocObject = some (a, s') → ∃ k, st.span.freeSlot k = true ∧
        a = st.span.slotAddr k ∧ ∀ j, st.span.freeSlot j = true → a ≤ st.span.slotAddr j) ∧
      st.live.Nodup ∧
      (∀ a ∈ st.live, a % alignment = 0 ∧
        Extent.Disjoint ⟨a, st.span.alignedObjSize⟩ st.span.bitmapBytes ∧
        Extent.Within ⟨a, st.span.alignedObjSize⟩ s.bytes) ∧
      st.live.Pairwise fun a b =>
        Extent.Disjoint ⟨a, st.span.alignedObjSize⟩ ⟨b, st.span.alignedObjSize⟩ := by
  intro st
  obtain ⟨idx, hcarved, -, rfl⟩ := init_eq_ok hinit
  have hst : ObjectsOk s idx st := by
    refine ((Machine.Reachable.init (M := objectMachine hardened _) rfl).run cs).invariant
      (I := ObjectsOk s idx) (fun st₀ hst₀ => ?_) fun st c h => h.next hpages hardened c
    rw [Set.mem_singleton_iff.mp hst₀]
    exact hcarved.objectsOk rfl rfl
  have hc := hst.carved
  refine ⟨hst.fault, hst.mem, hst.useCount_eq, by rw [hc.count_words]; exact hc.free_count,
    hc.free_lt, hc.below_cursor, ?_, fun a s' ha => ?_, hst.nodup, fun a ha => ?_, ?_⟩
  · rw [hc.allocObject_none]
    have := hc.useCount_le
    omega
  · obtain ⟨k, hfree, hlow, haddr, -⟩ := hc.allocObject_some ha
    refine ⟨k, hfree, haddr, fun j hj => ?_⟩
    have hkj : k ≤ j := by
      by_contra hlt
      rw [hlow j (by omega)] at hj
      exact Bool.false_ne_true hj
    rw [haddr]
    exact Nat.add_le_add_left (Nat.mul_le_mul_right _ hkj) _
  · obtain ⟨k, hk, -, rfl⟩ := (hst.mem a).mp ha
    exact ⟨hc.slotAddr_aligned k, hc.slotBytes_disjoint_bitmap k,
      hst.bytes ▸ hc.slotBytes_within hk⟩
  · refine hst.nodup.imp_of_mem fun {a b} ha hb hne => ?_
    obtain ⟨k, -, -, rfl⟩ := (hst.mem a).mp ha
    obtain ⟨j, -, -, rfl⟩ := (hst.mem b).mp hb
    exact slotBytes_disjoint fun hkj => hne (by rw [hkj])

/-- A page of 48-byte objects, which is not a page count of its class: three objects are taken, the
first of them is given back in between and is the one that the last call returns. -/
theorem bitmap_machine_onePage :
    let s : Span := { startPageIdx := 7, pageNum := 1 }
    ∃ s₀, s.init 48 = .ok s₀ ∧
      let st := (objectMachine true s₀).run { span := s₀ }
        [.allocObject, .allocObject, .freeObject (7 * 4096 + 16), .allocObject]
      st.live = [7 * 4096 + 16, 7 * 4096 + 64] ∧ st.live.Nodup ∧ st.span.useCount = 2 := by
  intro s
  obtain ⟨s₀, h⟩ : ∃ s₀, s.init 48 = .ok s₀ :=
    ⟨_, init_of_capacity_pos (show 2 < SizeClass.kNumSizeClasses by decide) (by decide)⟩
  have hlive : ((objectMachine true s₀).run { span := s₀ }
      [.allocObject, .allocObject, .freeObject (7 * 4096 + 16), .allocObject]).live =
        [7 * 4096 + 16, 7 * 4096 + 64] := by
    obtain rfl : s₀ = (s.init 48).toOption.getD s := by
      rw [h]
      rfl
    decide +kernel
  obtain ⟨-, -, hcount, -, -, -, -, -, hnodup, -⟩ := bitmap_machine h (by decide) true
    [.allocObject, .allocObject, .freeObject (7 * 4096 + 16), .allocObject]
  exact ⟨s₀, h, hlive, hnodup, by rw [hcount, hlive]; rfl⟩

end Span

end Ammalloc
