import Ammalloc.CentralCache
import Ammalloc.Lib.FamilySum
import Ammalloc.PageCache.Release

set_option relaxedAutoImplicit false
set_option autoImplicit false

/-!
# The books of the central cache

Every object slot of a span that the CentralCache has borrowed is free in the span's bitmap or
accounted for exactly once: in a TransferCache, or outside. The invariant is stated relative to
the multiset `out` of the objects outside and the multiset `spansOut` of the spans outside the
lists, so that the step of one call is proved against an arbitrary rest.

## Main definitions

* `Ammalloc.Span.HandedOut` — a slot whose bit is clear.
* `Ammalloc.CentralCache.Allocated` — the slots that are not free in a listed span.
* `Ammalloc.CentralCache.Inv` — the invariant.

## Main results

* `Ammalloc.CentralCache.Inv.setRing` — the TransferCache sections.
* `Ammalloc.CentralCache.Inv.of_span` — the sections that change one span and its list.
* `Ammalloc.CentralCache.Inv.of_pages` — the PageCache sections.
-/

namespace Ammalloc

open SizeClass (kNumSizeClasses)

/-! ## Slots of a span -/

namespace Span

/-- The slot at address `a` is not free. -/
def HandedOut (s : Span) (a : ℕ) : Prop :=
  ∃ k < s.capacity, s.freeSlot k = false ∧ s.slotAddr k = a

variable {s s' : Span} {idx k : ℕ}

/-- The pages of a slot belong to the span. -/
lemma Carved.covers_slot (h : s.Carved idx) (hk : k < s.capacity) :
    s.Covers (s.slotAddr k >>> pageShift) := by
  have hfit := h.slots_fit
  have hpos := h.size_pos
  have hmul : (k + 1) * s.alignedObjSize ≤ s.capacity * s.alignedObjSize :=
    Nat.mul_le_mul_right _ hk
  rw [Nat.add_mul] at hmul
  simp only [Covers, slotAddr, getDataBasePtr, getPageBaseAddr, Nat.shiftLeft_eq,
    Nat.shiftRight_eq_div_pow]
  unfold pageShift pageSize at *
  omega

/-- A span with nothing handed out. -/
lemma Carved.not_handedOut (h : s.Carved idx) (h₀ : s.useCount = 0) (a : ℕ) :
    ¬ s.HandedOut a := by
  rintro ⟨k, hk, hf, -⟩
  rw [h.freeSlot_of_useCount_eq_zero h₀ hk] at hf
  exact absurd hf (by simp)

/-- A span with nothing handed out, carved or not yet. -/
def Idle (s : Span) : Prop := s.useCount = 0 ∧ (s.capacity = 0 ∨ ∃ idx, s.Carved idx)

/-- `FreeObject` takes one address out. -/
lemma Carved.freeObject_handedOut (h : s.Carved idx) (hk : k < s.capacity)
    (hcap : s'.capacity = s.capacity) (haddr : ∀ j, s'.slotAddr j = s.slotAddr j)
    (hfree : ∀ j, s'.freeSlot j = (s.freeSlot j || decide (j = k))) (a : ℕ) :
    s'.HandedOut a ↔ s.HandedOut a ∧ a ≠ s.slotAddr k := by
  constructor
  · rintro ⟨j, hj, hf, rfl⟩
    rw [hfree, Bool.or_eq_false_iff, decide_eq_false_iff_not] at hf
    rw [haddr, hcap] at *
    exact ⟨⟨j, hj, hf.1, rfl⟩, fun he => hf.2 (h.slotAddr_inj he)⟩
  · rintro ⟨⟨j, hj, hf, rfl⟩, hne⟩
    have hjk : j ≠ k := by rintro rfl; exact hne rfl
    exact ⟨j, hcap ▸ hj, by rw [hfree, hf]; simp [hjk], haddr j⟩

/-- What `allocLoop` hands out. -/
structure AllocLoopPost (s : Span) (n : ℕ) (objs : List ℕ) (s' : Span) (hitNull : Bool) :
    Prop where
  fields : s' = s.withObjects s'
  capacity : s'.capacity = s.capacity
  useCount : s'.useCount = s.useCount + objs.length
  nodup : objs.Nodup
  slot : ∀ a ∈ objs, ∃ k < s.capacity, s.freeSlot k = true ∧ s.slotAddr k = a
  handedOut : ∀ a, s'.HandedOut a ↔ s.HandedOut a ∨ a ∈ objs
  length_le : objs.length ≤ n
  full : hitNull = true → s'.isFull = true
  all : hitNull = false → objs.length = n

/-- `AllocObject` on the addresses handed out. -/
lemma Carved.allocObject_handedOut (h : s.Carved idx) {a : ℕ} (ha : s.allocObject = some (a, s')) :
    s'.Carved idx ∧ s' = s.withObjects s' ∧ s'.capacity = s.capacity ∧
      s'.useCount = s.useCount + 1 ∧ (∀ j, s'.slotAddr j = s.slotAddr j) ∧
      (∃ k < s.capacity, s.freeSlot k = true ∧ s.slotAddr k = a ∧
        ∀ j, s'.freeSlot j = (s.freeSlot j && !decide (j = k))) ∧
      ∀ b, s'.HandedOut b ↔ s.HandedOut b ∨ b = a := by
  obtain ⟨k, hfree, -, rfl, hbits, hcarved, hfields⟩ := h.allocObject_some ha
  have hcap : s'.capacity = s.capacity := by rw [hfields]
  have haddr : ∀ j, s'.slotAddr j = s.slotAddr j := fun j => by rw [hfields]; rfl
  have hk := h.free_lt k hfree
  refine ⟨hcarved, by rw [hfields]; rfl, hcap, by rw [hfields], haddr,
    ⟨k, hk, hfree, rfl, hbits⟩, fun b => ?_⟩
  constructor
  · rintro ⟨j, hj, hf, rfl⟩
    rw [hbits, Bool.and_eq_false_iff] at hf
    rw [haddr, hcap] at *
    rcases hf with hf | hf
    · exact Or.inl ⟨j, hj, hf, rfl⟩
    · obtain rfl : j = k := by simpa using hf
      exact Or.inr rfl
  · rintro (⟨j, hj, hf, rfl⟩ | rfl)
    · exact ⟨j, hcap ▸ hj, by rw [hbits, hf]; rfl, haddr j⟩
    · exact ⟨k, hcap ▸ hk, by rw [hbits]; simp, haddr k⟩

/-- **The inner loop of `FetchBatch`**: the objects are distinct free slots, handed out
afterwards, and the span is full if the loop ended before `n` objects. -/
lemma Carved.allocLoop_spec (h : s.Carved idx) (n : ℕ) :
    (s.allocLoop n).2.1.Carved idx ∧
      AllocLoopPost s n (s.allocLoop n).1 (s.allocLoop n).2.1 (s.allocLoop n).2.2 := by
  induction n generalizing s with
  | zero => exact ⟨h, rfl, rfl, rfl, List.nodup_nil, by simp [allocLoop], by simp [allocLoop],
      le_rfl, by simp [allocLoop], fun _ => rfl⟩
  | succ n ih =>
    unfold allocLoop
    cases ha : s.allocObject with
    | none =>
      have hfull := h.allocObject_none.mp ha
      exact ⟨h, rfl, rfl, rfl, List.nodup_nil, by simp, by simp, Nat.zero_le _,
        fun _ => by simp [isFull, hfull], by simp⟩
    | some r =>
      obtain ⟨a, s₁⟩ := r
      obtain ⟨hc₁, hf₁, hcap₁, huse₁, haddr₁, ⟨k, hk, hfree, rfl, hbits⟩, hout₁⟩ :=
        h.allocObject_handedOut ha
      obtain ⟨hc, hp⟩ := ih hc₁
      refine ⟨hc, ?_, ?_, ?_, ?_, ?_, fun b => ?_, ?_, hp.full, fun hn => ?_⟩
      · rw [hp.fields, hf₁]
        rfl
      · rw [hp.capacity, hcap₁]
      · rw [hp.useCount, huse₁]
        simp only [List.length_cons]
        omega
      · refine List.nodup_cons.mpr ⟨fun hmem => ?_, hp.nodup⟩
        -- the first object is not free in the span it leaves behind
        obtain ⟨j, -, hj, he⟩ := hp.slot _ hmem
        rw [haddr₁] at he
        rw [h.slotAddr_inj he, hbits] at hj
        simp at hj
      · intro b hb
        rcases List.mem_cons.mp hb with rfl | hb
        · exact ⟨k, hk, hfree, rfl⟩
        · obtain ⟨j, hj, hfj, rfl⟩ := hp.slot b hb
          rw [hbits, Bool.and_eq_true] at hfj
          exact ⟨j, hcap₁ ▸ hj, hfj.1, (haddr₁ j).symm⟩
      · rw [hp.handedOut, hout₁, List.mem_cons]
        tauto
      · simp only [List.length_cons]
        have := hp.length_le
        omega
      · simp only [List.length_cons]
        rw [hp.all hn]

/-- A span that is not full gives at least one object. -/
lemma Carved.allocLoop_pos (h : s.Carved idx) (hfull : s.isFull = false) {n : ℕ} (hn : 0 < n) :
    0 < (s.allocLoop n).1.length := by
  obtain ⟨m, rfl⟩ : ∃ m, n = m + 1 := ⟨n - 1, by omega⟩
  unfold allocLoop
  cases ha : s.allocObject with
  | none =>
    have := h.allocObject_none.mp ha
    simp only [isFull, decide_eq_false_iff_not] at hfull
    omega
  | some r => simp

end Span

/-! ## Objects with their class -/

/-- The objects of a buffer of class `idx`. -/
def tag (idx : ℕ) (l : List ℕ) : Multiset (ℕ × ℕ) := (l.map (idx, ·) : List (ℕ × ℕ))

@[simp] lemma tag_nil (idx : ℕ) : tag idx [] = 0 := rfl

@[simp] lemma tag_cons (idx a : ℕ) (l : List ℕ) : tag idx (a :: l) = (idx, a) ::ₘ tag idx l := rfl

@[simp] lemma tag_append (idx : ℕ) (l l' : List ℕ) :
    tag idx (l ++ l') = tag idx l + tag idx l' := by
  simp [tag]

@[simp] lemma tag_reverse (idx : ℕ) (l : List ℕ) : tag idx l.reverse = tag idx l := by
  simp [tag]

@[simp] lemma mem_tag {idx : ℕ} {l : List ℕ} {p : ℕ × ℕ} :
    p ∈ tag idx l ↔ p.1 = idx ∧ p.2 ∈ l := by
  obtain ⟨j, a⟩ := p
  simp only [tag, Multiset.mem_coe, List.mem_map, Prod.mk.injEq]
  constructor
  · rintro ⟨b, hb, rfl, rfl⟩
    exact ⟨rfl, hb⟩
  · rintro ⟨rfl, ha⟩
    exact ⟨a, ha, rfl, rfl⟩

/-- How often an object of a class occurs in a tagged list. -/
lemma count_tag (idx : ℕ) (l : List ℕ) (p : ℕ × ℕ) :
    (tag idx l).count p = if p.1 = idx then l.count p.2 else 0 := by
  obtain ⟨j, a⟩ := p
  induction l with
  | nil => simp
  | cons b l ih =>
    rw [tag_cons, Multiset.count_cons, ih, List.count_cons]
    by_cases hj : j = idx
    · by_cases ha : a = b
      · simp [hj, ha]
      · simp [hj, ha, Ne.symm ha]
    · simp [hj]

/-- Distinct addresses are distinct objects of a class. -/
lemma nodup_tag {idx : ℕ} {l : List ℕ} (h : l.Nodup) : (tag idx l).Nodup := by
  rw [tag, Multiset.coe_nodup]
  exact h.map fun a b hab => (Prod.mk.inj hab).2

namespace CentralCache

/-! ## The invariant -/

/-- The objects in the TransferCaches. -/
def ringObjs (c : CentralCache) : Multiset (ℕ × ℕ) :=
  ∑ idx ∈ Finset.range kNumSizeClasses, tag idx (c.buckets idx).transferCache.contents

/-- The spans on the lists. -/
def listedSpans (c : CentralCache) : Multiset ℕ :=
  ∑ idx ∈ Finset.range kNumSizeClasses, ((c.buckets idx).spanList : Multiset ℕ)

/-- The object `p.2` of class `p.1` is a slot of a listed span and not free in its bitmap. -/
def Allocated (c : CentralCache) (p : ℕ × ℕ) : Prop :=
  p.1 < kNumSizeClasses ∧ ∃ i ∈ (c.buckets p.1).spanList, ∃ s,
    c.pageCache.spans i = some s ∧ s.HandedOut p.2

/-- Span `i` has no free slot. -/
def FullSpan (c : CentralCache) (i : ℕ) : Prop :=
  ∃ s, c.pageCache.spans i = some s ∧ s.isFull = true

/-- A span in use that the scavenger does not hold. -/
structure Borrowed (pc : PageCache) (det : List ℕ) (i : ℕ) (s : Span) : Prop where
  spans : pc.spans i = some s
  used : s.used = true
  notDet : i ∉ det

/-- **The invariant of the CentralCache**, with the objects `out` outside the TransferCaches and
the spans `spansOut` outside the lists. The span `fresh` may have nothing handed out yet. -/
structure Inv (c : CentralCache) (det : List ℕ) (out : Multiset (ℕ × ℕ)) (spansOut : Multiset ℕ)
    (fresh : Option ℕ) : Prop where
  pages : c.pageCache.Inv det
  ring : ∀ idx < kNumSizeClasses, (c.buckets idx).transferCache.WF
  capacity : ∀ idx < kNumSizeClasses, (c.buckets idx).transferCache.capacity = 0 ∨
    (c.buckets idx).transferCache.capacity = transferCapacity idx
  listed : ∀ idx < kNumSizeClasses, ∀ i ∈ (c.buckets idx).spanList, ∃ s,
    Borrowed c.pageCache det i s ∧ s.Carved idx ∧ (0 < s.useCount ∨ fresh = some i)
  offList : ∀ i ∈ spansOut, ∃ s, Borrowed c.pageCache det i s ∧ s.Idle
  nodup : (c.listedSpans + spansOut).Nodup
  complete : ∀ i s, Borrowed c.pageCache det i s → i ∈ c.listedSpans + spansOut
  /-- No object is in two places. -/
  books : (c.ringObjs + out).Nodup
  /-- The objects in the books are those that are not free in the bitmaps. -/
  allocated : ∀ p, p ∈ c.ringObjs + out ↔ c.Allocated p
  order : ∀ idx < kNumSizeClasses,
    (c.buckets idx).spanList.Pairwise fun i j => c.FullSpan i → c.FullSpan j

variable {c c' : CentralCache} {det : List ℕ} {out out' : Multiset (ℕ × ℕ)}
  {spansOut spansOut' : Multiset ℕ} {fresh fresh' : Option ℕ} {idx : ℕ}

/-- A listed span is in the list of some class. -/
lemma mem_listedSpans {i : ℕ} :
    i ∈ c.listedSpans ↔ ∃ idx < kNumSizeClasses, i ∈ (c.buckets idx).spanList := by
  simp [listedSpans, Multiset.mem_sum]

/-! ### Updates of one bucket -/

@[simp] lemma setRing_spanList (r : RingBuffer ℕ) (j : ℕ) :
    ((c.setRing idx r).buckets j).spanList = (c.buckets j).spanList := by
  by_cases hj : j = idx
  · subst hj; simp [setRing]
  · simp [setRing, hj]

@[simp] lemma setRing_pageCache (r : RingBuffer ℕ) :
    (c.setRing idx r).pageCache = c.pageCache := rfl

@[simp] lemma setSpanList_transferCache (l : List ℕ) (j : ℕ) :
    ((c.setSpanList idx l).buckets j).transferCache = (c.buckets j).transferCache := by
  by_cases hj : j = idx
  · subst hj; simp [setSpanList]
  · simp [setSpanList, hj]

@[simp] lemma setSpanList_self (l : List ℕ) :
    ((c.setSpanList idx l).buckets idx).spanList = l := by
  simp [setSpanList]

/-- A write of one span list leaves those of the other classes alone. -/
lemma setSpanList_of_ne (l : List ℕ) {j : ℕ} (hj : j ≠ idx) :
    ((c.setSpanList idx l).buckets j).spanList = (c.buckets j).spanList := by
  simp [setSpanList, hj]

@[simp] lemma setSpanList_pageCache (l : List ℕ) :
    (c.setSpanList idx l).pageCache = c.pageCache := rfl

@[simp] lemma storeSpan_buckets (i : ℕ) (s : Span) : (c.storeSpan i s).buckets = c.buckets := rfl

@[simp] lemma storeSpan_pageCache (i : ℕ) (s : Span) :
    (c.storeSpan i s).pageCache = c.pageCache.store i s := rfl

/-- The objects in the TransferCaches are a matter of the rings. -/
lemma ringObjs_congr (h : ∀ j, (c'.buckets j).transferCache = (c.buckets j).transferCache) :
    c'.ringObjs = c.ringObjs :=
  Finset.sum_congr rfl fun j _ => by rw [h j]

/-- The objects of a class in the TransferCaches are those of its own. -/
lemma count_ringObjs {p : ℕ × ℕ} (hp : p.1 < kNumSizeClasses) :
    c.ringObjs.count p = (c.buckets p.1).transferCache.contents.count p.2 := by
  rw [ringObjs, Multiset.count_sum']
  simp only [count_tag]
  rw [Finset.sum_ite_eq, if_pos (Finset.mem_range.mpr hp)]

/-- The spans in the lists are a matter of the lists. -/
lemma listedSpans_congr (h : ∀ j, (c'.buckets j).spanList = (c.buckets j).spanList) :
    c'.listedSpans = c.listedSpans :=
  Finset.sum_congr rfl fun j _ => by rw [h j]

/-- What is allocated is a matter of the lists and of the spans in them. -/
lemma allocated_congr (h : ∀ j, (c'.buckets j).spanList = (c.buckets j).spanList)
    (hspans : ∀ j < kNumSizeClasses, ∀ i ∈ (c.buckets j).spanList,
      c'.pageCache.spans i = c.pageCache.spans i) (p : ℕ × ℕ) :
    c'.Allocated p ↔ c.Allocated p := by
  simp only [Allocated, h]
  constructor
  · rintro ⟨hlt, i, hi, s, hs, ha⟩
    exact ⟨hlt, i, hi, s, (hspans p.1 hlt i hi).symm.trans hs, ha⟩
  · rintro ⟨hlt, i, hi, s, hs, ha⟩
    exact ⟨hlt, i, hi, s, (hspans p.1 hlt i hi).trans hs, ha⟩

/-- The objects in the TransferCaches when one ring is replaced. -/
lemma ringObjs_setRing (h : idx < kNumSizeClasses) (r : RingBuffer ℕ) :
    (c.setRing idx r).ringObjs + tag idx (c.buckets idx).transferCache.contents =
      c.ringObjs + tag idx r.contents :=
  FamilySum.sum_update_add _ c.buckets (fun j (b : Bucket) => tag j b.transferCache.contents)
    (Finset.mem_range.mpr h) _

/-- The spans in the lists when one list is replaced. -/
lemma listedSpans_setSpanList (h : idx < kNumSizeClasses) (l : List ℕ) :
    (c.setSpanList idx l).listedSpans + ((c.buckets idx).spanList : Multiset ℕ) =
      c.listedSpans + (l : Multiset ℕ) :=
  FamilySum.sum_update_add _ c.buckets (fun _ (b : Bucket) => (b.spanList : Multiset ℕ))
    (Finset.mem_range.mpr h) _

/-! ## The TransferCache sections -/

/-- **A TransferCache section** moves objects between the ring and the outside. -/
lemma Inv.setRing (h : c.Inv det out spansOut fresh) (hidx : idx < kNumSizeClasses)
    {r : RingBuffer ℕ} (hwf : r.WF)
    (hcap : r.capacity = (c.buckets idx).transferCache.capacity)
    (hobjs : tag idx r.contents + out' = tag idx (c.buckets idx).transferCache.contents + out) :
    (c.setRing idx r).Inv det out' spansOut fresh := by
  have htotal : (c.setRing idx r).ringObjs + out' = c.ringObjs + out := by
    have hsum := ringObjs_setRing (c := c) hidx r
    refine add_right_cancel (b := tag idx (c.buckets idx).transferCache.contents) ?_
    calc (c.setRing idx r).ringObjs + out' + tag idx (c.buckets idx).transferCache.contents
        = (c.setRing idx r).ringObjs + tag idx (c.buckets idx).transferCache.contents + out' := by
          abel
      _ = c.ringObjs + (tag idx r.contents + out') := by rw [hsum]; abel
      _ = c.ringObjs + out + tag idx (c.buckets idx).transferCache.contents := by
          rw [hobjs]; abel
  have hlisted : (c.setRing idx r).listedSpans = c.listedSpans :=
    listedSpans_congr fun j => setRing_spanList r j
  refine ⟨h.pages, fun j hj => ?_, fun j hj => ?_, fun j hj i hi => ?_, h.offList, ?_, ?_, ?_,
    fun p => ?_, fun j hj => ?_⟩
  · by_cases hji : j = idx
    · subst hji
      simpa [CentralCache.setRing] using hwf
    · simpa [CentralCache.setRing, hji] using h.ring j hj
  · by_cases hji : j = idx
    · subst hji
      simpa [CentralCache.setRing, hcap] using h.capacity j hj
    · simpa [CentralCache.setRing, hji] using h.capacity j hj
  · rw [setRing_spanList] at hi
    exact h.listed j hj i hi
  · rw [hlisted]
    exact h.nodup
  · rw [hlisted]
    exact h.complete
  · rw [htotal]
    exact h.books
  · rw [htotal, h.allocated p]
    exact (allocated_congr (fun j => setRing_spanList r j) (fun _ _ _ _ => rfl) p).symm
  · rw [setRing_spanList]
    exact h.order j hj

/-! ## Sections that change one span and its list -/

/-- Slots of different spans have different addresses. -/
lemma Borrowed.slot_ne {pc : PageCache} (h : pc.Inv det) {i j ki kj : ℕ} {s t : Span}
    (hs : Borrowed pc det i s) (ht : Borrowed pc det j t) {idx' : ℕ} (hcs : s.Carved idx)
    (hct : t.Carved idx') (hki : ki < s.capacity) (hkj : kj < t.capacity)
    (he : s.slotAddr ki = t.slotAddr kj) : i = j := by
  by_contra hne
  refine h.disjoint hne hs.spans ht.spans (hcs.covers_slot hki) ?_
  rw [he]
  exact hct.covers_slot hkj

/-- Addresses of slots are 64-bit words. -/
lemma Borrowed.slotAddr_lt {pc : PageCache} (h : pc.Inv det) {i k : ℕ} {s : Span}
    (hs : Borrowed pc det i s) (hcs : s.Carved idx) (hk : k < s.capacity) :
    s.slotAddr k < 2 ^ 64 := by
  have hpath := h.hasPath hs.spans (hcs.covers_slot hk)
  have hroot := PageMap.i0_lt_of_hasPath hpath
  rw [PageMap.i0_eq, Nat.shiftRight_eq_div_pow] at hroot
  unfold radixRootSize pageShift at hroot
  omega

/-- A span is in the list of one class only. -/
lemma Inv.list_unique (h : c.Inv det out spansOut fresh) {i j j' : ℕ} (hj : j < kNumSizeClasses)
    (hj' : j' < kNumSizeClasses) (hi : i ∈ (c.buckets j).spanList)
    (hi' : i ∈ (c.buckets j').spanList) : j = j' :=
  FamilySum.eq_of_mem_of_nodup_sum (Multiset.nodup_add.mp h.nodup).1 (Finset.mem_range.mpr hj)
    (Finset.mem_range.mpr hj') (Multiset.mem_coe.mpr hi) (Multiset.mem_coe.mpr hi')

/-- A span outside the lists is on no list. -/
lemma Inv.not_listed (h : c.Inv det out spansOut fresh) {i j : ℕ} (hi : i ∈ spansOut)
    (hj : j < kNumSizeClasses) : i ∉ (c.buckets j).spanList := by
  intro hmem
  have hdisj := (Multiset.nodup_add.mp h.nodup).2.2
  exact Multiset.disjoint_left.mp hdisj (mem_listedSpans.mpr ⟨j, hj, hmem⟩) hi

/-- A write of the object-level fields of a borrowed span leaves the others borrowed. -/
lemma borrowed_store {pc : PageCache} {i j : ℕ} {s s' : Span} (hs : Borrowed pc det i s)
    (hfields : s' = s.withObjects s') (t : Span) :
    Borrowed (pc.store i s') det j t ↔ if j = i then t = s' else Borrowed pc det j t := by
  have hused : s'.used = true := by rw [hfields]; exact hs.used
  by_cases hj : j = i
  · subst hj
    rw [if_pos rfl]
    constructor
    · rintro ⟨ht, -, -⟩
      simp only [PageCache.store, Function.update_self, Option.some.injEq] at ht
      exact ht.symm
    · rintro rfl
      exact ⟨by simp [PageCache.store], hused, hs.notDet⟩
  · rw [if_neg hj]
    constructor
    · rintro ⟨ht, hu, hd⟩
      exact ⟨by simpa [PageCache.store, hj] using ht, hu, hd⟩
    · rintro ⟨ht, hu, hd⟩
      exact ⟨by simpa [PageCache.store, hj] using ht, hu, hd⟩

/-- **A section that changes one span and its list.** The span may move between the list of its
class and the outside. -/
lemma Inv.of_span (h : c.Inv det out spansOut fresh) (hidx : idx < kNumSizeClasses) {i : ℕ}
    {s s' : Span} {l : List ℕ} (hs : Borrowed c.pageCache det i s)
    (hfields : s' = s.withObjects s')
    (honly : ∀ j < kNumSizeClasses, j ≠ idx → i ∉ (c.buckets j).spanList)
    (hfresh : ∀ j, j ≠ i → fresh = some j → fresh' = some j)
    (hmoved : (l : Multiset ℕ) + spansOut' = (c.buckets idx).spanList + spansOut)
    (hlist : ∀ j ∈ l, j ≠ i → j ∈ (c.buckets idx).spanList)
    (hoff : ∀ j ∈ spansOut', j ≠ i → j ∈ spansOut)
    (hin : i ∈ l → s'.Carved idx ∧ (0 < s'.useCount ∨ fresh' = some i))
    (hout : i ∈ spansOut' → s'.Idle)
    (hbooks : (c.ringObjs + out').Nodup)
    (halloc : ∀ p, p ∈ c.ringObjs + out' ↔ ((c.storeSpan i s').setSpanList idx l).Allocated p)
    (horder : l.Pairwise fun j j' => ((c.storeSpan i s').setSpanList idx l).FullSpan j →
      ((c.storeSpan i s').setSpanList idx l).FullSpan j') :
    ((c.storeSpan i s').setSpanList idx l).Inv det out' spansOut' fresh' := by
  have hring : ((c.storeSpan i s').setSpanList idx l).ringObjs = c.ringObjs :=
    ringObjs_congr fun j => setSpanList_transferCache l j
  have hborrow : ∀ j t, Borrowed ((c.storeSpan i s').setSpanList idx l).pageCache det j t ↔
      if j = i then t = s' else Borrowed c.pageCache det j t := fun j t =>
    borrowed_store hs hfields t
  have hspans : ((c.storeSpan i s').setSpanList idx l).listedSpans + spansOut' =
      c.listedSpans + spansOut := by
    have hsum := listedSpans_setSpanList (c := c.storeSpan i s') hidx l
    refine add_right_cancel (b := ((c.buckets idx).spanList : Multiset ℕ)) ?_
    calc ((c.storeSpan i s').setSpanList idx l).listedSpans + spansOut' +
          ((c.buckets idx).spanList : Multiset ℕ)
        = ((c.storeSpan i s').setSpanList idx l).listedSpans +
            ((c.buckets idx).spanList : Multiset ℕ) + spansOut' := by abel
      _ = c.listedSpans + ((l : Multiset ℕ) + spansOut') := by
          rw [storeSpan_buckets] at hsum
          rw [hsum, show (c.storeSpan i s').listedSpans = c.listedSpans from rfl]
          abel
      _ = c.listedSpans + spansOut + ((c.buckets idx).spanList : Multiset ℕ) := by
          rw [hmoved]
          abel
  -- a listed span other than `i` is as it was
  have hkeep : ∀ j < kNumSizeClasses, ∀ i' ∈ (c.buckets j).spanList, i' ≠ i → ∃ t,
      Borrowed ((c.storeSpan i s').setSpanList idx l).pageCache det i' t ∧ t.Carved j ∧
        (0 < t.useCount ∨ fresh' = some i') := by
    intro j hj i' hi' hne
    obtain ⟨t, ht, hct, hpos⟩ := h.listed j hj i' hi'
    refine ⟨t, (hborrow i' t).mpr (by rwa [if_neg hne]), hct, hpos.imp_right (hfresh i' hne)⟩
  refine ⟨?_, fun j hj => ?_, fun j hj => ?_, fun j hj i' hi' => ?_, fun i' hi' => ?_, ?_,
    fun i' t ht => ?_, ?_, ?_, fun j hj => ?_⟩
  · rw [setSpanList_pageCache, storeSpan_pageCache, hfields]
    exact h.pages.writeObjects hs.spans hs.used hs.notDet s'
  · rw [setSpanList_transferCache]
    exact h.ring j hj
  · rw [setSpanList_transferCache]
    exact h.capacity j hj
  · by_cases hji : j = idx
    · subst hji
      rw [setSpanList_self] at hi'
      by_cases hne : i' = i
      · subst hne
        obtain ⟨hcs, hpos⟩ := hin hi'
        exact ⟨s', (hborrow i' s').mpr (by rw [if_pos rfl]), hcs, hpos⟩
      · exact hkeep j hj i' (hlist i' hi' hne) hne
    · rw [setSpanList_of_ne l hji] at hi'
      exact hkeep j hj i' hi' fun he => honly j hj hji (he ▸ hi')
  · by_cases hne : i' = i
    · subst hne
      exact ⟨s', (hborrow i' s').mpr (by rw [if_pos rfl]), hout hi'⟩
    · obtain ⟨t, ht, h₀⟩ := h.offList i' (hoff i' hi' hne)
      exact ⟨t, (hborrow i' t).mpr (by rwa [if_neg hne]), h₀⟩
  · rw [hspans]
    exact h.nodup
  · rw [hspans]
    rw [hborrow i' t] at ht
    by_cases hne : i' = i
    · subst hne
      exact h.complete i' s hs
    · rw [if_neg hne] at ht
      exact h.complete i' t ht
  · rw [hring]
    exact hbooks
  · rw [hring]
    exact halloc
  · by_cases hji : j = idx
    · subst hji
      rw [setSpanList_self]
      exact horder
    · -- another list: none of its spans has changed
      rw [setSpanList_of_ne l hji]
      have hfull : ∀ i' ∈ (c.buckets j).spanList,
          (((c.storeSpan i s').setSpanList idx l).FullSpan i' ↔ c.FullSpan i') := by
        intro i' hi'
        have hne : i' ≠ i := fun he => honly j hj hji (he ▸ hi')
        simp [FullSpan, PageCache.store, hne]
      refine List.Pairwise.imp_of_mem (fun {a b} ha hb hab => ?_) (h.order j hj)
      rw [hfull a ha, hfull b hb]
      exact hab

/-! ### The books of one class -/

/-- An object of a listed span other than `i`. -/
def AllocatedElsewhere (c : CentralCache) (idx i a : ℕ) : Prop :=
  ∃ j ∈ (c.buckets idx).spanList, j ≠ i ∧ ∃ t, c.pageCache.spans j = some t ∧ t.HandedOut a

/-- An object of the class is allocated in a given span of the list or elsewhere. -/
lemma allocated_iff (hidx : idx < kNumSizeClasses) {i : ℕ} {s : Span}
    (hs : c.pageCache.spans i = some s) (hi : i ∈ (c.buckets idx).spanList) (a : ℕ) :
    c.Allocated (idx, a) ↔ c.AllocatedElsewhere idx i a ∨ s.HandedOut a := by
  constructor
  · rintro ⟨-, j, hj, t, ht, ha⟩
    by_cases hji : j = i
    · subst hji
      rw [hs] at ht
      exact Or.inr (Option.some.inj ht ▸ ha)
    · exact Or.inl ⟨j, hj, hji, t, ht, ha⟩
  · rintro (⟨j, hj, -, t, ht, ha⟩ | ha)
    · exact ⟨hidx, j, hj, t, ht, ha⟩
    · exact ⟨hidx, i, hi, s, hs, ha⟩

/-- The objects after a change of span `i` and its list. -/
lemma allocated_update_iff {i : ℕ} {s' : Span} {l : List ℕ} (hidx : idx < kNumSizeClasses)
    (hlist : ∀ j, j ≠ i → (j ∈ l ↔ j ∈ (c.buckets idx).spanList)) (a : ℕ) :
    ((c.storeSpan i s').setSpanList idx l).Allocated (idx, a) ↔
      c.AllocatedElsewhere idx i a ∨ (i ∈ l ∧ s'.HandedOut a) := by
  simp only [Allocated, setSpanList_self, setSpanList_pageCache, storeSpan_pageCache]
  constructor
  · rintro ⟨-, j, hj, t, ht, ha⟩
    by_cases hji : j = i
    · subst hji
      simp only [PageCache.store, Function.update_self, Option.some.injEq] at ht
      exact Or.inr ⟨hj, ht ▸ ha⟩
    · exact Or.inl ⟨j, (hlist j hji).mp hj, hji, t, by simpa [PageCache.store, hji] using ht, ha⟩
  · rintro (⟨j, hj, hji, t, ht, ha⟩ | ⟨hi, ha⟩)
    · exact ⟨hidx, j, (hlist j hji).mpr hj, t, by simpa [PageCache.store, hji] using ht, ha⟩
    · exact ⟨hidx, i, hi, s', by simp [PageCache.store], ha⟩

/-- Other classes do not notice. -/
lemma allocated_update_of_ne {i : ℕ} {s' : Span} {l : List ℕ}
    (honly : ∀ j < kNumSizeClasses, j ≠ idx → i ∉ (c.buckets j).spanList) {p : ℕ × ℕ}
    (hp : p.1 ≠ idx) : ((c.storeSpan i s').setSpanList idx l).Allocated p ↔ c.Allocated p := by
  have hspan : ∀ j ∈ (c.buckets p.1).spanList, p.1 < kNumSizeClasses →
      (c.pageCache.store i s').spans j = c.pageCache.spans j := by
    intro j hj hlt
    have hji : j ≠ i := fun he => honly p.1 hlt hp (he ▸ hj)
    simp [PageCache.store, hji]
  simp only [Allocated, setSpanList_of_ne l hp, setSpanList_pageCache, storeSpan_pageCache,
    storeSpan_buckets]
  constructor
  · rintro ⟨hlt, j, hj, t, ht, ha⟩
    exact ⟨hlt, j, hj, t, by rwa [hspan j hj hlt] at ht, ha⟩
  · rintro ⟨hlt, j, hj, t, ht, ha⟩
    exact ⟨hlt, j, hj, t, by rwa [hspan j hj hlt], ha⟩

/-- No other span has a slot at the address of a slot of span `i`. -/
lemma Inv.not_elsewhere (h : c.Inv det out spansOut fresh) (hidx : idx < kNumSizeClasses) {i k : ℕ}
    {s : Span} (hs : Borrowed c.pageCache det i s) (hcs : s.Carved idx) (hk : k < s.capacity) :
    ¬ c.AllocatedElsewhere idx i (s.slotAddr k) := by
  rintro ⟨j, hj, hji, t, ht, k', hk', -, he⟩
  obtain ⟨t', ht', hct, -⟩ := h.listed idx hidx j hj
  obtain rfl : t' = t := Option.some.inj (ht'.spans.symm.trans ht)
  exact hji (ht'.slot_ne h.pages hs hct hcs hk' hk he)

/-- **The books when an object goes back to the bitmap.** -/
lemma Inv.books_free {a : ℕ} (h : c.Inv det ((idx, a) ::ₘ out) spansOut fresh)
    (hidx : idx < kNumSizeClasses) {i k : ℕ} {s s' : Span} {l : List ℕ}
    (hs : Borrowed c.pageCache det i s) (hi : i ∈ (c.buckets idx).spanList)
    (hcs : s.Carved idx) (hk : k < s.capacity) (ha : s.slotAddr k = a)
    (hlist : ∀ j, j ≠ i → (j ∈ l ↔ j ∈ (c.buckets idx).spanList))
    (hin : i ∈ l ∨ ∀ b, ¬ s'.HandedOut b)
    (hout : ∀ b, s'.HandedOut b ↔ s.HandedOut b ∧ b ≠ a) :
    (c.ringObjs + out).Nodup ∧
      ∀ p, p ∈ c.ringObjs + out ↔ ((c.storeSpan i s').setSpanList idx l).Allocated p := by
  have hbooks := h.books
  rw [Multiset.add_cons, Multiset.nodup_cons] at hbooks
  refine ⟨hbooks.2, fun p => ?_⟩
  have hmem : p ∈ c.ringObjs + out ↔ c.Allocated p ∧ p ≠ (idx, a) := by
    rw [← h.allocated p, Multiset.add_cons, Multiset.mem_cons]
    constructor
    · intro hp
      exact ⟨Or.inr hp, fun he => hbooks.1 (he ▸ hp)⟩
    · rintro ⟨he | hp, hne⟩
      · exact absurd he hne
      · exact hp
  rw [hmem]
  by_cases hp : p.1 = idx
  · obtain ⟨j, b⟩ := p
    obtain rfl : j = idx := hp
    have hnot := h.not_elsewhere hidx hs hcs hk
    rw [ha] at hnot
    rw [allocated_update_iff hidx hlist, allocated_iff hidx hs.spans hi, hout b]
    have hne : (j, b) ≠ (j, a) ↔ b ≠ a := by simp
    rw [hne]
    constructor
    · rintro ⟨he | hb, hba⟩
      · exact Or.inl he
      · exact hin.elim (fun hl => Or.inr ⟨hl, hb, hba⟩)
          fun hno => absurd ((hout b).mpr ⟨hb, hba⟩) (hno b)
    · rintro (he | ⟨-, hb, hba⟩)
      · exact ⟨Or.inl he, fun hba => hnot (hba ▸ he)⟩
      · exact ⟨Or.inr hb, hba⟩
  · have honly : ∀ j < kNumSizeClasses, j ≠ idx → i ∉ (c.buckets j).spanList :=
      fun j hj hne hmem => hne (h.list_unique hj hidx hmem hi)
    rw [allocated_update_of_ne honly hp]
    exact and_iff_left fun he => hp (by rw [he])

/-- **The books when objects come out of the bitmap.** -/
lemma Inv.books_take (h : c.Inv det out spansOut fresh) (hidx : idx < kNumSizeClasses) {i n : ℕ}
    {s s' : Span} {l objs : List ℕ} {hitNull : Bool} (hs : Borrowed c.pageCache det i s)
    (hi : i ∈ (c.buckets idx).spanList) (hcs : s.Carved idx)
    (hlist : ∀ j, j ≠ i → (j ∈ l ↔ j ∈ (c.buckets idx).spanList)) (hil : i ∈ l)
    (hpost : s.AllocLoopPost n objs s' hitNull) :
    (c.ringObjs + (tag idx objs + out)).Nodup ∧ ∀ p, p ∈ c.ringObjs + (tag idx objs + out) ↔
      ((c.storeSpan i s').setSpanList idx l).Allocated p := by
  -- an object that comes out was not in the books
  have hnew : ∀ b ∈ objs, ¬ c.Allocated (idx, b) := by
    intro b hb
    obtain ⟨k, hk, hfree, rfl⟩ := hpost.slot b hb
    rw [allocated_iff hidx hs.spans hi]
    rintro (he | ⟨k', -, hfree', he⟩)
    · exact h.not_elsewhere hidx hs hcs hk he
    · rw [hcs.slotAddr_inj he, hfree] at hfree'
      exact absurd hfree' (by simp)
  have hmem : ∀ p, p ∈ c.ringObjs + (tag idx objs + out) ↔
      c.Allocated p ∨ (p.1 = idx ∧ p.2 ∈ objs) := by
    intro p
    rw [← h.allocated p]
    simp only [Multiset.mem_add, mem_tag]
    tauto
  constructor
  · rw [show c.ringObjs + (tag idx objs + out) = tag idx objs + (c.ringObjs + out) by abel,
      Multiset.nodup_add]
    refine ⟨nodup_tag hpost.nodup, h.books, Multiset.disjoint_left.mpr fun {p} hp hp' => ?_⟩
    obtain ⟨rfl, hb⟩ := mem_tag.mp hp
    exact hnew p.2 hb ((h.allocated p).mp hp')
  · intro p
    rw [hmem p]
    by_cases hp : p.1 = idx
    · obtain ⟨j, b⟩ := p
      obtain rfl : j = idx := hp
      rw [allocated_update_iff hidx hlist, allocated_iff hidx hs.spans hi, hpost.handedOut b]
      simp only [hil, true_and]
      tauto
    · have honly : ∀ j < kNumSizeClasses, j ≠ idx → i ∉ (c.buckets j).spanList :=
        fun j hj hne hmem => hne (h.list_unique hj hidx hmem hi)
      rw [allocated_update_of_ne honly hp]
      exact or_iff_left fun he => hp he.1

/-- A span with a slot is in use and not with the scavenger. -/
lemma Inv.borrowed_of_slot (h : c.Inv det out spansOut fresh) {i k : ℕ} {s : Span}
    (hs : c.pageCache.spans i = some s) (hk : k < s.capacity) : Borrowed c.pageCache det i s := by
  have hok := h.pages.spanOk i s hs
  have hnot : ¬ (s.used = false ∨ i ∈ det) := fun hf => by
    have := (hok.free hf).2.2.2.1
    omega
  exact ⟨hs, by simpa using fun hu => hnot (Or.inl hu), fun hd => hnot (Or.inr hd)⟩

/-- A span with a slot is carved for its class. -/
lemma Inv.carved_of_slot (h : c.Inv det out spansOut fresh) {i k : ℕ} {s : Span}
    (hs : c.pageCache.spans i = some s) (hk : k < s.capacity) : s.Carved s.sizeClassIdx := by
  have hb := h.borrowed_of_slot hs hk
  have hsome : ∃ j, s.Carved j := by
    rcases Multiset.mem_add.mp (h.complete i s hb) with hi | hi
    · obtain ⟨j, hj, hij⟩ := mem_listedSpans.mp hi
      obtain ⟨t, ht, hct, -⟩ := h.listed j hj i hij
      obtain rfl : t = s := Option.some.inj (ht.spans.symm.trans hs)
      exact ⟨j, hct⟩
    · obtain ⟨t, ht, -, hcap⟩ := h.offList i hi
      obtain rfl : t = s := Option.some.inj (ht.spans.symm.trans hs)
      exact hcap.resolve_left (by omega)
  obtain ⟨j, hcs⟩ := hsome
  rwa [hcs.class_idx]

/-- A span with a slot that is not free is on the list of its class. -/
lemma Inv.listed_of_used_slot (h : c.Inv det out spansOut fresh) {i k : ℕ} {s : Span}
    (hs : c.pageCache.spans i = some s) (hk : k < s.capacity) (hfree : s.freeSlot k = false) :
    i ∈ (c.buckets s.sizeClassIdx).spanList := by
  have hcs := h.carved_of_slot hs hk
  rcases Multiset.mem_add.mp (h.complete i s (h.borrowed_of_slot hs hk)) with hi | hi
  · obtain ⟨j, hj, hij⟩ := mem_listedSpans.mp hi
    obtain ⟨t, ht, hct, -⟩ := h.listed j hj i hij
    obtain rfl : t = s := Option.some.inj (ht.spans.symm.trans hs)
    rwa [hct.class_idx]
  · obtain ⟨t, ht, h₀, -⟩ := h.offList i hi
    obtain rfl : t = s := Option.some.inj (ht.spans.symm.trans hs)
    rw [hcs.freeSlot_of_useCount_eq_zero h₀ hk] at hfree
    exact absurd hfree (by simp)

/-- **The books and the bitmaps**: an object is in the books exactly if its slot is not free. -/
lemma Inv.allocated_slot_iff (h : c.Inv det out spansOut fresh) {i k : ℕ} {s : Span}
    (hs : c.pageCache.spans i = some s) (hk : k < s.capacity) :
    c.Allocated (s.sizeClassIdx, s.slotAddr k) ↔ s.freeSlot k = false := by
  have hcs := h.carved_of_slot hs hk
  constructor
  · rintro ⟨hlt, j, hj, t, ht, k', hk', hfree, he⟩
    obtain ⟨t', ht', hct, -⟩ := h.listed _ hlt j hj
    obtain rfl : t' = t := Option.some.inj (ht'.spans.symm.trans ht)
    obtain rfl : j = i := ht'.slot_ne h.pages (h.borrowed_of_slot hs hk) hct hcs hk' hk he
    obtain rfl : s = t' := Option.some.inj (hs.symm.trans ht)
    rwa [hcs.slotAddr_inj he] at hfree
  · intro hfree
    exact ⟨hcs.idx_lt, i, h.listed_of_used_slot hs hk hfree, s, hs, k, hk, hfree, rfl⟩

/-! ## The PageCache sections -/

/-- **The home of an object**: an object in the books is a used slot of a listed span. -/
lemma Inv.home (h : c.Inv det out spansOut fresh) {p : ℕ × ℕ} (hp : p ∈ out) :
    ∃ i s k, Borrowed c.pageCache det i s ∧ s.Carved p.1 ∧ k < s.capacity ∧ s.slotAddr k = p.2 := by
  obtain ⟨hlt, i, hi, s, hs, k, hk, -, he⟩ := (h.allocated p).mp (Multiset.mem_add.mpr (Or.inr hp))
  obtain ⟨t, ht, hct, -⟩ := h.listed p.1 hlt i hi
  obtain rfl : t = s := Option.some.inj (ht.spans.symm.trans hs)
  exact ⟨i, t, k, ht, hct, hk, he⟩

/-- What the step of one call leaves alone: the spans of the other calls and of the scavenger. -/
structure Keeps (c c' : CentralCache) (det : List ℕ) (spansOut : Multiset ℕ) : Prop where
  spans : ∀ j, j ∈ spansOut ∨ j ∈ det → c'.pageCache.spans j = c.pageCache.spans j
  clock_le : c.pageCache.clock ≤ c'.pageCache.clock

/-- A step that stays away from the PageCache. -/
lemma Keeps.of_eq (h : c'.pageCache = c.pageCache) : Keeps c c' det spansOut :=
  ⟨fun _ _ => by rw [h], by rw [h]⟩

/-- Two sections that leave the spans of the others alone do so together. -/
lemma Keeps.trans {c'' : CentralCache} (h : Keeps c c' det spansOut)
    (h' : Keeps c' c'' det spansOut) : Keeps c c'' det spansOut :=
  ⟨fun j hj => (h'.spans j hj).trans (h.spans j hj), h.clock_le.trans h'.clock_le⟩

/-- A section that leaves some spans alone leaves each part of them alone. -/
lemma Keeps.mono (h : Keeps c c' det spansOut) (hsub : ∀ j ∈ spansOut', j ∈ spansOut) :
    Keeps c c' det spansOut' :=
  ⟨fun j hj => h.spans j (hj.imp_left (hsub j)), h.clock_le⟩

/-- A write of a span that this call holds or that is on a list. -/
lemma Keeps.store {i : ℕ} {s s' : Span} (hs : Borrowed c.pageCache det i s) (hi : i ∉ spansOut)
    (hc : c'.pageCache = c.pageCache.store i s') : Keeps c c' det spansOut := by
  refine ⟨fun j hj => ?_, by rw [hc]; rfl⟩
  have hji : j ≠ i := by
    rintro rfl
    exact hj.elim hi hs.notDet
  simp [hc, PageCache.store, hji]

/-- **A PageCache section** leaves the listed spans alone. -/
lemma Inv.of_pages (h : c.Inv det out spansOut fresh) {pc : PageCache} {det' : List ℕ}
    (hinv : pc.Inv det')
    (hkeep : ∀ j s, Borrowed c.pageCache det j s → j ∈ c.listedSpans → Borrowed pc det' j s)
    (hoff : ∀ j ∈ spansOut', ∃ s, Borrowed pc det' j s ∧ s.Idle)
    (hnodup : (c.listedSpans + spansOut').Nodup)
    (hcomplete : ∀ j s, Borrowed pc det' j s → j ∈ c.listedSpans + spansOut') :
    Inv { c with pageCache := pc } det' out spansOut' fresh := by
  have hborrow : ∀ j < kNumSizeClasses, ∀ i ∈ (c.buckets j).spanList, ∀ s,
      Borrowed c.pageCache det i s → Borrowed pc det' i s := fun j hj i hi s hs =>
    hkeep i s hs (mem_listedSpans.mpr ⟨j, hj, hi⟩)
  have hlisted : ∀ j < kNumSizeClasses, ∀ i ∈ (c.buckets j).spanList,
      pc.spans i = c.pageCache.spans i := by
    intro j hj i hi
    obtain ⟨s, hs, -⟩ := h.listed j hj i hi
    rw [hs.spans]
    exact (hborrow j hj i hi s hs).spans
  refine ⟨hinv, h.ring, h.capacity, fun j hj i hi => ?_, hoff, hnodup, hcomplete, h.books,
    fun p => ?_, fun j hj => ?_⟩
  · obtain ⟨s, hs, hcs, hpos⟩ := h.listed j hj i hi
    exact ⟨s, hborrow j hj i hi s hs, hcs, hpos⟩
  · refine (h.allocated p).trans (Iff.symm ?_)
    exact allocated_congr (c := c) (fun _ => by rfl) hlisted p
  · refine List.Pairwise.imp_of_mem (fun {a b} ha hb hab => ?_) (h.order j hj)
    simp only [FullSpan, hlisted j hj a ha, hlisted j hj b hb]
    exact hab

/-- **`AllocSpan`**: the new span is outside the lists. -/
lemma Inv.allocSpan (h : c.Inv det out spansOut fresh) (env : PageEnv) (n : ℕ) :
    ∃ r pc, (c.pageCache.load env).allocSpan n = .ok (r, pc) ∧
      Keeps c { c with pageCache := pc } det spansOut ∧
      (r = none → Inv { c with pageCache := pc } det out spansOut fresh) ∧
      ∀ i, r = some i → Inv { c with pageCache := pc } det out (i ::ₘ spansOut) fresh ∧
        ∃ s, pc.spans i = some s ∧ s.pageNum = n ∧ PageCache.Clean s := by
  obtain ⟨r, pc, hrun, hpost⟩ := PageCache.allocSpan_spec (h.pages.load env) n
  have hev := hpost.evolves.of_load
  have hkeep : ∀ j s, Borrowed c.pageCache det j s → Borrowed pc det j s := fun j s hs =>
    ⟨hev.used_keep j s hs.spans hs.used (by simp), hs.used, hs.notDet⟩
  have hoff : ∀ j ∈ spansOut, ∃ s, Borrowed pc det j s ∧ s.Idle := by
    intro j hj
    obtain ⟨s, hs, h₀⟩ := h.offList j hj
    exact ⟨s, hkeep j s hs, h₀⟩
  refine ⟨r, pc, hrun, ⟨fun j hj => ?_, hev.clock_le⟩, fun hr => ?_, fun i hr => ?_⟩
  · rcases hj with hj | hj
    · obtain ⟨s, hs, -⟩ := h.offList j hj
      rw [hs.spans]
      exact (hkeep j s hs).spans
    · obtain ⟨s, hs, hu⟩ := h.pages.detached j hj
      rw [hs]
      exact hev.used_keep j s hs hu (by simp)
  · refine h.of_pages hpost.inv (fun j s hs _ => hkeep j s hs) hoff h.nodup fun j s hs => ?_
    exact h.complete j s ⟨hev.used_from j s hs.spans hs.used (by simp [hr]), hs.used, hs.notDet⟩
  · obtain ⟨s, hs, hu, -, hn, hclean⟩ := hpost.got i hr
    -- the new span was not in use before
    have hnew : ∀ t, ¬ Borrowed c.pageCache det i t := fun t ht => by
      have := hev.acq_fresh i hr t ht.spans
      rw [ht.used] at this
      exact absurd this (by simp)
    have hnot : i ∉ c.listedSpans + spansOut := by
      intro hmem
      rcases Multiset.mem_add.mp hmem with hmem | hmem
      · obtain ⟨j, hj, hij⟩ := mem_listedSpans.mp hmem
        obtain ⟨t, ht, -⟩ := h.listed j hj i hij
        exact hnew t ht
      · obtain ⟨t, ht, -⟩ := h.offList i hmem
        exact hnew t ht
    have hdet : i ∉ det := by
      intro hd
      obtain ⟨t, ht, hut⟩ := h.pages.detached i hd
      have := hev.acq_fresh i hr t ht
      rw [hut] at this
      exact absurd this (by simp)
    refine ⟨h.of_pages hpost.inv (fun j s hs _ => hkeep j s hs) (fun j hj => ?_) ?_
      fun j t ht => ?_, s, hs, hn, hclean⟩
    · rcases Multiset.mem_cons.mp hj with rfl | hj
      · exact ⟨s, ⟨hs, hu, hdet⟩, hclean.2.1, Or.inl hclean.2.2.1⟩
      · exact hoff j hj
    · rw [Multiset.add_cons, Multiset.nodup_cons]
      exact ⟨hnot, h.nodup⟩
    · rw [Multiset.add_cons, Multiset.mem_cons]
      by_cases hji : j = i
      · exact Or.inl hji
      · refine Or.inr (h.complete j t ⟨hev.used_from j t ht.spans ht.used ?_, ht.used, ht.notDet⟩)
        rw [hr]
        exact fun he => hji (Option.some.inj he).symm

/-- **`ReleaseSpan`** of a span outside the lists. -/
lemma Inv.releaseSpan {i : ℕ} (h : c.Inv det out (i ::ₘ spansOut) fresh) (env : PageEnv) :
    ∃ pc, (c.pageCache.load env).releaseSpan i = .ok pc ∧
      Inv { c with pageCache := pc } det out spansOut fresh ∧
      Keeps c { c with pageCache := pc } det spansOut := by
  obtain ⟨s, hs, h₀⟩ := h.offList i (Multiset.mem_cons_self i spansOut)
  obtain ⟨pc, hrun, hpost⟩ := PageCache.releaseSpan_spec (h.pages.load env) hs.spans hs.used
    hs.notDet
  have hev := hpost.evolves.of_load
  have hnodup := h.nodup
  rw [Multiset.add_cons, Multiset.nodup_cons] at hnodup
  have hkeep : ∀ j t, Borrowed c.pageCache det j t → j ∈ c.listedSpans + spansOut →
      Borrowed pc det j t := by
    intro j t ht hj
    refine ⟨hev.used_keep j t ht.spans ht.used fun he => hnodup.1 ?_, ht.used, ht.notDet⟩
    rwa [Option.some.inj he]
  have hoff : ∀ j ∈ spansOut, ∃ t, Borrowed c.pageCache det j t ∧ Borrowed pc det j t ∧
      t.Idle := by
    intro j hj
    obtain ⟨t, ht, ht₀⟩ := h.offList j (Multiset.mem_cons_of_mem hj)
    exact ⟨t, ht, hkeep j t ht (Multiset.mem_add.mpr (Or.inr hj)), ht₀⟩
  refine ⟨pc, hrun, h.of_pages hpost.inv (fun j t ht hj => ?_) (fun j hj => ?_) hnodup.2
    fun j t ht => ?_, fun j hj => ?_, hev.clock_le⟩
  · exact hkeep j t ht (Multiset.mem_add.mpr (Or.inl hj))
  · obtain ⟨t, -, ht, ht₀⟩ := hoff j hj
    exact ⟨t, ht, ht₀⟩
  · have hold := h.complete j t ⟨hev.used_from j t ht.spans ht.used (by simp), ht.used, ht.notDet⟩
    rw [Multiset.add_cons, Multiset.mem_cons] at hold
    refine hold.resolve_left fun he => ?_
    subst he
    exact hpost.released t ht.spans ht.used
  · rcases hj with hj | hj
    · obtain ⟨t, ht, ht', -⟩ := hoff j hj
      exact ht'.spans.trans ht.spans.symm
    · obtain ⟨t, ht, hu⟩ := h.pages.detached j hj
      have hji : i ≠ j := by rintro rfl; exact hs.notDet hj
      rw [ht]
      exact hev.used_keep j t ht hu fun he => hji (Option.some.inj he)

end CentralCache

end Ammalloc
