import Ammalloc.Allocator.Runs
import Ammalloc.Span.Objects

set_option relaxedAutoImplicit false
set_option autoImplicit false

/-!
# The blocks that `am_malloc` returns

Every live block is a used slot of a carved span or a whole large span. The slots of a span lie
behind its bitmap and apart from each other, and spans share no page; so live blocks are aligned,
large enough, and disjoint from each other, from every bitmap and from every free page.

## Main definitions

* `Ammalloc.Allocator.Placed` — where a block lies.

## Main results

* `Ammalloc.Allocator.Inv.placed` — every live block has its place.
* `Ammalloc.Allocator.blocks_sound` — what holds of the live blocks after every run.
-/

namespace Ammalloc

open SizeClass (kNumSizeClasses)
open CentralCache (Borrowed)

/-! ## The memory of a span -/

/-- Spans without a common page have no common byte. -/
lemma Span.bytes_disjoint {s t : Span} (h : s.extent.Disjoint t.extent) :
    s.bytes.Disjoint t.bytes := by
  simp only [Extent.Disjoint, extent, bytes, getPageBaseAddr_eq, ← Nat.add_mul] at h ⊢
  exact h.imp (fun h => Nat.mul_le_mul_right _ h) fun h => Nat.mul_le_mul_right _ h

namespace PageCache

variable {pc : PageCache} {det : List ℕ} {i j : ℕ} {s t : Span}

/-- Two spans share no byte. -/
lemma Inv.bytes_disjoint (h : pc.Inv det) (hij : i ≠ j) (hs : pc.spans i = some s)
    (ht : pc.spans j = some t) : s.bytes.Disjoint t.bytes :=
  Span.bytes_disjoint (Extent.disjoint_of_forall (h.spanOk i s hs).pos (h.spanOk j t ht).pos
    fun _ hq => h.disjoint hij hs ht hq)

/-- No span reaches past the addresses. -/
lemma Inv.bytes_lt (h : pc.Inv det) (hs : pc.spans i = some s) :
    s.bytes.start + s.bytes.len ≤ 2 ^ 48 := by
  have hpos := (h.spanOk i s hs).pos
  have hpath := h.hasPath (q := s.startPageIdx + s.pageNum - 1) hs ⟨by omega, by omega⟩
  have hroot := PageMap.i0_lt_of_hasPath hpath
  rw [PageMap.i0_eq] at hroot
  simp only [Span.bytes, Span.getPageBaseAddr_eq]
  unfold radixRootSize at hroot
  unfold pageSize
  omega

end PageCache

/-! ## The place of a block -/

/-- The page rounding of a large request does not wrap. -/
lemma requestPages_mul {m : ℕ} (hpos : 0 < m) (hm : m ≤ kMaxRequestBytes) :
    requestPages m * pageSize = (m + (pageSize - 1)) / pageSize * pageSize := by
  unfold kMaxRequestBytes sizeMax at hm
  have halign : alignUp m pageSize = (m + (pageSize - 1)) / pageSize * pageSize := by
    rw [alignUp, if_neg hpos.ne', addU64_of_lt (by unfold pageSize at *; omega)]
  rw [requestPages, halign, Nat.shiftRight_eq_div_pow]
  unfold pageSize pageShift
  omega

namespace Allocator

variable {n : ℕ} {st : Allocator} {b b' : Block}

/-- Where block `b` lies: in slot `k` of span `i`, or on all of its pages. -/
inductive Placed (st : Allocator) (b : Block) (i : ℕ) (s : Span) : Prop
  | slot (k : ℕ) (hspan : b.span = none) (hs : Borrowed st.central.pageCache st.scav.chain i s)
      (hcs : s.Carved (SizeClass.index b.request)) (hk : k < s.capacity)
      (hextent : b.extent = s.slotBytes k)
  | pages (hspan : b.span = some i) (hs : Borrowed st.central.pageCache st.scav.chain i s)
      (hclean : PageCache.Clean s) (hextent : b.extent = s.bytes)

/-- The span of a block is in use, and no list of the PageCache has it. -/
lemma Placed.borrowed {i : ℕ} {s : Span} (h : Placed st b i s) :
    Borrowed st.central.pageCache st.scav.chain i s := by
  cases h <;> assumption

/-- **Every live block has its place.** -/
lemma Inv.placed (h : Inv n st) (hb : b ∈ st.live) : ∃ i s, Placed st b i s := by
  cases hspan : b.span with
  | none =>
    obtain ⟨i, s, k, hs, hcs, hk, he⟩ := h.small_home hb hspan
    have hsmall := (h.blocks b hb).small hspan
    refine ⟨i, s, .slot k hspan hs hcs hk ?_⟩
    simp only [Block.extent, Span.slotBytes, if_pos hsmall, SizeClass.roundUp_eq hsmall,
      hcs.obj_size, he]
  | some i =>
    obtain ⟨s, hs, hclean, hnum, he⟩ := h.large_home hb hspan
    have hlarge := ((h.blocks b hb).large i hspan).1
    refine ⟨i, s, .pages hspan hs hclean ?_⟩
    simp only [Block.extent, Span.bytes, if_neg (not_le.mpr hlarge), hnum, he]

/-- A block lies inside its span. -/
lemma Placed.within {i : ℕ} {s : Span} (h : Placed st b i s) : b.extent.Within s.bytes := by
  cases h with
  | slot k hspan hs hcs hk hextent =>
    rw [hextent]
    exact hcs.slotBytes_within hk
  | pages hspan hs hclean hextent =>
    rw [hextent]
    exact ⟨le_rfl, le_rfl⟩

/-- A block is aligned. -/
lemma Placed.aligned {i : ℕ} {s : Span} (h : Placed st b i s) : b.ptr % alignment = 0 := by
  cases h with
  | slot k hspan hs hcs hk hextent =>
    have he : b.ptr = s.slotAddr k := congrArg Extent.start hextent
    rw [he]
    exact hcs.slotAddr_aligned k
  | pages hspan hs hclean hextent =>
    have he : b.ptr = s.getPageBaseAddr := congrArg Extent.start hextent
    rw [he, Span.getPageBaseAddr_eq]
    unfold pageSize alignment
    omega

/-- A block is apart from the bitmap of every span. -/
lemma Inv.disjoint_bitmap (h : Inv n st) {i j : ℕ} {s t : Span} (hp : Placed st b i s)
    (ht : st.central.pageCache.spans j = some t) (hcap : 0 < t.capacity) :
    b.extent.Disjoint t.bitmapBytes := by
  have hct := h.central.carved_of_slot ht hcap
  by_cases hij : i = j
  · subst hij
    obtain rfl : s = t := Option.some.inj (hp.borrowed.spans.symm.trans ht)
    cases hp with
    | slot k hspan hs hcs hk hextent =>
      rw [hextent]
      exact hcs.slotBytes_disjoint_bitmap k
    | pages hspan hs hclean hextent =>
      have := hclean.2.2.1
      omega
  · exact (h.central.pages.bytes_disjoint hij hp.borrowed.spans ht).mono hp.within
      hct.bitmapBytes_within

/-- A block is apart from the pages of every free span. -/
lemma Inv.disjoint_free (h : Inv n st) {i j : ℕ} {s t : Span} (hp : Placed st b i s)
    (ht : st.central.pageCache.spans j = some t) (hfree : t.used = false ∨ j ∈ st.scav.chain) :
    b.extent.Disjoint t.bytes := by
  have hij : i ≠ j := by
    rintro rfl
    have hb := hp.borrowed
    obtain rfl : s = t := Option.some.inj (hb.spans.symm.trans ht)
    rcases hfree with hu | hd
    · exact absurd hb.used (by simp [hu])
    · exact hb.notDet hd
  exact (h.central.pages.bytes_disjoint hij hp.borrowed.spans ht).mono hp.within ⟨le_rfl, le_rfl⟩

/-- Blocks with different objects and different spans are apart. -/
lemma Inv.blocks_apart (h : Inv n st) {i j : ℕ} {s t : Span} (hp : Placed st b i s)
    (hp' : Placed st b' j t) (hobjs : Disjoint b.objs b'.objs)
    (hspans : Disjoint b.spans b'.spans) :
    b.extent.Disjoint b'.extent := by
  by_cases hij : i = j
  swap
  · exact (h.central.pages.bytes_disjoint hij hp.borrowed.spans hp'.borrowed.spans).mono hp.within
      hp'.within
  subst hij
  obtain rfl : s = t := Option.some.inj (hp.borrowed.spans.symm.trans hp'.borrowed.spans)
  cases hp with
  | slot k hspan hs hcs hk hextent =>
    cases hp' with
    | slot k' hspan' hs' hcs' hk' hextent' =>
      rw [hextent, hextent']
      refine Span.slotBytes_disjoint ?_
      rintro rfl
      -- the same slot would be the same object
      have hptr : b.ptr = b'.ptr := by
        have he : b.ptr = s.slotAddr k := congrArg Extent.start hextent
        have he' : b'.ptr = s.slotAddr k := congrArg Extent.start hextent'
        rw [he, he']
      have hidx : SizeClass.index b.request = SizeClass.index b'.request :=
        hcs.class_idx.symm.trans hcs'.class_idx
      have hmem : (SizeClass.index b.request, b.ptr) ∈ b.objs := by simp [Block.objs, hspan]
      have hmem' : (SizeClass.index b.request, b.ptr) ∈ b'.objs := by
        simp [Block.objs, hspan', hptr, hidx]
      exact Multiset.disjoint_left.mp hobjs hmem hmem'
    | pages hspan' hs' hclean' hextent' =>
      have hpos := hcs.capacity_pos
      have := hclean'.2.2.1
      omega
  | pages hspan hs hclean hextent =>
    cases hp' with
    | slot k' hspan' hs' hcs' hk' hextent' =>
      have hpos := hcs'.capacity_pos
      have := hclean.2.2.1
      omega
    | pages hspan' hs' hclean' hextent' =>
      have hmem : i ∈ b.spans := by simp [Block.spans, hspan]
      have hmem' : i ∈ b'.spans := by simp [Block.spans, hspan']
      exact absurd hmem' (Multiset.disjoint_left.mp hspans hmem)

/-- **Live blocks are apart from each other.** -/
lemma Inv.pairwise_disjoint (h : Inv n st) :
    st.live.Pairwise fun b b' => b.extent.Disjoint b'.extent := by
  have hobjs : (st.live.map Block.objs).sum.Nodup :=
    (Multiset.nodup_add.mp (Multiset.nodup_add.mp h.central.books).2.1).2.1
  have hspans : (st.live.map Block.spans).sum.Nodup :=
    (Multiset.nodup_add.mp (Multiset.nodup_add.mp h.central.nodup).2.1).2.1
  have hpair := (FamilySum.pairwise_disjoint_of_nodup hobjs).and
    (FamilySum.pairwise_disjoint_of_nodup hspans)
  refine hpair.imp_of_mem fun {b b'} hb hb' hd => ?_
  obtain ⟨i, s, hp⟩ := h.placed hb
  obtain ⟨j, t, hp'⟩ := h.placed hb'
  exact h.blocks_apart hp hp' hd.1 hd.2

/-- A block is as large as requested; a large one is the request rounded up to pages. -/
lemma Inv.request_le (h : Inv n st) (hb : b ∈ st.live) : b.request ≤ b.extent.len ∧
    (maxTcSize < b.request →
      b.extent.len = (b.request + (pageSize - 1)) / pageSize * pageSize) := by
  have hok := h.blocks b hb
  by_cases hsmall : b.request ≤ maxTcSize
  · refine ⟨?_, fun hlarge => absurd hsmall (not_le.mpr hlarge)⟩
    simp only [Block.extent, if_pos hsmall, SizeClass.roundUp_eq hsmall]
    exact SizeClass.le_size_index hsmall
  · obtain ⟨i, hi⟩ : ∃ i, b.span = some i := by
      refine Option.ne_none_iff_exists'.mp fun hnone => hsmall (hok.small hnone)
    have hmul := requestPages_mul (by omega) (hok.large i hi).2.1
    have hlen : b.extent.len = (b.request + (pageSize - 1)) / pageSize * pageSize := by
      simp only [Block.extent, if_neg hsmall, hmul]
    refine ⟨?_, fun _ => hlen⟩
    rw [hlen]
    unfold pageSize
    omega

/-- **The blocks of `am_malloc`.** After every run with any number of threads, nothing has failed;
every live block is a nonnull multiple of `ALIGNMENT`, is as large as requested, does not wrap
around the address space, and is disjoint from the bitmap of every carved span and from the pages
of every free span, those that the scavenger works on included; and any two live blocks are
disjoint. -/
theorem blocks_sound (n : ℕ) (hardened backed : Bool) (as : List AllocAction) :
    let st := (machine n hardened).run (create backed) as
    st.fault = none ∧
      (∀ b ∈ st.live, b.ptr ≠ 0 ∧ b.ptr % alignment = 0 ∧ b.request ≤ b.extent.len ∧
        (maxTcSize < b.request →
          b.extent.len = (b.request + (pageSize - 1)) / pageSize * pageSize) ∧
        b.extent.start + b.extent.len ≤ 2 ^ 64 ∧
        ∀ i s, st.central.pageCache.spans i = some s →
          (0 < s.capacity → b.extent.Disjoint s.bitmapBytes) ∧
          (s.used = false ∨ i ∈ st.scav.chain → b.extent.Disjoint s.bytes)) ∧
      st.live.Pairwise fun b b' => b.extent.Disjoint b'.extent := by
  intro st
  have hinit : create backed ∈ (machine n hardened).init := by cases backed <;> simp [machine]
  have h : Inv n st := reachable_inv ((Machine.Reachable.init hinit).run as)
  refine ⟨h.fault, fun b hb => ?_, h.pairwise_disjoint⟩
  obtain ⟨i, s, hp⟩ := h.placed hb
  obtain ⟨hle, hexact⟩ := h.request_le hb
  refine ⟨h.ptr_ne_zero hb, hp.aligned, hle, hexact, ?_, fun j t ht => ⟨?_, ?_⟩⟩
  · have hlt := h.central.pages.bytes_lt hp.borrowed.spans
    have hwithin := hp.within
    unfold Extent.Within at hwithin
    omega
  · exact h.disjoint_bitmap hp ht
  · exact h.disjoint_free hp ht

-- A request of 40000 bytes gets the ten pages at the beginning of a fresh span.
example : ((machine 1 true).run (create true) [.malloc 0 40000 true, .step 0
    { sysAlloc := [some 1024], tryNew := [some 1, some 2],
      radixNode := [true, true, true] }]).live =
    [{ ptr := 1024 * 4096, request := 40000, span := some 2 }] := by decide +kernel

end Allocator

end Ammalloc
