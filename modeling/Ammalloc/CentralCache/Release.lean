import Ammalloc.CentralCache.Invariant

set_option relaxedAutoImplicit false
set_option autoImplicit false

/-!
# `ReleaseBatch` keeps the books

## Main results

* `Ammalloc.CentralCache.Inv.freeOne` — one object goes back to the bitmap of its span.
* `Ammalloc.CentralCache.freeLoop_spec` — the bitmap section.
* `Ammalloc.CentralCache.releaseStep_spec` — every step of `ReleaseBatch`.
-/

namespace Ammalloc

open SizeClass (kNumSizeClasses)

namespace CentralCache

variable {c c' : CentralCache} {det : List ℕ} {out : Multiset (ℕ × ℕ)} {spansOut : Multiset ℕ}
  {fresh : Option ℕ} {idx : ℕ}

/-- A write of the span list that is there changes nothing. -/
lemma setSpanList_eq_self (c : CentralCache) (idx : ℕ) :
    c.setSpanList idx (c.buckets idx).spanList = c := by
  simp [setSpanList]

/-- No span is twice in a span list. -/
lemma Inv.list_nodup (h : c.Inv det out spansOut fresh) (hidx : idx < kNumSizeClasses) :
    (c.buckets idx).spanList.Nodup := by
  have hsum := (Multiset.nodup_add.mp h.nodup).1
  rw [listedSpans, ← Finset.add_sum_erase _ _ (Finset.mem_range.mpr hidx)] at hsum
  exact Multiset.coe_nodup.mp (Multiset.nodup_add.mp hsum).1

/-- The order of a list when span `i` is not full afterwards. -/
lemma order_of_not_full {i : ℕ} {l : List ℕ}
    (hl : l.Pairwise fun j j' => c.FullSpan j → c.FullSpan j')
    (hsame : ∀ j, j ≠ i → (c'.FullSpan j ↔ c.FullSpan j)) (hi : ¬ c'.FullSpan i)
    (hcase : i ∉ l ∨ ¬ c.FullSpan i) : l.Pairwise fun j j' => c'.FullSpan j → c'.FullSpan j' := by
  refine List.Pairwise.imp_of_mem (fun {a b} ha hb hab => ?_) hl
  intro hfull
  have hai : a ≠ i := fun he => hi (he ▸ hfull)
  have hfb := hab ((hsame a hai).mp hfull)
  have hbi : b ≠ i := fun he => hcase.elim (fun hn => hn (he ▸ hb)) fun hn => hn (he ▸ hfb)
  exact (hsame b hbi).mpr hfb

/-- What `FreeObject` does to the span of an object in the books. -/
lemma Inv.freeObject {a : ℕ} (h : c.Inv det ((idx, a) ::ₘ out) spansOut none) (hardened : Bool) :
    ∃ i s s' k, c.pageCache.pageMap.getSpan (a >>> pageShift) = some i ∧
      Borrowed c.pageCache det i s ∧ i ∈ (c.buckets idx).spanList ∧ s.Carved idx ∧
      k < s.capacity ∧ s.slotAddr k = a ∧ 0 < s.useCount ∧
      s.freeObject hardened a = .ok s' ∧ s'.Carved idx ∧ s' = s.withObjects s' ∧
      s'.useCount = s.useCount - 1 ∧ s'.capacity = s.capacity ∧
      ∀ b, s'.HandedOut b ↔ s.HandedOut b ∧ b ≠ a := by
  obtain ⟨hidx, i, hi, s, hs, k, hk, hfree, rfl⟩ :=
    (h.allocated (idx, a)).mp (by simp)
  obtain ⟨t, ht, hct, hpos⟩ := h.listed idx hidx i hi
  obtain rfl : t = s := Option.some.inj (ht.spans.symm.trans hs)
  obtain ⟨s', hrun, hcs', hbits, hfields⟩ := hct.freeObject_ok hardened hk hfree
    (ht.slotAddr_lt h.pages hct hk)
  have hcap : s'.capacity = t.capacity := by rw [hfields]
  have haddr : ∀ j, s'.slotAddr j = t.slotAddr j := fun j => by rw [hfields]; rfl
  refine ⟨i, t, s', k, (h.pages.getSpan_iff _ i).mpr ⟨t, hs, hct.covers_slot hk⟩, ht, hi, hct, hk,
    rfl, by simpa using hpos, hrun, hcs', by rw [hfields]; rfl, by rw [hfields], hcap, ?_⟩
  exact hct.freeObject_handedOut hk hcap haddr hbits

/-- **One object goes back.** Its span leaves the list when it is empty, goes to the front when
it was full, and stays where it is otherwise. -/
lemma Inv.freeOne {a : ℕ} (h : c.Inv det ((idx, a) ::ₘ out) spansOut none) (hardened : Bool) :
    ∃ i s s', c.pageCache.pageMap.getSpan (a >>> pageShift) = some i ∧
      Borrowed c.pageCache det i s ∧ s.freeObject hardened a = .ok s' ∧ i ∉ spansOut ∧
      (s'.useCount = 0 → ((c.storeSpan i s').setSpanList idx
        ((c.buckets idx).spanList.erase i)).Inv det out (i ::ₘ spansOut) none) ∧
      (s'.useCount ≠ 0 → s'.useCount = s'.capacity - 1 → ((c.storeSpan i s').setSpanList idx
        (i :: (c.buckets idx).spanList.erase i)).Inv det out spansOut none) ∧
      (s'.useCount ≠ 0 → s'.useCount ≠ s'.capacity - 1 →
        (c.storeSpan i s').Inv det out spansOut none) := by
  have hidx : idx < kNumSizeClasses := ((h.allocated (idx, a)).mp (by simp)).1
  obtain ⟨i, s, s', k, hget, hs, hi, hcs, hk, ha, hpos, hrun, hcs', hfields, huse, hcap, hout⟩ :=
    h.freeObject hardened
  have hnodup := h.list_nodup hidx
  have hperm := List.perm_cons_erase hi
  have honly : ∀ j < kNumSizeClasses, j ≠ idx → i ∉ (c.buckets j).spanList :=
    fun j hj hne hmem => hne (h.list_unique hj hidx hmem hi)
  have hnotOut : i ∉ spansOut := fun hmem => h.not_listed hmem hidx hi
  have hle := hcs.useCount_le
  have hcappos := hcs.capacity_pos
  -- afterwards the span is not full, and the others are as they were
  have hfull : ∀ l, ¬ ((c.storeSpan i s').setSpanList idx l).FullSpan i := by
    rintro l ⟨t, ht, hft⟩
    simp only [setSpanList_pageCache, storeSpan_pageCache, PageCache.store, Function.update_self,
      Option.some.injEq] at ht
    subst ht
    simp only [Span.isFull, decide_eq_true_eq] at hft
    omega
  have hsame : ∀ l j, j ≠ i →
      (((c.storeSpan i s').setSpanList idx l).FullSpan j ↔ c.FullSpan j) := by
    intro l j hj
    simp [FullSpan, PageCache.store, hj]
  have herase : ((c.buckets idx).spanList.erase i).Pairwise fun j j' =>
      c.FullSpan j → c.FullSpan j' := (h.order idx hidx).sublist List.erase_sublist
  refine ⟨i, s, s', hget, hs, hrun, hnotOut, fun h₀ => ?_, fun h₀ hlast => ?_,
    fun h₀ hlast => ?_⟩
  · -- the span leaves the list
    have hlist : ∀ j, j ≠ i →
        (j ∈ (c.buckets idx).spanList.erase i ↔ j ∈ (c.buckets idx).spanList) :=
      fun j hj => List.mem_erase_of_ne hj
    obtain ⟨hbooks, halloc⟩ := h.books_free hidx hs hi hcs hk ha hlist
      (Or.inr (hcs'.not_handedOut h₀)) hout
    refine h.of_span hidx hs hfields honly (fun _ _ hf => hf) ?_ (fun j hj hji => ?_)
      (fun j hj hji => ?_) (fun hmem => ?_) (fun _ => ⟨h₀, Or.inr ⟨idx, hcs'⟩⟩) hbooks halloc ?_
    · rw [Multiset.add_cons, ← Multiset.cons_add, Multiset.cons_coe]
      rw [Multiset.coe_eq_coe.mpr hperm]
    · exact (hlist j hji).mp hj
    · exact (Multiset.mem_cons.mp hj).resolve_left hji
    · exact absurd hmem hnodup.not_mem_erase
    · exact order_of_not_full herase (hsame _) (hfull _) (Or.inl hnodup.not_mem_erase)
  · -- the span goes to the front
    have hlist : ∀ j, j ≠ i →
        (j ∈ i :: (c.buckets idx).spanList.erase i ↔ j ∈ (c.buckets idx).spanList) := by
      intro j hj
      rw [List.mem_cons, List.mem_erase_of_ne hj]
      exact or_iff_right hj
    obtain ⟨hbooks, halloc⟩ := h.books_free hidx hs hi hcs hk ha hlist
      (Or.inl List.mem_cons_self) hout
    refine h.of_span hidx hs hfields honly (fun _ _ hf => hf) ?_ (fun j hj hji => ?_)
      (fun j hj _ => hj) (fun _ => ⟨hcs', Or.inl (Nat.pos_of_ne_zero h₀)⟩)
      (fun hmem => absurd hmem hnotOut) hbooks halloc ?_
    · rw [Multiset.coe_eq_coe.mpr hperm]
    · exact (hlist j hji).mp hj
    · refine List.pairwise_cons.mpr ⟨fun j _ hf => absurd hf (hfull _), ?_⟩
      exact order_of_not_full herase (hsame _) (hfull _) (Or.inl hnodup.not_mem_erase)
  · -- the span was not full before and stays
    obtain ⟨hbooks, halloc⟩ := h.books_free hidx hs hi hcs hk ha (fun _ _ => Iff.rfl)
      (Or.inl hi) hout
    have hinv := h.of_span hidx hs hfields honly (fun _ _ hf => hf) rfl (fun j hj _ => hj)
      (fun j hj _ => hj) (fun _ => ⟨hcs', Or.inl (Nat.pos_of_ne_zero h₀)⟩)
      (fun hmem => absurd hmem hnotOut) hbooks halloc ?_
    · rwa [show (c.buckets idx).spanList = ((c.storeSpan i s').buckets idx).spanList from rfl,
        setSpanList_eq_self] at hinv
    · refine order_of_not_full (h.order idx hidx) (hsame _) (hfull _) (Or.inr ?_)
      rintro ⟨t, ht, hft⟩
      obtain rfl : s = t := Option.some.inj (hs.spans.symm.trans ht)
      simp only [Span.isFull, decide_eq_true_eq] at hft
      omega

/-- **The bitmap section** of `ReleaseBatch`: no check fails, every object goes back, and the
spans that become empty are collected. -/
lemma freeLoop_spec (hardened : Bool) {objs empty : List ℕ}
    (h : c.Inv det (tag idx objs + out) ((empty : Multiset ℕ) + spansOut) none) :
    ∃ c' empty', freeLoop hardened idx objs c empty = .ok (c', empty') ∧
      c'.Inv det out ((empty' : Multiset ℕ) + spansOut) none ∧ Keeps c c' det spansOut := by
  induction objs generalizing c empty with
  | nil =>
    rw [tag_nil, zero_add] at h
    exact ⟨c, empty, rfl, h, Keeps.of_eq rfl⟩
  | cons a objs ih =>
    rw [tag_cons, Multiset.cons_add] at h
    obtain ⟨i, s, s', hget, hs, hrun, hnot, hzero, hfront, hstay⟩ := h.freeOne hardened
    have hnot' : i ∉ spansOut := fun hi => hnot (Multiset.mem_add.mpr (Or.inr hi))
    have hderef : c.pageCache.deref i = .ok s := by simp [PageCache.deref, hs.spans]
    unfold freeLoop
    simp only [hget, hderef, hrun, bind, Except.bind]
    split_ifs with h₀ hlast
    · have hinv := hzero h₀
      rw [← Multiset.cons_add, Multiset.cons_coe] at hinv
      obtain ⟨c', empty', hloop, hinv', hkeep'⟩ := ih hinv
      exact ⟨c', empty', hloop, hinv', (Keeps.store hs hnot' rfl).trans hkeep'⟩
    · obtain ⟨c', empty', hloop, hinv', hkeep'⟩ := ih (hfront h₀ hlast)
      exact ⟨c', empty', hloop, hinv', (Keeps.store hs hnot' rfl).trans hkeep'⟩
    · obtain ⟨c', empty', hloop, hinv', hkeep'⟩ := ih (hstay h₀ hlast)
      exact ⟨c', empty', hloop, hinv', (Keeps.store hs hnot' rfl).trans hkeep'⟩

/-- Appending to a TransferCache moves a prefix of the objects into it. -/
lemma Inv.append {objs : List ℕ} (h : c.Inv det (tag idx objs + out) spansOut fresh)
    (hidx : idx < kNumSizeClasses) :
    (c.setRing idx ((c.buckets idx).transferCache.append objs).1).Inv det
      (tag idx ((c.buckets idx).transferCache.append objs).2 + out) spansOut fresh := by
  have hwf := h.ring idx hidx
  have hcontents := congrArg (tag idx) (RingBuffer.contents_append hwf objs).1
  rw [tag_append, tag_append] at hcontents
  refine h.setRing hidx (hwf.append objs) (RingBuffer.capacity_append _ _) ?_
  rw [← add_assoc, hcontents, add_assoc]

/-- **Every step of `ReleaseBatch`** keeps the books, whatever is outside. -/
theorem releaseStep_spec (hardened : Bool) (env : PageEnv) (hidx : idx < kNumSizeClasses)
    (mode : CentralReleaseMode) {pc : ReleasePc}
    (h : c.Inv det (tag idx pc.objs + out) ((pc.spans : Multiset ℕ) + spansOut) none) :
    ∃ c' pc', c.releaseStep hardened env idx mode pc = .ok (c', pc') ∧
      c'.Inv det (tag idx pc'.objs + out) ((pc'.spans : Multiset ℕ) + spansOut) none ∧
      Keeps c c' det spansOut := by
  cases pc with
  | chunk rest =>
    cases rest with
    | nil => exact ⟨c, .chunk [], rfl, h, Keeps.of_eq rfl⟩
    | cons obj objs =>
      have hsplit := (List.take_append_drop SizeClass.kMaxBatchSize (obj :: objs)).symm
      have hobjs : (ReleasePc.chunk (obj :: objs)).objs = obj :: objs := rfl
      rw [hobjs, hsplit, tag_append, add_assoc] at h
      cases mode with
      | kTransferCache =>
        have hinv := h.append hidx
        unfold releaseStep
        dsimp only
        split
        · rename_i r hr
          rw [hr, tag_nil, zero_add] at hinv
          exact ⟨_, _, rfl, hinv, Keeps.of_eq rfl⟩
        · rename_i r left hne hr
          rw [hr, ← add_assoc, ← tag_append] at hinv
          exact ⟨_, _, rfl, hinv, Keeps.of_eq rfl⟩
      | kSpanBitmap =>
        rw [← add_assoc, ← tag_append] at h
        exact ⟨_, _, rfl, h, Keeps.of_eq rfl⟩
  | bitmap objs rest =>
    have hobjs : (ReleasePc.bitmap objs rest).objs = objs ++ rest := rfl
    rw [hobjs, tag_append, add_assoc] at h
    obtain ⟨c', empty, hrun, hinv, hkeep⟩ := freeLoop_spec hardened h
    have hrun' : freeLoop hardened idx objs c [] = .ok (c', empty) := hrun
    refine ⟨c', .returning empty rest, ?_, hinv, hkeep⟩
    simp only [releaseStep, hrun', bind, Except.bind]
    rfl
  | returning spans rest =>
    cases spans with
    | nil => exact ⟨c, .chunk rest, rfl, h, Keeps.of_eq rfl⟩
    | cons i spans =>
      have hspans : ((ReleasePc.returning (i :: spans) rest).spans : Multiset ℕ) + spansOut =
          i ::ₘ ((spans : Multiset ℕ) + spansOut) := by
        rw [← Multiset.cons_add]
        rfl
      rw [hspans] at h
      obtain ⟨p, hrun, hinv, hkeep⟩ := h.releaseSpan env
      refine ⟨{ c with pageCache := p }, .returning spans rest, ?_, hinv,
        hkeep.mono fun j hj => Multiset.mem_add.mpr (Or.inr hj)⟩
      simp only [releaseStep, hrun, bind, Except.bind]
      rfl

end CentralCache

end Ammalloc
