import Ammalloc.PageSystem.AllocSpan

set_option relaxedAutoImplicit false
set_option autoImplicit false

/-!
# The contract of `ReleaseSpan`

What a release of at most `MAX_PAGE_NUM` pages does, in every state that the page layer reaches
with its callers and its scavenger: which neighbours it absorbs, why it stops, and what it leaves
alone. It is read off `Ammalloc.PageCache.Merged`.

## Main results

* `Ammalloc.PageSystem.releaseSpan_coalesces` — the functional contract.
-/

namespace Ammalloc

namespace PageCache

variable {pc pc' : PageCache} {det : List ℕ} {i : ℕ} {s₀ s : Span} {retired : List ℕ}

/-- The absorbed spans were free, in their buckets, and are gone. -/
lemma Merged.absorbed (h : pc.Inv det) (hi : pc.spans i = some s₀) (hu : s₀.used = true)
    (hm : Merged pc i s₀ s retired pc') :
    retired.Nodup ∧ i ∉ retired ∧ ∀ j ∈ retired,
      (∃ t, pc.spans j = some t ∧ t.used = false ∧ j ∈ pc.spanLists 0 t.pageNum) ∧
        pc'.spans j = none := by
  obtain ⟨_, _, -, hc, -⟩ := hm.loops
  have hir := hc.used_not_retired hi hu
  refine ⟨hc.nodup, hir, fun j hj => ⟨?_, ?_⟩⟩
  · obtain ⟨t, ht, hut⟩ := hc.free j hj
    exact ⟨t, ht, hut, (h.lists.mem _ j).mpr ⟨t, ht, hut, rfl⟩⟩
  · have hji : j ≠ i := by rintro rfl; exact hir hj
    rw [hm.spans, Function.update_of_ne hji, if_pos hj]

/-- The other descriptors stay. -/
lemma Merged.others (hm : Merged pc i s₀ s retired pc') {j : ℕ} (hj : j ≠ i)
    (hjr : j ∉ retired) : pc'.spans j = pc.spans j := by
  rw [hm.spans, Function.update_of_ne hj, if_neg hjr]

/-- **The survivor cannot grow further**: both loops have stopped at what is mapped next to it. -/
lemma Merged.maximal (h : pc.Inv det) (hi : pc.spans i = some s₀)
    (hm : Merged pc i s₀ s retired pc') {q j : ℕ} {t : Span}
    (hq : q + 1 = s.startPageIdx ∨ q = s.startPageIdx + s.pageNum)
    (hget : pc'.pageMap.getSpan q = some j) (ht : pc'.spans j = some t) :
    t.used = true ∨ t.ownerShardId ≠ s.ownerShardId ∨ maxPageNum < s.pageNum + t.pageNum := by
  obtain ⟨_, _, -, hc, -⟩ := hm.loops
  have hout : ¬ s.Covers q := by
    rintro ⟨h₁, h₂⟩
    omega
  rw [hm.lookup q, if_neg (show ¬ s.extent.Contains q from hout)] at hget
  obtain ⟨t', ht', -, hji, hjr, -⟩ := hc.not_retired h hi hout hget
  rw [hm.others hji hjr] at ht
  have hstop : mergeable s t = false := by
    rcases hq with hq | hq
    · refine hm.left q j t ?_ hget ht
      simp only [Side.neighbour]
      rw [if_neg (by omega)]
      exact congrArg some (by omega)
    · exact hm.right q j t (congrArg some hq.symm) hget ht
  by_contra hcon
  rw [not_or, not_or, not_not] at hcon
  obtain ⟨hut, ho, hp⟩ := hcon
  rw [Bool.eq_false_iff] at hstop
  refine hstop ?_
  simp only [mergeable, Bool.and_eq_true, Bool.not_eq_true', beq_iff_eq, decide_eq_true_eq]
  exact ⟨⟨by simpa using hut, ho⟩, by omega⟩

/-- **No page is gained or lost.** -/
lemma Merged.covered_iff (h : pc.Inv det) (h' : pc'.Inv det) (hi : pc.spans i = some s₀)
    (hm : Merged pc i s₀ s retired pc') (q : ℕ) :
    (∃ j t, pc'.spans j = some t ∧ t.Covers q) ↔ ∃ j t, pc.spans j = some t ∧ t.Covers q := by
  obtain ⟨_, _, -, hc, -⟩ := hm.loops
  rw [← exists_congr (h'.getSpan_iff q), ← exists_congr (h.getSpan_iff q), hm.lookup q]
  by_cases hq : s.extent.Contains q
  · rw [if_pos hq]
    refine ⟨fun _ => ?_, fun _ => ⟨i, rfl⟩⟩
    rcases (hc.covers q).mp hq with h₀ | ⟨j, -, t, ht, htq⟩
    · exact ⟨i, (h.getSpan_iff q i).mpr ⟨s₀, hi, h₀⟩⟩
    · exact ⟨j, (h.getSpan_iff q j).mpr ⟨t, ht, htq⟩⟩
  · rw [if_neg hq]

/-- The buckets: the absorbed spans have left theirs, and the survivor is the front of its own. -/
lemma Merged.buckets (hm : Merged pc i s₀ s retired pc') (m : ℕ) :
    pc'.spanLists 0 m =
      (if m = s.pageNum then [i] else []) ++ (pc.spanLists 0 m).filter (· ∉ retired) := by
  rw [hm.lists]
  by_cases hmp : m = s.pageNum
  · subst hmp
    simp
  · simp [hmp]

end PageCache

namespace PageSystem

open PageCache

/-- **The contract of `ReleaseSpan`**, in every reachable state, for a span of at most
`MAX_PAGE_NUM` pages that is handed out. The call returns. The released descriptor survives, free,
with at most `MAX_PAGE_NUM` pages: its own and those of the neighbours that the two loops
absorbed, which were free; these are what the call deletes, each once. What is mapped next to the
survivor is used, owned by another shard, or too large. The pages of the survivor look up to it; all
other lookups and descriptors, the order of the buckets and the set of the mapped pages are as
before. -/
theorem releaseSpan_coalesces {st : PageSystem} (h : machine.Reachable st) {i : ℕ}
    (hheld : i ∈ st.held) {s₀ : Span} (hi : st.pc.spans i = some s₀)
    (hmax : s₀.pageNum ≤ maxPageNum) (env : PageEnv) :
    let pc := st.pc.load env
    ∃ pc' s absorbed, pc.releaseSpan i = .ok pc' ∧
      (∃ pc₁, mergeNeighbours pc 0 i = .ok (pc₁, absorbed)) ∧
      pc'.env.trace.filterMap deleted = absorbed ∧
      pc'.spans i = some s ∧ s.used = false ∧ s.pageNum ≤ maxPageNum ∧
      (∀ q, s.Covers q ↔
        s₀.Covers q ∨ ∃ j ∈ absorbed, ∃ t, pc.spans j = some t ∧ t.Covers q) ∧
      (∀ q j t, q + 1 = s.startPageIdx ∨ q = s.startPageIdx + s.pageNum →
        pc'.pageMap.getSpan q = some j → pc'.spans j = some t →
          t.used = true ∨ t.ownerShardId ≠ s.ownerShardId ∨ maxPageNum < s.pageNum + t.pageNum) ∧
      (absorbed.Nodup ∧ i ∉ absorbed ∧ ∀ j ∈ absorbed,
        (∃ t, pc.spans j = some t ∧ t.used = false ∧ j ∈ pc.spanLists 0 t.pageNum) ∧
          pc'.spans j = none) ∧
      (∀ q, pc'.pageMap.getSpan q = if s.Covers q then some i else pc.pageMap.getSpan q) ∧
      (∀ j, j ≠ i → j ∉ absorbed → pc'.spans j = pc.spans j) ∧
      (∀ m, pc'.spanLists 0 m =
        (if m = s.pageNum then [i] else []) ++ (pc.spanLists 0 m).filter (· ∉ absorbed)) ∧
      (∀ q, (∃ j t, pc'.spans j = some t ∧ t.Covers q) ↔
        ∃ j t, pc.spans j = some t ∧ t.Covers q) ∧ pc'.mapped = pc.mapped := by
  intro pc
  have hst := inv_of_reachable h
  obtain ⟨⟨s, hs, hu⟩, hdet⟩ := (hst.held i).mp hheld
  rw [hi] at hs
  obtain rfl := Option.some.inj hs
  have hinv : pc.Inv st.scav.chain := hst.scav.inv.load env
  obtain ⟨pc', s, absorbed, hrun, hm⟩ := releaseSpan_merged hinv hi hu hmax
  have hinv' := (hm.post hinv hi hu hdet).inv
  obtain ⟨pc₁, _, hloops, hc, -⟩ := hm.loops
  obtain ⟨evs, hlogs, -, hdeleted⟩ := hm.events
  have htrace : pc'.env.trace = evs := hlogs.trace
  refine ⟨pc', freed s pc'.clock, absorbed, hrun, ⟨pc₁, hloops⟩, htrace ▸ hdeleted, ?_, rfl,
    hc.le_max, hc.covers, fun q j t hq hget ht => hm.maximal hinv hi hq hget ht,
    hm.absorbed hinv hi hu, hm.lookup,
    fun j hj hjr => hm.others hj hjr, hm.buckets, hm.covered_iff hinv hinv' hi, hm.mapped⟩
  rw [hm.spans, Function.update_self]

/-- The release of a first page: the survivor is free again, and has absorbed and deleted the span
with the other 127 pages of the mapping. -/
theorem releaseSpan_coalesces_first :
    let st := machine.run {} [.alloc 1 (firstAnswers [some 1, some 2])]
    st.held = [2] ∧ ∃ pc' s, (st.pc.load {}).releaseSpan 2 = .ok pc' ∧ pc'.spans 2 = some s ∧
      s.used = false ∧ s.startPageIdx = 1024 ∧ s.pageNum = 128 ∧
      pc'.env.trace.filterMap deleted = [1] ∧ pc'.spans 1 = none ∧
      ∀ q, s.Covers q → pc'.pageMap.getSpan q = some 2 := by
  intro st
  have hheld : st.held = [2] := by decide +kernel
  have hpages : (st.pc.spans 2).map Span.pageNum = some 1 := by decide +kernel
  have hdels : ((st.pc.load {}).releaseSpan 2).toOption.map
      (fun pc => pc.env.trace.filterMap deleted) = some [1] := by decide +kernel
  have hrange : ((st.pc.load {}).releaseSpan 2).toOption.map
      (fun pc => (pc.spans 2).map Span.extent) = some (some ⟨1024, 128⟩) := by decide +kernel
  obtain ⟨s₀, hs₀, hp⟩ := Option.map_eq_some_iff.mp hpages
  have hreach : machine.Reachable st := Machine.Reachable.run (.init rfl) _
  obtain ⟨pc', s, absorbed, hrun, -, hdeleted, hs, hu, -, -, -, ⟨-, -, hgone⟩, hlookup, -⟩ :=
    releaseSpan_coalesces hreach (by simp [hheld]) hs₀ (by rw [hp]; decide) {}
  rw [hrun] at hdels hrange
  have hone : pc'.env.trace.filterMap deleted = [1] := Option.some.inj hdels
  have hextent : (pc'.spans 2).map Span.extent = some ⟨1024, 128⟩ := Option.some.inj hrange
  rw [hs] at hextent
  obtain ⟨hstart, hlen⟩ := Extent.mk.inj (Option.some.inj hextent)
  refine ⟨hheld, pc', s, hrun, hs, hu, hstart, hlen, hone, (hgone 1 ?_).2,
    fun q hq => (hlookup q).trans (if_pos hq)⟩
  rw [← hdeleted, hone]
  exact List.mem_singleton_self 1

end PageSystem

end Ammalloc
