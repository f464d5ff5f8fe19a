import Ammalloc.PageCache.Alloc

set_option relaxedAutoImplicit false
set_option autoImplicit false

/-!
# `ReleaseSpan` keeps the representation invariant

During the two merge loops the leaves are stale and the absorbed descriptors are off their
buckets, so the representation invariant does not hold. `Coalesced` says what does: the state
is the one the release started from, with the survivor grown and the absorbed spans unlinked.

## Main definitions

* `Ammalloc.PageCache.Coalesced` — the invariant of the merge loops.
* `Ammalloc.PageCache.Merged`, `Ammalloc.PageCache.Unmapped` — what a release does, and its events.

## Main results

* `Ammalloc.PageCache.coalesce_spec` — a merge loop ends, and keeps `Coalesced`.
* `Ammalloc.PageCache.releaseSpan_spec` — `ReleaseSpan` of a used span returns, keeps the
  invariant, and touches no other used span.
-/

namespace Ammalloc

namespace PageCache

variable {pc₀ pc : PageCache} {det : List ℕ} {i : ℕ} {s₀ s : Span} {retired : List ℕ}
  {evs : List SectionEvent}

/-! ## The merge loops -/

/-- The events of the merge loops of a release of `i`: a neighbour is taken out of the list in which
it is, and the range of `i` grows. -/
def IsMerge (i : ℕ) : SectionEvent → Prop
  | .erase j list => j ∈ list
  | .resize j _ => j = i
  | _ => False

/-- The state `pc` in the merge loops of a release of `i` that began in `pc₀`: the survivor has
grown from `s₀` to `s` by the ranges of the descriptors in `retired`. -/
structure Coalesced (pc₀ : PageCache) (i : ℕ) (s₀ : Span) (pc : PageCache) (s : Span)
    (retired : List ℕ) (evs : List SectionEvent) : Prop where
  spans : pc.spans = Function.update pc₀.spans i (some s)
  spanLists : ∀ k n, pc.spanLists k n = (pc₀.spanLists k n).filter (· ∉ retired)
  pageMap : pc.pageMap = pc₀.pageMap
  mapped : pc.mapped = pc₀.mapped
  clock : pc.clock = pc₀.clock
  logs : Logs pc₀.env evs pc.env
  events : ∀ e ∈ evs, IsMerge i e
  fields : s = { s₀ with startPageIdx := s.startPageIdx, pageNum := s.pageNum }
  covers : ∀ q, s.Covers q ↔
    s₀.Covers q ∨ ∃ j ∈ retired, ∃ t, pc₀.spans j = some t ∧ t.Covers q
  free : ∀ j ∈ retired, ∃ t, pc₀.spans j = some t ∧ t.used = false
  nodup : retired.Nodup
  pos : 0 < s.pageNum
  start_pos : 0 < s.startPageIdx
  le_max : s.pageNum ≤ maxPageNum

/-- The loops begin with nothing absorbed. -/
lemma Coalesced.start (h : pc₀.Inv det) (hi : pc₀.spans i = some s₀)
    (hmax : s₀.pageNum ≤ maxPageNum) : Coalesced pc₀ i s₀ pc₀ s₀ [] [] where
  spans := by rw [← hi, Function.update_eq_self]
  spanLists k n := by simp
  pageMap := rfl
  mapped := rfl
  clock := rfl
  logs := .refl _
  events := by simp
  fields := rfl
  covers q := by simp
  free := by simp
  nodup := List.nodup_nil
  pos := (h.spanOk i s₀ hi).pos
  start_pos := (h.spanOk i s₀ hi).start_pos
  le_max := hmax

/-- The survivor, as the loops read it. -/
lemma Coalesced.deref_self (hc : Coalesced pc₀ i s₀ pc s retired evs) : pc.deref i = .ok s := by
  simp [deref, hc.spans]

/-- The page where a loop looks for a neighbour is outside the span. -/
lemma Side.not_covers_neighbour {side : Side} {q : ℕ} (hs : 0 < s.startPageIdx)
    (h : side.neighbour s = some q) : ¬ s.Covers q := by
  unfold Span.Covers
  cases side with
  | left =>
    simp only [Side.neighbour] at h
    split at h
    · exact absurd h (by simp)
    · obtain rfl := Option.some.inj h
      omega
  | right =>
    obtain rfl := Option.some.inj h
    omega

/-- A span that covers the neighbour page and no page of `s` borders on `s`: merging covers
the pages of both. -/
lemma Side.merged_covers {side : Side} {t : Span} {q : ℕ} (hs : 0 < s.startPageIdx)
    (hpos : 0 < s.pageNum) (h : side.neighbour s = some q) (ht : t.Covers q)
    (hdis : ∀ q, s.Covers q → ¬ t.Covers q) (q' : ℕ) :
    (side.merged s t).Covers q' ↔ s.Covers q' ∨ t.Covers q' := by
  have h₁ := hdis s.startPageIdx
  have h₂ := hdis (s.startPageIdx + s.pageNum - 1)
  unfold Span.Covers at *
  cases side with
  | left =>
    simp only [Side.neighbour] at h
    split at h
    · exact absurd h (by simp)
    · obtain rfl := Option.some.inj h
      simp only [Side.merged]
      omega
  | right =>
    obtain rfl := Option.some.inj h
    simp only [Side.merged]
    omega

/-- A span found outside the survivor is none of the absorbed ones. -/
lemma Coalesced.not_retired (h : pc₀.Inv det) (hc : Coalesced pc₀ i s₀ pc s retired evs)
    (hi : pc₀.spans i = some s₀) {q j : ℕ} (hq : ¬ s.Covers q)
    (hget : pc₀.pageMap.getSpan q = some j) :
    ∃ t, pc₀.spans j = some t ∧ t.Covers q ∧ j ≠ i ∧ j ∉ retired ∧
      ∀ q, s.Covers q → ¬ t.Covers q := by
  obtain ⟨t, ht, htq⟩ := (h.getSpan_iff q j).mp hget
  have hji : j ≠ i := by
    rintro rfl
    rw [hi] at ht
    obtain rfl := Option.some.inj ht
    exact hq ((hc.covers q).mpr (Or.inl htq))
  have hjr : j ∉ retired := fun hr => hq ((hc.covers q).mpr (Or.inr ⟨j, hr, t, ht, htq⟩))
  refine ⟨t, ht, htq, hji, hjr, fun q' hq' htq' => ?_⟩
  rcases (hc.covers q').mp hq' with h₀ | ⟨j', hj', t', ht', hq'⟩
  · exact h.disjoint hji ht hi htq' h₀
  · have hjj' : j ≠ j' := by rintro rfl; exact hjr hj'
    exact h.disjoint hjj' ht ht' htq' hq'

/-- **One merge keeps `Coalesced`.** -/
lemma Coalesced.absorb (h : pc₀.Inv det) (hc : Coalesced pc₀ i s₀ pc s retired evs) {side : Side}
    {q j : ℕ} {t : Span} (hnb : side.neighbour s = some q) (hj : pc₀.spans j = some t)
    (htq : t.Covers q) (hjr : j ∉ retired) (hdis : ∀ q, s.Covers q → ¬ t.Covers q)
    (hm : mergeable s t = true) :
    Coalesced pc₀ i s₀ ((pc.erase 0 t.pageNum j).resize i (side.merged s t)) (side.merged s t)
      (j :: retired) (evs ++ [.erase j (pc.spanLists 0 t.pageNum)] ++
        [.resize i (side.merged s t).extent]) := by
  simp only [mergeable, Bool.and_eq_true, Bool.not_eq_true', decide_eq_true_eq] at hm
  obtain ⟨⟨hu, -⟩, hmax⟩ := hm
  have hcov := Side.merged_covers hc.start_pos hc.pos hnb htq hdis
  have hpos := (h.spanOk j t hj).start_pos
  refine ⟨?_, fun k n => ?_, hc.pageMap, hc.mapped, hc.clock,
    (hc.logs.record _ (by simp)).record _ (by simp), fun e he => ?_, ?_, ?_, ?_, ?_, ?_, ?_, ?_⟩
  · simp only [resize, record, store, erase, hc.spans, Function.update_idem]
  · simp only [resize, record, store, erase, hc.spanLists, List.filter_filter]
    refine List.filter_congr fun a _ => ?_
    simp [not_or]
  · simp only [List.append_assoc, List.mem_append, List.mem_singleton] at he
    rcases he with he | rfl | rfl
    · exact hc.events e he
    · -- a free span is in its bucket, and the loops have not taken it out yet
      show j ∈ pc.spanLists 0 t.pageNum
      rw [hc.spanLists]
      exact List.mem_filter.mpr ⟨(h.lists.mem t.pageNum j).mpr ⟨t, hj, hu, rfl⟩, by simpa using hjr⟩
    · exact rfl
  · have := hc.fields
    cases side with
    | left => rw [this]; rfl
    | right => rw [this]; rfl
  · intro q'
    rw [hcov q', hc.covers q']
    simp only [List.mem_cons, exists_eq_or_imp]
    constructor
    · rintro ((h₀ | hr) | ht')
      · exact Or.inl h₀
      · exact Or.inr (Or.inr hr)
      · exact Or.inr (Or.inl ⟨t, hj, ht'⟩)
    · rintro (h₀ | ⟨t', ht', hq'⟩ | hr)
      · exact Or.inl (Or.inl h₀)
      · rw [hj] at ht'
        obtain rfl := Option.some.inj ht'
        exact Or.inr hq'
      · exact Or.inl (Or.inr hr)
  · intro j' hj'
    rcases List.mem_cons.mp hj' with rfl | hj'
    · exact ⟨t, hj, hu⟩
    · exact hc.free j' hj'
  · exact List.nodup_cons.mpr ⟨hjr, hc.nodup⟩
  · have := hc.pos
    cases side <;> simp only [Side.merged] <;> omega
  · have := hc.start_pos
    cases side <;> simp only [Side.merged] <;> omega
  · cases side <;> simp only [Side.merged] <;> omega

/-- The loop on one side has stopped: what is mapped at the neighbour page is not mergeable. -/
def Side.Stopped (side : Side) (pc₀ : PageCache) (s : Span) : Prop :=
  ∀ q j t, side.neighbour s = some q → pc₀.pageMap.getSpan q = some j →
    pc₀.spans j = some t → mergeable s t = false

/-- **A merge loop ends and keeps `Coalesced`.** Every merge adds a page, and no merge goes
past `MAX_PAGE_NUM`. The loop to the right does not move the first page. -/
lemma coalesce_spec (h : pc₀.Inv det) (hi : pc₀.spans i = some s₀) (side : Side) (fuel : ℕ)
    (hc : Coalesced pc₀ i s₀ pc s retired evs) (hfuel : maxPageNum < fuel + s.pageNum) :
    ∃ pc' s' retired' evs', coalesce side 0 i fuel pc retired = .ok (pc', retired') ∧
      Coalesced pc₀ i s₀ pc' s' retired' evs' ∧ side.Stopped pc₀ s' ∧ s.pageNum ≤ s'.pageNum ∧
      (side = .right → s'.startPageIdx = s.startPageIdx) := by
  induction fuel generalizing pc s retired evs with
  | zero => exact absurd hc.le_max (by omega)
  | succ fuel ih =>
    unfold coalesce
    simp only [hc.deref_self, bind, Except.bind, hc.pageMap]
    cases hnb : side.neighbour s with
    | none =>
      exact ⟨pc, s, retired, evs, rfl, hc, fun q j t hq => by rw [hnb] at hq; simp at hq, le_rfl,
        fun _ => rfl⟩
    | some q =>
      simp only [Option.bind_some]
      cases hget : pc₀.pageMap.getSpan q with
      | none =>
        refine ⟨pc, s, retired, evs, rfl, hc, fun q' j t hq hg => ?_, le_rfl, fun _ => rfl⟩
        rw [hnb] at hq
        obtain rfl := Option.some.inj hq
        rw [hget] at hg
        exact absurd hg (by simp)
      | some j =>
        obtain ⟨t, hj, htq, hji, hjr, hdis⟩ :=
          hc.not_retired h hi (Side.not_covers_neighbour hc.start_pos hnb) hget
        have hderefj : pc.deref j = .ok t := by simp [deref, hc.spans, hji, hj]
        simp only [hderefj]
        by_cases hm : mergeable s t = true
        · rw [if_pos hm]
          have hpos := (h.spanOk j t hj).pos
          have hgrown : (side.merged s t).pageNum = s.pageNum + t.pageNum := by cases side <;> rfl
          obtain ⟨pc', s', retired', evs', hrun, hc', hstop, hle, hstart⟩ :=
            ih (hc.absorb h hnb hj htq hjr hdis hm) (by omega)
          refine ⟨pc', s', retired', evs', hrun, hc', hstop, by omega, fun hright => ?_⟩
          subst hright
          exact hstart rfl
        · rw [if_neg hm]
          refine ⟨pc, s, retired, evs, rfl, hc, fun q' j' t' hq hg ht' => ?_, le_rfl, fun _ => rfl⟩
          rw [hnb] at hq
          obtain rfl := Option.some.inj hq
          rw [hget] at hg
          obtain rfl := Option.some.inj hg
          rw [hj] at ht'
          obtain rfl := Option.some.inj ht'
          simpa using hm

/-! ## The end of a release -/

/-- **Deleting the absorbed descriptors**, which are live and listed once. -/
lemma foldlM_delete_ok (retired : List ℕ) (pc : PageCache) (hnodup : retired.Nodup)
    (hlive : ∀ j ∈ retired, ∃ t, pc.spans j = some t) :
    ∃ env, retired.foldlM delete pc =
        .ok { pc with
          spans := fun j => if j ∈ retired then none else pc.spans j
          env := env } ∧
      Logs pc.env (retired.map .delete) env := by
  induction retired generalizing pc with
  | nil =>
    refine ⟨pc.env, ?_, .refl _⟩
    simp only [List.not_mem_nil, if_false]
    rfl
  | cons j retired ih =>
    obtain ⟨hj, hnodup⟩ := List.nodup_cons.mp hnodup
    obtain ⟨t, ht⟩ := hlive j List.mem_cons_self
    obtain ⟨env, hrun, hlog⟩ := ih
      (PageCache.record { pc with spans := Function.update pc.spans j none } (.delete j)) hnodup
      (fun j' hj' => by
        obtain ⟨t', ht'⟩ := hlive j' (List.mem_cons_of_mem j hj')
        have hne : j' ≠ j := by
          intro he
          exact hj (he ▸ hj')
        exact ⟨t', by simpa [record, hne] using ht'⟩)
    refine ⟨env, ?_, ((Logs.refl _).record (.delete j) (by simp)).append hlog⟩
    rw [List.foldlM_cons, delete_ok _ ht]
    refine hrun.trans ?_
    simp only [record, List.mem_cons]
    congr 2
    funext j'
    by_cases hj' : j' = j
    · subst hj'
      simp
    · simp [hj']

/-- What `ReleaseSpan(i)` guarantees. -/
structure ReleasePost (pc : PageCache) (det : List ℕ) (i : ℕ) (pc' : PageCache) : Prop where
  inv : pc'.Inv det
  evolves : Evolves pc pc' (some i) none
  /-- The descriptor is free, or given back to the pool. -/
  released : ∀ s, pc'.spans i = some s → s.used ≠ true

/-- **What a release of more than `MAX_PAGE_NUM` pages does**: the leaves are cleared, the mapping
goes back to the system, and the descriptor is deleted. -/
structure Unmapped (pc₀ : PageCache) (i : ℕ) (s₀ : Span) (pc' : PageCache) : Prop where
  spans : pc'.spans = Function.update pc₀.spans i none
  spanLists : pc'.spanLists = pc₀.spanLists
  pageMap : pc'.pageMap = pc₀.pageMap.clearRange s₀.startPageIdx s₀.pageNum
  mapped : pc'.mapped = pc₀.mapped.erase s₀.extent
  clock : pc'.clock = pc₀.clock
  logs : Logs pc₀.env
    [.clearRange s₀.extent, .systemFree s₀.startPageIdx s₀.pageNum, .delete i] pc'.env

/-- **`ReleaseSpan` of more than `MAX_PAGE_NUM` pages returns**: the span is a mapping of its
own. -/
theorem releaseSpan_unmapped (h : pc₀.Inv det) (hi : pc₀.spans i = some s₀)
    (hbig : maxPageNum < s₀.pageNum) :
    ∃ pc', pc₀.releaseSpan i = .ok pc' ∧ Unmapped pc₀ i s₀ pc' := by
  have hderef : pc₀.deref i = .ok s₀ := by simp [deref, hi]
  have hmem : (⟨s₀.startPageIdx, s₀.pageNum⟩ : Extent) ∈ pc₀.mapped := h.oversized i s₀ hi hbig
  have hfree := systemFree_ok (pc₀.clearRange s₀.startPageIdx s₀.pageNum) hmem
  have hdel := delete_ok (i := i) (s := s₀) (PageCache.record
    { pc₀.clearRange s₀.startPageIdx s₀.pageNum with
      mapped := pc₀.mapped.erase ⟨s₀.startPageIdx, s₀.pageNum⟩ }
    (.systemFree s₀.startPageIdx s₀.pageNum)) hi
  unfold releaseSpan releaseSpanLocked
  simp only [hderef, bind, Except.bind]
  rw [if_pos hbig, hfree]
  refine ⟨_, hdel, rfl, rfl, rfl, rfl, rfl, ?_⟩
  exact (((Logs.refl pc₀.env).record (.clearRange s₀.extent) (by simp)).record
    (.systemFree s₀.startPageIdx s₀.pageNum) (by simp)).record (.delete i) (by simp)

/-- A release of more than `MAX_PAGE_NUM` pages keeps the invariant. -/
lemma Unmapped.post (h : pc₀.Inv det) (hi : pc₀.spans i = some s₀) (hu : s₀.used = true)
    (hdet : i ∉ det) (hbig : maxPageNum < s₀.pageNum) {pc' : PageCache}
    (hm : Unmapped pc₀ i s₀ pc') : ReleasePost pc₀ det i pc' := by
  obtain ⟨hspans', hlists', hmap', hmapped', hclock', -⟩ := hm
  have hmem := h.oversized i s₀ hi hbig
  have hget : ∀ q, pc'.pageMap.getSpan q =
      if s₀.extent.Contains q then none else pc₀.pageMap.getSpan q := by
    intro q
    rw [hmap']
    exact PageMap.getSpan_clearRange _ _ _ q
  have hpart := ((List.perm_cons_erase hmem).pairwise_iff fun {_ _} => Extent.Disjoint.symm).mp
    h.mapped_disjoint
  rw [List.pairwise_cons] at hpart
  have hspans : ∀ j t, pc'.spans j = some t ↔ j ≠ i ∧ pc₀.spans j = some t := by
    intro j t
    rw [hspans']
    by_cases hj : j = i <;> simp [hj]
  constructor
  · constructor
    · have hsame : pc'.extents = Function.update pc₀.extents i none := by
        funext j
        by_cases hj : j = i <;> simp [extents, hspans', hj]
      rw [hsame]
      exact h.lookup.clear (i := i) (e := s₀.extent) (by simp [extents, hi]) hget
    · rw [hspans', hlists']
      refine h.lists.keep (fun t ht => ?_) (by simp)
      rw [hi] at ht
      obtain rfl := Option.some.inj ht
      exact hu
    · intro j t ht
      exact h.spanOk j t ((hspans j t).mp ht).2
    · intro j hj
      obtain ⟨t, ht, hut⟩ := h.detached j hj
      exact ⟨t, (hspans j t).mpr ⟨fun he => hdet (he ▸ hj), ht⟩, hut⟩
    · intro q
      rw [hmapped', hget q]
      by_cases hq : s₀.extent.Contains q
      · simp only [if_pos hq]
        constructor
        · rintro ⟨e, he, hqe⟩
          exact absurd hqe ((hpart.1 e he).not_contains hq)
        · simp
      · simp only [if_neg hq]
        rw [← h.mapped q]
        constructor
        · rintro ⟨e, he, hqe⟩
          exact ⟨e, List.mem_of_mem_erase he, hqe⟩
        · rintro ⟨e, he, hqe⟩
          have hne : e ≠ s₀.extent := by rintro rfl; exact hq hqe
          exact ⟨e, (List.mem_erase_of_ne hne).mpr he, hqe⟩
    · rw [hmapped']
      exact hpart.2
    · intro j t ht hbig'
      obtain ⟨hj, ht⟩ := (hspans j t).mp ht
      rw [hmapped']
      refine (List.mem_erase_of_ne fun he => ?_).mpr (h.oversized j t ht hbig')
      have hq : t.Covers t.startPageIdx := ⟨le_rfl, by omega⟩
      have hq' : t.extent.Contains t.startPageIdx := hq
      rw [he] at hq'
      exact h.disjoint hj ht hi hq hq'
    · rw [hclock']
      exact h.clock_le
  · refine ⟨fun j t ht _ hr => ?_, fun j t ht _ _ => ?_, fun j t ht _ => ?_, by simp,
      hclock'.ge⟩
    · exact (hspans j t).mpr ⟨fun he => hr (by rw [he]), ht⟩
    · exact ((hspans j t).mp ht).2
    · exact Or.inl ((hspans j t).mp ht).2
  · intro t ht
    exact absurd rfl ((hspans i t).mp ht).1

/-- **What a release of at most `MAX_PAGE_NUM` pages does**: the survivor has grown to `s` by the
absorbed spans and stops on both sides, the leaves name it, the absorbed descriptors are deleted,
and it is the front of its bucket. -/
structure Merged (pc₀ : PageCache) (i : ℕ) (s₀ s : Span) (retired : List ℕ) (pc' : PageCache) :
    Prop where
  loops : ∃ pc evs, mergeNeighbours pc₀ 0 i = .ok (pc, retired) ∧
    Coalesced pc₀ i s₀ pc s retired evs ∧
    Logs pc₀.env (evs ++ [.setSpan pc₀.pageMap i s.extent] ++ retired.map .delete) pc'.env
  left : Side.left.Stopped pc₀ s
  right : Side.right.Stopped pc₀ s
  clock_le : pc₀.clock ≤ pc'.clock
  clock_max : pc'.clock ≤ sizeMax
  lookup : ∀ q, pc'.pageMap.getSpan q =
    if s.extent.Contains q then some i else pc₀.pageMap.getSpan q
  mapped : pc'.mapped = pc₀.mapped
  spans : pc'.spans = Function.update (fun j => if j ∈ retired then none else pc₀.spans j) i
    (some (freed s pc'.clock))
  lists : pc'.spanLists 0 = Function.update
    (fun n => (pc₀.spanLists 0 n).filter (· ∉ retired)) s.pageNum
    (i :: (pc₀.spanLists 0 s.pageNum).filter (· ∉ retired))

/-- A used span is not absorbed. -/
lemma Coalesced.used_not_retired (hc : Coalesced pc₀ i s₀ pc s retired evs) {j : ℕ} {t : Span}
    (hj : pc₀.spans j = some t) (hu : t.used = true) : j ∉ retired := by
  intro hr
  obtain ⟨t', ht', hut'⟩ := hc.free j hr
  rw [hj] at ht'
  obtain rfl := Option.some.inj ht'
  rw [hu] at hut'
  exact absurd hut' (by simp)

/-- Every page of the survivor was a page of the released span or of an absorbed one. -/
lemma Coalesced.lookup_isSome (h : pc₀.Inv det) (hi : pc₀.spans i = some s₀)
    (hc : Coalesced pc₀ i s₀ pc s retired evs) {q : ℕ} (hq : s.extent.Contains q) :
    ∃ j, pc₀.pageMap.getSpan q = some j := by
  rcases (hc.covers q).mp hq with h₀ | ⟨j, -, t, ht, htq⟩
  · exact ⟨i, (h.getSpan_iff q i).mpr ⟨s₀, hi, h₀⟩⟩
  · exact ⟨j, (h.getSpan_iff q j).mpr ⟨t, ht, htq⟩⟩

/-- The lookups after a release: the pages of the survivor go to it, and an absorbed descriptor
has none left. -/
lemma Coalesced.indexes (h : pc₀.Inv det) (hi : pc₀.spans i = some s₀)
    (hc : Coalesced pc₀ i s₀ pc s retired evs) {pc' : PageCache} {s' : Span}
    (hs' : s'.extent = s.extent)
    (hget : ∀ q, pc'.pageMap.getSpan q =
      if s.extent.Contains q then some i else pc₀.pageMap.getSpan q)
    (hspans : pc'.spans =
      Function.update (fun j => if j ∈ retired then none else pc₀.spans j) i (some s')) :
    ExtentMap.Indexes pc'.pageMap.getSpan pc'.extents := by
  refine h.lookup.write hget (by simp [extents, hspans, hs']) ?_ ?_
  · intro f hf q hq
    simp only [extents, hi, Option.map_some, Option.some.injEq] at hf
    subst hf
    exact (hc.covers q).mpr (Or.inl hq)
  · intro j hj q
    simp only [extents, hspans, Function.update_of_ne hj]
    by_cases hjr : j ∈ retired
    · obtain ⟨t, ht, -⟩ := hc.free j hjr
      simp only [if_pos hjr, Option.map_none, reduceCtorEq, false_and, exists_false, false_iff,
        ht, Option.map_some, Option.some.injEq, exists_eq_left', not_and, not_not]
      exact fun hq => (hc.covers q).mpr (Or.inr ⟨j, hjr, t, ht, hq⟩)
    · simp only [if_neg hjr]
      refine ⟨fun hf => ⟨hf, fun hq => ?_⟩, And.left⟩
      obtain ⟨f, hf, hfq⟩ := hf
      obtain ⟨t, ht, rfl⟩ := Option.map_eq_some_iff.mp hf
      rcases (hc.covers q).mp hq with h₀ | ⟨j', hj', t', ht', hq'⟩
      · exact h.disjoint hj ht hi hfq h₀
      · have hne : j ≠ j' := by rintro rfl; exact hjr hj'
        exact h.disjoint hne ht ht' hfq hq'

/-- The loop on the left has stopped for good: later growth to the right makes merging harder. -/
lemma Side.Stopped.grow {s' : Span} (h : Side.left.Stopped pc₀ s)
    (hstart : s'.startPageIdx = s.startPageIdx) (hle : s.pageNum ≤ s'.pageNum)
    (howner : s'.ownerShardId = s.ownerShardId) : Side.left.Stopped pc₀ s' := by
  intro q j t hq hget ht
  have hq' : Side.left.neighbour s = some q := by
    simpa only [Side.neighbour, hstart] using hq
  have hm := h q j t hq' hget ht
  rw [Bool.eq_false_iff] at hm ⊢
  intro hm'
  refine hm ?_
  simp only [mergeable, howner, Bool.and_eq_true, decide_eq_true_eq] at hm' ⊢
  exact ⟨hm'.1, by omega⟩

/-- **The end of a release** keeps the invariant. -/
lemma Merged.post (h : pc₀.Inv det) (hi : pc₀.spans i = some s₀) (hu : s₀.used = true)
    (hdet : i ∉ det) {pc' : PageCache} (hm : Merged pc₀ i s₀ s retired pc') :
    ReleasePost pc₀ det i pc' := by
  obtain ⟨⟨pc, evs, -, hc, -⟩, -, -, hlo, hhi, hget, hmapped, hspans, hlists⟩ := hm
  have hother : ∀ j t, j ≠ i → pc'.spans j = some t → pc₀.spans j = some t := by
    intro j t hj ht
    rw [hspans, Function.update_of_ne hj] at ht
    split at ht
    · exact absurd ht (by simp)
    · exact ht
  have hself : ∀ t, pc'.spans i = some t → t = freed s pc'.clock := by
    intro t ht
    rw [hspans, Function.update_self] at ht
    exact (Option.some.inj ht).symm
  have hkeep : ∀ j t, j ≠ i → pc₀.spans j = some t → t.used = true → pc'.spans j = some t := by
    intro j t hj ht hut
    rw [hspans, Function.update_of_ne hj, if_neg (hc.used_not_retired ht hut), ht]
  refine ⟨h.of_spans (hc.indexes h hi (by rfl) hget hspans) ?_ ?_ ?_ ?_ hmapped ?_ hhi, ?_, ?_⟩
  · rw [hspans, hlists]
    refine (h.lists.retire retired).put i (freed s pc'.clock) ?_ rfl
      (List.Perm.refl _)
    intro t ht
    rw [if_neg (hc.used_not_retired hi hu), hi] at ht
    obtain rfl := Option.some.inj ht
    exact hu
  · intro j t ht
    by_cases hj : j = i
    · subst hj
      obtain rfl := hself t ht
      refine ⟨hc.pos, hc.start_pos, ?_, fun _ => ⟨hc.le_max, rfl, rfl, rfl, rfl⟩⟩
      have := (h.spanOk j s₀ hi).owner
      rw [← this]
      show s.ownerShardId = _
      rw [hc.fields]
    · exact h.spanOk j t (hother j t hj ht)
  · intro j hj
    obtain ⟨t, ht, hut⟩ := h.detached j hj
    exact ⟨t, hkeep j t (fun he => hdet (he ▸ hj)) ht hut, hut⟩
  · intro q
    rw [hget q]
    split
    · rename_i hq
      exact ⟨fun _ => hc.lookup_isSome h hi hq, fun _ => ⟨i, rfl⟩⟩
    · exact Iff.rfl
  · intro j t ht hbig
    by_cases hj : j = i
    · subst hj
      obtain rfl := hself t ht
      exact absurd hbig (not_lt.mpr hc.le_max)
    · exact ⟨t, hother j t hj ht, rfl⟩
  · refine ⟨fun j t ht hut hr => ?_, fun j t ht hut _ => ?_, fun j t ht hut => ?_, by simp, hlo⟩
    · exact hkeep j t (fun he => hr (by rw [he])) ht hut
    · have hji : j ≠ i := by
        rintro rfl
        obtain rfl := hself t ht
        exact absurd hut (by simp [freed])
      exact hother j t hji ht
    · by_cases hj : j = i
      · subst hj
        obtain rfl := hself t ht
        exact Or.inr ⟨rfl, hlo, le_rfl⟩
      · exact Or.inl (hother j t hj ht)
  · intro t ht
    obtain rfl := hself t ht
    simp [freed]

/-- **`ReleaseSpan` of at most `MAX_PAGE_NUM` pages returns.** -/
theorem releaseSpan_merged (h : pc₀.Inv det) (hi : pc₀.spans i = some s₀) (hu : s₀.used = true)
    (hmax : s₀.pageNum ≤ maxPageNum) :
    ∃ pc' s retired, pc₀.releaseSpan i = .ok pc' ∧ Merged pc₀ i s₀ s retired pc' := by
  have hderef : pc₀.deref i = .ok s₀ := by simp [deref, hi]
  have hpos := (h.spanOk i s₀ hi).pos
  obtain ⟨pc₁, s₁, r₁, evs₁, hrun₁, hc₁, hleft, -⟩ := coalesce_spec h hi .left maxPageNum
    (Coalesced.start h hi hmax) (by omega)
  obtain ⟨pc₂, s₂, r₂, evs, hrun₂, hc₂, hright, hle, hstart⟩ :=
    coalesce_spec h hi .right maxPageNum hc₁ (by have := hc₁.pos; omega)
  have hloops : mergeNeighbours pc₀ 0 i = .ok (pc₂, r₂) := by
    simp only [mergeNeighbours, hrun₁, hrun₂, bind, Except.bind]
  obtain ⟨now, env, hnow, hlo, hhi, hlog⟩ := getCurrentTimeMs_spec pc₂ (hc₂.clock ▸ h.clock_le)
  -- the paths of the survivor's pages have been there all along
  obtain ⟨pm, hset, hget, -⟩ := setSpan_ok
    (PageCache.store { pc₂ with clock := now, env := env } i (freed s₂ now))
    i (s := freed s₂ now) hc₂.pos
    (fun q hq => by
      show pc₂.pageMap.hasPath q = true
      rw [hc₂.pageMap]
      rcases (hc₂.covers q).mp hq with h₀ | ⟨j, -, t, ht, htq⟩
      · exact h.hasPath hi h₀
      · exact h.hasPath ht htq)
  have hir := hc₂.used_not_retired hi hu
  set pc₃ : PageCache := PageCache.record
    { PageCache.store { pc₂ with clock := now, env := env } i (freed s₂ now) with pageMap := pm }
    (.setSpan pc₂.pageMap i (freed s₂ now).extent) with hpc₃
  have hspans₃ : pc₃.spans = Function.update pc₀.spans i (some (freed s₂ now)) := by
    simp only [hpc₃, record, store, hc₂.spans, Function.update_idem]
  obtain ⟨env', hdel, hlog'⟩ := foldlM_delete_ok r₂ pc₃ hc₂.nodup (fun j hj => by
    obtain ⟨t, ht, -⟩ := hc₂.free j hj
    have hji : j ≠ i := by
      intro he
      exact hir (he ▸ hj)
    exact ⟨t, by rw [hspans₃, Function.update_of_ne hji, ht]⟩)
  have hlogs : Logs pc₀.env
      (evs ++ [.setSpan pc₀.pageMap i s₂.extent] ++ r₂.map .delete) env' := by
    have hall := ((hc₂.logs.append hlog).record
      (.setSpan pc₂.pageMap i (freed s₂ now).extent) (by simp)).append hlog'
    rw [hc₂.pageMap, List.append_nil] at hall
    exact hall
  refine ⟨PageCache.pushFront
    { pc₃ with spans := fun j => if j ∈ r₂ then none else pc₃.spans j, env := env' } 0 s₂.pageNum i,
    s₂, r₂, ?_, ?_⟩
  · unfold releaseSpan releaseSpanLocked
    simp only [hderef, bind, Except.bind, (h.spanOk i s₀ hi).owner]
    rw [if_neg (not_lt.mpr hmax)]
    have hset₃ : (PageCache.store { pc₂ with clock := now, env := env } i (freed s₂ now)).setSpan i
        (freed s₂ now) = .ok pc₃ := hset
    simp only [hloops, hc₂.deref_self, hnow, hset₃, hdel]
    rfl
  · have howner : s₂.ownerShardId = s₁.ownerShardId := by rw [hc₂.fields, hc₁.fields]
    refine ⟨⟨pc₂, evs, hloops, hc₂, hlogs⟩, hleft.grow (hstart rfl) hle howner, hright,
      hc₂.clock ▸ hlo, hhi, fun q => ?_, hc₂.mapped, ?_, ?_⟩
    · refine (hget q).trans ?_
      simp only [store, hc₂.pageMap]
      rfl
    · funext j
      simp only [pushFront, setList, hspans₃]
      by_cases hj : j = i
      · subst hj
        simp [hir]
        rfl
      · simp [hj]
    · simp [hpc₃, pushFront, setList, record, store, funext (hc₂.spanLists 0)]

/-! ## The events of a release -/

/-- What an event takes out of a span list: the span, and the members of the list of the call. -/
def erased : SectionEvent → Option (ℕ × List ℕ)
  | .erase i list => some (i, list)
  | _ => none

/-- The descriptor that an event deletes. -/
def deleted : SectionEvent → Option ℕ
  | .delete i => some i
  | _ => none

/-- What the merge loops erase is linked. -/
lemma linked_of_isMerge (h : ∀ e ∈ evs, IsMerge i e) : ∀ u ∈ evs.filterMap erased, u.1 ∈ u.2 := by
  intro u hu
  obtain ⟨e, he, heu⟩ := List.mem_filterMap.mp hu
  have hmerge := h e he
  cases e with
  | erase j list =>
    obtain rfl := Option.some.inj heu
    exact hmerge
  | _ => exact absurd heu (by simp [erased])

/-- The merge loops delete nothing. -/
lemma deleted_of_isMerge (h : ∀ e ∈ evs, IsMerge i e) : evs.filterMap deleted = [] := by
  refine List.filterMap_eq_nil_iff.mpr fun e he => ?_
  have hmerge := h e he
  cases e with
  | delete j => exact hmerge.elim
  | _ => rfl

/-- **The events of a release** of at most `MAX_PAGE_NUM` pages: it erases only what is linked, and
deletes the absorbed descriptors, each once. -/
lemma Merged.events {pc' : PageCache} (hm : Merged pc₀ i s₀ s retired pc') :
    ∃ evs, Logs pc₀.env evs pc'.env ∧ (∀ u ∈ evs.filterMap erased, u.1 ∈ u.2) ∧
      evs.filterMap deleted = retired := by
  obtain ⟨pc₂, evs, -, hc, hlogs⟩ := hm.loops
  refine ⟨_, hlogs, ?_, ?_⟩
  · intro u hu
    rw [List.filterMap_append, List.filterMap_append, List.filterMap_map] at hu
    simp only [Function.comp_def, erased, List.filterMap_cons, List.filterMap_nil,
      List.append_nil, List.filterMap_none] at hu
    exact linked_of_isMerge hc.events u hu
  · rw [List.filterMap_append, List.filterMap_append, List.filterMap_map,
      deleted_of_isMerge hc.events]
    simp [Function.comp_def, deleted]

/-- **`ReleaseSpan` of a used span returns**, keeps the invariant, and touches no other used
span. -/
theorem releaseSpan_spec (h : pc₀.Inv det) (hi : pc₀.spans i = some s₀) (hu : s₀.used = true)
    (hdet : i ∉ det) : ∃ pc', pc₀.releaseSpan i = .ok pc' ∧ ReleasePost pc₀ det i pc' := by
  by_cases hbig : s₀.pageNum > maxPageNum
  · obtain ⟨pc', hrun, hm⟩ := releaseSpan_unmapped h hi hbig
    exact ⟨pc', hrun, hm.post h hi hu hdet hbig⟩
  · obtain ⟨pc', s, retired, hrun, hm⟩ := releaseSpan_merged h hi hu (not_lt.mp hbig)
    exact ⟨pc', hrun, hm.post h hi hu hdet⟩

end PageCache

end Ammalloc
