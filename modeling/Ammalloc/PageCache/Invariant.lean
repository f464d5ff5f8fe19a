import Ammalloc.PageCache

set_option relaxedAutoImplicit false
set_option autoImplicit false

/-!
# The representation invariant of the page cache

What holds of the buckets, the radix leaves and the descriptors whenever the PageCache mutex
is free. `det` lists the descriptors that the scavenger has taken off their bucket: they are
flagged used, but nobody outside the page layer holds them.

## Main definitions

* `Ammalloc.PageCache.ListsOk` — buckets and flags agree.
* `Ammalloc.PageCache.Inv` — the representation invariant.
* `Ammalloc.PageCache.Evolves` — what a critical section does to the descriptors.

## Main results

* `Ammalloc.PageCache.Inv.insert`, `Ammalloc.PageCache.Inv.of_spans` — the two ways an
  operation re-establishes the invariant: with a new mapping, and inside the old ones.
-/

namespace Ammalloc

namespace PageCache

/-! ## Buckets -/

/-- Buckets and flags agree: a bucket holds exactly the unused spans of its page count, each
once. -/
structure ListsOk (spans : ℕ → Option Span) (lists : ℕ → List ℕ) : Prop where
  mem : ∀ n i, i ∈ lists n ↔ ∃ s, spans i = some s ∧ s.used = false ∧ s.pageNum = n
  nodup : ∀ n, (lists n).Nodup

section Lists

variable {spans : ℕ → Option Span} {lists : ℕ → List ℕ}

/-- A used span is in no bucket. -/
lemma ListsOk.not_mem (h : ListsOk spans lists) {i : ℕ}
    (hi : ∀ s, spans i = some s → s.used = true) (n : ℕ) : i ∉ lists n := by
  intro hmem
  obtain ⟨s, hs, hu, -⟩ := (h.mem n i).mp hmem
  rw [hi s hs] at hu
  exact absurd hu (by simp)

/-- Unlinking a span and flagging it used. -/
lemma ListsOk.take (h : ListsOk spans lists) {i : ℕ} {s : Span} (hs : spans i = some s)
    (s' : Span) (hu' : s'.used = true) :
    ListsOk (Function.update spans i (some s'))
      (Function.update lists s.pageNum ((lists s.pageNum).erase i)) := by
  constructor
  · intro n j
    by_cases hj : j = i
    · subst hj
      have hnot : j ∉ Function.update lists s.pageNum ((lists s.pageNum).erase j) n := by
        by_cases hn : n = s.pageNum
        · subst hn
          rw [Function.update_self]
          exact (h.nodup _).not_mem_erase
        · rw [Function.update_of_ne hn, h.mem]
          rintro ⟨t, ht, -, hp⟩
          rw [hs] at ht
          obtain rfl := Option.some.inj ht
          exact hn hp.symm
      simp [hnot, Function.update_self, hu']
    · rw [Function.update_of_ne hj, ← h.mem]
      by_cases hn : n = s.pageNum
      · subst hn
        rw [Function.update_self]
        exact List.mem_erase_of_ne hj
      · rw [Function.update_of_ne hn]
  · intro n
    by_cases hn : n = s.pageNum
    · subst hn
      rw [Function.update_self]
      exact (h.nodup _).erase _
    · rw [Function.update_of_ne hn]
      exact h.nodup n

/-- Linking a span that was in no bucket, at either end of its bucket. -/
lemma ListsOk.put (h : ListsOk spans lists) (i : ℕ) (s' : Span) {l : List ℕ}
    (hi : ∀ s, spans i = some s → s.used = true) (hu' : s'.used = false)
    (hl : l.Perm (i :: lists s'.pageNum)) :
    ListsOk (Function.update spans i (some s')) (Function.update lists s'.pageNum l) := by
  have hnot := h.not_mem hi
  constructor
  · intro n j
    by_cases hn : n = s'.pageNum
    · subst hn
      rw [Function.update_self, hl.mem_iff, List.mem_cons]
      by_cases hj : j = i
      · subst hj
        simp [Function.update_self, hu']
      · rw [Function.update_of_ne hj, ← h.mem]
        simp [hj]
    · rw [Function.update_of_ne hn]
      by_cases hj : j = i
      · subst hj
        simp only [hnot n, Function.update_self, Option.some.injEq, false_iff]
        rintro ⟨t, rfl, -, hp⟩
        exact hn hp.symm
      · rw [Function.update_of_ne hj, ← h.mem]
  · intro n
    by_cases hn : n = s'.pageNum
    · subst hn
      rw [Function.update_self, hl.nodup_iff, List.nodup_cons]
      exact ⟨hnot _, h.nodup _⟩
    · rw [Function.update_of_ne hn]
      exact h.nodup n

/-- Overwriting a slot that is in no bucket with a used descriptor, or clearing it. -/
lemma ListsOk.keep (h : ListsOk spans lists) {i : ℕ} {v : Option Span}
    (hi : ∀ s, spans i = some s → s.used = true) (hv : ∀ s, v = some s → s.used = true) :
    ListsOk (Function.update spans i v) lists := by
  refine ⟨fun n j => ?_, h.nodup⟩
  by_cases hj : j = i
  · subst hj
    simp only [h.not_mem hi n, Function.update_self, false_iff]
    rintro ⟨s, hs, hu, -⟩
    rw [hv s hs] at hu
    exact absurd hu (by simp)
  · rw [Function.update_of_ne hj, h.mem]

/-- Dropping a set of descriptors from their buckets and from the pool. -/
lemma ListsOk.retire (h : ListsOk spans lists) (retired : List ℕ) :
    ListsOk (fun j => if j ∈ retired then none else spans j)
      (fun n => (lists n).filter (· ∉ retired)) := by
  constructor
  · intro n j
    rw [List.mem_filter, h.mem]
    by_cases hj : j ∈ retired <;> simp [hj]
  · intro n
    exact (h.nodup n).filter _

end Lists

/-! ## Descriptors -/

/-- The object-level fields of a span that is in no CentralCache bucket: `am_free` classifies
such a span as a large object. -/
def Clean (s : Span) : Prop :=
  s.alignedObjSize = 0 ∧ s.useCount = 0 ∧ s.capacity = 0 ∧ s.objOffset = 0

/-- What holds of every live descriptor; `d` says that the scavenger holds it. -/
structure SpanOk (d : Prop) (s : Span) : Prop where
  pos : 0 < s.pageNum
  start_pos : 0 < s.startPageIdx
  owner : s.ownerShardId = 0
  free : s.used = false ∨ d → s.pageNum ≤ maxPageNum ∧ Clean s

/-- The page ranges of the live descriptors. -/
def extents (pc : PageCache) (i : ℕ) : Option Extent := (pc.spans i).map Span.extent

/-- **The representation invariant.** -/
structure Inv (pc : PageCache) (det : List ℕ) : Prop where
  lookup : ExtentMap.Indexes pc.pageMap.getSpan pc.extents
  lists : ListsOk pc.spans (pc.spanLists 0)
  spanOk : ∀ i s, pc.spans i = some s → SpanOk (i ∈ det) s
  detached : ∀ i ∈ det, ∃ s, pc.spans i = some s ∧ s.used = true
  /-- The mapped pages are the pages of the spans. -/
  mapped : ∀ q, (∃ e ∈ pc.mapped, e.Contains q) ↔ ∃ i, pc.pageMap.getSpan q = some i
  mapped_disjoint : pc.mapped.Pairwise Extent.Disjoint
  /-- An oversized span is a mapping of its own. -/
  oversized : ∀ i s, pc.spans i = some s → maxPageNum < s.pageNum → s.extent ∈ pc.mapped
  clock_le : pc.clock ≤ sizeMax

section

variable {pc pc' : PageCache} {det : List ℕ}

/-- The lookups, in terms of the descriptors. -/
lemma Inv.getSpan_iff (h : pc.Inv det) (q i : ℕ) :
    pc.pageMap.getSpan q = some i ↔ ∃ s, pc.spans i = some s ∧ s.Covers q := by
  rw [h.lookup q i]
  simp only [extents, Option.map_eq_some_iff]
  constructor
  · rintro ⟨e, ⟨s, hs, rfl⟩, hq⟩
    exact ⟨s, hs, hq⟩
  · rintro ⟨s, hs, hq⟩
    exact ⟨_, ⟨s, hs, rfl⟩, hq⟩

/-- **The live spans are disjoint.** -/
lemma Inv.disjoint (h : pc.Inv det) {i j : ℕ} (hij : i ≠ j) {s t : Span}
    (hi : pc.spans i = some s) (hj : pc.spans j = some t) {q : ℕ} (hq : s.Covers q) :
    ¬ t.Covers q :=
  h.lookup.disjoint hij (e := s.extent) (f := t.extent) (by simp [extents, hi])
    (by simp [extents, hj]) hq

/-- Every page of a live span has a radix path. -/
lemma Inv.hasPath (h : pc.Inv det) {i : ℕ} {s : Span} (hi : pc.spans i = some s) {q : ℕ}
    (hq : s.Covers q) : pc.pageMap.hasPath q = true :=
  PageMap.hasPath_of_getSpan ((h.getSpan_iff q i).mpr ⟨s, hi, hq⟩)

/-- No span begins at address zero. -/
lemma Inv.getPageBaseAddr_pos (h : pc.Inv det) {i : ℕ} {s : Span} (hi : pc.spans i = some s) :
    0 < s.getPageBaseAddr := by
  have := (h.spanOk i s hi).start_pos
  rw [Span.getPageBaseAddr, Nat.shiftLeft_eq]
  positivity

/-- The descriptor at the front of a bucket. -/
lemma Inv.listed (h : pc.Inv det) {n i : ℕ} (hi : i ∈ pc.spanLists 0 n) :
    ∃ s, pc.spans i = some s ∧ s.used = false ∧ s.pageNum = n ∧ Clean s ∧ i ∉ det := by
  obtain ⟨s, hs, hu, hp⟩ := (h.lists.mem n i).mp hi
  refine ⟨s, hs, hu, hp, ((h.spanOk i s hs).free (Or.inl hu)).2, fun hdet => ?_⟩
  obtain ⟨t, ht, hut⟩ := h.detached i hdet
  rw [hs] at ht
  obtain rfl := Option.some.inj ht
  rw [hu] at hut
  exact absurd hut (by simp)

/-! ## Re-establishing the invariant -/

/-- A range that can be mapped meets no live span. -/
lemma Inv.getSpan_of_mappable (h : pc.Inv det) {p n : ℕ} (hm : pc.Mappable p n) {q : ℕ}
    (hq : Extent.Contains ⟨p, n⟩ q) : pc.pageMap.getSpan q = none := by
  by_contra hne
  obtain ⟨i, hi⟩ := Option.ne_none_iff_exists'.mp hne
  obtain ⟨e, he, hqe⟩ := (h.mapped q).mpr ⟨i, hi⟩
  exact (hm.2.2 e he).not_contains hq hqe

/-- **A new span on a new mapping.** -/
lemma Inv.insert (h : pc.Inv det) {i : ℕ} {s : Span} (hi : pc.spans i = none)
    (hs : SpanOk False s) (hm : pc.Mappable s.startPageIdx s.pageNum)
    (hspans : pc'.spans = Function.update pc.spans i (some s))
    (hlists : ListsOk pc'.spans (pc'.spanLists 0))
    (hget : ∀ q, pc'.pageMap.getSpan q =
      if s.extent.Contains q then some i else pc.pageMap.getSpan q)
    (hmapped : pc'.mapped = s.extent :: pc.mapped) (hclock : pc'.clock ≤ sizeMax) :
    pc'.Inv det := by
  have hdet : i ∉ det := by
    intro hd
    obtain ⟨t, ht, -⟩ := h.detached i hd
    rw [hi] at ht
    exact absurd ht (by simp)
  have hfresh : ∀ {q}, s.extent.Contains q → pc.pageMap.getSpan q = none :=
    fun hq => h.getSpan_of_mappable hm hq
  constructor
  · refine h.lookup.write hget (by simp [extents, hspans]) (by simp [extents, hi]) ?_
    intro j hj q
    have hsame : pc'.extents j = pc.extents j := by simp [extents, hspans, hj]
    rw [hsame]
    refine ⟨fun hf => ⟨hf, fun hq => ?_⟩, And.left⟩
    obtain ⟨f, hf, hfq⟩ := hf
    exact h.lookup.not_contains (hfresh hq) hf hfq
  · exact hlists
  · intro j t ht
    rw [hspans] at ht
    by_cases hj : j = i
    · subst hj
      rw [Function.update_self] at ht
      obtain rfl := Option.some.inj ht
      exact ⟨hs.pos, hs.start_pos, hs.owner, fun hd => hs.free (hd.imp_right hdet)⟩
    · rw [Function.update_of_ne hj] at ht
      exact h.spanOk j t ht
  · intro j hj
    have hne : j ≠ i := fun he => hdet (he ▸ hj)
    rw [hspans, Function.update_of_ne hne]
    exact h.detached j hj
  · intro q
    rw [hmapped, hget q]
    by_cases hq : s.extent.Contains q
    · simp [hq]
    · simpa [hq] using h.mapped q
  · rw [hmapped, List.pairwise_cons]
    exact ⟨hm.2.2, h.mapped_disjoint⟩
  · intro j t ht hbig
    rw [hmapped]
    rw [hspans] at ht
    by_cases hj : j = i
    · subst hj
      rw [Function.update_self] at ht
      obtain rfl := Option.some.inj ht
      exact List.mem_cons_self
    · rw [Function.update_of_ne hj] at ht
      exact List.mem_cons_of_mem _ (h.oversized j t ht hbig)
  · exact hclock

/-- **A change inside the mapped pages**: the leaves index the new descriptors, every page that
looked up to a span still does, and no span grows past `MAX_PAGE_NUM`. -/
lemma Inv.of_spans (h : pc.Inv det) {det' : List ℕ}
    (hlookup : ExtentMap.Indexes pc'.pageMap.getSpan pc'.extents)
    (hlists : ListsOk pc'.spans (pc'.spanLists 0))
    (hok : ∀ i s, pc'.spans i = some s → SpanOk (i ∈ det') s)
    (hdet : ∀ i ∈ det', ∃ s, pc'.spans i = some s ∧ s.used = true)
    (hsome : ∀ q, (∃ i, pc'.pageMap.getSpan q = some i) ↔ ∃ i, pc.pageMap.getSpan q = some i)
    (hmapped : pc'.mapped = pc.mapped)
    (hbig : ∀ i s, pc'.spans i = some s → maxPageNum < s.pageNum →
      ∃ t, pc.spans i = some t ∧ t.extent = s.extent)
    (hclock : pc'.clock ≤ sizeMax) : pc'.Inv det' where
  lookup := hlookup
  lists := hlists
  spanOk := hok
  detached := hdet
  mapped q := by rw [hmapped, hsome]; exact h.mapped q
  mapped_disjoint := by rw [hmapped]; exact h.mapped_disjoint
  oversized i s hs hp := by
    obtain ⟨t, ht, he⟩ := hbig i s hs hp
    rw [hmapped, ← he]
    refine h.oversized i t ht ?_
    have := congrArg Extent.len he
    simp only [Span.extent] at this
    omega
  clock_le := hclock

/-- **A change of one descriptor that keeps its range**, with the same leaves. -/
lemma Inv.of_store (h : pc.Inv det) {det' : List ℕ} {i : ℕ} {s : Span}
    (hi : pc.spans i = some s) (s' : Span) (hext : s'.extent = s.extent)
    (hspans : pc'.spans = Function.update pc.spans i (some s'))
    (hlists : ListsOk pc'.spans (pc'.spanLists 0))
    (hok : SpanOk (i ∈ det') s') (hdet' : ∀ j, j ≠ i → (j ∈ det' ↔ j ∈ det))
    (hdeti : i ∈ det' → s'.used = true)
    (hget : ∀ q, pc'.pageMap.getSpan q = pc.pageMap.getSpan q)
    (hmapped : pc'.mapped = pc.mapped) (hclock : pc'.clock ≤ sizeMax) : pc'.Inv det' := by
  refine h.of_spans ?_ hlists ?_ ?_ (fun q => by rw [hget q]) hmapped ?_ hclock
  · have hsame : pc'.extents = pc.extents := by
      funext j
      by_cases hj : j = i
      · subst hj; simp [extents, hspans, hi, hext]
      · simp [extents, hspans, hj]
    rw [hsame]
    intro q j
    rw [hget q]
    exact h.lookup q j
  · intro j t ht
    rw [hspans] at ht
    by_cases hj : j = i
    · subst hj
      rw [Function.update_self] at ht
      obtain rfl := Option.some.inj ht
      exact hok
    · rw [Function.update_of_ne hj] at ht
      have := h.spanOk j t ht
      rwa [← hdet' j hj] at this
  · intro j hj
    by_cases hji : j = i
    · subst hji
      exact ⟨s', by rw [hspans, Function.update_self], hdeti hj⟩
    · rw [hspans, Function.update_of_ne hji]
      exact h.detached j ((hdet' j hji).mp hj)
  · intro j t ht _
    rw [hspans] at ht
    by_cases hj : j = i
    · subst hj
      rw [Function.update_self] at ht
      obtain rfl := Option.some.inj ht
      exact ⟨s, hi, hext.symm⟩
    · rw [Function.update_of_ne hj] at ht
      exact ⟨t, ht, rfl⟩

/-- **The holder of a span writes its object-level fields.** -/
lemma Inv.writeObjects (h : pc.Inv det) {i : ℕ} {s : Span} (hi : pc.spans i = some s)
    (hu : s.used = true) (hdet : i ∉ det) (o : Span) : (pc.store i (s.withObjects o)).Inv det := by
  have hok := h.spanOk i s hi
  refine h.of_store hi (s.withObjects o) rfl rfl ?_
    ⟨hok.pos, hok.start_pos, hok.owner, ?_⟩ (fun _ _ => Iff.rfl) (fun hd => absurd hd hdet)
    (fun _ => rfl) rfl h.clock_le
  · refine h.lists.keep (fun t ht => ?_) (fun t ht => ?_)
    · rw [hi] at ht
      obtain rfl := Option.some.inj ht
      exact hu
    · obtain rfl := Option.some.inj ht
      exact hu
  · rintro (hfree | hd)
    · exact absurd (hu.symm.trans hfree) (by simp)
    · exact absurd hd hdet

/-- The loaded answers are not part of the invariant. -/
lemma Inv.load (h : pc.Inv det) (env : PageEnv) : (pc.load env).Inv det :=
  h.of_spans h.lookup h.lists h.spanOk h.detached (fun _ => Iff.rfl) rfl
    (fun _ s hs _ => ⟨s, hs, rfl⟩) h.clock_le

/-! ## What a critical section does to the descriptors -/

/-- From `pc` to `pc'`, the caller gave up the span `rel` and received the span `acq`. Every
other used span is untouched, and a span that is free afterwards is untouched as well or was
put on its list in this section. -/
structure Evolves (pc pc' : PageCache) (rel acq : Option ℕ) : Prop where
  used_keep : ∀ j s, pc.spans j = some s → s.used = true → rel ≠ some j → pc'.spans j = some s
  used_from : ∀ j s, pc'.spans j = some s → s.used = true → acq ≠ some j → pc.spans j = some s
  free_from : ∀ j s, pc'.spans j = some s → s.used = false →
    pc.spans j = some s ∨
      (s.committed = true ∧ pc.clock ≤ s.lastUsedTimeMs ∧ s.lastUsedTimeMs ≤ pc'.clock)
  acq_fresh : ∀ j, acq = some j → ∀ s, pc.spans j = some s → s.used = false
  clock_le : pc.clock ≤ pc'.clock

/-- A section that changes no descriptor. -/
lemma Evolves.of_spans_eq {rel : Option ℕ} (h : pc'.spans = pc.spans)
    (hc : pc.clock ≤ pc'.clock) : Evolves pc pc' rel none where
  used_keep j s hs _ _ := by rw [h]; exact hs
  used_from j s hs _ _ := by rw [← h]; exact hs
  free_from j s hs _ := Or.inl (by rw [← h]; exact hs)
  acq_fresh j hj := by simp at hj
  clock_le := hc

/-- A section starts with loading its answers. -/
lemma Evolves.of_load {env : PageEnv} {rel acq : Option ℕ}
    (h : Evolves (pc.load env) pc' rel acq) : Evolves pc pc' rel acq :=
  ⟨h.used_keep, h.used_from, h.free_from, h.acq_fresh, h.clock_le⟩

/-- A part of a section that hands nothing over, followed by the rest of it. -/
lemma Evolves.trans {pc'' : PageCache} {rel acq : Option ℕ} (h : Evolves pc pc' none none)
    (h' : Evolves pc' pc'' rel acq) : Evolves pc pc'' rel acq where
  used_keep j s hs hu hr := h'.used_keep j s (h.used_keep j s hs hu (by simp)) hu hr
  used_from j s hs hu ha := h.used_from j s (h'.used_from j s hs hu ha) hu (by simp)
  free_from j s hs hu := by
    have h₁ := h.clock_le
    have h₂ := h'.clock_le
    rcases h'.free_from j s hs hu with hs' | ⟨hc, hlo, hhi⟩
    · rcases h.free_from j s hs' hu with hs'' | ⟨hc, hlo, hhi⟩
      · exact Or.inl hs''
      · exact Or.inr ⟨hc, hlo, by omega⟩
    · exact Or.inr ⟨hc, by omega, hhi⟩
  acq_fresh j hj s hs := by
    by_contra hu
    rw [Bool.not_eq_false] at hu
    have := h'.acq_fresh j hj s (h.used_keep j s hs hu (by simp))
    rw [hu] at this
    exact absurd this (by simp)
  clock_le := h.clock_le.trans h'.clock_le

end

end PageCache

end Ammalloc
