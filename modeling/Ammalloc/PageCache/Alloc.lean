import Ammalloc.PageCache.Invariant
import Ammalloc.PageCache.Outcome

set_option relaxedAutoImplicit false
set_option autoImplicit false

/-!
# `AllocSpan` keeps the representation invariant

One lemma for each outcome of `AllocSpanLocked` on shard 0.

## Main results

* `Ammalloc.PageCache.Outcome.post` — every outcome keeps the invariant.

* `Ammalloc.PageCache.allocSpan_spec` — `AllocSpan` returns, whatever its callees answer; it
  keeps the invariant, touches no used span, and its result is a fresh used span.
-/

namespace Ammalloc

namespace PageCache

variable {pc : PageCache} {det : List ℕ}

/-! ## The outcomes of `AllocSpanLocked` -/

/-- What `AllocSpan(n)` guarantees for its result `r`. -/
structure AllocPost (pc : PageCache) (det : List ℕ) (n : ℕ) (r : Option ℕ) (pc' : PageCache) :
    Prop where
  inv : pc'.Inv det
  evolves : Evolves pc pc' none r
  got : ∀ i, r = some i → ∃ s, pc'.spans i = some s ∧ s.used = true ∧ s.committed = true ∧
    s.pageNum = n ∧ Clean s

/-- A section that leaves everything but the radix nodes as it was. -/
lemma Inv.grows (h : pc.Inv det) {pm : PageMap} (hg : pc.pageMap.Grows pm) (env : PageEnv) :
    Inv { pc with pageMap := pm, env := env } det := by
  refine h.of_spans (fun q j => ?_) h.lists h.spanOk h.detached (fun q => ?_) rfl
    (fun i s hs _ => ⟨s, hs, rfl⟩) h.clock_le
  · rw [hg.getSpan]; exact h.lookup q j
  · rw [hg.getSpan]

/-- A fresh descriptor in a slot that was not live: the section hands it over. -/
lemma Evolves.insert_used {pc' : PageCache} {i : ℕ} {s : Span} (hi : pc.spans i = none)
    (hu : s.used = true) (hspans : pc'.spans = Function.update pc.spans i (some s))
    (hc : pc.clock ≤ pc'.clock) : Evolves pc pc' none (some i) where
  used_keep j t ht _ _ := by
    have hj : j ≠ i := by rintro rfl; rw [hi] at ht; exact absurd ht (by simp)
    rw [hspans, Function.update_of_ne hj]
    exact ht
  used_from j t ht _ ha := by
    have hj : j ≠ i := by rintro rfl; exact ha rfl
    rwa [hspans, Function.update_of_ne hj] at ht
  free_from j t ht hut := by
    rw [hspans] at ht
    by_cases hj : j = i
    · subst hj
      rw [Function.update_self] at ht
      obtain rfl := Option.some.inj ht
      rw [hu] at hut
      exact absurd hut (by simp)
    · rw [Function.update_of_ne hj] at ht
      exact Or.inl ht
  acq_fresh j hj t ht := by
    obtain rfl := Option.some.inj hj
    rw [hi] at ht
    exact absurd ht (by simp)
  clock_le := hc

/-- A failed attempt to map a fresh span. -/
lemma FreshFailed.post (h : pc.Inv det) {m n : ℕ} {evs : List SectionEvent} {pc' : PageCache}
    (hf : FreshFailed m pc evs pc') : AllocPost pc det n none pc' := by
  cases hf with
  | noMemory | noDescriptor =>
    exact ⟨h.grows (PageMap.Grows.refl _) _, Evolves.of_spans_eq rfl le_rfl, by simp⟩
  | noPath _ _ hg => exact ⟨h.grows hg _, Evolves.of_spans_eq rfl le_rfl, by simp⟩

/-- The oversized branch. -/
lemma Fresh.oversized_post (h : pc.Inv det) {i p n : ℕ} {pm₀ pm : PageMap}
    (hf : pc.Fresh i p n pm₀ pm) (hn : 0 < n) (env : PageEnv) :
    AllocPost pc det n (some i)
      { pc.store i (oversizedSpan p n) with
        pageMap := pm, mapped := ⟨p, n⟩ :: pc.mapped, env := env } := by
  refine ⟨?_, Evolves.insert_used hf.slot rfl rfl le_rfl, ?_⟩
  · refine h.insert (s := oversizedSpan p n) hf.slot ⟨hn, hf.mappable.1, rfl, ?_⟩ hf.mappable rfl ?_
      hf.lookup rfl h.clock_le
    · simp [oversizedSpan]
    · exact h.lists.keep (by simp [hf.slot])
        (by rintro t ht; obtain rfl := Option.some.inj ht; rfl)
  · rintro j hj
    obtain rfl := Option.some.inj hj
    exact ⟨oversizedSpan p n, by simp [store], rfl, rfl, rfl, rfl, rfl, rfl, rfl⟩

/-- The exact hit. -/
lemma taken_post (h : pc.Inv det) {n i : ℕ} {rest : List ℕ} {s : Span}
    (hl : pc.spanLists 0 n = i :: rest) (hlive : pc.spans i = some s) :
    AllocPost pc det n (some i) ((pc.setList 0 n rest).store i (taken s)) := by
  obtain ⟨s, hs, hu, hp, hclean, hdet⟩ := h.listed (n := n) (i := i) (by simp [hl])
  rw [hs] at hlive
  obtain rfl := Option.some.inj hlive
  set s' : Span := taken s with hs'
  have hok := h.spanOk i s hs
  refine ⟨?_, ?_, ?_⟩
  · refine h.of_store hs s' rfl rfl ?_ ⟨hok.pos, hok.start_pos, hok.owner, fun _ => ?_⟩
      (fun _ _ => Iff.rfl) (fun _ => rfl) (fun _ => rfl) rfl h.clock_le
    · have := h.lists.take hs s' rfl
      simpa [store, setList, hp, hl] using this
    · exact hok.free (Or.inl hu)
  · refine ⟨fun j t ht hut _ => ?_, fun j t ht _ ha => ?_, fun j t ht hut => ?_, ?_, le_rfl⟩
    · have hj : j ≠ i := by
        rintro rfl
        rw [hs] at ht
        obtain rfl := Option.some.inj ht
        rw [hu] at hut
        exact absurd hut (by simp)
      simpa [store, setList, hj] using ht
    · have hj : j ≠ i := by rintro rfl; exact ha rfl
      simpa [store, setList, hj] using ht
    · by_cases hj : j = i
      · subst hj
        simp only [store, Function.update_self, Option.some.injEq] at ht
        rw [← ht] at hut
        exact absurd hut (by simp [hs', taken])
      · exact Or.inl (by simpa [store, setList, hj] using ht)
    · intro j hj t ht
      obtain rfl := Option.some.inj hj
      rw [hs] at ht
      obtain rfl := Option.some.inj ht
      exact hu
  · rintro j hj
    obtain rfl := Option.some.inj hj
    exact ⟨s', by simp [store], rfl, rfl, hp, hclean⟩

/-- The refill. -/
lemma Refilled.inv (h : pc.Inv det) {i p : ℕ} {pm₀ : PageMap} {pc' : PageCache}
    (hr : Refilled 0 pc i p pm₀ pc') : pc'.Inv det ∧ Evolves pc pc' none none := by
  obtain @⟨now, pm, env, fresh, hlo, hhi⟩ := hr
  have hi := fresh.slot
  constructor
  · refine h.insert (s := refillSpan p now) hi
      ⟨show 0 < maxPageNum by decide, fresh.mappable.1, rfl, fun _ => ⟨le_rfl, ?_⟩⟩
      fresh.mappable rfl ?_ fresh.lookup rfl hhi
    · simp [Clean, refillSpan]
    · have := h.lists.put i (refillSpan p now) (by simp [hi]) rfl (List.Perm.refl _)
      simpa [store, pushFront, setList, refillSpan] using this
  · refine ⟨fun j t ht _ _ => ?_, fun j t ht hut _ => ?_, fun j t ht hut => ?_, by simp, hlo⟩
    · have hj : j ≠ i := by rintro rfl; rw [hi] at ht; exact absurd ht (by simp)
      simpa [store, pushFront, setList, hj] using ht
    · by_cases hj : j = i
      · subst hj
        simp only [store, pushFront, setList, Function.update_self, Option.some.injEq] at ht
        rw [← ht] at hut
        exact absurd hut (by simp [refillSpan])
      · simpa [store, pushFront, setList, hj] using ht
    · by_cases hj : j = i
      · subst hj
        simp only [store, pushFront, setList, Function.update_self, Option.some.injEq] at ht
        rw [← ht]
        exact Or.inr ⟨rfl, hlo, le_rfl⟩
      · exact Or.inl (by simpa [store, pushFront, setList, hj] using ht)

/-- The lookups after a split: the low pages go to `small`, and rewriting the leaves of the
remainder changes nothing. -/
lemma split_indexes (h : pc.Inv det) {n small big : ℕ} {b s : Span}
    (hb : pc.spans big = some b) (hsmall : pc.spans small = none) (b' : Span) (pm : PageMap)
    (hn : n < b.pageNum) (hs : s.extent = ⟨b.startPageIdx, n⟩)
    (hb' : b'.extent = ⟨b.startPageIdx + n, b.pageNum - n⟩)
    (hget : ∀ q, pm.getSpan q = if b'.extent.Contains q then some big
      else if s.extent.Contains q then some small else pc.pageMap.getSpan q) :
    ExtentMap.Indexes pm.getSpan (fun j => (Function.update (Function.update pc.spans small
      (some s)) big (some b') j).map Span.extent) := by
  have hne : big ≠ small := by rintro rfl; rw [hb] at hsmall; exact absurd hsmall (by simp)
  have hlk : ∀ q, pm.getSpan q =
      if s.extent.Contains q then some small else pc.pageMap.getSpan q := by
    intro q
    rw [hget q]
    by_cases hq : b'.extent.Contains q
    · have hlow : ¬ s.extent.Contains q := by
        rw [hs]
        rw [hb'] at hq
        unfold Extent.Contains at hq ⊢
        dsimp only at hq ⊢
        omega
      rw [if_pos hq, if_neg hlow]
      refine ((h.getSpan_iff q big).mpr ⟨b, hb, ?_⟩).symm
      rw [hb'] at hq
      unfold Extent.Contains at hq
      dsimp only at hq
      exact ⟨by omega, by omega⟩
    · rw [if_neg hq]
  refine h.lookup.write hlk (by simp [Ne.symm hne]) (by simp [extents, hsmall]) ?_
  intro j hj q
  by_cases hjb : j = big
  · subst hjb
    simp only [Function.update_self, Option.map_some, extents, hb, Option.some.injEq,
      exists_eq_left', hs, hb']
    unfold Span.extent Extent.Contains
    dsimp only
    omega
  · simp only [Function.update_of_ne hjb, Function.update_of_ne hj]
    refine ⟨fun hf => ⟨hf, fun hq => ?_⟩, And.left⟩
    obtain ⟨f, hf, hfq⟩ := hf
    refine h.lookup.disjoint (i := big) (j := j) (Ne.symm hjb) (e := b.extent) (f := f)
      (by simp [extents, hb]) hf ?_ hfq
    rw [hs] at hq
    unfold Extent.Contains at hq
    dsimp only at hq
    exact ⟨hq.1, by simp only [Span.extent]; omega⟩

/-- The descriptors after a split: the remainder, the low part, and those that nobody touched. -/
lemma split_spans_cases {small big j : ℕ} {s b' t : Span}
    (ht : Function.update (Function.update pc.spans small (some s)) big (some b') j = some t) :
    (j = big ∧ t = b') ∨ (j = small ∧ t = s) ∨ (j ≠ big ∧ j ≠ small ∧ pc.spans j = some t) := by
  by_cases hjb : j = big
  · subst hjb
    rw [Function.update_self] at ht
    exact Or.inl ⟨rfl, (Option.some.inj ht).symm⟩
  · rw [Function.update_of_ne hjb] at ht
    by_cases hjs : j = small
    · subst hjs
      rw [Function.update_self] at ht
      exact Or.inr (Or.inl ⟨rfl, (Option.some.inj ht).symm⟩)
    · rw [Function.update_of_ne hjs] at ht
      exact Or.inr (Or.inr ⟨hjb, hjs, ht⟩)

/-- The lists after a split: `big` is taken, the low part is in none, the remainder is put. -/
lemma split_lists (h : pc.Inv det) {n m small big : ℕ} {rest : List ℕ} {b s b' : Span}
    (hb : pc.spans big = some b) (hsmall : pc.spans small = none)
    (hl : pc.spanLists 0 m = big :: rest) (hp : b.pageNum = m) (hs : s.used = true)
    (hb' : b'.used = false) (hnum : b'.pageNum = b.pageNum - n) :
    ListsOk (Function.update (Function.update pc.spans small (some s)) big (some b'))
      (Function.update (Function.update (pc.spanLists 0) m rest) (b.pageNum - n)
        (big :: Function.update (pc.spanLists 0) m rest (b.pageNum - n))) := by
  have hne : big ≠ small := by rintro rfl; rw [hb] at hsmall; exact absurd hsmall (by simp)
  have h₁ := h.lists.take hb { b with used := true } rfl
  have h₂ := h₁.keep (i := small) (v := some s)
    (by rw [Function.update_of_ne (Ne.symm hne)]; simp [hsmall])
    (by rintro t ht; obtain rfl := Option.some.inj ht; exact hs)
  have h₃ := h₂.put big b'
    (by
      intro t ht
      rw [Function.update_of_ne hne, Function.update_self] at ht
      obtain rfl := Option.some.inj ht
      rfl) hb' (List.Perm.refl _)
  rw [Function.update_comm hne, Function.update_idem] at h₃
  simpa [hp, hl, hnum] using h₃

/-- A split maps no page and unmaps none. -/
lemma split_mapped (h : pc.Inv det) {n now small big : ℕ} {b : Span} {pm : PageMap}
    (hb : pc.spans big = some b) (hn : n < b.pageNum)
    (hget : ∀ q, pm.getSpan q = if (highPart b n now).extent.Contains q then some big
      else if (lowPart b n).extent.Contains q then some small else pc.pageMap.getSpan q) (q : ℕ) :
    (∃ j, pm.getSpan q = some j) ↔ ∃ j, pc.pageMap.getSpan q = some j := by
  have hbig : b.Covers q → ∃ j, pc.pageMap.getSpan q = some j :=
    fun hq => ⟨big, (h.getSpan_iff q big).mpr ⟨b, hb, hq⟩⟩
  rw [hget q]
  split
  · rename_i hq
    refine ⟨fun _ => hbig ?_, fun _ => ⟨big, rfl⟩⟩
    obtain ⟨h₁, h₂⟩ := hq
    simp only [Span.extent, highPart] at h₁ h₂
    exact ⟨by omega, by omega⟩
  · split
    · rename_i hq
      refine ⟨fun _ => hbig ?_, fun _ => ⟨small, rfl⟩⟩
      have h₂ := hq.2
      simp only [Span.extent, lowPart] at h₂
      exact ⟨hq.1, by omega⟩
    · exact Iff.rfl

/-- The split. -/
lemma split_post (h : pc.Inv det) {n m big small now : ℕ} {rest : List ℕ} {b : Span}
    {pm : PageMap} {env : PageEnv} (hn : 0 < n) (hnm : n < m)
    (hl : pc.spanLists 0 m = big :: rest) (hlive : pc.spans big = some b)
    (hsmall : pc.spans small = none) (hlo : pc.clock ≤ now) (hhi : now ≤ sizeMax)
    (hget : ∀ q, pm.getSpan q = if (highPart b n now).extent.Contains q then some big
      else if (lowPart b n).extent.Contains q then some small else pc.pageMap.getSpan q) :
    AllocPost pc det n (some small)
      { (((pc.setList 0 m rest).store small (lowPart b n)).store big
          (highPart b n now)).pushFront 0 (b.pageNum - n) big with
        pageMap := pm, clock := now, env := env } := by
  obtain ⟨b, hb, hu, hp, hclean, hdet⟩ := h.listed (n := m) (i := big) (by simp [hl])
  rw [hb] at hlive
  obtain rfl := Option.some.inj hlive
  have hok := h.spanOk big b hb
  have hmax := (hok.free (Or.inl hu)).1
  have hne : big ≠ small := by rintro rfl; rw [hb] at hsmall; exact absurd hsmall (by simp)
  set s : Span := lowPart b n with hs
  set b' : Span := highPart b n now with hb'
  set pc₂ : PageCache := (((pc.setList 0 m rest).store small s).store big b').pushFront 0
    (b.pageNum - n) big with hpc₂
  have hspans : pc₂.spans =
      Function.update (Function.update pc.spans small (some s)) big (some b') := by
    simp only [hpc₂, pushFront, store, setList]
  have hlists : pc₂.spanLists 0 = Function.update (Function.update (pc.spanLists 0) m rest)
      (b.pageNum - n) (big :: Function.update (pc.spanLists 0) m rest (b.pageNum - n)) := by
    simp [hpc₂, pushFront, store, setList]
  have hcases : ∀ j t, pc₂.spans j = some t → (j = big ∧ t = b') ∨ (j = small ∧ t = s) ∨
      (j ≠ big ∧ j ≠ small ∧ pc.spans j = some t) :=
    fun j t ht => split_spans_cases (hspans ▸ ht)
  have hkeep : ∀ j t, j ≠ big → pc.spans j = some t → pc₂.spans j = some t := by
    intro j t hjb ht
    have hjs : j ≠ small := by rintro rfl; rw [hsmall] at ht; exact absurd ht (by simp)
    rw [hspans, Function.update_of_ne hjb, Function.update_of_ne hjs, ht]
  refine ⟨?_, ?_, ?_⟩
  · refine h.of_spans ?_ ?_ (fun j t ht => ?_) (fun j hj => ?_)
      (split_mapped h hb (by omega) hget) rfl (fun j t ht hbig => ?_) hhi
    · have := split_indexes h hb hsmall (n := n) (s := s) b' pm (by omega) rfl rfl hget
      show ExtentMap.Indexes pm.getSpan fun j => (pc₂.spans j).map Span.extent
      rwa [hspans]
    · show ListsOk pc₂.spans (pc₂.spanLists 0)
      rw [hspans, hlists]
      exact split_lists h hb hsmall hl hp rfl rfl rfl
    · rcases hcases j t ht with ⟨rfl, rfl⟩ | ⟨rfl, rfl⟩ | ⟨-, -, ht⟩
      · exact ⟨by simp only [hb', highPart]; omega, by simp only [hb', highPart]; omega, hok.owner,
          fun _ => ⟨by simp only [hb', highPart]; omega, hclean⟩⟩
      · exact ⟨hn, hok.start_pos, hok.owner,
          fun _ => ⟨by simp only [hs, lowPart]; omega, by simp [Clean, hs, lowPart]⟩⟩
      · exact h.spanOk j t ht
    · obtain ⟨t, ht, hut⟩ := h.detached j hj
      exact ⟨t, hkeep j t (fun he => hdet (he ▸ hj)) ht, hut⟩
    · rcases hcases j t ht with ⟨rfl, rfl⟩ | ⟨rfl, rfl⟩ | ⟨-, -, ht⟩
      · simp only [hb', highPart] at hbig
        omega
      · simp only [hs, lowPart] at hbig
        omega
      · exact ⟨t, ht, rfl⟩
  · refine ⟨fun j t ht hut _ => ?_, fun j t ht hut ha => ?_, fun j t ht hut => ?_, ?_, hlo⟩
    · refine hkeep j t ?_ ht
      rintro rfl
      rw [hb] at ht
      obtain rfl := Option.some.inj ht
      rw [hu] at hut
      exact absurd hut (by simp)
    · rcases hcases j t ht with ⟨rfl, rfl⟩ | ⟨rfl, rfl⟩ | ⟨-, -, ht⟩
      · exact absurd hut (by simp [hb', highPart])
      · exact absurd rfl ha
      · exact ht
    · rcases hcases j t ht with ⟨rfl, rfl⟩ | ⟨rfl, rfl⟩ | ⟨-, -, ht⟩
      · exact Or.inr ⟨rfl, hlo, le_rfl⟩
      · exact absurd hut (by simp [hs, lowPart])
      · exact Or.inl ht
    · intro j hj t ht
      obtain rfl := Option.some.inj hj
      rw [hsmall] at ht
      exact absurd ht (by simp)
  · rintro j hj
    obtain rfl := Option.some.inj hj
    refine ⟨s, ?_, rfl, rfl, rfl, by simp [Clean, hs, lowPart]⟩
    show pc₂.spans small = some s
    rw [hspans, Function.update_of_ne (Ne.symm hne), Function.update_self]

/-! ## The entry point -/

/-- A pass that finds a bucket. -/
lemma Cut.post (h : pc.Inv det) {n : ℕ} (hn : 0 < n) {evs : List SectionEvent} {r : Option ℕ}
    {pc' : PageCache} (hc : Cut 0 n pc evs r pc') : AllocPost pc det n r pc' := by
  cases hc with
  | exact hlist hlive => exact taken_post h hlist hlive
  | noDescriptor =>
    exact ⟨h.grows (PageMap.Grows.refl _) _, Evolves.of_spans_eq rfl le_rfl, by simp⟩
  | split _ hfirst hbig hlive hpool hlo hhi _ hget =>
    exact split_post h hn (firstLarger_eq_some hfirst).1 hbig hlive hpool.2 hlo hhi hget

/-- **Every outcome** keeps the invariant and touches no used span, and the result is a fresh used
span of the requested length. -/
lemma Outcome.post (h : pc.Inv det) {n : ℕ} {evs : List SectionEvent} {r : Option ℕ}
    {pc' : PageCache} (ho : Outcome 0 n pc evs r pc') : AllocPost pc det n r pc' := by
  cases ho with
  | rejected => exact ⟨h, Evolves.of_spans_eq rfl le_rfl, by simp⟩
  | oversizedFailed _ hf => exact hf.post h
  | oversized hbig hf => exact hf.oversized_post h (by omega) _
  | found hn _ _ hc => exact hc.post h hn
  | refillFailed _ _ _ _ hf => exact hf.post h
  | refilled hn _ _ _ hr hc =>
    obtain ⟨hinv, hev⟩ := hr.inv h
    have hpost := hc.post hinv hn
    exact ⟨hpost.inv, hev.trans hpost.evolves, hpost.got⟩

/-- The listed spans are live. -/
lemma Inv.listed_zero (h : pc.Inv det) : pc.Listed 0 := by
  intro n i hi
  obtain ⟨s, hs, -, hp, -⟩ := h.listed hi
  exact ⟨s, hs, hp, fun q hq => h.hasPath hs hq⟩

/-- The owner of every span is shard 0 already, so the last write of `AllocSpan` changes nothing. -/
lemma allocSpan_eq_allocSpanLocked (h : pc.Inv det) (n : ℕ) :
    pc.allocSpan n = pc.allocSpanLocked 0 n := by
  obtain ⟨evs, r, pc', hrun, ho, -⟩ := allocSpanLocked_outcome h.listed_zero h.clock_le n
  have hpost := ho.post h
  unfold allocSpan selectShardForAlloc
  dsimp only
  rw [hrun]
  cases r with
  | none => rfl
  | some i =>
    obtain ⟨s, hs, -⟩ := hpost.got i rfl
    have hsame : pc'.store i { s with ownerShardId := 0 } = pc' := by
      have howner : { s with ownerShardId := 0 } = s := by
        rw [← (hpost.inv.spanOk i s hs).owner]
      rw [howner, store, ← hs, Function.update_eq_self]
    simp only [bind, Except.bind, deref, hs, hsame]
    rfl

/-- **`AllocSpan` has one of the outcomes.** -/
theorem allocSpan_outcome (h : pc.Inv det) (n : ℕ) :
    ∃ evs r pc', pc.allocSpan n = .ok (r, pc') ∧ Outcome 0 n pc evs r pc' ∧
      Logs pc.env evs pc'.env ∧ AllocPost pc det n r pc' := by
  obtain ⟨evs, r, pc', hrun, ho, hlog⟩ := allocSpanLocked_outcome h.listed_zero h.clock_le n
  exact ⟨evs, r, pc', (allocSpan_eq_allocSpanLocked h n).trans hrun, ho, hlog, ho.post h⟩

/-- **`AllocSpan` returns** for every page count and every pattern of failures, keeps the
invariant, touches no used span, and returns a fresh used span of the requested length. -/
theorem allocSpan_spec (h : pc.Inv det) (n : ℕ) :
    ∃ r pc', pc.allocSpan n = .ok (r, pc') ∧ AllocPost pc det n r pc' := by
  obtain ⟨-, r, pc', hrun, -, -, hpost⟩ := allocSpan_outcome h n
  exact ⟨r, pc', hrun, hpost⟩

end PageCache

end Ammalloc
