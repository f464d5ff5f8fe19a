import Ammalloc.PageCache.Release

set_option relaxedAutoImplicit false
set_option autoImplicit false

/-!
# Several shards

`SelectShardForAlloc` answers 0, so only shard 0 is ever used. Here `AllocSpan` may choose any
shard. A shard sees the page cache as if it were alone: it takes the spans of the other shards for
used ones, and its own list array for the only one. In this view an operation on shard `k` is the
operation on shard 0, so what is known of a single shard can be used for each of them.

The view of shard `k` commutes with every branch but one. The refill writes
`owner_shard_id = 0` and links the span in the lists of shard `k`.

## Main definitions

* `Ammalloc.PageCache.allocSpanOn` — `AllocSpan` with a given shard.
* `Ammalloc.PageCache.view` — the page cache as a shard sees it.
* `Ammalloc.PageCache.ShardLocal` — what an operation leaves alone.
* `Ammalloc.PageCache.RefillFits` — the refill leaves nothing behind in another shard.

## Main results

* `Ammalloc.PageCache.allocSpanOn_spec`, `Ammalloc.PageCache.releaseSpan_shard`.
* `Ammalloc.PageCache.allocSpanOn_misowned` — what happens otherwise.
-/

namespace Ammalloc

/-- `PageCache::kMaxShardCount`. -/
def kMaxShardCount : ℕ := 4

namespace PageCache

/-- `PageCache::AllocSpan` when `SelectShardForAlloc` answers `k`. -/
def allocSpanOn (pc : PageCache) (k n : ℕ) : Except Fault (Option ℕ × PageCache) := do
  match ← pc.allocSpanLocked k n with
  | (none, pc) => return (none, pc)
  | (some i, pc) =>
    let s ← pc.deref i
    return (some i, pc.store i { s with ownerShardId := k })

/-- The source's `AllocSpan` is this one with its own choice. -/
lemma allocSpan_eq_allocSpanOn (pc : PageCache) (n : ℕ) :
    pc.allocSpan n = pc.allocSpanOn (selectShardForAlloc n) n := rfl

/-! ## The view of a shard -/

/-- A descriptor as shard `k` sees it. -/
def seenBy (k : ℕ) (s : Span) : Span :=
  { s with used := s.used || s.ownerShardId != k, ownerShardId := 0 }

/-- The page cache as shard `k` sees it. -/
def view (k : ℕ) (pc : PageCache) : PageCache :=
  { pc with
    spans := fun i => (pc.spans i).map (seenBy k)
    spanLists := Function.update (fun _ _ => []) 0 (pc.spanLists k) }

variable {pc pc' : PageCache} {k n i : ℕ} {s : Span}

/-- A shard sees its own spans as they are. -/
lemma seenBy_used (h : s.ownerShardId = k) : (seenBy k s).used = s.used := by
  simp [seenBy, h]

/-- A shard takes exactly its own unused spans for unused. -/
lemma seenBy_used_eq_false : (seenBy k s).used = false ↔ s.used = false ∧ s.ownerShardId = k := by
  simp [seenBy]

@[simp] lemma view_spanLists (k : ℕ) (pc : PageCache) :
    (view k pc).spanLists 0 = pc.spanLists k := by
  simp [view]

/-- A live span in the view. -/
lemma view_spans_eq_some {v : Span} :
    (view k pc).spans i = some v ↔ ∃ s, pc.spans i = some s ∧ seenBy k s = v :=
  Option.map_eq_some_iff

/-- Every shard sees the same slots of the pool. -/
lemma view_spans_eq_none : (view k pc).spans i = none ↔ pc.spans i = none :=
  Option.map_eq_none_iff

@[simp] lemma view_store (k : ℕ) (pc : PageCache) (i : ℕ) (s : Span) :
    view k (pc.store i s) = (view k pc).store i (seenBy k s) := by
  simp only [view, store, PageCache.mk.injEq, and_true]
  funext j
  by_cases hj : j = i
  · subst hj
    simp
  · simp [hj]

@[simp] lemma view_setList (k : ℕ) (pc : PageCache) (n : ℕ) (l : List ℕ) :
    view k (pc.setList k n l) = (view k pc).setList 0 n l := by
  simp [view, setList]

@[simp] lemma view_pushFront (k : ℕ) (pc : PageCache) (n i : ℕ) :
    view k (pc.pushFront k n i) = (view k pc).pushFront 0 n i := by
  simp [pushFront]

/-- The members of the buckets of shard `k`. -/
lemma mem_spanLists_iff {det : List ℕ} (h : (view k pc).Inv det) :
    i ∈ pc.spanLists k n ↔
      ∃ s, pc.spans i = some s ∧ s.used = false ∧ s.ownerShardId = k ∧ s.pageNum = n := by
  rw [← view_spanLists k pc, h.lists.mem]
  constructor
  · rintro ⟨v, hv, hu, hp⟩
    obtain ⟨s, hs, rfl⟩ := view_spans_eq_some.mp hv
    obtain ⟨hus, ho⟩ := seenBy_used_eq_false.mp hu
    exact ⟨s, hs, hus, ho, hp⟩
  · rintro ⟨s, hs, hu, ho, hp⟩
    exact ⟨seenBy k s, view_spans_eq_some.mpr ⟨s, hs, rfl⟩, seenBy_used_eq_false.mpr ⟨hu, ho⟩, hp⟩

/-- The listed spans of shard `k` are live. -/
lemma listed_of_view {det : List ℕ} (h : (view k pc).Inv det) : pc.Listed k := by
  intro n i hi
  obtain ⟨v, hv, hp, hpath⟩ := h.listed_zero n i (by rwa [view_spanLists])
  obtain ⟨s, hs, rfl⟩ := view_spans_eq_some.mp hv
  exact ⟨s, hs, hp, hpath⟩

/-- The owner of a listed span. -/
lemma owner_of_mem {det : List ℕ} (h : (view k pc).Inv det) (hi : i ∈ pc.spanLists k n)
    (hs : pc.spans i = some s) : s.used = false ∧ s.ownerShardId = k := by
  obtain ⟨t, ht, hu, ho, -⟩ := (mem_spanLists_iff h).mp hi
  rw [hs] at ht
  obtain rfl := Option.some.inj ht
  exact ⟨hu, ho⟩

/-! ## What an operation on a shard leaves alone -/

/-- From `pc` to `pc'` an operation on shard `k` took back the span `rel` and handed out `acq`.
It touched no other shard's lists, and no descriptor but `rel`, `acq` and the free ones of
shard `k`. -/
structure ShardLocal (k : ℕ) (pc pc' : PageCache) (rel acq : Option ℕ) : Prop where
  lists : ∀ j, j ≠ k → pc'.spanLists j = pc.spanLists j
  keep : ∀ i s, pc.spans i = some s → s.used = true ∨ s.ownerShardId ≠ k → rel ≠ some i →
    pc'.spans i = some s
  back : ∀ i s, pc'.spans i = some s → s.used = true ∨ s.ownerShardId ≠ k → acq ≠ some i →
    pc.spans i = some s

/-- A step that touches neither spans nor lists is local to every shard. -/
lemma ShardLocal.of_eq (hspans : pc'.spans = pc.spans) (hlists : pc'.spanLists = pc.spanLists) :
    ShardLocal k pc pc' none none :=
  ⟨fun _ _ => by rw [hlists], fun _ _ hs _ _ => by rw [hspans]; exact hs,
    fun _ _ hs _ _ => by rw [← hspans]; exact hs⟩

/-- Two steps that are local to a shard are so together. -/
lemma ShardLocal.trans {pc₁ : PageCache} {acq : Option ℕ} (h : ShardLocal k pc pc₁ none none)
    (h' : ShardLocal k pc₁ pc' none acq) : ShardLocal k pc pc' none acq where
  lists j hj := (h'.lists j hj).trans (h.lists j hj)
  keep i s hs hf hr := h'.keep i s (h.keep i s hs hf hr) hf hr
  back i s hs hf ha := h.back i s (h'.back i s hs hf ha) hf (by simp)

/-- A new descriptor is handed out. -/
lemma ShardLocal.insert {t : Span} (hi : pc.spans i = none)
    (hspans : pc'.spans = Function.update pc.spans i (some t))
    (hlists : ∀ j, j ≠ k → pc'.spanLists j = pc.spanLists j) :
    ShardLocal k pc pc' none (some i) where
  lists := hlists
  keep j s hs _ _ := by
    have hj : j ≠ i := by rintro rfl; rw [hi] at hs; exact absurd hs (by simp)
    rw [hspans, Function.update_of_ne hj]
    exact hs
  back j s hs _ ha := by
    have hj : j ≠ i := by rintro rfl; exact ha rfl
    rwa [hspans, Function.update_of_ne hj] at hs

/-- **The invariant of the other shards**: what shard `j` sees of an operation on shard `k` are
changes of ranges that it takes for used. -/
lemma ShardLocal.inv {rel acq : Option ℕ} {j : ℕ} (hl : ShardLocal k pc pc' rel acq) (hj : j ≠ k)
    (hrel : ∀ i s, rel = some i → pc.spans i = some s → s.used = true)
    (hacq : ∀ i s, acq = some i → pc'.spans i = some s → s.used = true)
    (h : (view j pc).Inv []) (hk : (view k pc').Inv []) : (view j pc').Inv [] := by
  -- a span that shard `j` takes for unused is the same before and after
  have hsame : ∀ i s, s.used = false → s.ownerShardId = j →
      (pc'.spans i = some s ↔ pc.spans i = some s) := by
    intro i s hu ho
    have hne : s.ownerShardId ≠ k := by rw [ho]; exact hj
    constructor
    · intro hs
      refine hl.back i s hs (Or.inr hne) fun ha => ?_
      have := hacq i s ha hs
      rw [hu] at this
      exact absurd this (by simp)
    · intro hs
      refine hl.keep i s hs (Or.inr hne) fun hr => ?_
      have := hrel i s hr hs
      rw [hu] at this
      exact absurd this (by simp)
  have hext : (view j pc').extents = (view k pc').extents := by
    funext i
    simp only [extents, view, Option.map_map]
    rfl
  constructor
  · rw [hext]
    exact hk.lookup
  · refine ⟨fun n i => ?_, fun n => ?_⟩
    · rw [view_spanLists, hl.lists j hj, mem_spanLists_iff h]
      constructor
      · rintro ⟨s, hs, hu, ho, hp⟩
        exact ⟨seenBy j s, view_spans_eq_some.mpr ⟨s, (hsame i s hu ho).mpr hs, rfl⟩,
          seenBy_used_eq_false.mpr ⟨hu, ho⟩, hp⟩
      · rintro ⟨v, hv, hu, hp⟩
        obtain ⟨s, hs, rfl⟩ := view_spans_eq_some.mp hv
        obtain ⟨hus, ho⟩ := seenBy_used_eq_false.mp hu
        exact ⟨s, (hsame i s hus ho).mp hs, hus, ho, hp⟩
    · rw [view_spanLists, hl.lists j hj, ← view_spanLists j pc]
      exact h.lists.nodup n
  · intro i v hv
    obtain ⟨s, hs, rfl⟩ := view_spans_eq_some.mp hv
    have hok := hk.spanOk i (seenBy k s) (view_spans_eq_some.mpr ⟨s, hs, rfl⟩)
    refine ⟨hok.pos, hok.start_pos, rfl, fun hfree => ?_⟩
    have hu : (seenBy j s).used = false := by simpa using hfree
    obtain ⟨hus, ho⟩ := seenBy_used_eq_false.mp hu
    have hold : (view j pc).spans i = some (seenBy j s) :=
      view_spans_eq_some.mpr ⟨s, (hsame i s hus ho).mp hs, rfl⟩
    exact (h.spanOk i (seenBy j s) hold).free (Or.inl hu)
  · simp
  · exact hk.mapped
  · exact hk.mapped_disjoint
  · intro i v hv hbig
    obtain ⟨s, hs, rfl⟩ := view_spans_eq_some.mp hv
    exact hk.oversized i (seenBy k s) (view_spans_eq_some.mpr ⟨s, hs, rfl⟩) hbig
  · exact hk.clock_le

/-- Owners do not change: an operation on shard `k` takes spans from and gives spans to this shard
only. -/
lemma ShardLocal.owner_eq {rel acq : Option ℕ} {t : Span} (hl : ShardLocal k pc pc' rel acq)
    (hrel : ∀ i s, rel = some i → pc.spans i = some s → s.ownerShardId = k)
    (hacq : ∀ i s, acq = some i → pc'.spans i = some s → s.ownerShardId = k)
    (hs : pc.spans i = some s) (ht : pc'.spans i = some t) : t.ownerShardId = s.ownerShardId := by
  by_cases hold : (s.used = true ∨ s.ownerShardId ≠ k) ∧ rel ≠ some i
  · have := hl.keep i s hs hold.1 hold.2
    rw [ht] at this
    rw [Option.some.inj this]
  by_cases hnew : (t.used = true ∨ t.ownerShardId ≠ k) ∧ acq ≠ some i
  · have := hl.back i t ht hnew.1 hnew.2
    rw [hs] at this
    rw [Option.some.inj this]
  -- otherwise both owners are `k`
  have hsk : s.ownerShardId = k := by
    by_contra hne
    exact hold ⟨Or.inr hne, fun hr => hne (hrel i s hr hs)⟩
  have htk : t.ownerShardId = k := by
    by_contra hne
    exact hnew ⟨Or.inr hne, fun ha => hne (hacq i t ha ht)⟩
  rw [hsk, htk]

/-! ## Allocation -/

/-- What `AllocSpan` on shard `k` guarantees. -/
structure ShardPost (k : ℕ) (pc : PageCache) (r : Option ℕ) (pc' : PageCache) : Prop where
  inv : (view k pc').Inv []
  shardLocal : ShardLocal k pc pc' none r
  got : ∀ i, r = some i → ∃ s, pc'.spans i = some s ∧ s.used = true ∧ s.ownerShardId = k
  fresh : ∀ i s, r = some i → pc.spans i = some s → s.used = false

/-- The last write of `AllocSpan`. -/
def writeOwner (k : ℕ) (pc : PageCache) : Option ℕ → PageCache
  | none => pc
  | some i => { pc with
      spans := Function.update pc.spans i ((pc.spans i).map fun s => { s with ownerShardId := k }) }

/-- `AllocSpan` is `AllocSpanLocked` and the last write. -/
lemma allocSpanOn_eq {r : Option ℕ} (hrun : pc.allocSpanLocked k n = .ok (r, pc'))
    (hlive : ∀ i, r = some i → ∃ s, pc'.spans i = some s) :
    pc.allocSpanOn k n = .ok (r, writeOwner k pc' r) := by
  unfold allocSpanOn
  rw [hrun]
  cases r with
  | none => rfl
  | some i =>
    obtain ⟨s, hs⟩ := hlive i rfl
    simp only [bind, Except.bind, deref, hs, writeOwner, Option.map_some]
    rfl

/-- The last write changes nothing if the owner is right. -/
lemma writeOwner_eq_self (hs : pc.spans i = some s) (ho : s.ownerShardId = k) :
    writeOwner k pc (some i) = pc := by
  have hself : { s with ownerShardId := k } = s := by rw [← ho]
  simp only [writeOwner, hs, Option.map_some, hself]
  rw [← hs, Function.update_eq_self]

/-- A failed attempt to map a span. -/
lemma FreshFailed.shardPost {m : ℕ} {evs : List SectionEvent} (h : (view k pc).Inv [])
    (hf : FreshFailed m pc evs pc') : ShardPost k pc none pc' := by
  have hview : FreshFailed m (view k pc) evs (view k pc') := by
    cases hf with
    | noMemory => exact .noMemory
    | noDescriptor mappable => exact .noDescriptor mappable
    | noPath slot mappable grows => exact .noPath (view_spans_eq_none.mpr slot) mappable grows
  refine ⟨(hview.post (n := m) h).inv, ?_, by simp, by simp⟩
  cases hf with
  | noMemory | noDescriptor | noPath => exact .of_eq rfl rfl

/-- A fresh slot and a fresh mapping are fresh for every shard. -/
lemma Fresh.view {p : ℕ} {pm₀ pm : PageMap} (h : pc.Fresh i p n pm₀ pm) :
    (view k pc).Fresh i p n pm₀ pm :=
  ⟨view_spans_eq_none.mpr h.slot, h.mappable, h.ensured, h.lookup, h.path⟩

/-- The oversized branch: the last write corrects the owner. -/
lemma Fresh.oversized_shardPost (h : (PageCache.view k pc).Inv []) {p : ℕ} {pm₀ pm : PageMap}
    (hf : pc.Fresh i p n pm₀ pm) (hn : 0 < n) (env : PageEnv) :
    ShardPost k pc (some i) (writeOwner k { pc.store i (oversizedSpan p n) with
      pageMap := pm, mapped := ⟨p, n⟩ :: pc.mapped, env := env } (some i)) := by
  set t : Span := { oversizedSpan p n with ownerShardId := k } with ht
  have hstate : writeOwner k { pc.store i (oversizedSpan p n) with
      pageMap := pm, mapped := ⟨p, n⟩ :: pc.mapped, env := env } (some i) =
      { pc.store i t with pageMap := pm, mapped := ⟨p, n⟩ :: pc.mapped, env := env } := by
    simp [writeOwner, store, ht]
  rw [hstate]
  refine ⟨?_, .insert hf.slot rfl fun _ _ => rfl, ?_, ?_⟩
  · have hpost := (hf.view (k := k)).oversized_post h hn env
    have hseen : seenBy k t = oversizedSpan p n := by simp [seenBy, ht, oversizedSpan]
    rw [← hseen, ← view_store] at hpost
    exact hpost.inv
  · rintro j hj
    obtain rfl := Option.some.inj hj
    exact ⟨t, by simp [store], rfl, rfl⟩
  · rintro j s hj hs
    obtain rfl := Option.some.inj hj
    rw [hf.slot] at hs
    exact absurd hs (by simp)

/-- **A pass that finds a bucket.** The spans of the buckets of shard `k` are owned by it, and so
are the pieces of a split. -/
lemma Cut.shardPost (h : (view k pc).Inv []) (hn : 0 < n) {evs : List SectionEvent} {r : Option ℕ}
    (hc : Cut k n pc evs r pc') : ShardPost k pc r (writeOwner k pc' r) := by
  cases hc with
  | @exact i rest s list live =>
    obtain ⟨hu, ho⟩ := owner_of_mem h (n := n) (by simp [list]) live
    have hlive' : ((pc.setList k n rest).store i (taken s)).spans i = some (taken s) := by
      simp [store]
    rw [writeOwner_eq_self hlive' ho]
    refine ⟨?_, ⟨fun j hj => ?_, fun j t ht hf _ => ?_, fun j t ht _ ha => ?_⟩, ?_, ?_⟩
    · have hlist : (view k pc).spanLists 0 n = i :: rest := by rw [view_spanLists, list]
      have hlive : (view k pc).spans i = some (seenBy k s) := view_spans_eq_some.mpr ⟨s, live, rfl⟩
      have hpost := taken_post h hlist hlive
      have hseen : taken (seenBy k s) = seenBy k (taken s) := by simp [taken, seenBy]
      rw [hseen, ← view_setList, ← view_store] at hpost
      exact hpost.inv
    · simp [store, setList, hj]
    · have hji : j ≠ i := by
        rintro rfl
        rw [live] at ht
        obtain rfl := Option.some.inj ht
        rw [hu] at hf
        exact hf.elim (by simp) fun hne => hne ho
      simpa [store, setList, hji] using ht
    · have hji : j ≠ i := by rintro rfl; exact ha rfl
      simpa [store, setList, hji] using ht
    · rintro j hj
      obtain rfl := Option.some.inj hj
      exact ⟨taken s, hlive', rfl, ho⟩
    · rintro j t hj ht
      obtain rfl := Option.some.inj hj
      rw [live] at ht
      obtain rfl := Option.some.inj ht
      exact hu
  | noDescriptor =>
    exact ⟨h.grows (PageMap.Grows.refl _) _, .of_eq rfl rfl, by simp, by simp⟩
  | @split m big small now rest b _ pm env list first big_list live pool clock_le now_le _ lookup =>
    obtain ⟨-, slot⟩ := pool
    obtain ⟨hu, ho⟩ := owner_of_mem h (n := m) (by simp [big_list]) live
    have hne : big ≠ small := by rintro rfl; rw [live] at slot; exact absurd slot (by simp)
    set pc₁ := (((pc.setList k m rest).store small (lowPart b n)).store big
      (highPart b n now)).pushFront k (b.pageNum - n) big with hpc₁
    have hspans : pc₁.spans = Function.update (Function.update pc.spans small
        (some (lowPart b n))) big (some (highPart b n now)) := by
      simp only [hpc₁, pushFront, store, setList]
    have hsmall : pc₁.spans small = some (lowPart b n) := by
      rw [hspans, Function.update_of_ne (Ne.symm hne), Function.update_self]
    have hsmall' : ({ pc₁ with pageMap := pm, clock := now, env := env } : PageCache).spans small =
        some (lowPart b n) := hsmall
    rw [writeOwner_eq_self hsmall' ho]
    refine ⟨?_, ⟨fun j hj => ?_, fun j t ht hf _ => ?_, fun j t ht hf ha => ?_⟩, ?_, ?_⟩
    · have hlist : (view k pc).spanLists 0 m = big :: rest := by rw [view_spanLists, big_list]
      have hlive : (view k pc).spans big = some (seenBy k b) :=
        view_spans_eq_some.mpr ⟨b, live, rfl⟩
      have hpost := @split_post _ _ h n m big small now rest (seenBy k b) pm env hn
        (firstLarger_eq_some first).1 hlist hlive (view_spans_eq_none.mpr slot) clock_le now_le
        lookup
      have hlow : lowPart (seenBy k b) n = seenBy k (lowPart b n) := by simp [lowPart, seenBy]
      have hhigh : highPart (seenBy k b) n now = seenBy k (highPart b n now) := by
        simp [highPart, seenBy, ho]
      have hpages : (seenBy k b).pageNum = b.pageNum := rfl
      rw [hlow, hhigh, hpages, ← view_setList, ← view_store, ← view_store,
        ← view_pushFront] at hpost
      exact hpost.inv
    · simp [hpc₁, pushFront, store, setList, hj]
    · have hjb : j ≠ big := by
        rintro rfl
        rw [live] at ht
        obtain rfl := Option.some.inj ht
        rw [hu] at hf
        exact hf.elim (by simp) fun hne => hne ho
      have hjs : j ≠ small := by rintro rfl; rw [slot] at ht; exact absurd ht (by simp)
      show pc₁.spans j = some t
      rw [hspans, Function.update_of_ne hjb, Function.update_of_ne hjs]
      exact ht
    · have hjs : j ≠ small := by rintro rfl; exact ha rfl
      replace ht : pc₁.spans j = some t := ht
      rw [hspans] at ht
      by_cases hjb : j = big
      · subst hjb
        rw [Function.update_self] at ht
        obtain rfl := Option.some.inj ht
        exact hf.elim (by simp [highPart]) fun hne => absurd ho hne
      · rwa [Function.update_of_ne hjb, Function.update_of_ne hjs] at ht
    · rintro j hj
      obtain rfl := Option.some.inj hj
      exact ⟨lowPart b n, hsmall, rfl, ho⟩
    · rintro j t hj ht
      obtain rfl := Option.some.inj hj
      rw [slot] at ht
      exact absurd ht (by simp)

/-- The refill of shard 0: the owner that it writes is the right one. -/
lemma Refilled.shardPost (h : (view 0 pc).Inv []) {p : ℕ} {pm₀ : PageMap}
    (hr : Refilled 0 pc i p pm₀ pc') :
    (view 0 pc').Inv [] ∧ ShardLocal 0 pc pc' none none := by
  obtain @⟨now, pm, env, fresh, hlo, hhi⟩ := hr
  have hi := fresh.slot
  constructor
  · have hview := @Refilled.intro 0 (view 0 pc) i p pm₀ now pm env fresh.view hlo hhi
    have hseen : refillSpan p now = seenBy 0 (refillSpan p now) := by simp [refillSpan, seenBy]
    rw [hseen, ← view_store, ← view_pushFront] at hview
    exact (hview.inv h).1
  · refine ⟨fun j hj => by simp [pushFront, setList, store, hj], fun j s hs _ _ => ?_,
      fun j s hs hf _ => ?_⟩
    · have hj : j ≠ i := by rintro rfl; rw [hi] at hs; exact absurd hs (by simp)
      simpa [pushFront, setList, store, hj] using hs
    · by_cases hj : j = i
      · subst hj
        simp only [pushFront, setList, store, Function.update_self, Option.some.injEq] at hs
        rw [← hs] at hf
        exact absurd hf (by simp [refillSpan])
      · simpa [pushFront, setList, store, hj] using hs

/-- After a refill for which all buckets from `n` pages on were empty, only the new span is
there. -/
lemma Refilled.spanLists {p m : ℕ} {pm₀ : PageMap} (hr : Refilled k pc i p pm₀ pc')
    (hempty : pc.NeedsRefill k n) (hn : n ≤ maxPageNum) (hnm : n ≤ m) (hm : m ≤ maxPageNum) :
    pc'.spanLists k m = if m = maxPageNum then [i] else [] := by
  obtain ⟨-, -, -⟩ := hr
  have hnone := (needsRefill_iff hn).mp hempty
  by_cases hmax : m = maxPageNum
  · subst hmax
    simp [pushFront, setList, store, hnone maxPageNum hn le_rfl]
  · simp [pushFront, setList, store, hmax, hnone m hnm hm]

/-- A refill for `MAX_PAGE_NUM` pages: the new span goes to the caller whole, and the last write
corrects its owner. -/
lemma Refilled.whole_shardPost (h : (view k pc).Inv []) {p : ℕ} {pm₀ : PageMap}
    {pc₁ : PageCache} {evs : List SectionEvent} {r : Option ℕ}
    (hempty : pc.NeedsRefill k maxPageNum)
    (hr : Refilled k pc i p pm₀ pc₁) (hc : Cut k maxPageNum pc₁ evs r pc') :
    ShardPost k pc r (writeOwner k pc' r) := by
  have hlist := hr.spanLists hempty le_rfl le_rfl le_rfl
  rw [if_pos rfl] at hlist
  cases hc with
  | noDescriptor list => rw [hlist] at list; exact absurd list (by simp)
  | split list => rw [hlist] at list; exact absurd list (by simp)
  | @exact i' rest s list live =>
    rw [hlist] at list
    obtain ⟨rfl, rfl⟩ := List.cons.inj list
    obtain @⟨now, pm, env, fresh, hlo, hhi⟩ := hr
    have hs : s = refillSpan p now := by
      simpa [pushFront, setList, store] using live.symm
    subst hs
    set t : Span := { taken (refillSpan p now) with ownerShardId := k } with ht
    have hback : Function.update pc.spanLists k (Function.update (pc.spanLists k) maxPageNum []) =
        pc.spanLists := by
      rw [← hempty.1, Function.update_eq_self, Function.update_eq_self]
    have hstate : writeOwner k ((PageCache.setList
        { (pc.store i (refillSpan p now)).pushFront k maxPageNum i with
          pageMap := pm, mapped := ⟨p, maxPageNum⟩ :: pc.mapped, clock := now, env := env }
        k maxPageNum []).store i (taken (refillSpan p now))) (some i) =
        { pc.store i t with
          pageMap := pm, mapped := ⟨p, maxPageNum⟩ :: pc.mapped, clock := now, env := env } := by
      simp [writeOwner, pushFront, setList, store, ht, hback]
    rw [hstate]
    refine ⟨?_, .insert fresh.slot rfl fun _ _ => rfl, ?_, ?_⟩
    · have hseen : seenBy k t = taken (refillSpan p now) := by
        simp [seenBy, ht, taken, refillSpan]
      refine h.insert (s := taken (refillSpan p now)) fresh.view.slot
        ⟨show 0 < maxPageNum by decide, fresh.mappable.1, rfl, by simp [taken]⟩ fresh.mappable ?_ ?_
        fresh.lookup rfl hhi
      · rw [← hseen]
        exact congrArg PageCache.spans (view_store k pc i t)
      · have hspans : (view k
            { pc.store i t with
              pageMap := pm
              mapped := ⟨p, maxPageNum⟩ :: pc.mapped
              clock := now
              env := env }).spans = Function.update (view k pc).spans i (some (seenBy k t)) :=
          congrArg PageCache.spans (view_store k pc i t)
        have hlists := h.lists
        rw [view_spanLists] at hlists
        rw [hspans, view_spanLists]
        refine hlists.keep (fun v hv => ?_) (fun v hv => ?_)
        · rw [fresh.view.slot] at hv
          exact absurd hv (by simp)
        · obtain rfl := Option.some.inj hv
          rw [hseen]
          rfl
    · rintro j hj
      obtain rfl := Option.some.inj hj
      exact ⟨t, by simp [store], rfl, rfl⟩
    · rintro j s hj hs
      obtain rfl := Option.some.inj hj
      rw [fresh.slot] at hs
      exact absurd hs (by simp)

/-- **When `AllocSpan(n)` on shard `k` leaves the owners right**: it is shard 0, or the call makes
no refill of which a part would stay in the lists. -/
def RefillFits (pc : PageCache) (k n : ℕ) : Prop :=
  k = 0 ∨ n = 0 ∨ maxPageNum ≤ n ∨ ¬ pc.NeedsRefill k n ∨ pc.MapFails maxPageNum

/-- **`AllocSpan` on shard `k` keeps the owners right** if its refill fits. -/
theorem allocSpanOn_spec (h : (view k pc).Inv []) (hfits : pc.RefillFits k n) :
    ∃ r pc', pc.allocSpanOn k n = .ok (r, pc') ∧ ShardPost k pc r pc' := by
  obtain ⟨evs, r, pc', hrun, ho, -⟩ := allocSpanLocked_outcome (listed_of_view h) h.clock_le n
  have hpost : ShardPost k pc r (writeOwner k pc' r) := by
    cases ho with
    | rejected => exact ⟨h, .of_eq rfl rfl, by simp, by simp⟩
    | oversizedFailed _ hf => exact hf.shardPost h
    | oversized hbig hf => exact hf.oversized_shardPost h (by omega) _
    | found hn _ _ hc => exact hc.shardPost h hn
    | refillFailed _ _ _ _ hf => exact hf.shardPost h
    | refilled hn hmax hempty hmaps hr hc =>
      by_cases hk : k = 0
      · subst hk
        obtain ⟨hinv, hlocal⟩ := hr.shardPost h
        have hcut := hc.shardPost hinv hn
        refine ⟨hcut.inv, hlocal.trans hcut.shardLocal, hcut.got, fun j s hj hs => ?_⟩
        by_contra hu
        rw [Bool.not_eq_false] at hu
        have := hcut.fresh j s hj (hlocal.keep j s hs (Or.inl hu) (by simp))
        rw [hu] at this
        exact absurd this (by simp)
      · -- a successful refill of another shard fits only if it is handed out whole
        rcases hfits with h₀ | h₀ | h₀ | h₀ | h₀
        · exact absurd h₀ hk
        · omega
        · obtain rfl : n = maxPageNum := by omega
          exact hr.whole_shardPost h hempty hc
        · exact absurd hempty h₀
        · exact absurd h₀ hmaps
  refine ⟨r, _, allocSpanOn_eq hrun fun i hi => ?_, hpost⟩
  subst hi
  obtain ⟨s, hs, -⟩ := hpost.got i rfl
  simp only [writeOwner, Function.update_self, Option.map_eq_some_iff] at hs
  obtain ⟨t, ht, -⟩ := hs
  exact ⟨t, ht⟩

/-- **A refill that does not fit**: afterwards shard `k` lists a span that shard 0 owns, the
remainder of the split, or the whole span if the split got no descriptor. -/
theorem allocSpanOn_misowned (h : (view k pc).Inv []) (hfits : ¬ pc.RefillFits k n) :
    ∃ r pc', pc.allocSpanOn k n = .ok (r, pc') ∧ ∃ m j s, j ∈ pc'.spanLists k m ∧
      pc'.spans j = some s ∧ s.ownerShardId ≠ k := by
  simp only [RefillFits, not_or, not_not, not_le] at hfits
  obtain ⟨hk, hn, hlt, hempty, hmaps⟩ := hfits
  have hrange : ¬ (n = 0 ∨ n > uint32Max) := by
    have : maxPageNum < uint32Max := by decide
    omega
  obtain ⟨evs, r, pc', hrun, ho, -⟩ := allocSpanLocked_outcome (listed_of_view h) h.clock_le n
  cases ho with
  | rejected hrange' => exact absurd hrange' hrange
  | oversizedFailed hbig | oversized hbig => omega
  | found _ _ hbucket => exact absurd hempty hbucket
  | refillFailed _ _ _ hfails => exact absurd hfails hmaps
  | @refilled i p _ pc₁ _ _ _ hpos hmax _ _ hr hc =>
    have hlist := fun m hnm hm => hr.spanLists (m := m) hempty hmax hnm hm
    obtain @⟨now, pm, env, fresh, -, -⟩ := hr
    cases hc with
    | exact list =>
      rw [hlist n le_rfl hmax, if_neg (by omega)] at list
      exact absurd list (by simp)
    | noDescriptor =>
      refine ⟨none, _, allocSpanOn_eq hrun (by simp), maxPageNum, i, refillSpan p now, ?_, ?_,
        Ne.symm hk⟩
      · simp [writeOwner, pushFront, setList, store]
      · simp [writeOwner, pushFront, setList, store]
    | @split m big small now' rest b _ pm' env' list first big_list live pool =>
      obtain ⟨-, slot⟩ := pool
      obtain ⟨hnm, hm, hne, -⟩ := firstLarger_eq_some first
      have hmm : m = maxPageNum := by
        by_contra hmm
        exact hne ((hlist m hnm.le hm).trans (if_neg hmm))
      subst hmm
      rw [hlist _ hmax le_rfl, if_pos rfl] at big_list
      obtain ⟨rfl, rfl⟩ := List.cons.inj big_list
      have hb : b = refillSpan p now := by
        simpa [pushFront, setList, store] using live.symm
      have hsb : small ≠ i := by rintro rfl; rw [live] at slot; exact absurd slot (by simp)
      refine ⟨some small, _, allocSpanOn_eq hrun ?_, b.pageNum - n, i, highPart b n now', ?_, ?_,
        ?_⟩
      · rintro j hj
        obtain rfl := Option.some.inj hj
        exact ⟨lowPart b n, by simp [pushFront, setList, store, hsb]⟩
      · simp [writeOwner, pushFront, setList, store]
      · simp [writeOwner, pushFront, setList, store, Ne.symm hsb]
      · rw [hb]
        exact Ne.symm hk

/-! ## Release -/

/-- Reading a descriptor, in the view. -/
lemma view_deref (k : ℕ) (pc : PageCache) (i : ℕ) :
    (view k pc).deref i = (pc.deref i).map (seenBy k) := by
  simp only [deref, view]
  cases pc.spans i <;> rfl

/-- The trace, in the view. -/
lemma view_record (k : ℕ) (pc : PageCache) (e : SectionEvent) :
    view k (pc.record e) = (view k pc).record e := rfl

/-- A descriptor that grows, in the view. -/
lemma view_resize (k : ℕ) (pc : PageCache) (i : ℕ) (s : Span) :
    view k (pc.resize i s) = (view k pc).resize i (seenBy k s) := by
  unfold resize
  rw [view_record, view_store]
  rfl

/-- Unlinking, in the view. -/
lemma view_erase (k : ℕ) (pc : PageCache) (n i : ℕ) :
    view k (pc.erase k n i) = (view k pc).erase 0 n i := by
  unfold erase
  rw [view_record, view_spanLists]
  refine congrArg (record · _) ?_
  simp only [view, PageCache.mk.injEq, and_true, true_and]
  funext k' n'
  by_cases hk : k' = 0
  · subst hk
    simp
  · simp [hk]

/-- `Delete`, in the view. -/
lemma view_delete (k : ℕ) (pc : PageCache) (i : ℕ) :
    (view k pc).delete i = (pc.delete i).map (view k) := by
  unfold delete
  rw [view_deref]
  cases pc.deref i with
  | error e => rfl
  | ok s =>
    refine congrArg Except.ok ?_
    rw [view_record]
    refine congrArg (record · _) ?_
    simp only [view, PageCache.mk.injEq, and_true]
    funext j
    by_cases hj : j = i
    · subst hj
      simp
    · simp [hj]

/-- Deleting descriptors, in the view. -/
lemma view_foldlM_delete (k : ℕ) (retired : List ℕ) (pc : PageCache) :
    retired.foldlM delete (view k pc) = (retired.foldlM delete pc).map (view k) := by
  induction retired generalizing pc with
  | nil => rfl
  | cons j retired ih =>
    rw [List.foldlM_cons, List.foldlM_cons, view_delete]
    cases pc.delete j with
    | error e => rfl
    | ok pc₁ => exact ih pc₁

/-- `SystemFree`, in the view. -/
lemma view_systemFree (k : ℕ) (pc : PageCache) (p n : ℕ) :
    (view k pc).systemFree p n = (pc.systemFree p n).map (view k) := by
  unfold systemFree
  by_cases hm : (⟨p, n⟩ : Extent) ∈ pc.mapped
  · rw [if_pos hm, if_pos (show (⟨p, n⟩ : Extent) ∈ (view k pc).mapped from hm)]
    rfl
  · rw [if_neg hm, if_neg (show (⟨p, n⟩ : Extent) ∉ (view k pc).mapped from hm)]
    rfl

/-- `SetSpan`, in the view. -/
lemma view_setSpan (k : ℕ) (pc : PageCache) (i : ℕ) (s : Span) :
    (view k pc).setSpan i (seenBy k s) = (pc.setSpan i s).map (view k) := by
  simp only [setSpan, view, seenBy]
  cases pc.pageMap.setSpan i s.startPageIdx s.pageNum <;> rfl

/-- The test of the merge loops, in the view of the owner. -/
lemma mergeable_seenBy {t : Span} (ho : s.ownerShardId = k) :
    mergeable (seenBy k s) (seenBy k t) = mergeable s t := by
  subst ho
  by_cases hown : t.ownerShardId = s.ownerShardId <;> simp [mergeable, seenBy, hown, bne]

/-- Growing, in the view of the owner. -/
lemma merged_seenBy (side : Side) (k : ℕ) (s t : Span) :
    seenBy k (side.merged s t) = side.merged (seenBy k s) (seenBy k t) := by
  cases side <;> rfl

/-- **A merge loop on shard `k`** is the loop of a single shard in the view. -/
lemma coalesce_view (side : Side) (fuel : ℕ) (hi : pc.spans i = some s) (ho : s.ownerShardId = k)
    (retired : List ℕ) :
    (coalesce side k i fuel pc retired).map (Prod.map (view k) id) =
      coalesce side 0 i fuel (view k pc) retired := by
  induction fuel generalizing pc s retired with
  | zero => rfl
  | succ fuel ih =>
    have hderef : pc.deref i = .ok s := by simp only [deref, hi]
    have hderefv : (view k pc).deref i = .ok (seenBy k s) := by rw [view_deref, hderef]; rfl
    have hnb : side.neighbour (seenBy k s) = side.neighbour s := by cases side <;> rfl
    have hget : (view k pc).pageMap.getSpan = pc.pageMap.getSpan := rfl
    unfold coalesce
    simp only [hderef, hderefv, bind, Except.bind, hnb, hget]
    cases (side.neighbour s).bind pc.pageMap.getSpan with
    | none => rfl
    | some j =>
      dsimp only
      rw [view_deref]
      cases hj : pc.deref j with
      | error e => rfl
      | ok t =>
        simp only [Except.map, mergeable_seenBy ho]
        by_cases hm : mergeable s t = true
        · simp only [hm, if_true]
          have hgrown : (side.merged s t).ownerShardId = k := by cases side <;> exact ho
          have hlive : ((pc.erase k t.pageNum j).resize i (side.merged s t)).spans i =
              some (side.merged s t) := by simp [resize, record, store]
          have hstep := ih hlive hgrown (j :: retired)
          rw [view_resize, view_erase, merged_seenBy] at hstep
          exact hstep
        · simp only [hm]
          rfl

/-- A merge loop changes no descriptor but the survivor, not the survivor's owner, and no list
without a span that it absorbs. -/
lemma coalesce_frame {side : Side} {fuel : ℕ} {retired retired' : List ℕ}
    (hi : pc.spans i = some s) (hrun : coalesce side k i fuel pc retired = .ok (pc', retired')) :
    (∀ j, j ≠ i → pc'.spans j = pc.spans j) ∧ (∀ j ∈ retired, j ∈ retired') ∧
      (∀ k' n, (∀ j ∈ retired', j ∉ pc.spanLists k' n) →
        pc'.spanLists k' n = pc.spanLists k' n) ∧
      ∃ s', pc'.spans i = some s' ∧ s'.ownerShardId = s.ownerShardId := by
  induction fuel generalizing pc s retired with
  | zero => exact absurd hrun (by simp [coalesce])
  | succ fuel ih =>
    have hderef : pc.deref i = .ok s := by simp only [deref, hi]
    unfold coalesce at hrun
    simp only [hderef, bind, Except.bind] at hrun
    split at hrun
    next =>
      obtain ⟨rfl, rfl⟩ := Prod.mk.inj (Except.ok.inj hrun)
      exact ⟨fun _ _ => rfl, fun _ hj => hj, fun _ _ _ => rfl, s, hi, rfl⟩
    next j _ =>
      cases hj : pc.deref j with
      | error e =>
        rw [hj] at hrun
        exact absurd hrun (by simp)
      | ok t =>
        simp only [hj] at hrun
        split at hrun
        · have hlive : ((pc.erase k t.pageNum j).resize i (side.merged s t)).spans i =
              some (side.merged s t) := by simp [resize, record, store]
          obtain ⟨hspans, hsub, hlists, s', hs', ho⟩ := ih hlive hrun
          refine ⟨fun j' hj' => ?_, fun j' hj' => hsub j' (List.mem_cons_of_mem j hj'),
            fun k' n hnone => ?_, s', hs', ?_⟩
          · rw [hspans j' hj']
            simp [resize, record, store, erase, hj']
          · have hsame : ((pc.erase k t.pageNum j).resize i (side.merged s t)).spanLists k' n =
                pc.spanLists k' n := by
              refine List.filter_eq_self.mpr fun a ha => ?_
              have hne : a ≠ j := by
                intro he
                exact hnone j (hsub j List.mem_cons_self) (he ▸ ha)
              simpa using hne
            rw [hlists k' n (by rw [hsame]; exact hnone), hsame]
          · rw [ho]
            cases side <;> rfl
        · obtain ⟨rfl, rfl⟩ := Prod.mk.inj (Except.ok.inj hrun)
          exact ⟨fun _ _ => rfl, fun _ hj => hj, fun _ _ _ => rfl, s, hi, rfl⟩

/-- Both loops, in the view. -/
lemma mergeNeighbours_view (hi : pc.spans i = some s) (ho : s.ownerShardId = k) :
    (pc.mergeNeighbours k i).map (Prod.map (view k) id) = (view k pc).mergeNeighbours 0 i := by
  unfold mergeNeighbours
  rw [← coalesce_view .left maxPageNum hi ho []]
  rcases hrun : coalesce .left k i maxPageNum pc [] with e | ⟨pc₁, retired⟩
  · rfl
  · obtain ⟨-, -, -, s₁, hs₁, ho₁⟩ := coalesce_frame hi hrun
    exact coalesce_view .right maxPageNum hs₁ (ho₁.trans ho) retired

/-- What both loops leave alone. -/
lemma mergeNeighbours_frame {retired : List ℕ} (hi : pc.spans i = some s)
    (hrun : pc.mergeNeighbours k i = .ok (pc', retired)) :
    (∀ j, j ≠ i → pc'.spans j = pc.spans j) ∧
      (∀ k' n, (∀ j ∈ retired, j ∉ pc.spanLists k' n) →
        pc'.spanLists k' n = pc.spanLists k' n) ∧
      ∃ s', pc'.spans i = some s' ∧ s'.ownerShardId = s.ownerShardId := by
  obtain ⟨⟨pc₁, r₁⟩, hrun₁, hrun₂⟩ := exists_ok_of_bind hrun
  obtain ⟨hspans₁, -, hlists₁, s₁, hs₁, ho₁⟩ := coalesce_frame hi hrun₁
  obtain ⟨hspans₂, hsub, hlists₂, s₂, hs₂, ho₂⟩ := coalesce_frame hs₁ hrun₂
  refine ⟨fun j hj => (hspans₂ j hj).trans (hspans₁ j hj), fun k' n hnone => ?_, s₂, hs₂,
    ho₂.trans ho₁⟩
  have hleft := hlists₁ k' n fun j hj => hnone j (hsub j hj)
  rw [hlists₂ k' n (by rw [hleft]; exact hnone), hleft]

/-- **`ReleaseSpanLocked` on shard `k`** is that of a single shard in the view of the owner. -/
lemma releaseSpanLocked_view (hi : pc.spans i = some s) (ho : s.ownerShardId = k) :
    (pc.releaseSpanLocked k i).map (view k) = (view k pc).releaseSpanLocked 0 i := by
  have hderef : pc.deref i = .ok s := by simp only [deref, hi]
  have hderefv : (view k pc).deref i = .ok (seenBy k s) := by rw [view_deref, hderef]; rfl
  have hpages : (seenBy k s).pageNum = s.pageNum := rfl
  have hstart : (seenBy k s).startPageIdx = s.startPageIdx := rfl
  unfold releaseSpanLocked
  simp only [hderef, hderefv, bind, Except.bind, hpages, hstart]
  by_cases hbig : s.pageNum > maxPageNum
  · rw [if_pos hbig, if_pos hbig]
    have hclear : (view k pc).clearRange s.startPageIdx s.pageNum =
        view k (pc.clearRange s.startPageIdx s.pageNum) := rfl
    rw [hclear, view_systemFree]
    cases (pc.clearRange s.startPageIdx s.pageNum).systemFree s.startPageIdx s.pageNum with
    | error e => rfl
    | ok pc₁ => exact (view_delete k pc₁ i).symm
  rw [if_neg hbig, if_neg hbig, ← mergeNeighbours_view hi ho]
  rcases hloops : pc.mergeNeighbours k i with e | ⟨pc₂, retired⟩
  · rfl
  obtain ⟨-, -, s₂, hs₂, ho₂⟩ := mergeNeighbours_frame hi hloops
  have hderef₂ : pc₂.deref i = .ok s₂ := by simp only [deref, hs₂]
  have hderefv₂ : (view k pc₂).deref i = .ok (seenBy k s₂) := by rw [view_deref, hderef₂]; rfl
  have htime : (view k pc₂).getCurrentTimeMs =
      (pc₂.getCurrentTimeMs.1, view k pc₂.getCurrentTimeMs.2) := rfl
  have hseen : ∀ now, freed (seenBy k s₂) now = seenBy k (freed s₂ now) := by
    intro now
    simp [freed, seenBy, ho₂, ho]
  have hset := view_setSpan k (pc₂.getCurrentTimeMs.2.store i
    (freed s₂ pc₂.getCurrentTimeMs.1)) i (freed s₂ pc₂.getCurrentTimeMs.1)
  rw [view_store, ← hseen] at hset
  simp only [Except.map, Prod.map, id, hderef₂, hderefv₂, htime, hset]
  cases (pc₂.getCurrentTimeMs.2.store i (freed s₂ pc₂.getCurrentTimeMs.1)).setSpan i
      (freed s₂ pc₂.getCurrentTimeMs.1) with
  | error e => rfl
  | ok pc₃ =>
    simp only [view_foldlM_delete]
    cases retired.foldlM delete pc₃ with
    | error e => rfl
    | ok pc₄ => exact congrArg Except.ok (view_pushFront k pc₄ _ i)

/-- What `Delete` does, if it returns. -/
lemma eq_of_delete {j : ℕ} (hrun : pc.delete j = .ok pc') :
    pc' = PageCache.record { pc with spans := Function.update pc.spans j none } (.delete j) := by
  obtain ⟨s, -, hrun⟩ := exists_ok_of_bind hrun
  exact (Except.ok.inj hrun).symm

/-- What deleting descriptors leaves. -/
lemma foldlM_delete_frame {retired : List ℕ} (hrun : retired.foldlM delete pc = .ok pc') :
    (∀ j, pc'.spans j = if j ∈ retired then none else pc.spans j) ∧
      pc'.spanLists = pc.spanLists := by
  induction retired generalizing pc with
  | nil =>
    obtain rfl := Except.ok.inj hrun
    exact ⟨fun j => by simp, rfl⟩
  | cons j retired ih =>
    rw [List.foldlM_cons] at hrun
    obtain ⟨pc₁, hdel, hrun⟩ := exists_ok_of_bind hrun
    obtain rfl := eq_of_delete hdel
    obtain ⟨hspans, hlists⟩ := ih hrun
    refine ⟨fun j' => ?_, hlists⟩
    rw [hspans j']
    by_cases hj' : j' = j
    · subst hj'
      simp [record]
    · simp [record, hj']

/-- What a release leaves alone: all descriptors but the released one and those in `dels`, which it
deletes, and all lists of the other shards without a span in `dels`. -/
lemma releaseSpanLocked_frame (hi : pc.spans i = some s)
    (hrun : pc.releaseSpanLocked k i = .ok pc') :
    ∃ dels, (s.pageNum ≤ maxPageNum ∧ (∃ pc₂, pc.mergeNeighbours k i = .ok (pc₂, dels)) ∨
        maxPageNum < s.pageNum ∧ dels = [i]) ∧
      (∀ k' n, k' ≠ k → (∀ j ∈ dels, j ∉ pc.spanLists k' n) →
        pc'.spanLists k' n = pc.spanLists k' n) ∧
      (∀ j, j ≠ i → j ∉ dels → pc'.spans j = pc.spans j) ∧
      (∀ j ∈ dels, j ≠ i → pc'.spans j = none) ∧
      ∀ t, pc'.spans i = some t → t.ownerShardId = s.ownerShardId := by
  have hderef : pc.deref i = .ok s := by simp only [deref, hi]
  unfold releaseSpanLocked at hrun
  simp only [hderef, bind, Except.bind] at hrun
  by_cases hbig : s.pageNum > maxPageNum
  · rw [if_pos hbig] at hrun
    refine ⟨[i], Or.inr ⟨hbig, rfl⟩, ?_⟩
    rcases hfree : (pc.clearRange s.startPageIdx s.pageNum).systemFree s.startPageIdx
        s.pageNum with e | pc₁
    · rw [hfree] at hrun
      exact absurd hrun (by simp)
    rw [hfree] at hrun
    obtain rfl := eq_of_delete hrun
    have hstate : pc₁.spans = pc.spans ∧ pc₁.spanLists = pc.spanLists := by
      unfold systemFree at hfree
      split at hfree
      · obtain rfl := Except.ok.inj hfree
        exact ⟨rfl, rfl⟩
      · exact absurd hfree (by simp)
    refine ⟨fun k' n _ _ => ?_, fun j hj _ => ?_, fun j hj hne => ?_, fun t ht => ?_⟩
    · simp [record, hstate.2]
    · simp [record, hstate.1, hj]
    · exact absurd (List.mem_singleton.mp hj) hne
    · exact absurd ht (by simp [record])
  rw [if_neg hbig] at hrun
  rcases hloops : pc.mergeNeighbours k i with e | ⟨pc₂, retired⟩
  · rw [hloops] at hrun
    exact absurd hrun (by simp)
  rw [hloops] at hrun
  refine ⟨retired, Or.inl ⟨not_lt.mp hbig, pc₂, rfl⟩, ?_⟩
  obtain ⟨hspans₂, hlists₂, s₂, hs₂, ho₂⟩ := mergeNeighbours_frame hi hloops
  have hderef₂ : pc₂.deref i = .ok s₂ := by simp only [deref, hs₂]
  simp only [hderef₂] at hrun
  rcases hset : (pc₂.getCurrentTimeMs.2.store i (freed s₂ pc₂.getCurrentTimeMs.1)).setSpan i
      (freed s₂ pc₂.getCurrentTimeMs.1) with e | pc₃
  · rw [hset] at hrun
    exact absurd hrun (by simp)
  rw [hset] at hrun
  -- `SetSpan` writes the leaves only
  have hstate : pc₃.spans = Function.update pc₂.spans i (some (freed s₂ pc₂.getCurrentTimeMs.1)) ∧
      pc₃.spanLists = pc₂.spanLists := by
    unfold setSpan at hset
    split at hset
    · obtain rfl := Except.ok.inj hset
      exact ⟨rfl, rfl⟩
    · exact absurd hset (by simp)
  rcases hdel : retired.foldlM delete pc₃ with e | pc₄
  · simp only [hdel] at hrun
    exact absurd hrun (by simp)
  simp only [hdel] at hrun
  obtain rfl := Except.ok.inj hrun
  obtain ⟨hspans₄, hlists₄⟩ := foldlM_delete_frame hdel
  refine ⟨fun k' n hk hnone => ?_, fun j hj hjr => ?_, fun j hjr hj => ?_, fun t ht => ?_⟩
  · simp only [pushFront, setList, Function.update_of_ne hk, hlists₄, hstate.2]
    exact hlists₂ k' n hnone
  · simp only [pushFront, setList, hspans₄, if_neg hjr, hstate.1, Function.update_of_ne hj]
    exact hspans₂ j hj
  · simp only [pushFront, setList, hspans₄, if_pos hjr]
  · simp only [pushFront, setList, hspans₄, hstate.1, Function.update_self] at ht
    split at ht
    · exact absurd ht (by simp)
    · rw [← Option.some.inj ht]
      exact ho₂

/-- What `ReleaseSpan` of `i` on its shard `k` guarantees, also for its events: what it takes out of
a list is in this list, and what it deletes is owned by the shard. -/
structure ShardReleasePost (k : ℕ) (pc : PageCache) (i : ℕ) (pc' : PageCache) : Prop where
  inv : (view k pc').Inv []
  shardLocal : ShardLocal k pc pc' (some i) none
  released : ∀ s, pc'.spans i = some s → s.used = false ∧ s.ownerShardId = k
  events : ∃ evs, Logs pc.env evs pc'.env ∧ (∀ u ∈ evs.filterMap erased, u.1 ∈ u.2) ∧
    ∀ j ∈ evs.filterMap deleted, ∃ s, pc.spans j = some s ∧ s.ownerShardId = k
  live : ∀ j s, pc'.spans j = some s → ∃ t, pc.spans j = some t

/-- **The events of a release on a single shard**: it erases only what is linked, and deletes the
released span or the absorbed ones. -/
lemma releaseSpan_events {det : List ℕ} (h : pc.Inv det) (hi : pc.spans i = some s)
    (hu : s.used = true) (hrun : pc.releaseSpan i = .ok pc') :
    ∃ evs, Logs pc.env evs pc'.env ∧ (∀ u ∈ evs.filterMap erased, u.1 ∈ u.2) ∧
      (maxPageNum < s.pageNum → evs.filterMap deleted = [i]) ∧
      (s.pageNum ≤ maxPageNum → ∃ pc₂ retired, pc.mergeNeighbours 0 i = .ok (pc₂, retired) ∧
        evs.filterMap deleted = retired ∧
        ∀ j ∈ retired, ∃ t, pc.spans j = some t ∧ t.used = false) := by
  rcases Nat.lt_or_ge maxPageNum s.pageNum with hbig | hmax
  · obtain ⟨pc'', hrun', hm⟩ := releaseSpan_unmapped h hi hbig
    rw [hrun] at hrun'
    obtain rfl := Except.ok.inj hrun'
    exact ⟨_, hm.logs, by simp [erased], fun _ => rfl, fun hle => absurd hbig (not_lt.mpr hle)⟩
  · obtain ⟨pc'', s', retired, hrun', hm⟩ := releaseSpan_merged h hi hu hmax
    rw [hrun] at hrun'
    obtain rfl := Except.ok.inj hrun'
    obtain ⟨pc₂, _, hloops, hc, -⟩ := hm.loops
    obtain ⟨evs, hlogs, hlinked, hdeleted⟩ := hm.events
    exact ⟨evs, hlogs, hlinked, fun hbig => absurd hbig (not_lt.mpr hmax),
      fun _ => ⟨pc₂, retired, hloops, hdeleted, hc.free⟩⟩

/-- **`ReleaseSpan` on the shard of the owner** returns, keeps the owners right, takes neighbours
out of the buckets in which they are, and deletes descriptors of this shard only. -/
theorem releaseSpan_shard (h : (view k pc).Inv [])
    (hother : ∀ k' n, k' ≠ k → ∀ j ∈ pc.spanLists k' n,
      ∃ t, pc.spans j = some t ∧ t.ownerShardId ≠ k)
    (hi : pc.spans i = some s) (hu : s.used = true) (ho : s.ownerShardId = k) :
    ∃ pc', pc.releaseSpan i = .ok pc' ∧ ShardReleasePost k pc i pc' := by
  have hiv : (view k pc).spans i = some (seenBy k s) := view_spans_eq_some.mpr ⟨s, hi, rfl⟩
  have huv : (seenBy k s).used = true := by rw [seenBy_used ho, hu]
  obtain ⟨pcv, hrunv, hpost⟩ := releaseSpan_spec h hiv huv (by simp)
  obtain ⟨evs, hlogs, hlinked, hdelbig, hdelsmall⟩ := releaseSpan_events h hiv huv hrunv
  have hderefv : (view k pc).deref i = .ok (seenBy k s) := by simp only [deref, hiv]
  have hlocked : (view k pc).releaseSpanLocked 0 i = .ok pcv := by
    unfold releaseSpan at hrunv
    rw [hderefv] at hrunv
    exact hrunv
  obtain ⟨pc', hrun, rfl⟩ := exists_ok_of_map ((releaseSpanLocked_view hi ho).trans hlocked)
  obtain ⟨dels, hdels, hlists, hkeep, hdel, howner⟩ := releaseSpanLocked_frame hi hrun
  -- what is deleted is the released span, or was free and owned by this shard
  have hsame : evs.filterMap deleted = dels ∧ ∀ j ∈ dels,
      j = i ∨ ∃ t, pc.spans j = some t ∧ t.used = false ∧ t.ownerShardId = k := by
    rcases hdels with ⟨hmax, pc₂, hloops⟩ | ⟨hbig, rfl⟩
    · obtain ⟨pcv₂, retired, hloopsv, hfilter, hfree⟩ := hdelsmall hmax
      have hview := mergeNeighbours_view hi ho
      rw [hloops, hloopsv] at hview
      obtain ⟨-, rfl⟩ := Prod.mk.inj (Except.ok.inj hview)
      refine ⟨hfilter, fun j hj => Or.inr ?_⟩
      obtain ⟨v, hv, huv'⟩ := hfree j hj
      obtain ⟨t, ht, rfl⟩ := view_spans_eq_some.mp hv
      exact ⟨t, ht, seenBy_used_eq_false.mp huv'⟩
    · exact ⟨hdelbig hbig, fun j hj => Or.inl (List.mem_singleton.mp hj)⟩
  obtain ⟨hfilter, hfree⟩ := hsame
  have hreleased : ∀ t, pc'.spans i = some t → t.used = false ∧ t.ownerShardId = k := by
    intro t ht
    have hot := (howner t ht).trans ho
    have := hpost.released (seenBy k t) (view_spans_eq_some.mpr ⟨t, ht, rfl⟩)
    rw [seenBy_used hot] at this
    exact ⟨by simpa using this, hot⟩
  refine ⟨pc', ?_, hpost.inv, ⟨fun k' hk => ?_, fun j t ht hf hr => ?_, fun j t ht hf _ => ?_⟩,
    hreleased, ⟨evs, hlogs, hlinked, fun j hj => ?_⟩, fun j t ht => ?_⟩
  · unfold releaseSpan
    simp only [deref, hi, bind, Except.bind, ho]
    exact hrun
  · -- the spans of another shard's lists are not deleted
    funext n
    refine hlists k' n hk fun j hj hmem => ?_
    obtain ⟨t, ht, hot⟩ := hother k' n hk j hmem
    rcases hfree j hj with rfl | ⟨t', ht', -, hot'⟩
    · rw [hi] at ht
      exact hot (Option.some.inj ht ▸ ho)
    · rw [ht] at ht'
      exact hot (Option.some.inj ht' ▸ hot')
  · have hji : j ≠ i := fun he => hr (by rw [he])
    refine (hkeep j hji fun hj => ?_).trans ht
    rcases hfree j hj with he | ⟨t', ht', hu', ho'⟩
    · exact hji he
    · rw [ht] at ht'
      obtain rfl := Option.some.inj ht'
      rw [hu'] at hf
      exact hf.elim (by simp) fun hne => hne ho'
  · have hji : j ≠ i := by
      rintro rfl
      obtain ⟨hut, hot⟩ := hreleased t ht
      rw [hut] at hf
      exact hf.elim (by simp) fun hne => hne hot
    by_cases hj : j ∈ dels
    · rw [hdel j hj hji] at ht
      exact absurd ht (by simp)
    · rwa [hkeep j hji hj] at ht
  · rw [hfilter] at hj
    rcases hfree j hj with rfl | ⟨t, ht, -, hot⟩
    · exact ⟨s, hi, ho⟩
    · exact ⟨t, ht, hot⟩
  · by_cases hji : j = i
    · exact ⟨s, hji ▸ hi⟩
    by_cases hj : j ∈ dels
    · rw [hdel j hj hji] at ht
      exact absurd ht (by simp)
    · exact ⟨t, (hkeep j hji hj).symm.trans ht⟩

end PageCache

end Ammalloc
