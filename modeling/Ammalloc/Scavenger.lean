import Ammalloc.PageCache.Release

set_option relaxedAutoImplicit false
set_option autoImplicit false

/-!
# The scavenger's critical sections

The three phases of `PageHeapScavenger::ScavengeOnePass` for one bucket: detach the idle spans
under the PageCache mutex, `madvise` each of them without it, and return the chain under it.
The scavenger works on shard 0. The statistics counters are left out; the log line of the
"used span in free list" branch is counted.

## Main definitions

* `Ammalloc.PageCache.detachLoop`, `Ammalloc.PageCache.madviseSpan`,
  `Ammalloc.PageCache.returnLoop` — the three phases.

## Main results

* `Ammalloc.PageCache.detachLoop_spec`, `Ammalloc.PageCache.madviseSpan_spec`,
  `Ammalloc.PageCache.returnLoop_spec` — each keeps the representation invariant, with the
  detached chain as the spans held by the scavenger.
-/

namespace Ammalloc

namespace PageCache

/-- `PageHeapScavenger::kIdleThresholdMs`. -/
def kIdleThresholdMs : ℕ := 10000

/-! ## The three phases -/

/-- The scan of bucket `b` under the lock: the detached chain and the number of used spans
found. `erase` returns the next position, so the scan walks the bucket as it was. -/
def detachLoop (now b : ℕ) : List ℕ → PageCache → Except Fault (List ℕ × ℕ × PageCache)
  | [], pc => .ok ([], 0, pc)
  | i :: rest, pc => do
    let s ← pc.deref i
    if s.used then
      let (chain, errors, pc) ← detachLoop now b rest pc
      return (chain, errors + 1, pc)
    else if !s.committed then detachLoop now b rest pc
    else if subU64 now s.lastUsedTimeMs ≥ kIdleThresholdMs then
      let pc := pc.setList 0 b ((pc.spanLists 0 b).erase i)
      -- reserve the detached span, so that coalescing cannot claim it
      let (chain, errors, pc) ← detachLoop now b rest (pc.store i { s with used := true })
      return (i :: chain, errors, pc)
    else detachLoop now b rest pc

/-- One `madvise(MADV_DONTNEED)`, which succeeds or not. -/
def madviseSpan (pc : PageCache) (i : ℕ) (ok : Bool) : Except Fault PageCache := do
  let s ← pc.deref i
  return if ok then pc.store i { s with committed := false } else pc

/-- The return of the chain to bucket `b` under the lock. -/
def returnLoop (b : ℕ) : List ℕ → PageCache → Except Fault PageCache
  | [], pc => .ok pc
  | i :: rest, pc => do
    let s ← pc.deref i
    let (now, pc) := pc.getCurrentTimeMs
    let pc := pc.store i { s with used := false, lastUsedTimeMs := now }
    returnLoop b rest (pc.setList 0 b (pc.spanLists 0 b ++ [i]))

/-! ## Their effect -/

/-- The scan's test for an unused span. -/
def detachable (now : ℕ) (s : Span) : Bool :=
  s.committed && decide (subU64 now s.lastUsedTimeMs ≥ kIdleThresholdMs)

/-- The descriptors after a scan that detached `chain`. -/
def reserve (chain : List ℕ) (spans : ℕ → Option Span) (j : ℕ) : Option Span :=
  if j ∈ chain then (spans j).map fun s => { s with used := true } else spans j

variable {pc : PageCache} {det : List ℕ}

/-- Detaching one span. -/
lemma Inv.detach (h : pc.Inv det) {b i : ℕ} {s : Span} (hs : pc.spans i = some s)
    (hu : s.used = false) (hb : s.pageNum = b) :
    Inv ((pc.setList 0 b ((pc.spanLists 0 b).erase i)).store i { s with used := true })
      (i :: det) := by
  have hok := h.spanOk i s hs
  refine h.of_store hs { s with used := true } rfl rfl ?_
    ⟨hok.pos, hok.start_pos, hok.owner, fun _ => hok.free (Or.inl hu)⟩
    (fun j hj => by simp [hj]) (fun _ => rfl) (fun _ => rfl) rfl h.clock_le
  have := h.lists.take hs { s with used := true } rfl
  simpa [store, setList, hb] using this

/-- **The scan.** It meets no used span, and detaches exactly the spans that pass the test. -/
lemma detachLoop_spec (now : ℕ) {b : ℕ} {l : List ℕ} (h : pc.Inv det) (hl : l.Nodup)
    (hmem : ∀ i ∈ l, i ∈ pc.spanLists 0 b) :
    ∃ chain pc', detachLoop now b l pc = .ok (chain, 0, pc') ∧
      pc'.Inv (chain.reverse ++ det) ∧ chain.Sublist l ∧
      (∀ i, i ∈ chain ↔ i ∈ l ∧ ∃ s, pc.spans i = some s ∧ detachable now s = true) ∧
      pc'.spans = reserve chain pc.spans ∧ pc'.clock = pc.clock ∧
      (∀ q, pc'.pageMap.getSpan q = pc.pageMap.getSpan q) := by
  induction l generalizing pc det with
  | nil =>
    refine ⟨[], pc, rfl, h, List.Sublist.refl _, by simp, ?_, rfl, fun _ => rfl⟩
    funext j
    simp [reserve]
  | cons i rest ih =>
    obtain ⟨hi, hrest⟩ := List.nodup_cons.mp hl
    obtain ⟨s, hs, hu, hb, -, -⟩ := h.listed (hmem i List.mem_cons_self)
    have hderef : pc.deref i = .ok s := by simp [deref, hs]
    by_cases hd : detachable now s = true
    · -- the span is unlinked and reserved, and the scan goes on from there
      have htest := hd
      simp only [detachable, Bool.and_eq_true, decide_eq_true_eq] at htest
      unfold detachLoop
      simp only [hderef, bind, Except.bind, hu, Bool.false_eq_true, if_false]
      rw [if_neg (by simp [htest.1]), if_pos htest.2]
      obtain ⟨chain, pc', hrun, hinv, hsub, hchain, hspans, hclock, hget⟩ :=
        ih (h.detach hs hu hb) hrest (fun j hj => by
          have hne : j ≠ i := by rintro rfl; exact hi hj
          have := hmem j (List.mem_cons_of_mem _ hj)
          simpa [store, setList] using (List.mem_erase_of_ne hne).mpr this)
      have hic : i ∉ chain := fun hc => hi (hsub.subset hc)
      refine ⟨i :: chain, pc', ?_, by simpa using hinv, hsub.cons_cons i, fun j => ?_, ?_,
        hclock, hget⟩
      · rw [hrun]
        rfl
      · by_cases hj : j = i
        · subst hj
          simp [hs, hd]
        · simp only [List.mem_cons, hj, false_or, hchain j]
          simp [store, setList, hj]
      · rw [hspans]
        funext j
        by_cases hj : j = i
        · subst hj
          simp [reserve, hic, store, hs]
        · simp [reserve, store, setList, hj]
    · have hskip : detachLoop now b (i :: rest) pc = detachLoop now b rest pc := by
        rw [detachLoop]
        simp only [hderef, bind, Except.bind, hu, Bool.false_eq_true, if_false]
        by_cases hc : s.committed = true
        · have ht : ¬ subU64 now s.lastUsedTimeMs ≥ kIdleThresholdMs := by
            simpa [detachable, hc] using hd
          rw [if_neg (by simp [hc]), if_neg ht]
        · rw [if_pos (by simp [hc])]
      obtain ⟨chain, pc', hrun, hinv, hsub, hchain, hspans, hclock, hget⟩ :=
        ih h hrest (fun j hj => hmem j (List.mem_cons_of_mem _ hj))
      refine ⟨chain, pc', hskip ▸ hrun, hinv, hsub.cons i, fun j => ?_, hspans, hclock, hget⟩
      rw [hchain j]
      constructor
      · rintro ⟨hj, ht⟩
        exact ⟨List.mem_cons_of_mem _ hj, ht⟩
      · rintro ⟨hj, t, ht, hdt⟩
        rcases List.mem_cons.mp hj with rfl | hj
        · rw [hs] at ht
          obtain rfl := Option.some.inj ht
          exact absurd hdt hd
        · exact ⟨hj, t, ht, hdt⟩

/-- **One `madvise`** changes the committed flag of a span held by the scavenger. -/
lemma madviseSpan_spec (h : pc.Inv det) {i : ℕ} (hi : i ∈ det) (ok : Bool) :
    ∃ s pc', pc.spans i = some s ∧ s.used = true ∧ pc.madviseSpan i ok = .ok pc' ∧ pc'.Inv det ∧
      pc'.spans = Function.update pc.spans i
        (some { s with committed := if ok then false else s.committed }) ∧
      pc'.spanLists = pc.spanLists ∧ pc'.clock = pc.clock ∧ pc'.pageMap = pc.pageMap := by
  obtain ⟨s, hs, hu⟩ := h.detached i hi
  have hok := h.spanOk i s hs
  have hrun : pc.madviseSpan i ok =
      .ok (if ok then pc.store i { s with committed := false } else pc) := by
    simp only [madviseSpan, deref, hs]
    rfl
  refine ⟨s, _, hs, hu, hrun, ?_⟩
  cases ok with
  | true =>
    refine ⟨?_, rfl, rfl, rfl, rfl⟩
    refine h.of_store hs { s with committed := false } rfl rfl ?_
      ⟨hok.pos, hok.start_pos, hok.owner, hok.free⟩ (fun _ _ => Iff.rfl) (fun _ => hu)
      (fun _ => rfl) rfl h.clock_le
    refine h.lists.keep (fun t ht => ?_) (fun t ht => ?_)
    · rw [hs] at ht
      obtain rfl := Option.some.inj ht
      exact hu
    · obtain rfl := Option.some.inj ht
      exact hu
  | false =>
    refine ⟨h, ?_, rfl, rfl, rfl⟩
    have : ({ s with committed := if false = true then false else s.committed } : Span) = s := rfl
    rw [this, ← hs, Function.update_eq_self]
    rfl

/-- **The return of the chain.** Every span goes to the end of the bucket, with its range and
its other fields as they were and a stamp from this section. -/
lemma returnLoop_spec {b : ℕ} {chain : List ℕ} (h : pc.Inv chain) (hnd : chain.Nodup)
    (hb : ∀ i ∈ chain, ∃ s, pc.spans i = some s ∧ s.pageNum = b) :
    ∃ pc', returnLoop b chain pc = .ok pc' ∧ pc'.Inv [] ∧
      pc'.spanLists 0 b = pc.spanLists 0 b ++ chain ∧
      (∀ j, j ∉ chain → pc'.spans j = pc.spans j) ∧
      (∀ j ∈ chain, ∃ s t, pc.spans j = some s ∧ pc.clock ≤ t ∧ t ≤ pc'.clock ∧
        pc'.spans j = some { s with used := false, lastUsedTimeMs := t }) ∧
      pc.clock ≤ pc'.clock ∧ pc'.pageMap = pc.pageMap := by
  induction chain generalizing pc with
  | nil => exact ⟨pc, rfl, h, by simp, fun _ _ => rfl, by simp, le_rfl, rfl⟩
  | cons i rest ih =>
    obtain ⟨hi, hrest⟩ := List.nodup_cons.mp hnd
    obtain ⟨s, hs, hp⟩ := hb i List.mem_cons_self
    obtain ⟨s', hs', hu⟩ := h.detached i List.mem_cons_self
    rw [hs] at hs'
    obtain rfl := Option.some.inj hs'
    have hok := h.spanOk i s hs
    have hderef : pc.deref i = .ok s := by simp [deref, hs]
    obtain ⟨now, env, hnow, hlo, hhi, -⟩ := getCurrentTimeMs_spec pc h.clock_le
    unfold returnLoop
    simp only [hderef, bind, Except.bind, hnow]
    set s₁ : Span := { s with used := false, lastUsedTimeMs := now } with hs₁
    set pc₁ : PageCache := PageCache.setList
      (PageCache.store { pc with clock := now, env := env } i s₁) 0 b
      ((PageCache.store { pc with clock := now, env := env } i s₁).spanLists 0 b ++ [i]) with hpc₁
    have hinv : pc₁.Inv rest := by
      refine h.of_store hs s₁ rfl rfl ?_
        ⟨hok.pos, hok.start_pos, hok.owner, fun _ => hok.free (Or.inr List.mem_cons_self)⟩
        (fun j hj => by simp [hj]) (fun hr => absurd hr hi) (fun _ => rfl) rfl hhi
      have := h.lists.put i s₁ (l := pc.spanLists 0 s₁.pageNum ++ [i])
        (by
          intro t ht
          rw [hs] at ht
          obtain rfl := Option.some.inj ht
          exact hu) rfl (List.perm_append_singleton _ _)
      simpa [hpc₁, store, setList, hs₁, hp] using this
    have hspans₁ : ∀ j, j ≠ i → pc₁.spans j = pc.spans j := by
      intro j hj
      simp [hpc₁, setList, store, hj]
    obtain ⟨pc', hrun, hinv', hlist, hkeep, hret, hclock, hmap⟩ := ih hinv hrest (fun j hj => by
      have hne : j ≠ i := by rintro rfl; exact hi hj
      rw [hspans₁ j hne]
      exact hb j (List.mem_cons_of_mem _ hj))
    have hclock₁ : pc₁.clock = now := rfl
    refine ⟨pc', hrun, hinv', ?_, fun j hj => ?_, fun j hj => ?_, by omega, by rw [hmap]; rfl⟩
    · rw [hlist]
      simp [hpc₁, setList, store]
    · rw [List.mem_cons, not_or] at hj
      rw [hkeep j hj.2, hspans₁ j hj.1]
    · rcases List.mem_cons.mp hj with rfl | hj'
      · refine ⟨s, now, hs, hlo, by omega, ?_⟩
        rw [hkeep j hi]
        simp [hpc₁, setList, store, hs₁]
      · have hne : j ≠ i := by rintro rfl; exact hi hj'
        obtain ⟨u, t, hu', h₁, h₂, h₃⟩ := hret j hj'
        rw [hspans₁ j hne] at hu'
        exact ⟨u, t, hu', by omega, h₂, h₃⟩

/-! ## The pass as a sequence of steps -/

/-- Where the scavenger thread stands in `ScavengeOnePass`: before the scan of a bucket, or
holding a detached `chain` of which `rest` is still to be passed to `madvise`. -/
inductive ScavPc where
  | idle
  | detach (now bucket : ℕ)
  | madvise (now bucket : ℕ) (chain rest : List ℕ)
  deriving DecidableEq, Repr

/-- The spans the scavenger holds. -/
def ScavPc.chain : ScavPc → List ℕ
  | .madvise _ _ chain _ => chain
  | _ => []

/-- The clock sample of the pass. -/
def ScavPc.sample : ScavPc → Option ℕ
  | .idle => none
  | .detach now _ => some now
  | .madvise now _ _ _ => some now

/-- The end of the work on bucket `b`: the buckets are visited from `MAX_PAGE_NUM` down to 1. -/
def ScavPc.nextBucket (now b : ℕ) : ScavPc := if b ≤ 1 then .idle else .detach now (b - 1)

@[simp] lemma ScavPc.chain_nextBucket (now b : ℕ) : (ScavPc.nextBucket now b).chain = [] := by
  unfold ScavPc.nextBucket
  split <;> rfl

/-- The next bucket goes on with the sample of the clock. -/
lemma ScavPc.sample_nextBucket {now b n : ℕ} (h : (ScavPc.nextBucket now b).sample = some n) :
    n = now := by
  unfold ScavPc.nextBucket at h
  split at h
  · exact absurd h (by simp [ScavPc.sample])
  · exact (Option.some.inj h).symm

/-- The next bucket does not begin with a `madvise`. -/
lemma ScavPc.nextBucket_ne_madvise (now b now' b' : ℕ) (chain rest : List ℕ) :
    ScavPc.nextBucket now b ≠ .madvise now' b' chain rest := by
  unfold ScavPc.nextBucket
  split <;> simp

/-- One step of `ScavengeOnePass`: the clock sample at its start, a scan, one `madvise` with
outcome `ok`, or the return of a chain. The number is that of used spans the scan met. -/
def scavengeStep (pc : PageCache) (scav : ScavPc) (ok : Bool) :
    Except Fault (ScavPc × ℕ × PageCache) :=
  match scav with
  | .idle =>
    let (now, pc) := pc.getCurrentTimeMs
    .ok (.detach now maxPageNum, 0, pc)
  | .detach now b => do
    let (chain, errors, pc) ← detachLoop now b (pc.spanLists 0 b) pc
    return (if chain = [] then .nextBucket now b else .madvise now b chain chain, errors, pc)
  | .madvise now b chain (i :: rest) => do
    let pc ← pc.madviseSpan i ok
    return (.madvise now b chain rest, 0, pc)
  | .madvise now b chain [] => do
    let pc ← returnLoop b chain pc
    return (.nextBucket now b, 0, pc)

/-- What holds between the scavenger's steps. -/
structure ScavInv (pc : PageCache) (scav : ScavPc) : Prop where
  inv : pc.Inv scav.chain
  nodup : scav.chain.Nodup
  held : ∀ now b chain rest, scav = .madvise now b chain rest →
    rest <:+ chain ∧ ∀ i ∈ chain, ∃ s, pc.spans i = some s ∧ s.pageNum = b
  sampled : ∀ now, scav.sample = some now → now ≤ pc.clock

/-- The empty page layer. -/
lemma ScavInv.empty : ScavInv {} .idle := by
  refine ⟨⟨fun q i => ?_, ⟨by simp, by simp⟩, by simp, by simp [ScavPc.chain], fun q => ?_,
    List.Pairwise.nil, by simp, Nat.zero_le _⟩, List.nodup_nil, by simp, by simp [ScavPc.sample]⟩
  · simp [PageMap.getSpan, PageMap.leafOf, extents]
  · simp [PageMap.getSpan, PageMap.leafOf]

/-- The invariant depends on the set of detached spans only. -/
lemma Inv.congr_det (h : pc.Inv det) {det' : List ℕ} (hd : ∀ i, i ∈ det' ↔ i ∈ det) :
    pc.Inv det' := by
  refine h.of_spans h.lookup h.lists (fun i s hs => ?_) (fun i hi => h.detached i ((hd i).mp hi))
    (fun _ => Iff.rfl) rfl (fun i s hs _ => ⟨s, hs, rfl⟩) h.clock_le
  have := h.spanOk i s hs
  rwa [← hd i] at this

/-- The loaded answers are not part of it. -/
lemma ScavInv.load {scav : ScavPc} (h : ScavInv pc scav) (env : PageEnv) :
    ScavInv (pc.load env) scav :=
  ⟨h.inv.load env, h.nodup, h.held, h.sampled⟩

/-- Critical sections of other threads do not disturb the scavenger. -/
lemma ScavInv.evolves {pc' : PageCache} {scav : ScavPc} {rel acq : Option ℕ}
    (h : ScavInv pc scav) (he : Evolves pc pc' rel acq) (hinv : pc'.Inv scav.chain)
    (hrel : ∀ i, rel = some i → i ∉ scav.chain) : ScavInv pc' scav where
  inv := hinv
  nodup := h.nodup
  held now b chain rest hscav := by
    obtain ⟨hsuf, hb⟩ := h.held now b chain rest hscav
    refine ⟨hsuf, fun i hi => ?_⟩
    have hi' : i ∈ scav.chain := by rw [hscav]; exact hi
    obtain ⟨s, hs, hp⟩ := hb i hi
    obtain ⟨t, ht, hu⟩ := h.inv.detached i hi'
    rw [hs] at ht
    obtain rfl := Option.some.inj ht
    exact ⟨s, he.used_keep i s hs hu (fun hr => hrel i hr hi'), hp⟩
  sampled now hscav := (h.sampled now hscav).trans he.clock_le

/-- What one scavenger step does to the descriptors. -/
structure ScavEffect (pc : PageCache) (scav : ScavPc) (ok : Bool) (pc' : PageCache)
    (scav' : ScavPc) : Prop where
  /-- No range changes. -/
  extents : pc'.extents = pc.extents
  /-- Outside the chains the used spans are untouched. -/
  held_iff : ∀ j s, s.used = true →
    (pc'.spans j = some s ∧ j ∉ scav'.chain ↔ pc.spans j = some s ∧ j ∉ scav.chain)
  /-- A span that is free afterwards was free or has a stamp from this step. -/
  free_from : ∀ j s, pc'.spans j = some s → s.used = false →
    pc.spans j = some s ∨ (pc.clock ≤ s.lastUsedTimeMs ∧ s.lastUsedTimeMs ≤ pc'.clock)
  /-- A span loses its committed flag only by a successful `madvise`. -/
  committed : ∀ j s, pc'.spans j = some s → s.committed = false →
    (∃ s₀, pc.spans j = some s₀ ∧ s₀.committed = false) ∨
      (ok = true ∧ ∃ now b chain rest, scav = .madvise now b chain (j :: rest))
  clock_le : pc.clock ≤ pc'.clock

/-- A step starts with loading its answers. -/
lemma ScavEffect.of_load {env : PageEnv} {scav scav' : ScavPc} {ok : Bool} {pc' : PageCache}
    (h : ScavEffect (pc.load env) scav ok pc' scav') : ScavEffect pc scav ok pc' scav' :=
  ⟨h.extents, h.held_iff, h.free_from, h.committed, h.clock_le⟩

/-- The start of a pass. -/
lemma scavengeStep_idle (h : ScavInv pc .idle) (ok : Bool) :
    ∃ scav' pc', pc.scavengeStep .idle ok = .ok (scav', 0, pc') ∧ ScavInv pc' scav' ∧
      ScavEffect pc .idle ok pc' scav' ∧ scav'.chain = [] := by
  obtain ⟨now, env, hnow, hlo, hhi, -⟩ := getCurrentTimeMs_spec pc h.inv.clock_le
  refine ⟨.detach now maxPageNum, { pc with clock := now, env := env }, ?_, ?_, ?_, rfl⟩
  · simp only [scavengeStep, hnow]
  · refine ⟨?_, List.nodup_nil, by simp, fun n hn => ?_⟩
    · exact h.inv.of_spans h.inv.lookup h.inv.lists h.inv.spanOk h.inv.detached
        (fun _ => Iff.rfl) rfl (fun i s hs _ => ⟨s, hs, rfl⟩) hhi
    · obtain rfl := Option.some.inj hn
      exact le_rfl
  · exact ⟨rfl, fun _ _ _ => Iff.rfl, fun _ _ hs _ => Or.inl hs,
      fun _ s hs hc => Or.inl ⟨s, hs, hc⟩, hlo⟩

/-- The scan of a bucket. -/
lemma scavengeStep_detach {now b : ℕ} (h : ScavInv pc (.detach now b)) (ok : Bool) :
    ∃ scav' pc', pc.scavengeStep (.detach now b) ok = .ok (scav', 0, pc') ∧ ScavInv pc' scav' ∧
      ScavEffect pc (.detach now b) ok pc' scav' ∧
      ∀ i, i ∈ scav'.chain ↔
        i ∈ pc.spanLists 0 b ∧ ∃ s, pc.spans i = some s ∧ detachable now s = true := by
  obtain ⟨chain, pc', hrun, hinv, hsub, hchain, hspans, hclock, hget⟩ :=
    detachLoop_spec now h.inv (h.inv.lists.nodup b) (fun i hi => hi)
  -- a detached span was unused and is the same but for the flag
  have hmem : ∀ i ∈ chain, ∃ s, pc.spans i = some s ∧ s.used = false ∧ s.pageNum = b ∧
      pc'.spans i = some { s with used := true } := by
    intro i hi
    obtain ⟨s, hs, hu, hp, -⟩ := h.inv.listed ((hchain i).mp hi).1
    exact ⟨s, hs, hu, hp, by rw [hspans]; simp [reserve, hi, hs]⟩
  have hkeep : ∀ j, j ∉ chain → pc'.spans j = pc.spans j := by
    intro j hj
    rw [hspans]
    simp [reserve, hj]
  set scav' : ScavPc := if chain = [] then .nextBucket now b else .madvise now b chain chain
    with hscav'
  have hc : scav'.chain = chain := by
    rw [hscav']
    split
    · rename_i he
      rw [ScavPc.chain_nextBucket, he]
    · rfl
  refine ⟨scav', pc', ?_, ⟨?_, ?_, ?_, ?_⟩, ⟨?_, ?_, ?_, ?_, hclock.ge⟩, ?_⟩
  · simp only [scavengeStep, hrun, bind, Except.bind]
    rfl
  · refine hinv.congr_det fun i => ?_
    rw [hc]
    simp [ScavPc.chain]
  · rw [hc]
    exact hsub.nodup (h.inv.lists.nodup b)
  · intro now' b' chain' rest' he
    by_cases hnil : chain = []
    · rw [hscav', if_pos hnil] at he
      exact absurd he (ScavPc.nextBucket_ne_madvise _ _ _ _ _ _)
    · rw [hscav', if_neg hnil] at he
      obtain ⟨-, rfl, rfl, rfl⟩ := ScavPc.madvise.inj he
      refine ⟨List.suffix_refl _, fun i hi => ?_⟩
      obtain ⟨s, -, -, hp, hs'⟩ := hmem i hi
      exact ⟨_, hs', hp⟩
  · intro n hn
    have hsampled := h.sampled now rfl
    have hn' : n = now := by
      rw [hscav'] at hn
      split at hn
      · exact ScavPc.sample_nextBucket hn
      · exact (Option.some.inj hn).symm
    omega
  · funext j
    by_cases hj : j ∈ chain
    · obtain ⟨s, hs, -, -, hs'⟩ := hmem j hj
      simp [extents, hs, hs', Span.extent]
    · simp [extents, hkeep j hj]
  · intro j s hu
    rw [hc]
    by_cases hj : j ∈ chain
    · obtain ⟨s₀, hs₀, hu₀, -⟩ := hmem j hj
      simp only [hj, not_true, and_false, false_iff, not_and]
      intro hs
      rw [hs₀] at hs
      obtain rfl := Option.some.inj hs
      rw [hu] at hu₀
      exact absurd hu₀ (by simp)
    · simp [hj, hkeep j hj, ScavPc.chain]
  · intro j s hs hu
    by_cases hj : j ∈ chain
    · obtain ⟨s₀, -, -, -, hs'⟩ := hmem j hj
      rw [hs'] at hs
      obtain rfl := Option.some.inj hs
      exact absurd hu (by simp)
    · rw [hkeep j hj] at hs
      exact Or.inl hs
  · intro j s hs hcom
    by_cases hj : j ∈ chain
    · obtain ⟨s₀, hs₀, -, -, hs'⟩ := hmem j hj
      rw [hs'] at hs
      obtain rfl := Option.some.inj hs
      exact Or.inl ⟨s₀, hs₀, hcom⟩
    · rw [hkeep j hj] at hs
      exact Or.inl ⟨s, hs, hcom⟩
  · intro i
    rw [hc]
    exact hchain i

/-- One `madvise`. -/
lemma scavengeStep_madvise {now b i : ℕ} {chain rest : List ℕ}
    (h : ScavInv pc (.madvise now b chain (i :: rest))) (ok : Bool) :
    ∃ pc', pc.scavengeStep (.madvise now b chain (i :: rest)) ok =
        .ok (.madvise now b chain rest, 0, pc') ∧ ScavInv pc' (.madvise now b chain rest) ∧
      ScavEffect pc (.madvise now b chain (i :: rest)) ok pc' (.madvise now b chain rest) := by
  obtain ⟨hsuf, hb⟩ := h.held now b chain _ rfl
  have hi : i ∈ chain := hsuf.subset List.mem_cons_self
  obtain ⟨s, pc', hs, hu, hrun, hinv, hspans, -, hclock, hmap⟩ :=
    madviseSpan_spec (show pc.Inv chain from h.inv) hi ok
  set s' : Span := { s with committed := if ok then false else s.committed } with hs'
  have hself : pc'.spans i = some s' := by rw [hspans, Function.update_self]
  have hkeep : ∀ j, j ≠ i → pc'.spans j = pc.spans j := by
    intro j hj
    rw [hspans, Function.update_of_ne hj]
  refine ⟨pc', ?_, ⟨hinv, h.nodup, ?_, fun n hn => hclock ▸ h.sampled n hn⟩,
    ⟨?_, ?_, ?_, ?_, hclock.ge⟩⟩
  · simp only [scavengeStep, hrun, bind, Except.bind]
    rfl
  · intro now' b' chain' rest' he
    obtain ⟨-, rfl, rfl, rfl⟩ := ScavPc.madvise.inj he
    refine ⟨(List.suffix_cons i rest).trans hsuf, fun j hj => ?_⟩
    obtain ⟨t, ht, hp⟩ := hb j hj
    by_cases hji : j = i
    · subst hji
      rw [hs] at ht
      obtain rfl := Option.some.inj ht
      exact ⟨s', hself, hp⟩
    · exact ⟨t, by rw [hkeep j hji, ht], hp⟩
  · funext j
    by_cases hj : j = i
    · subst hj
      simp [extents, hself, hs, hs', Span.extent]
    · simp [extents, hkeep j hj]
  · intro j t _
    simp only [ScavPc.chain]
    by_cases hj : j = i
    · subst hj
      simp [hi]
    · rw [hkeep j hj]
  · intro j t ht hut
    by_cases hj : j = i
    · subst hj
      rw [hself] at ht
      obtain rfl := Option.some.inj ht
      exact absurd (hu.symm.trans hut) (by simp)
    · rw [hkeep j hj] at ht
      exact Or.inl ht
  · intro j t ht hcom
    by_cases hj : j = i
    · subst hj
      cases ok with
      | true => exact Or.inr ⟨rfl, now, b, chain, rest, rfl⟩
      | false =>
        rw [hself] at ht
        obtain rfl := Option.some.inj ht
        exact Or.inl ⟨s, hs, hcom⟩
    · rw [hkeep j hj] at ht
      exact Or.inl ⟨t, ht, hcom⟩

/-- The return of a chain. -/
lemma scavengeStep_return {now b : ℕ} {chain : List ℕ}
    (h : ScavInv pc (.madvise now b chain [])) (ok : Bool) :
    ∃ pc', pc.scavengeStep (.madvise now b chain []) ok = .ok (.nextBucket now b, 0, pc') ∧
      ScavInv pc' (.nextBucket now b) ∧
      ScavEffect pc (.madvise now b chain []) ok pc' (.nextBucket now b) ∧
      pc'.spanLists 0 b = pc.spanLists 0 b ++ chain := by
  obtain ⟨-, hb⟩ := h.held now b chain _ rfl
  obtain ⟨pc', hrun, hinv, hlist, hkeep, hret, hclock, hmap⟩ :=
    returnLoop_spec (show pc.Inv chain from h.inv) h.nodup hb
  have hchain : (ScavPc.madvise now b chain []).chain = chain := rfl
  refine ⟨pc', ?_, ⟨?_, ?_, ?_, ?_⟩, ⟨?_, ?_, ?_, ?_, hclock⟩, hlist⟩
  · simp only [scavengeStep, hrun, bind, Except.bind]
    rfl
  · rw [ScavPc.chain_nextBucket]
    exact hinv
  · rw [ScavPc.chain_nextBucket]
    exact List.nodup_nil
  · intro now' b' chain' rest' he
    exact absurd he (ScavPc.nextBucket_ne_madvise _ _ _ _ _ _)
  · intro n hn
    have := h.sampled now rfl
    rw [ScavPc.sample_nextBucket hn]
    omega
  · funext j
    by_cases hj : j ∈ chain
    · obtain ⟨s, t, hs, -, -, hs'⟩ := hret j hj
      simp [extents, hs, hs', Span.extent]
    · simp [extents, hkeep j hj]
  · intro j s hu
    rw [hchain, ScavPc.chain_nextBucket]
    by_cases hj : j ∈ chain
    · obtain ⟨s₀, t, -, -, -, hs'⟩ := hret j hj
      simp only [hj, not_true, and_false, iff_false, not_and]
      intro hs
      rw [hs'] at hs
      obtain rfl := Option.some.inj hs
      exact absurd hu (by simp)
    · simp [hj, hkeep j hj]
  · intro j s hs hu
    by_cases hj : j ∈ chain
    · obtain ⟨s₀, t, -, hlo, hhi, hs'⟩ := hret j hj
      rw [hs'] at hs
      obtain rfl := Option.some.inj hs
      exact Or.inr ⟨hlo, hhi⟩
    · rw [hkeep j hj] at hs
      exact Or.inl hs
  · intro j s hs hcom
    by_cases hj : j ∈ chain
    · obtain ⟨s₀, t, hs₀, -, -, hs'⟩ := hret j hj
      rw [hs'] at hs
      obtain rfl := Option.some.inj hs
      exact Or.inl ⟨s₀, hs₀, hcom⟩
    · rw [hkeep j hj] at hs
      exact Or.inl ⟨s, hs, hcom⟩

/-- **Every scavenger step succeeds**, meets no used span on a free list, and keeps what holds
between the steps. -/
theorem scavengeStep_spec {scav : ScavPc} (h : ScavInv pc scav) (ok : Bool) :
    ∃ scav' pc', pc.scavengeStep scav ok = .ok (scav', 0, pc') ∧ ScavInv pc' scav' ∧
      ScavEffect pc scav ok pc' scav' := by
  match scav with
  | .idle =>
    obtain ⟨scav', pc', hrun, hinv, heff, -⟩ := scavengeStep_idle h ok
    exact ⟨scav', pc', hrun, hinv, heff⟩
  | .detach now b =>
    obtain ⟨scav', pc', hrun, hinv, heff, -⟩ := scavengeStep_detach h ok
    exact ⟨scav', pc', hrun, hinv, heff⟩
  | .madvise now b chain (i :: rest) =>
    obtain ⟨pc', hrun, hinv, heff⟩ := scavengeStep_madvise h ok
    exact ⟨_, pc', hrun, hinv, heff⟩
  | .madvise now b chain [] =>
    obtain ⟨pc', hrun, hinv, heff, -⟩ := scavengeStep_return h ok
    exact ⟨_, pc', hrun, hinv, heff⟩

end PageCache

end Ammalloc
