import Ammalloc.Lib.Ownership
import Ammalloc.PageAllocator.Program

set_option relaxedAutoImplicit false
set_option autoImplicit false

/-!
# The mappings under concurrent calls

`SystemAlloc` and `SystemFree` of any number of threads, interleaved at every system call, every use
of the cache of 2 MiB mappings and every counter. A call may be half-way through trimming a mapping,
or may have taken a mapping out of the cache, while others map, unmap and put mappings back.

Each page has an owner: a caller, a call in progress, an entry of the cache, or a `munmap` that
failed. The owners, and the list of ranges that callers have, are not in the program. A call of
`SystemFree` takes a range from its caller, and a call of `SystemAlloc` hands one over, in a step of
their own.

`Get` and `Put` of the cache are single steps here (see `Ammalloc.HugePageCache.Linearizable`), and
a `Put` may be refused at any time.

## Main definitions

* `Ammalloc.PageAllocator.Owner`, `Ammalloc.PageAllocator.Mappings` — the shared state.
* `Ammalloc.PageAllocator.ledgerAnswer` — what an access does to it.
* `Ammalloc.PageAllocator.mappingCode` — the operations.
* `Ammalloc.PageAllocator.Accounted` — every mapped page has its owner.

## Main results

* `Ammalloc.PageAllocator.concurrent_mapping_ledger` — the balance after every interleaving.
-/

namespace Ammalloc

namespace PageAllocator

open SharedCode

/-! ## The shared state -/

/-- Who has a page. -/
inductive Owner where
  | unmapped
  /-- A range that `SystemAlloc` has returned. -/
  | caller (range : Extent)
  /-- A call of thread `t`. -/
  | call (t : ℕ)
  /-- An entry of the cache of 2 MiB mappings. -/
  | cached (ptr : ℕ)
  /-- A `munmap` that failed. -/
  | failed
  deriving DecidableEq, Repr

/-- The allocator with the kernel below it, and who has which page. -/
structure Mappings where
  pa : PageAllocator := {}
  /-- The ranges that callers have. -/
  out : List Extent := []
  owner : ℕ → Owner := fun _ => .unmapped

/-- The pages of a range change hands. -/
def Mappings.assign (s : Mappings) (range : Extent) (o : Owner) : Mappings :=
  { s with owner := fun q => if range.Contains q then o else s.owner q }

/-- What the surroundings decide at an access. -/
structure Choice where
  /-- The answers of the kernel. -/
  os : OsEnv := {}
  /-- `Put` finds no free slot. -/
  refused : Bool := false

/-- The accesses of the allocator, and the steps in which ranges change hands between a call and its
caller. -/
inductive LedgerAccess where
  | base (e : Access)
  /-- `SystemFree` is called for a range. -/
  | claim (range : Extent)
  /-- `SystemAlloc` returns a range. -/
  | give (range : Extent)

/-- The type of the answer. -/
abbrev LedgerAccess.Answer : LedgerAccess → Type
  | base e => e.Answer
  | claim _ | give _ => Unit

/-- An access of thread `t` that the allocator makes. -/
def baseAnswer (t : ℕ) : (e : Access) → Choice → Mappings → e.Answer × Mappings
  | .mmap size _, i, s =>
    match (s.pa.load i.os).mmap size with
    | (.ok ptr, pa) => (.ok ptr, { s with pa := pa }.assign (pageRange ptr size) (.call t))
    | (.error e, pa) => (.error e, { s with pa := pa })
  | .munmap ptr size, i, s =>
    match (s.pa.load i.os).munmap ptr size with
    | (true, pa) => (true, { s with pa := pa }.assign (pageRange ptr size) .unmapped)
    | (false, pa) => (false, { s with pa := pa }.assign (pageRange ptr size) .failed)
  | .get, _, s =>
    match s.pa.cache.get with
    | (ptr, cache) =>
      let s := { s with pa := { s.pa with cache := cache } }
      (ptr, if ptr = 0 then s else s.assign (pageRange ptr hugePageSize) (.call t))
  | .put ptr, i, s =>
    if i.refused then (false, s)
    else
      match s.pa.cache.put ptr with
      | (true, cache) => (true, { s with pa := { s.pa with cache := cache } }.assign
          (pageRange ptr hugePageSize) (.cached ptr))
      | (false, cache) => (false, { s with pa := { s.pa with cache := cache } })
  | .madvise _ _ _, i, s =>
    match (s.pa.load i.os).madvise with
    | (ok, pa) => (ok, { s with pa := pa })
  | .useMapPopulate, _, s => (s.pa.useMapPopulate, s)
  | .fetchAdd c n, _, s => ((), { s with pa := s.pa.count fun stats => stats.fetchAdd c n })

/-- An access of thread `t`. Only ranges that a caller has can be freed. -/
def ledgerAnswer (t : ℕ) : (e : LedgerAccess) → Choice → Mappings → Option (e.Answer × Mappings)
  | .base e, i, s => some (baseAnswer t e i s)
  | .claim range, _, s =>
    if range ∈ s.out then
      some ((), { s with out := s.out.erase range }.assign range (.call t))
    else none
  | .give range, _, s =>
    some ((), { s with out := range :: s.out }.assign range (.caller range))

/-! ## The operations -/

/-- A program of the allocator among these accesses. -/
def lift {α : Type} (p : Prog α) : AccessProgram LedgerAccess LedgerAccess.Answer α :=
  p.embed .base fun _ b => b

/-- A call from outside. -/
inductive MappingCall where
  | systemAlloc (pageNum : ℕ)
  /-- `SystemFree` of a range that `SystemAlloc` has returned, with its own length. -/
  | systemFree (range : Extent)
  deriving DecidableEq, Repr

/-- The calls, with the steps in which ranges change hands. -/
def mappingBody : MappingCall → AccessProgram LedgerAccess LedgerAccess.Answer ℕ
  | .systemAlloc pageNum => do
    let ptr ← lift (Prog.systemAlloc pageNum)
    if ptr = 0 then pure 0
    else do
      AccessProgram.perform (LedgerAccess.give ⟨ptr / pageSize, pageNum⟩)
      pure ptr
  | .systemFree range => do
    AccessProgram.perform (LedgerAccess.claim range)
    lift (Prog.systemFree (range.start * pageSize) range.len)
    pure 0

/-- The page allocator as shared code. -/
def mappingCode : SharedCode MappingCall LedgerAccess LedgerAccess.Answer ℕ Mappings Choice where
  body := mappingBody
  answer := ledgerAnswer

/-! ## The balance -/

/-- No page is in both ranges. -/
def Apart (e f : Extent) : Prop := ∀ q, e.Contains q → ¬ f.Contains q

/-- **Every mapped page has its owner**, and no page has two. -/
structure Accounted (s : Mappings) : Prop where
  mapped : ∀ q, s.pa.pages q = true ↔ s.owner q ≠ .unmapped
  callers : ∀ q e, s.owner q = .caller e ↔ e ∈ s.out ∧ e.Contains q
  cached : ∀ q p, s.owner q = .cached p ↔
    p ∈ s.pa.cache.entries ∧ (pageRange p hugePageSize).Contains q
  failed : ∀ q, s.owner q = .failed ↔ ∃ e ∈ s.pa.failed, e.Contains q
  failed_apart : s.pa.failed.Pairwise Apart
  out_nodup : s.out.Nodup
  out_bounds : ∀ e ∈ s.out, 0 < e.len ∧ 0 < e.start ∧ e.start + e.len ≤ 2 ^ 52
  entries_nodup : s.pa.cache.entries.Nodup
  cache : s.pa.cache.WellFormed
  aligned : ∀ p ∈ s.pa.cache.entries, p % hugePageSize = 0 ∧ 0 < p ∧ p + hugePageSize ≤ 2 ^ 64

/-- The pages that the call of a thread has. -/
def Mappings.own (t : ℕ) (s : Mappings) : Set ℕ := { q | s.owner q = .call t }

/-- The pages of a range. -/
def points (e : Extent) : Set ℕ := { q | e.Contains q }

/-- Thread `t` leaves the pages of the other calls alone. -/
def LeavesOthers (t : ℕ) (s s' : Mappings) : Prop := ∀ u, u ≠ t → s'.own u = s.own u

/-- The protocol of the mappings, in every call. All calls may run together. -/
def protocol : Protocol MappingCall Mappings where
  inv := Accounted
  step t _ := LeavesOthers t

/-- The steps of a thread leave the ranges of the others alone. -/
lemma owned : Owned protocol Mappings.own := fun _ _ _ _ _ hut hstep => hstep _ (Ne.symm hut)

variable {t : ℕ} {s s' : Mappings} {e : Extent} {o : Owner} {m : Set ℕ} {ptr size : ℕ}

/-- Pages that come to thread `t`. -/
lemma own_assign_self (s : Mappings) (e : Extent) (t : ℕ) :
    (s.assign e (.call t)).own t = s.own t ∪ points e := by
  ext q
  simp only [Mappings.own, Mappings.assign, points, Set.mem_ofPred_eq, Set.mem_union]
  by_cases hq : e.Contains q
  · simp [hq]
  · simp [hq]

/-- Pages that go to somebody else. -/
lemma own_assign_ne (s : Mappings) (e : Extent) (ho : o ≠ .call t) :
    (s.assign e o).own t = s.own t \ points e := by
  ext q
  simp only [Mappings.own, Mappings.assign, points, Set.mem_ofPred_eq, Set.mem_sdiff]
  by_cases hq : e.Contains q
  · simp [hq, ho]
  · simp [hq]

/-- Thread `t` may dispose of its own pages, and of those that no call has. -/
lemma step_assign (hown : ∀ q, e.Contains q → ∀ u, u ≠ t → s.owner q ≠ .call u)
    (ho : ∀ u, u ≠ t → o ≠ .call u) : LeavesOthers t s (s.assign e o) := by
  intro u hu
  rw [own_assign_ne s e (ho u hu)]
  ext q
  simp only [Mappings.own, points, Set.mem_sdiff, Set.mem_ofPred_eq, and_iff_left_iff_imp]
  intro hq hqe
  exact hown q hqe u hu hq

/-- Whoever is not concerned when pages change hands has the pages it had. -/
lemma owner_assign_iff {o' : Owner} (ho : o ≠ o') (hold : ∀ q, e.Contains q → s.owner q ≠ o')
    (q : ℕ) : (s.assign e o).owner q = o' ↔ s.owner q = o' := by
  simp only [Mappings.assign]
  by_cases hq : e.Contains q
  · simp [hq, ho, hold q hq]
  · rw [if_neg hq]

/-- Whoever neither gives nor gets the range keeps what it has. -/
lemma owner_assign_other {o₁ o' : Owner} (hold : ∀ q, e.Contains q → s.owner q = o₁)
    (h₁ : o' ≠ o₁) (h₂ : o' ≠ o) (q : ℕ) : (s.assign e o).owner q = o' ↔ s.owner q = o' :=
  owner_assign_iff h₂.symm (fun q hq heq => h₁ (heq.symm.trans (hold q hq))) q

/-- **Pages change hands between a call and the kernel.** -/
lemma Accounted.assign (h : Accounted s) {pa : PageAllocator}
    (hold : ∀ q, e.Contains q → s.owner q = .unmapped ∨ s.owner q = .call t)
    (ho : o = .unmapped ∨ o = .call t ∨ o = .failed) (hcache : pa.cache = s.pa.cache)
    (hfailed : pa.failed = if o = .failed then e :: s.pa.failed else s.pa.failed)
    (hpages : ∀ q, pa.pages q = if e.Contains q then decide (o ≠ .unmapped) else s.pa.pages q) :
    Accounted ({ s with pa := pa }.assign e o) := by
  have hne : ∀ o', o' ≠ .unmapped → o' ≠ .call t → ∀ q, e.Contains q → s.owner q ≠ o' := by
    intro o' h₁ h₂ q hq heq
    rcases hold q hq with h' | h'
    · exact h₁ (heq.symm.trans h')
    · exact h₂ (heq.symm.trans h')
  have hlost : ∀ f ∈ s.pa.failed, Apart e f := fun f hf q hq hqf =>
    hne .failed (by simp) (by simp) q hq ((h.failed q).mpr ⟨f, hf, hqf⟩)
  refine ⟨fun q => ?_, fun q f => ?_, fun q p => ?_, fun q => ?_, ?_, h.out_nodup, h.out_bounds,
    hcache ▸ h.entries_nodup, hcache ▸ h.cache, hcache ▸ h.aligned⟩
  · simp only [Mappings.assign, hpages q]
    by_cases hq : e.Contains q
    · simp [hq]
    · simpa [hq] using h.mapped q
  · refine (owner_assign_iff ?_ (hne (.caller f) (by simp) (by simp)) q).trans (h.callers q f)
    rcases ho with rfl | rfl | rfl <;> simp
  · refine (owner_assign_iff ?_ (hne (.cached p) (by simp) (by simp)) q).trans ?_
    · rcases ho with rfl | rfl | rfl <;> simp
    · simpa only [Mappings.assign, hcache] using h.cached q p
  · simp only [Mappings.assign, hfailed]
    have hfq := h.failed q
    by_cases hof : o = .failed
    · by_cases hq : e.Contains q
      · simp [hq, hof]
      · simpa [hq, hof] using hfq
    · rw [if_neg hof, ← hfq]
      exact owner_assign_iff hof (hne .failed (by simp) (by simp)) q
  · simp only [Mappings.assign, hfailed]
    by_cases hof : o = .failed
    · rw [if_pos hof]
      exact List.pairwise_cons.mpr ⟨hlost, h.failed_apart⟩
    · rw [if_neg hof]
      exact h.failed_apart

/-- What does not touch pages and cache is not noticed. -/
lemma Accounted.of_pa (h : Accounted s) {pa : PageAllocator} (hcache : pa.cache = s.pa.cache)
    (hpages : pa.pages = s.pa.pages) (hfailed : pa.failed = s.pa.failed) :
    Accounted { s with pa := pa } :=
  ⟨by simpa [hpages] using h.mapped, h.callers, by simpa [hcache] using h.cached,
    by simpa [hfailed] using h.failed, by simpa [hfailed] using h.failed_apart, h.out_nodup,
    h.out_bounds, by simpa [hcache] using h.entries_nodup, by simpa [hcache] using h.cache,
    by simpa [hcache] using h.aligned⟩

/-! ## The accesses -/

/-- A triple for a program of the allocator: `m` are the pages that its call has. -/
abbrev Uses {α : Type} (t : ℕ) (m : Set ℕ) (p : Prog α) (Q : α → Set ℕ → Prop) : Prop :=
  Triple protocol Mappings.own (fun t e i s => some (baseAnswer t e i s)) t m p Q

/-- A single access. -/
lemma uses_perform {a : Access} {Q : a.Answer → Set ℕ → Prop}
    (h : ∀ s i, Accounted s → s.own t = m →
      Accounted (baseAnswer t a i s).2 ∧ LeavesOthers t s (baseAnswer t a i s).2 ∧
        Q (baseAnswer t a i s).1 ((baseAnswer t a i s).2.own t)) :
    Uses t m (AccessProgram.perform a) Q := by
  refine triple_perform owned fun s i b s' hs hm hb => ?_
  have heq : baseAnswer t a i s = (b, s') := Option.some.inj hb
  obtain ⟨hinv, hstep, hQ⟩ := h s i hs hm
  rw [heq] at hinv hstep hQ
  exact ⟨hinv, fun _ => hstep, hQ⟩

/-- An access after which no page has another owner. -/
lemma uses_perform_of_pa {a : Access}
    (h : ∀ s i, ∃ pa, (baseAnswer t a i s).2 = { s with pa := pa } ∧ pa.cache = s.pa.cache ∧
      pa.pages = s.pa.pages ∧ pa.failed = s.pa.failed) :
    Uses t m (AccessProgram.perform a) fun _ m' => m' = m := by
  refine uses_perform fun s i hs hm => ?_
  obtain ⟨pa, heq, hcache, hpages, hfailed⟩ := h s i
  rw [heq]
  exact ⟨hs.of_pa hcache hpages hfailed, fun u _ => rfl, hm⟩

/-- A bump of a counter needs no range. -/
lemma uses_count (c : Counter) (n : ℕ) : Uses t m (Prog.count c n) fun _ m' => m' = m :=
  uses_perform_of_pa fun s _ => ⟨s.pa.count fun stats => stats.fetchAdd c n, rfl, rfl, rfl, rfl⟩

/-- A look at the configuration needs no range. -/
lemma uses_useMapPopulate : Uses t m Prog.useMapPopulate fun _ m' => m' = m :=
  uses_perform_of_pa fun s _ => ⟨s.pa, rfl, rfl, rfl, rfl⟩

/-- A `madvise` needs no range. -/
lemma uses_madvise (advice : Advice) :
    Uses t m (Prog.madvise ptr size advice) fun _ m' => m' = m :=
  uses_perform_of_pa fun s i => ⟨(s.pa.load i.os).madvise.2, rfl, rfl, rfl, rfl⟩

/-- What a call has that got `size` bytes at `ptr`. -/
structure Obtained (align size ptr : ℕ) (m : Set ℕ) : Prop where
  aligned : ptr % align = 0
  pos : 0 < ptr
  limit : ptr + size ≤ 2 ^ 64
  pages : m = points (pageRange ptr size)

/-- What `mmap` answers. -/
lemma mmap_cases (pa : PageAllocator) (size : ℕ) :
    (∃ e pa', pa.mmap size = (.error e, pa') ∧ pa'.cache = pa.cache ∧ pa'.pages = pa.pages ∧
        pa'.failed = pa.failed) ∨
      ∃ ptr pa', pa.mmap size = (.ok ptr, pa') ∧ pa.Mappable ptr size ∧ pa'.cache = pa.cache ∧
        (pa'.pages = fun q => if (pageRange ptr size).Contains q then true else pa.pages q) ∧
        pa'.failed = pa.failed := by
  unfold PageAllocator.mmap
  simp only
  split
  · rename_i ptr _
    by_cases hmap : pa.Mappable ptr size
    · rw [if_pos hmap]
      exact .inr ⟨ptr, _, rfl, hmap, rfl, rfl, rfl⟩
    · rw [if_neg hmap]
      exact .inl ⟨_, _, rfl, rfl, rfl, rfl⟩
  · exact .inl ⟨_, _, rfl, rfl, rfl, rfl⟩

/-- **`mmap`** of a call that has no pages. -/
lemma uses_mmap (populate : Bool) :
    Uses t ∅ (Prog.mmap size populate) fun r m' =>
      (∃ e, r = .error e ∧ m' = ∅) ∨ ∃ ptr, r = .ok ptr ∧ Obtained pageSize size ptr m' := by
  refine uses_perform fun s i hs hm => ?_
  rcases mmap_cases (s.pa.load i.os) size with
    ⟨e, pa, heq, hcache, hpages, hfailed⟩ |
    ⟨ptr, pa, heq, ⟨halign, hpos, hend, hfree⟩, hcache, hpages, hfailed⟩
  · simp only [baseAnswer, heq]
    exact ⟨hs.of_pa hcache hpages hfailed, fun u _ => rfl, .inl ⟨e, rfl, hm⟩⟩
  · simp only [baseAnswer, heq]
    have hold : ∀ q, (pageRange ptr size).Contains q → s.owner q = .unmapped := by
      intro q hq
      by_contra hne
      have hmapped := (hs.mapped q).mpr hne
      obtain ⟨h₁, h₂⟩ := hq
      simp only [pageRange] at h₁ h₂
      have hq' := hfree (q - ptr / pageSize) (by omega)
      rw [Nat.add_sub_cancel' h₁] at hq'
      exact absurd (hmapped.symm.trans hq') (by decide)
    refine ⟨hs.assign (fun q hq => .inl (hold q hq)) (.inr (.inl rfl)) hcache hfailed fun q => ?_,
      ?_, .inr ⟨ptr, rfl, halign, hpos, hend, ?_⟩⟩
    · simp [hpages, PageAllocator.load]
    · refine step_assign (s := { s with pa := pa }) (fun q hq u _ => ?_) fun u hu => ?_
      · simp [hold q hq]
      · simpa using Ne.symm hu
    · rw [own_assign_self]
      exact (congrArg (· ∪ _) hm).trans (Set.empty_union _)

/-- What `munmap` answers. -/
lemma munmap_cases (pa : PageAllocator) (ptr size : ℕ) :
    (∃ pa', pa.munmap ptr size = (true, pa') ∧ pa'.cache = pa.cache ∧
        (pa'.pages = fun q => if (pageRange ptr size).Contains q then false else pa.pages q) ∧
        pa'.failed = pa.failed) ∨
      ∃ pa', pa.munmap ptr size = (false, pa') ∧ pa'.cache = pa.cache ∧ pa'.pages = pa.pages ∧
        pa'.failed = pageRange ptr size :: pa.failed := by
  unfold PageAllocator.munmap
  simp only
  split
  · exact .inl ⟨_, rfl, rfl, rfl, rfl⟩
  · exact .inr ⟨_, rfl, rfl, rfl, rfl⟩

/-- **`munmap`** of pages of the call. Whatever it answers, the call does not have them any more. -/
lemma uses_munmap (hsub : points (pageRange ptr size) ⊆ m) :
    Uses t m (Prog.munmap ptr size) fun _ m' => m' = m \ points (pageRange ptr size) := by
  refine uses_perform fun s i hs hm => ?_
  have hold : ∀ q, (pageRange ptr size).Contains q → s.owner q = .call t := by
    intro q hq
    have hmem : q ∈ s.own t := hm ▸ hsub hq
    exact hmem
  have hstep : ∀ (pa : PageAllocator) {o : Owner}, (∀ u, u ≠ t → o ≠ .call u) →
      LeavesOthers t s ({ s with pa := pa }.assign (pageRange ptr size) o) := by
    intro pa o ho
    refine step_assign (s := { s with pa := pa }) (fun q hq u hu => ?_) ho
    simpa [hold q hq] using Ne.symm hu
  rcases munmap_cases (s.pa.load i.os) ptr size with
    ⟨pa, heq, hcache, hpages, hfailed⟩ | ⟨pa, heq, hcache, hpages, hfailed⟩
  · simp only [baseAnswer, heq]
    refine ⟨hs.assign (fun q hq => .inr (hold q hq)) (.inl rfl) hcache hfailed fun q => ?_,
      hstep pa (by simp), ?_⟩
    · simp [hpages, PageAllocator.load]
    · rw [own_assign_ne _ _ (by simp), ← hm]
      rfl
  · simp only [baseAnswer, heq]
    refine ⟨hs.assign (fun q hq => .inr (hold q hq)) (.inr (.inr rfl)) hcache hfailed fun q => ?_,
      hstep pa (by simp), ?_⟩
    · by_cases hq : (pageRange ptr size).Contains q
      · have hmapped : s.pa.pages q = true := (hs.mapped q).mpr (by simp [hold q hq])
        simp [hpages, PageAllocator.load, hq, hmapped]
      · simp [hpages, PageAllocator.load, hq]
    · rw [own_assign_ne _ _ (by simp), ← hm]
      rfl

section Cache

variable {cache : HugePageCache} {p : ℕ} {rest : List ℕ}

/-- An entry leaves the cache. -/
lemma Accounted.uncache (h : Accounted s) (heq : s.pa.cache.entries = p :: rest)
    (hcache : cache.WellFormed) (hrest : cache.entries = rest) :
    Accounted ({ s with pa := { s.pa with cache := cache } }.assign (pageRange p hugePageSize)
      (.call t)) := by
  have hnodup : p ∉ rest ∧ rest.Nodup := List.nodup_cons.mp (heq ▸ h.entries_nodup)
  have hold : ∀ q, (pageRange p hugePageSize).Contains q → s.owner q = .cached p :=
    fun q hq => (h.cached q p).mpr ⟨by simp [heq], hq⟩
  refine ⟨fun q => ?_, fun q f => ?_, fun q p' => ?_, fun q => ?_, h.failed_apart, h.out_nodup,
    h.out_bounds, ?_, hcache, ?_⟩
  · exact (h.mapped q).trans (not_congr (owner_assign_other hold (by simp) (by simp) q).symm)
  · exact (owner_assign_other hold (by simp) (by simp) q).trans (h.callers q f)
  · simp only [Mappings.assign, hrest]
    by_cases hq : (pageRange p hugePageSize).Contains q
    · rw [if_pos hq]
      refine iff_of_false (by simp) fun hp' => hnodup.1 ?_
      have hp : s.owner q = .cached p' := (h.cached q p').mpr ⟨by simp [heq, hp'.1], hp'.2⟩
      obtain rfl : p = p' := Owner.cached.inj ((hold q hq).symm.trans hp)
      exact hp'.1
    · rw [if_neg hq, h.cached q p', heq, List.mem_cons]
      refine and_congr_left fun hp' => or_iff_right fun hpp => hq ?_
      exact hpp ▸ hp'
  · exact (owner_assign_other hold (by simp) (by simp) q).trans (h.failed q)
  · simpa [Mappings.assign, hrest] using hnodup.2
  · intro p' hp'
    refine h.aligned p' ?_
    rw [heq]
    exact List.mem_cons_of_mem _ (hrest ▸ hp')

/-- An entry comes into the cache. -/
lemma Accounted.encache (h : Accounted s)
    (hold : ∀ q, (pageRange p hugePageSize).Contains q → s.owner q = .call t)
    (hp : p % hugePageSize = 0 ∧ 0 < p ∧ p + hugePageSize ≤ 2 ^ 64)
    (hcache : cache.WellFormed) (heq : cache.entries = p :: s.pa.cache.entries) :
    Accounted ({ s with pa := { s.pa with cache := cache } }.assign (pageRange p hugePageSize)
      (.cached p)) := by
  have hnew : p ∉ s.pa.cache.entries := by
    intro hmem
    have hfirst : (pageRange p hugePageSize).Contains (p / pageSize) :=
      ⟨le_rfl, Nat.lt_add_of_pos_right (by decide : 0 < hugePageSize / pageSize)⟩
    exact absurd ((hold _ hfirst).symm.trans ((h.cached _ p).mpr ⟨hmem, hfirst⟩)) (by simp)
  refine ⟨fun q => ?_, fun q f => ?_, fun q p' => ?_, fun q => ?_, h.failed_apart, h.out_nodup,
    h.out_bounds, ?_, hcache, ?_⟩
  · exact (h.mapped q).trans (not_congr (owner_assign_other hold (by simp) (by simp) q).symm)
  · exact (owner_assign_other hold (by simp) (by simp) q).trans (h.callers q f)
  · simp only [Mappings.assign, heq, List.mem_cons]
    by_cases hq : (pageRange p hugePageSize).Contains q
    · rw [if_pos hq]
      refine ⟨fun hpp => ?_, fun hp' => ?_⟩
      · obtain rfl : p = p' := Owner.cached.inj hpp
        exact ⟨.inl rfl, hq⟩
      · rcases hp' with ⟨rfl | hmem, hq'⟩
        · rfl
        · exact absurd ((hold q hq).symm.trans ((h.cached q p').mpr ⟨hmem, hq'⟩)) (by simp)
    · rw [if_neg hq, h.cached q p']
      refine and_congr_left fun hp' => (or_iff_right fun hpp => hq ?_).symm
      exact hpp ▸ hp'
  · exact (owner_assign_other hold (by simp) (by simp) q).trans (h.failed q)
  · simpa [Mappings.assign, heq] using ⟨hnew, h.entries_nodup⟩
  · intro p' hp'
    rcases List.mem_cons.mp (heq ▸ hp') with rfl | hmem
    · exact hp
    · exact h.aligned p' hmem

/-- **`Get`** of a call that has no pages. -/
lemma uses_get : Uses t ∅ Prog.get fun ptr m' =>
    (ptr = 0 ∧ m' = ∅) ∨ Obtained hugePageSize hugePageSize ptr m' := by
  refine uses_perform fun s i hs hm => ?_
  rcases HugePageCache.get_spec hs.cache with ⟨-, heq⟩ | ⟨p, rest, heq, hp, hcache, hrest⟩
  · simp only [baseAnswer, heq]
    exact ⟨hs.of_pa rfl rfl rfl, fun u _ => rfl, .inl ⟨trivial, hm⟩⟩
  · obtain ⟨halign, hpos, hend⟩ := hs.aligned p (by simp [heq])
    have hne : s.pa.cache.get.1 ≠ 0 := by omega
    simp only [baseAnswer, hp, if_neg (hp ▸ hne)]
    refine ⟨hs.uncache heq hcache hrest, ?_, .inr ⟨halign, hpos, hend, ?_⟩⟩
    · refine step_assign (s := { s with pa := { s.pa with cache := s.pa.cache.get.2 } })
        (fun q hq u _ => ?_) fun u hu => ?_
      · have howner : s.owner q = .cached p := (hs.cached q p).mpr ⟨by simp [heq], hq⟩
        simp [howner]
      · simpa using Ne.symm hu
    · rw [own_assign_self]
      exact (congrArg (· ∪ _) hm).trans (Set.empty_union _)

/-- **`Put`**: the cache has the pages, or the call still has them. -/
lemma uses_put (h : Obtained hugePageSize hugePageSize ptr m) :
    Uses t m (Prog.put ptr) fun ok m' => m' = if ok then ∅ else m := by
  refine uses_perform fun s i hs hm => ?_
  have hold : ∀ q, (pageRange ptr hugePageSize).Contains q → s.owner q = .call t := by
    intro q hq
    have hmem : q ∈ s.own t := by
      rw [hm, h.pages]
      exact hq
    exact hmem
  simp only [baseAnswer]
  cases i.refused with
  | true => exact ⟨hs, fun u _ => rfl, hm⟩
  | false =>
    rcases HugePageCache.put_spec hs.cache ptr with heq | ⟨hok, hcache, hentries⟩
    · rw [heq]
      exact ⟨hs.of_pa rfl rfl rfl, fun u _ => rfl, hm⟩
    · rcases hput : s.pa.cache.put ptr with ⟨ok, cache⟩
      rw [hput] at hok hcache hentries
      obtain rfl : ok = true := hok
      refine ⟨hs.encache hold ⟨h.aligned, h.pos, h.limit⟩ hcache hentries, ?_, ?_⟩
      · refine step_assign (s := { s with pa := { s.pa with cache := cache } })
          (fun q hq u hu => ?_) (by simp)
        simpa [hold q hq] using Ne.symm hu
      · refine (own_assign_ne _ _ (by simp)).trans ?_
        change s.own t \ _ = ∅
        rw [hm, h.pages, Set.sdiff_self]

end Cache

/-! ## Allocation -/

variable {α : Type} {Q : α → Set ℕ → Prop} {align : ℕ} {f : TrimParts}

/-- The null pointer and no pages, or a mapping. -/
def Yielded (align size ptr : ℕ) (m : Set ℕ) : Prop :=
  (ptr = 0 ∧ m = ∅) ∨ Obtained align size ptr m

/-- A null result leaves the thread with nothing. -/
lemma uses_null : Uses t ∅ (pure 0) (Yielded align size) := triple_pure (.inl ⟨rfl, rfl⟩)

/-- What changes no owner may come first. -/
lemma uses_bind_of_eq {β : Type} {p : Prog β} {g : β → Prog α}
    (hp : Uses t m p fun _ m' => m' = m) (hg : ∀ b, Uses t m (g b) Q) : Uses t m (p >>= g) Q :=
  triple_bind hp fun b _ hm' => hm' ▸ hg b

/-- After an allocation: it failed, or the call has the mapping. -/
lemma uses_ifNull {p : Prog ℕ} {P : Prog α} {F : ℕ → Prog α} (hp : Uses t m p (Yielded align size))
    (hnull : Uses t ∅ P Q) (hsome : ∀ ptr m', Obtained align size ptr m' → Uses t m' (F ptr) Q) :
    Uses t m (p >>= fun ptr => if ptr = 0 then P else F ptr) Q := by
  refine triple_bind hp fun ptr m' hy => ?_
  rcases hy with ⟨rfl, rfl⟩ | hgot
  · rw [if_pos rfl]
    exact hnull
  · rw [if_neg hgot.pos.ne']
    exact hsome ptr m' hgot

/-- `SafeMunmap` of pages of the call. -/
lemma uses_safeMunmap (hptr : ptr ≠ 0) (hsub : points (pageRange ptr size) ⊆ m) :
    Uses t m (Prog.safeMunmap ptr size) fun _ m' => m' = m \ points (pageRange ptr size) := by
  unfold Prog.safeMunmap
  split
  · rename_i hzero
    obtain rfl : size = 0 := hzero.resolve_left hptr
    have hnone : points (pageRange ptr 0) = ∅ := by
      ext q
      simp only [points, pageRange, Extent.Contains, Set.mem_ofPred_eq, Set.mem_empty_iff_false,
        Nat.zero_div, iff_false]
      omega
    rw [hnone, Set.sdiff_empty]
    exact triple_pure rfl
  · refine triple_bind (uses_munmap hsub) fun ok m' hm' => ?_
    subst hm'
    split
    · exact triple_pure rfl
    · exact uses_bind_of_eq (uses_count _ _) fun _ => triple_pure rfl

/-- `SafeMunmap` with its result ignored takes the range away from the thread. -/
lemma uses_unmap (hptr : ptr ≠ 0) (hsub : points (pageRange ptr size) ⊆ m) :
    Uses t m (Prog.unmap ptr size) fun _ m' => m' = m \ points (pageRange ptr size) :=
  triple_bind (uses_safeMunmap hptr hsub) fun _ _ hm' => triple_pure hm'

/-- The loop of `AllocWithRetry`, by induction on the retries. -/
lemma uses_retryLoop (retries : ℕ) (populate : Bool) :
    Uses t ∅ (Prog.retryLoop retries size populate) (Yielded pageSize size) := by
  induction retries with
  | zero => exact uses_null
  | succ retries ih =>
    refine triple_bind (uses_mmap populate) fun r m' hr => ?_
    rcases hr with ⟨e, rfl, rfl⟩ | ⟨ptr, rfl, hgot⟩
    · cases e with
      | enomem => exact uses_bind_of_eq (uses_count _ _) fun _ => ih
      | other => exact uses_bind_of_eq (uses_count _ _) fun _ => uses_null
    · exact triple_pure (.inr hgot)

/-- `AllocWithRetry` leaves the thread with a new range, or with nothing. -/
lemma uses_allocWithRetry (populate : Bool) :
    Uses t ∅ (Prog.allocWithRetry size populate) (Yielded pageSize size) :=
  uses_retryLoop maxAllocRetries populate

/-- A hint, with the count of its failures, needs no range. -/
lemma uses_hint (advice : Advice) : Uses t m (Prog.hint ptr size advice) fun _ m' => m' = m := by
  refine uses_bind_of_eq (uses_madvise advice) fun ok => ?_
  split
  · exact triple_pure rfl
  · exact uses_count _ _

/-- `ApplyHugePageHint` needs no range. -/
lemma uses_applyHugePageHint :
    Uses t m (Prog.applyHugePageHint ptr size) fun _ m' => m' = m := by
  refine uses_bind_of_eq (uses_hint _) fun _ => uses_bind_of_eq uses_useMapPopulate fun b => ?_
  split
  · exact uses_hint _
  · exact triple_pure rfl

/-- **`AllocNormalPage`.** -/
lemma uses_allocNormalPage :
    Uses t ∅ (Prog.allocNormalPage size) (Yielded pageSize size) := by
  refine uses_bind_of_eq (uses_count _ _) fun _ => uses_bind_of_eq uses_useMapPopulate fun b => ?_
  refine uses_ifNull (uses_allocWithRetry b) ?_ fun ptr m' hgot => ?_
  · exact uses_bind_of_eq (uses_count _ _) fun _ => uses_null
  · exact uses_bind_of_eq (uses_count _ _) fun _ => uses_bind_of_eq (uses_count _ _) fun _ =>
      triple_pure (.inr hgot)

/-- A failed `AllocHugePage` leaves the thread with nothing. -/
lemma uses_hugeAllocFailed : Uses t ∅ Prog.hugeAllocFailed (Yielded align size) :=
  uses_bind_of_eq (uses_count _ _) fun _ => uses_null

/-- An `AllocHugePage` that succeeds leaves the thread with its range. -/
lemma uses_hugeAllocDone (h : Obtained align size ptr m) :
    Uses t m (Prog.hugeAllocDone ptr size) (Yielded align size) :=
  uses_bind_of_eq uses_applyHugePageHint fun _ => uses_bind_of_eq (uses_count _ _) fun _ =>
    uses_bind_of_eq (uses_count _ _) fun _ => triple_pure (.inr h)

/-- The pages of two parts of a mapping that lie next to each other. -/
lemma points_add {a : ℕ} (b : ℕ) (hptr : ptr % pageSize = 0) (ha : a % pageSize = 0) :
    points (pageRange ptr (a + b)) =
        points (pageRange ptr a) ∪ points (pageRange (ptr + a) b) ∧
      points (pageRange ptr (a + b)) \ points (pageRange ptr a) =
        points (pageRange (ptr + a) b) ∧
      points (pageRange ptr (a + b)) \ points (pageRange (ptr + a) b) =
        points (pageRange ptr a) := by
  refine ⟨?_, ?_, ?_⟩
  all_goals
    ext q
    simp only [points, pageRange, Extent.Contains, Set.mem_ofPred_eq, Set.mem_union, Set.mem_sdiff]
    unfold pageSize at *
    omega

/-- `AllocHugePageWithTrim` once the head is trimmed: body and tail are left. -/
lemma uses_trimTail (hf : f.Ok size)
    (hm : m = points (pageRange f.bodyPtr (size + f.tailGap))) :
    Uses t m (Prog.trimTail f) (Yielded hugePageSize size) := by
  obtain ⟨⟨hhead, hnull⟩, hgap, hbody, halign, ⟨hsize, hpos, hmul⟩, htail, ⟨-, htailGap⟩, hlimit⟩ :=
    hf
  rw [hsize] at htail
  obtain ⟨hsplit, -, hcut⟩ := points_add f.tailGap
    (show f.bodyPtr % pageSize = 0 by unfold hugePageSize at halign; unfold pageSize; omega) hmul
  rw [← htail] at hsplit hcut
  have hrest : m \ points (pageRange f.tailPtr f.tailGap) = points (pageRange f.bodyPtr size) := by
    rw [hm, hcut]
  refine triple_bind (Q := fun _ m' => m' = points (pageRange f.bodyPtr size)) ?_
    fun trimmed m' hm' => ?_
  · unfold Prog.trim
    rw [if_pos htailGap, ← hrest]
    exact uses_safeMunmap (by omega) (hm ▸ hsplit ▸ Set.subset_union_right)
  · subst hm'
    split
    · refine uses_bind_of_eq (uses_count _ _) fun _ => ?_
      rw [hsize]
      exact uses_hugeAllocDone ⟨halign, by omega, by omega, rfl⟩
    · -- the tail could not be unmapped: the body goes too
      refine triple_bind (Q := fun _ m' => m' = ∅) ?_ fun _ _ hm' => hm' ▸ uses_hugeAllocFailed
      rw [Prog.cleanupRemainingMappings, hsize]
      refine triple_bind (uses_unmap (by omega) subset_rfl) fun _ m' hm' => ?_
      rw [Set.sdiff_self] at hm'
      exact uses_bind_of_eq (triple_pure rfl) fun _ => triple_pure hm'

/-- `AllocHugePageWithTrim` once the parts are known. -/
lemma uses_trimHead (hf : f.Ok size)
    (hm : m = points (pageRange f.headPtr (f.headGap + (size + f.tailGap)))) :
    Uses t m (Prog.trimHead f) (Yielded hugePageSize size) := by
  obtain ⟨⟨hhead, hnull⟩, hgap, hbody, halign, ⟨hsize, hpos, hmul⟩, htail, ⟨-, htailGap⟩, hlimit⟩ :=
    id hf
  rw [hsize] at htail
  obtain ⟨hsplit, hcut, -⟩ := points_add (size + f.tailGap) hhead hgap
  rw [← hbody] at hsplit hcut
  have hrest : m \ points (pageRange f.headPtr f.headGap) =
      points (pageRange f.bodyPtr (size + f.tailGap)) := by
    rw [hm, hcut]
  refine triple_bind
    (Q := fun _ m' => m' = points (pageRange f.bodyPtr (size + f.tailGap))) ?_
    fun trimmed m' hm' => ?_
  · unfold Prog.trim
    split
    · rw [← hrest]
      exact uses_safeMunmap (by omega) (hm ▸ hsplit ▸ Set.subset_union_left)
    · have hzero : f.headGap = 0 := by omega
      refine triple_pure ?_
      rw [hm, hbody, hzero, Nat.zero_add, Nat.add_zero]
  · split
    · exact uses_trimTail hf hm'
    · -- the head could not be unmapped: body and tail go too
      obtain ⟨hparts, hcut', -⟩ := points_add f.tailGap
        (show f.bodyPtr % pageSize = 0 by unfold hugePageSize at halign; unfold pageSize; omega)
        hmul
      rw [← htail] at hparts hcut'
      refine triple_bind (Q := fun _ m' => m' = ∅) ?_ fun _ _ hm' => hm' ▸ uses_hugeAllocFailed
      rw [Prog.cleanupRemainingMappings, hsize]
      refine triple_bind (uses_unmap (by omega) (hm' ▸ hparts ▸ Set.subset_union_left))
        fun _ n hn => ?_
      rw [hm', hcut'] at hn
      refine triple_bind (Q := fun _ m' => m' = ∅) ?_ fun _ _ hn' => triple_pure hn'
      simp only [Prog.unmapIf, gt_iff_lt, htailGap, decide_true, Bool.not_false, Bool.and_self,
        if_true]
      refine (uses_unmap (by omega) hn.ge).mono fun _ m'' hm'' => ?_
      rw [hm'', hn, Set.sdiff_self]

/-- **`AllocHugePageWithTrim`.** -/
lemma uses_allocHugePageWithTrim (hpos : 0 < size) (hmul : size % pageSize = 0) :
    Uses t ∅ (Prog.allocHugePageWithTrim size) (Yielded hugePageSize size) := by
  unfold Prog.allocHugePageWithTrim
  split
  · exact uses_hugeAllocFailed
  · rename_i hle
    have hsum : size + hugePageSize < 2 ^ 64 := by
      unfold sizeMax hugePageSize at *
      omega
    rw [addU64_of_lt hsum]
    refine uses_ifNull (uses_allocWithRetry false) uses_hugeAllocFailed fun rawAddr m' hgot => ?_
    obtain ⟨f, hparts, hok, hhead, hsize⟩ :=
      trimParts_eq {} hgot.aligned hgot.pos hgot.limit hpos hmul
    have hf : Prog.trimParts rawAddr (size + hugePageSize) size = f := by
      rw [← trimParts_fst {}, hparts]
    rw [hf]
    refine uses_trimHead hok ?_
    rw [hhead, hsize]
    exact hgot.pages

/-- **`AllocHugePage`.** -/
lemma uses_allocHugePage (hpos : 0 < size) (hmul : size % pageSize = 0) :
    Uses t ∅ (Prog.allocHugePage size) (Yielded hugePageSize size) := by
  refine uses_bind_of_eq (uses_count _ _) fun _ => ?_
  refine uses_ifNull (uses_allocWithRetry false) uses_hugeAllocFailed fun ptr m' hgot => ?_
  split
  · rename_i halign
    exact uses_hugeAllocDone
      ⟨(isHugePageAligned_iff ptr).mp halign, hgot.pos, hgot.limit, hgot.pages⟩
  · -- the mapping is not 2 MiB aligned: it is given back before a larger one is made
    refine triple_bind (uses_unmap hgot.pos.ne' hgot.pages.ge) fun _ m'' hm'' => ?_
    rw [hgot.pages, Set.sdiff_self] at hm''
    exact hm'' ▸ uses_allocHugePageWithTrim hpos hmul

/-- Normal pages: the thread has its range, or nothing. -/
lemma uses_allocNormalOrFail :
    Uses t ∅ (Prog.allocNormalOrFail size) (Yielded pageSize size) :=
  uses_ifNull uses_allocNormalPage (uses_bind_of_eq (uses_count _ _) fun _ => uses_null)
    fun _ _ hgot => triple_pure (.inr hgot)

/-- A 2 MiB aligned mapping is page aligned. -/
lemma Obtained.of_huge (h : Obtained hugePageSize size ptr m) : Obtained pageSize size ptr m := by
  refine ⟨?_, h.pos, h.limit, h.pages⟩
  have halign := h.aligned
  unfold hugePageSize at halign
  unfold pageSize
  omega

/-- Huge pages, or the fallback: the thread has its range, or nothing. -/
lemma uses_allocHugeOrNormal (hpos : 0 < size) (hmul : size % pageSize = 0) :
    Uses t ∅ (Prog.allocHugeOrNormal size) (Yielded pageSize size) :=
  uses_ifNull (uses_allocHugePage hpos hmul)
    (uses_bind_of_eq (uses_count _ _) fun _ => uses_allocNormalOrFail)
    fun _ _ hgot => triple_pure (.inr hgot.of_huge)

/-- The size of `n` pages in `size_t`. -/
lemma shiftLeft_pageShift {n : ℕ} (hn : n ≠ 0) (hle : ¬ n > sizeMax >>> pageShift) :
    n <<< pageShift % 2 ^ 64 = n * pageSize ∧ 0 < n * pageSize ∧ n * pageSize % pageSize = 0 :=
  ⟨congrArg Prod.fst (show ({} : PageAllocator).byteSize n = _ from byteSize_eq hle),
    Nat.mul_pos (Nat.pos_of_ne_zero hn) (by decide), Nat.mul_mod_left _ _⟩

/-- **`SystemAlloc`.** -/
lemma uses_systemAlloc (n : ℕ) :
    Uses t ∅ (Prog.systemAlloc n) (Yielded pageSize (n * pageSize)) := by
  unfold Prog.systemAlloc
  split
  · exact uses_null
  · rename_i hn
    split
    · exact uses_null
    · rename_i hle
      obtain ⟨hsize, hpos, hmul⟩ := shiftLeft_pageShift hn hle
      simp only [hsize]
      split
      · exact uses_allocNormalOrFail
      · split
        · rename_i hhuge
          refine triple_bind uses_get fun ptr m' hget => ?_
          rcases hget with ⟨rfl, rfl⟩ | hgot
          · rw [if_neg (by simp)]
            exact uses_bind_of_eq (uses_count _ _) fun _ => uses_allocHugeOrNormal hpos hmul
          · rw [if_pos ⟨hgot.pos.ne', (isHugePageAligned_iff ptr).mpr hgot.aligned⟩, hhuge]
            exact uses_bind_of_eq (uses_count _ _) fun _ => triple_pure (.inr hgot.of_huge)
        · exact uses_allocHugeOrNormal hpos hmul

/-! ## Release -/

/-- **`SystemFree`** of the pages of a call: afterwards it has none. -/
lemma uses_systemFree {n : ℕ} (h : Obtained pageSize (n * pageSize) ptr m) (hn : 0 < n) :
    Uses t m (Prog.systemFree ptr n) fun _ m' => m' = ∅ := by
  have hle : ¬ n > sizeMax >>> pageShift := by
    have hlimit := h.limit
    have hpos := h.pos
    have hmax : sizeMax >>> pageShift = 2 ^ 52 - 1 := by
      norm_num [sizeMax, pageShift, Nat.shiftRight_eq_div_pow]
    rw [hmax]
    unfold pageSize at hlimit
    omega
  have hunmap : Uses t m (Prog.unmap ptr (n * pageSize)) fun _ m' => m' = ∅ := by
    refine (uses_unmap h.pos.ne' h.pages.ge).mono fun _ m' hm' => ?_
    rw [hm', h.pages, Set.sdiff_self]
  unfold Prog.systemFree
  rw [if_neg (by have := h.pos; omega), if_neg hle]
  simp only [(shiftLeft_pageShift hn.ne' hle).1]
  refine uses_bind_of_eq (uses_count _ _) fun _ => uses_bind_of_eq (uses_count _ _) fun _ => ?_
  split
  · rename_i hhuge
    have hgot : Obtained hugePageSize hugePageSize ptr m :=
      ⟨(isHugePageAligned_iff ptr).mp hhuge.2, h.pos, hhuge.1 ▸ h.limit, hhuge.1 ▸ h.pages⟩
    refine uses_bind_of_eq (uses_madvise _) fun ok => ?_
    split
    · refine triple_bind (uses_put hgot) fun cached m' hm' => ?_
      cases cached with
      | true => exact triple_pure hm'
      | false =>
        rw [if_neg Bool.false_ne_true] at hm'
        exact hm'.symm ▸ hunmap
    · exact uses_bind_of_eq (uses_count _ _) fun _ => hunmap
  · exact hunmap

/-! ## Callers -/

/-- A range goes from its caller to a call. -/
lemma Accounted.claim (h : Accounted s) (hmem : e ∈ s.out) :
    Accounted ({ s with out := s.out.erase e }.assign e (.call t)) := by
  have hold : ∀ q, e.Contains q → s.owner q = .caller e :=
    fun q hq => (h.callers q e).mpr ⟨hmem, hq⟩
  refine ⟨fun q => ?_, fun q f => ?_, fun q p => ?_, fun q => ?_, h.failed_apart,
    h.out_nodup.erase e, fun f hf => h.out_bounds f (List.mem_of_mem_erase hf), h.entries_nodup,
    h.cache, h.aligned⟩
  · exact (h.mapped q).trans (not_congr (owner_assign_other hold (by simp) (by simp) q).symm)
  · simp only [Mappings.assign, h.out_nodup.mem_erase_iff]
    by_cases hq : e.Contains q
    · rw [if_pos hq]
      refine iff_of_false (by simp) fun hf => hf.1.1 ?_
      exact (Owner.caller.inj ((hold q hq).symm.trans
        ((h.callers q f).mpr ⟨hf.1.2, hf.2⟩))).symm
    · rw [if_neg hq, h.callers q f]
      refine and_congr_left fun hf => (and_iff_right fun hef => hq ?_).symm
      exact hef ▸ hf
  · exact (owner_assign_other hold (by simp) (by simp) q).trans (h.cached q p)
  · exact (owner_assign_other hold (by simp) (by simp) q).trans (h.failed q)

/-- A range goes from a call to its caller. -/
lemma Accounted.give (h : Accounted s) (hold : ∀ q, e.Contains q → s.owner q = .call t)
    (he : 0 < e.len ∧ 0 < e.start ∧ e.start + e.len ≤ 2 ^ 52) :
    Accounted ({ s with out := e :: s.out }.assign e (.caller e)) := by
  have hnew : e ∉ s.out := by
    intro hmem
    have hfirst : e.Contains e.start := ⟨le_rfl, Nat.lt_add_of_pos_right he.1⟩
    exact absurd ((hold _ hfirst).symm.trans ((h.callers _ e).mpr ⟨hmem, hfirst⟩)) (by simp)
  refine ⟨fun q => ?_, fun q f => ?_, fun q p => ?_, fun q => ?_, h.failed_apart,
    List.nodup_cons.mpr ⟨hnew, h.out_nodup⟩, fun f hf => ?_, h.entries_nodup, h.cache, h.aligned⟩
  · exact (h.mapped q).trans (not_congr (owner_assign_other hold (by simp) (by simp) q).symm)
  · simp only [Mappings.assign, List.mem_cons]
    by_cases hq : e.Contains q
    · rw [if_pos hq]
      refine ⟨fun hef => ?_, fun hf => ?_⟩
      · obtain rfl : e = f := Owner.caller.inj hef
        exact ⟨.inl rfl, hq⟩
      · rcases hf with ⟨rfl | hf, hq'⟩
        · rfl
        · exact absurd ((hold q hq).symm.trans ((h.callers q f).mpr ⟨hf, hq'⟩)) (by simp)
    · rw [if_neg hq, h.callers q f]
      refine and_congr_left fun hf => (or_iff_right fun hef => hq ?_).symm
      exact hef ▸ hf
  · exact (owner_assign_other hold (by simp) (by simp) q).trans (h.cached q p)
  · exact (owner_assign_other hold (by simp) (by simp) q).trans (h.failed q)
  · rcases List.mem_cons.mp hf with rfl | hf
    · exact he
    · exact h.out_bounds f hf

/-- A triple for a call, with the steps in which ranges change hands. -/
abbrev Calls {α : Type} (t : ℕ) (m : Set ℕ) (p : AccessProgram LedgerAccess LedgerAccess.Answer α)
    (Q : α → Set ℕ → Prop) : Prop :=
  Triple protocol Mappings.own ledgerAnswer t m p Q

/-- A part of a call is verified by itself. -/
lemma calls_lift {p : Prog α} (h : Uses t m p Q) : Calls t m (lift p) Q := triple_embed h

/-- `SystemFree` is called: the call has the range. -/
lemma calls_claim (range : Extent) :
    Calls t ∅ (AccessProgram.perform (LedgerAccess.claim range)) fun _ m' =>
      Obtained pageSize (range.len * pageSize) (range.start * pageSize) m' ∧ 0 < range.len := by
  refine triple_perform owned fun s i b s' hs hm hb => ?_
  simp only [ledgerAnswer] at hb
  split at hb
  · rename_i hmem
    obtain rfl := (Prod.mk.inj (Option.some.inj hb)).2
    obtain ⟨hlen, hstart, hlimit⟩ := hs.out_bounds range hmem
    refine ⟨hs.claim hmem, fun _ => ?_, ⟨Nat.mul_mod_left _ _, ?_, ?_, ?_⟩, hlen⟩
    · refine step_assign (s := { s with out := s.out.erase range }) (fun q hq u _ => ?_)
        fun u hu => ?_
      · have howner : s.owner q = .caller range := (hs.callers q range).mpr ⟨hmem, hq⟩
        simp [howner]
      · simpa using Ne.symm hu
    · exact Nat.mul_pos hstart (by decide)
    · unfold pageSize
      omega
    · rw [own_assign_self, pageRange_mul, Nat.mul_div_cancel _ (by decide : 0 < pageSize)]
      exact (congrArg (· ∪ _) hm).trans (Set.empty_union _)
  · exact absurd hb (by simp)

/-- `SystemAlloc` returns: the caller has the range. -/
lemma calls_give {n : ℕ} (h : Obtained pageSize (n * pageSize) ptr m) (hn : 0 < n) :
    Calls t m (AccessProgram.perform (LedgerAccess.give ⟨ptr / pageSize, n⟩))
      fun _ m' => m' = ∅ := by
  have hpages : m = points ⟨ptr / pageSize, n⟩ := h.pages.trans (by rw [pageRange_mul])
  refine triple_perform owned fun s i b s' hs hm hb => ?_
  obtain rfl := (Prod.mk.inj (Option.some.inj hb)).2
  have hold : ∀ q, (⟨ptr / pageSize, n⟩ : Extent).Contains q → s.owner q = .call t := by
    intro q hq
    have hmem : q ∈ s.own t := by
      rw [hm, hpages]
      exact hq
    exact hmem
  have halign := h.aligned
  have hpos := h.pos
  have hlimit := h.limit
  refine ⟨hs.give hold ⟨hn, ?_, ?_⟩, fun _ => ?_, ?_⟩
  · unfold pageSize at *
    simp only
    omega
  · unfold pageSize at *
    simp only
    omega
  · refine step_assign (s := { s with out := ⟨ptr / pageSize, n⟩ :: s.out }) (fun q hq u hu => ?_)
      (by simp)
    simpa [hold q hq] using Ne.symm hu
  · refine (own_assign_ne _ _ (by simp)).trans ?_
    change s.own t \ _ = ∅
    rw [hm, hpages, Set.sdiff_self]

/-- **Every call** begins and ends without pages of its own. -/
lemma calls_body (t : ℕ) (op : MappingCall) :
    Calls t ∅ (mappingBody op) fun _ m' => m' = ∅ := by
  cases op with
  | systemAlloc n =>
    rcases Nat.eq_zero_or_pos n with rfl | hn
    · exact triple_pure rfl
    refine triple_bind (calls_lift (uses_systemAlloc n)) fun ptr m' hy => ?_
    rcases hy with ⟨rfl, rfl⟩ | hgot
    · rw [if_pos rfl]
      exact triple_pure rfl
    · rw [if_neg hgot.pos.ne']
      exact triple_bind (calls_give hgot hn) fun _ _ hm' => triple_pure hm'
  | systemFree range =>
    refine triple_bind (calls_claim range) fun _ m' hgot => ?_
    exact triple_bind (calls_lift (uses_systemFree hgot.1 hgot.2)) fun _ _ hm' => triple_pure hm'

/-! ## The ledger -/

/-- The ranges that callers have, those in the cache, and those whose `munmap` failed. -/
def Mappings.ranges (s : Mappings) : List Extent := s.out ++ s.pa.cached ++ s.pa.failed

/-- Every range is accounted for at the start, where nothing is mapped. -/
lemma accounted_init (populate : Bool) :
    Accounted { pa := { useMapPopulate := populate } } := by
  refine ⟨?_, ?_, ?_, ?_, .nil, .nil, ?_, ?_, HugePageCache.wellFormed_create, ?_⟩
  all_goals simp [HugePageCache.entries_create]

/-- A page of a range has the owner that the range stands for. -/
lemma Accounted.owner_of_mem (h : Accounted s) {q : ℕ} (he : e ∈ s.ranges) (hq : e.Contains q) :
    (e ∈ s.out ∧ s.owner q = .caller e) ∨
      (∃ p ∈ s.pa.cache.entries, e = pageRange p hugePageSize ∧ s.owner q = .cached p) ∨
      (e ∈ s.pa.failed ∧ s.owner q = .failed) := by
  simp only [Mappings.ranges, PageAllocator.cached, List.mem_append, List.mem_map] at he
  rcases he with (he | ⟨p, hp, rfl⟩) | he
  · exact .inl ⟨he, (h.callers q e).mpr ⟨he, hq⟩⟩
  · exact .inr (.inl ⟨p, hp, rfl, (h.cached q p).mpr ⟨hp, hq⟩⟩)
  · exact .inr (.inr ⟨he, (h.failed q).mpr ⟨e, he, hq⟩⟩)

/-- A mapped page is in a range, or a call has it. -/
lemma Accounted.mapped_iff (h : Accounted s) (q : ℕ) :
    s.pa.pages q = true ↔ (∃ e ∈ s.ranges, e.Contains q) ∨ ∃ t, s.owner q = .call t := by
  rw [h.mapped q]
  constructor
  · intro hne
    simp only [Mappings.ranges, PageAllocator.cached, List.mem_append, List.mem_map]
    cases howner : s.owner q with
    | unmapped => exact absurd howner hne
    | caller e =>
      obtain ⟨he, hq⟩ := (h.callers q e).mp howner
      exact .inl ⟨e, .inl (.inl he), hq⟩
    | call t => exact .inr ⟨t, rfl⟩
    | cached p =>
      obtain ⟨hp, hq⟩ := (h.cached q p).mp howner
      exact .inl ⟨_, .inl (.inr ⟨p, hp, rfl⟩), hq⟩
    | failed =>
      obtain ⟨e, he, hq⟩ := (h.failed q).mp howner
      exact .inl ⟨e, .inr he, hq⟩
  · rintro (⟨e, he, hq⟩ | ⟨t, ht⟩)
    · rcases h.owner_of_mem he hq with ⟨-, ho⟩ | ⟨p, -, -, ho⟩ | ⟨-, ho⟩ <;> simp [ho]
    · simp [ht]

/-- No page is in two of the ranges. -/
lemma Accounted.pairwise (h : Accounted s) : s.ranges.Pairwise Apart := by
  have hcached : s.pa.cached.Pairwise Apart := by
    refine List.pairwise_map.mpr (h.entries_nodup.imp_of_mem fun hp hp' hne q hq hq' => hne ?_)
    exact Owner.cached.inj
      (((h.cached q _).mpr ⟨hp, hq⟩).symm.trans ((h.cached q _).mpr ⟨hp', hq'⟩))
  have hout : s.out.Pairwise Apart := by
    refine h.out_nodup.imp_of_mem fun he hf hne q hq hq' => hne ?_
    exact Owner.caller.inj
      (((h.callers q _).mpr ⟨he, hq⟩).symm.trans ((h.callers q _).mpr ⟨hf, hq'⟩))
  refine List.pairwise_append.mpr ⟨List.pairwise_append.mpr ⟨hout, hcached, ?_⟩, h.failed_apart, ?_⟩
  · intro e he f hf q hq hq'
    obtain ⟨p, hp, rfl⟩ := List.mem_map.mp hf
    have hcaller := (h.callers q e).mpr ⟨he, hq⟩
    exact absurd (hcaller.symm.trans ((h.cached q p).mpr ⟨hp, hq'⟩)) (by simp)
  · intro e he f hf q hq hq'
    have hfailed := (h.failed q).mpr ⟨f, hf, hq'⟩
    rcases List.mem_append.mp he with he | he
    · exact absurd (((h.callers q e).mpr ⟨he, hq⟩).symm.trans hfailed) (by simp)
    · obtain ⟨p, hp, rfl⟩ := List.mem_map.mp he
      exact absurd (((h.cached q p).mpr ⟨hp, hq⟩).symm.trans hfailed) (by simp)

/-- **The mapping ledger under concurrency.** In every interleaving of calls of `SystemAlloc` and
`SystemFree`, whatever the kernel answers: no page is in two of the ranges that callers have, that
are in the cache, or whose `munmap` failed. A page is mapped if and only if it is in such a range or
a call in progress has it, and then it is in none of the ranges. So once all calls have returned,
the mapped pages are exactly those of the ranges. The cache has at most 16 mappings, all 2 MiB
aligned.

**Proof sketch.** Every access of a call moves pages that nobody has, or that the call has itself;
so the calls can be verified one by one, by triples over the pages that a call has. A call begins
and ends with none. -/
theorem concurrent_mapping_ledger (populate : Bool) (as : List (CallAction MappingCall Choice)) :
    let st := (mappingCode.machine Set.univ).run
      { shared := { pa := { useMapPopulate := populate } } } as
    st.shared.ranges.Pairwise Apart ∧
      (∀ q, st.shared.pa.pages q = true ↔
        (∃ e ∈ st.shared.ranges, e.Contains q) ∨ ∃ t, st.shared.owner q = .call t) ∧
      (∀ q t, st.shared.owner q = .call t →
        st.running t ≠ none ∧ ∀ e ∈ st.shared.ranges, ¬ e.Contains q) ∧
      ((∀ t, st.running t = none) →
        ∀ q, st.shared.pa.pages q = true ↔ ∃ e ∈ st.shared.ranges, e.Contains q) ∧
      st.shared.pa.cached.length ≤ HugePageCache.kCapacity ∧
      ∀ e ∈ st.shared.pa.cached,
        e.start * pageSize % hugePageSize = 0 ∧ e.len * pageSize = hugePageSize := by
  intro st
  obtain ⟨hst, hrest⟩ : Accounted st.shared ∧
      ∀ t, st.running t = none → st.shared.own t = ∅ :=
    run_owned owned (fun _ _ => trivial) calls_body (accounted_init populate)
      (by simp [Mappings.own]) as
  have hcall : ∀ q t, st.shared.owner q = .call t → st.running t ≠ none := by
    intro q t hq hnone
    have hmem : q ∈ st.shared.own t := hq
    rw [hrest t hnone] at hmem
    exact hmem
  refine ⟨hst.pairwise, hst.mapped_iff, fun q t hq => ⟨hcall q t hq, fun e he hqe => ?_⟩,
    fun hquiet q => ?_, ?_, fun e he => ?_⟩
  · rcases hst.owner_of_mem he hqe with ⟨-, ho⟩ | ⟨p, -, -, ho⟩ | ⟨-, ho⟩ <;> simp [hq] at ho
  · rw [hst.mapped_iff q, or_iff_left]
    rintro ⟨t, ht⟩
    exact hcall q t ht (hquiet t)
  · rw [cached, List.length_map]
    exact hst.cache.length_entries_le
  · obtain ⟨p, hp, rfl⟩ := List.mem_map.mp he
    have halign := (hst.aligned p hp).1
    simp only [pageRange]
    unfold hugePageSize at halign ⊢
    unfold pageSize
    omega

end PageAllocator

end Ammalloc
