import Ammalloc.Lib.Coverage
import Ammalloc.Lib.Machine
import Ammalloc.PageAllocator

set_option relaxedAutoImplicit false
set_option autoImplicit false

/-!
# The ledger of mappings

Whatever the kernel answers, the mapped pages are shared out to the callers of `SystemAlloc`, the
cache of 2 MiB mappings and the ranges that could not be unmapped. A range that an operation is
working on counts as held outside, so each system call is one entry in the ledger.

## Main definitions

* `Ammalloc.PageAllocator.Inv` — the ledger balances.
* `Ammalloc.PageAllocator.Yields` — a call returns null or a new range.
* `Ammalloc.PageAllocator.System`, `Ammalloc.PageAllocator.machine` — sequences of calls.

## Main results

* `Ammalloc.PageAllocator.Inv.mmap`, `Ammalloc.PageAllocator.Inv.unmap` — the entries.
* `Ammalloc.PageAllocator.Inv.systemAlloc`, `Ammalloc.PageAllocator.Inv.systemFree`.
* `Ammalloc.PageAllocator.mapping_ledger` — the ledger after any sequence of calls.
-/

namespace Ammalloc

namespace PageAllocator

open Extent (coverage coverage_cons)

/-- The ranges in the cache. -/
def cached (pa : PageAllocator) : List Extent :=
  pa.cache.entries.map fun p => pageRange p hugePageSize

/-- All ranges, when those in `out` are held outside. -/
def ledger (pa : PageAllocator) (out : Multiset Extent) : Multiset Extent :=
  out + (pa.cached : Multiset Extent) + (pa.failed : Multiset Extent)

/-- The ledger balances: a page is in one range if it is mapped, and in none otherwise. -/
structure Inv (fallbacks : ℕ) (pa : PageAllocator) (out : Multiset Extent) : Prop where
  coverage : ∀ q, coverage (pa.ledger out) q = (pa.pages q).toNat
  bounds : ∀ e ∈ pa.ledger out, 0 < e.len ∧ e.start + e.len ≤ 2 ^ 52
  cache : pa.cache.WellFormed
  aligned : ∀ p ∈ pa.cache.entries, p % hugePageSize = 0 ∧ 0 < p
  counted : pa.stats.munmapFailedCount = pa.failed.length
  fallbacks : pa.stats.hugeFallbackToNormalCount = fallbacks
  wrapped : pa.wrapped = false

variable {k n p size : ℕ} {pa pa' : PageAllocator} {out : Multiset Extent}

/-- The ledger is right at the start, where nothing is mapped. -/
lemma inv_create : Inv 0 {} 0 where
  coverage q := by simp [ledger, cached, HugePageCache.entries_create]
  bounds := by simp [ledger, cached, HugePageCache.entries_create]
  cache := HugePageCache.wellFormed_create
  aligned := by simp [HugePageCache.entries_create]
  counted := rfl
  fallbacks := rfl
  wrapped := rfl

/-- A range that is handed out is in the ledger. -/
lemma ledger_cons (pa : PageAllocator) (e : Extent) (out : Multiset Extent) :
    pa.ledger (e ::ₘ out) = e ::ₘ pa.ledger out := by
  simp only [ledger, Multiset.cons_add]

/-! ## Changes that the ledger does not see -/

/-- Counters other than those of the ledger may change. -/
lemma Inv.count (h : Inv k pa out) {f : PageAllocatorStats → PageAllocatorStats}
    (hf : (f pa.stats).munmapFailedCount = pa.stats.munmapFailedCount)
    (hf' : (f pa.stats).hugeFallbackToNormalCount = pa.stats.hugeFallbackToNormalCount) :
    Inv k (pa.count f) out where
  coverage := h.coverage
  bounds := h.bounds
  cache := h.cache
  aligned := h.aligned
  counted := hf.trans h.counted
  fallbacks := hf'.trans h.fallbacks
  wrapped := h.wrapped

/-- The answers of the system do not matter to the ledger. -/
lemma Inv.withEnv (h : Inv k pa out) (env : OsEnv) : Inv k { pa with env := env } out where
  coverage := h.coverage
  bounds := h.bounds
  cache := h.cache
  aligned := h.aligned
  counted := h.counted
  fallbacks := h.fallbacks
  wrapped := h.wrapped

/-- A hint keeps the ledger. -/
lemma Inv.hint (h : Inv k pa out) : Inv k pa.hint out := by
  unfold PageAllocator.hint
  have hadvised : Inv k pa.madvise.2 out := h.withEnv _
  rcases hr : pa.madvise with ⟨ok, pa'⟩
  rw [hr] at hadvised
  cases ok with
  | true => exact hadvised
  | false => exact hadvised.count rfl rfl

/-- `ApplyHugePageHint` keeps the ledger. -/
lemma Inv.applyHugePageHint (h : Inv k pa out) : Inv k pa.applyHugePageHint out := by
  unfold PageAllocator.applyHugePageHint
  simp only
  split
  · exact h.hint.hint
  · exact h.hint

/-- Computations that do not wrap leave no trace. -/
lemma addSize_eq {a b : ℕ} (h : a + b < 2 ^ 64) : pa.addSize a b = (a + b, pa) := by
  have hdec : decide (2 ^ 64 ≤ a + b) = false := decide_eq_false (not_le.mpr h)
  simp only [addSize, addU64_of_lt h, hdec, Bool.or_false]

/-- A difference of sizes that does not wrap. -/
lemma subSize_eq {a b : ℕ} (ha : a < 2 ^ 64) (h : b ≤ a) : pa.subSize a b = (a - b, pa) := by
  have hdec : decide (a < b) = false := decide_eq_false (not_lt.mpr h)
  simp only [subSize, subU64_of_le ha h, hdec, Bool.or_false]

/-- The byte size of a request that is not rejected does not wrap. -/
lemma byteSize_eq (h : ¬ n > sizeMax >>> pageShift) : pa.byteSize n = (n * pageSize, pa) := by
  have hshift : n <<< pageShift = n * pageSize := Nat.shiftLeft_eq n 12
  have hmax : sizeMax >>> pageShift = 2 ^ 52 - 1 := by
    norm_num [sizeMax, pageShift, Nat.shiftRight_eq_div_pow]
  have hlt : n * pageSize < 2 ^ 64 := by
    rw [hmax] at h
    unfold pageSize
    omega
  have hdec : decide (2 ^ 64 ≤ n * pageSize) = false := decide_eq_false (not_le.mpr hlt)
  simp only [byteSize, hshift, Nat.mod_eq_of_lt hlt, hdec, Bool.or_false]

/-- `IsHugePageAligned` accepts the multiples of a huge page. -/
lemma isHugePageAligned_iff (ptr : ℕ) : isHugePageAligned ptr = true ↔ ptr % hugePageSize = 0 := by
  rw [isHugePageAligned, decide_eq_true_iff, show hugePageSize = 2 ^ 21 from rfl,
    Nat.and_two_pow_sub_one_eq_mod]

/-! ## The entries of the ledger -/

/-- A page is covered at most once. -/
lemma Inv.coverage_le_one (h : Inv k pa out) (q : ℕ) : Extent.coverage (pa.ledger out) q ≤ 1 := by
  rw [h.coverage q]
  exact Bool.toNat_le _

/-- **`mmap`** enters a new range. -/
lemma Inv.mmap (h : Inv k pa out) (hpos : 0 < size) (hmul : size % pageSize = 0) :
    (∃ p pa', pa.mmap size = (.ok p, pa') ∧ p % pageSize = 0 ∧ 0 < p ∧ p + size ≤ 2 ^ 64 ∧
        Inv k pa' (pageRange p size ::ₘ out)) ∨
      ∃ e pa', pa.mmap size = (.error e, pa') ∧ Inv k pa' out := by
  unfold PageAllocator.mmap
  simp only
  split
  · rename_i ptr hptr
    split
    · rename_i hmap
      obtain ⟨halign, hnull, hend, hfree⟩ := hmap
      refine Or.inl ⟨ptr, _, rfl, halign, hnull, hend, ?_, ?_, h.cache, h.aligned, h.counted,
        h.fallbacks, h.wrapped⟩
      · intro q
        show Extent.coverage (pa.ledger (pageRange ptr size ::ₘ out)) q = _
        rw [ledger_cons, coverage_cons, h.coverage q]
        by_cases hq : (pageRange ptr size).Contains q
        · have hclear : pa.pages q = false := by
            obtain ⟨hlo, hhi⟩ := hq
            simp only [pageRange] at hlo hhi
            have := hfree (q - ptr / pageSize) (by omega)
            rwa [Nat.add_sub_cancel' hlo] at this
          simp [hq, hclear]
        · simp [hq]
      · intro e he
        have he' : e ∈ pageRange ptr size ::ₘ pa.ledger out := ledger_cons pa _ out ▸ he
        rcases Multiset.mem_cons.mp he' with rfl | he'
        · simp only [pageRange]
          unfold pageSize at halign hmul ⊢
          omega
        · exact h.bounds e he'
    · exact Or.inr ⟨_, _, rfl, h.withEnv _⟩
  · exact Or.inr ⟨_, _, rfl, h.withEnv _⟩

/-- **`munmap`** of a range takes it off, or moves it to the failed ranges. Those cannot be more
than there are pages, so their counter does not wrap. -/
lemma Inv.unmap (h : Inv k pa (pageRange p size ::ₘ out)) :
    ((pa.munmap p size).1 = true → Inv k (pa.munmap p size).2 out) ∧
      ((pa.munmap p size).1 = false → Inv k ((pa.munmap p size).2.count fun s =>
        { s with munmapFailedCount := addU64 s.munmapFailedCount 1 }) out) := by
  have hbounds := h.bounds
  have hcov := h.coverage
  rw [ledger_cons] at hbounds hcov
  unfold PageAllocator.munmap
  simp only
  split
  · refine ⟨fun _ => ?_, fun hf => absurd hf (by simp)⟩
    refine ⟨fun q => ?_, fun e he => hbounds e (Multiset.mem_cons_of_mem he), h.cache, h.aligned,
      h.counted, h.fallbacks, h.wrapped⟩
    show Extent.coverage (pa.ledger out) q = _
    have hq := hcov q
    rw [coverage_cons] at hq
    by_cases hin : (pageRange p size).Contains q
    · have hle := Bool.toNat_le (pa.pages q)
      rw [if_pos hin] at hq
      simp only [if_pos hin, Bool.toNat_false]
      omega
    · rw [if_neg hin] at hq
      simpa [hin] using hq
  · refine ⟨fun hf => absurd hf (by simp), fun _ => ?_⟩
    have hledger : out + (pa.cached : Multiset Extent) +
        ((pageRange p size :: pa.failed : List Extent) : Multiset Extent) =
          pageRange p size ::ₘ pa.ledger out := by
      rw [← Multiset.cons_coe, Multiset.add_cons, ledger]
    have hcard : Multiset.card (pageRange p size ::ₘ pa.ledger out) ≤ 2 ^ 52 := by
      refine Extent.card_le_of_coverage (fun e he => ?_) fun q => ?_
      · have := hbounds e he
        omega
      · rw [hcov q]
        exact Bool.toNat_le _
    have hfailed : pa.failed.length ≤ Multiset.card (pa.ledger out) := by
      simp only [ledger, Multiset.card_add, Multiset.coe_card]
      omega
    rw [Multiset.card_cons] at hcard
    refine ⟨fun q => ?_, fun e he => hbounds e (hledger ▸ he), h.cache, h.aligned, ?_, h.fallbacks,
      h.wrapped⟩
    · show Extent.coverage (out + (pa.cached : Multiset Extent) +
        ((pageRange p size :: pa.failed : List Extent) : Multiset Extent)) q = (pa.pages q).toNat
      rw [hledger]
      exact hcov q
    · show addU64 pa.stats.munmapFailedCount 1 = pa.failed.length + 1
      rw [h.counted, addU64_of_lt (by omega)]

/-- **`SafeMunmap`**: whether it succeeds or not, the range is accounted for. -/
lemma Inv.safeMunmap (h : Inv k pa (pageRange p size ::ₘ out)) (hp : p ≠ 0) (hsize : size ≠ 0) :
    Inv k (pa.safeMunmap p size).2 out := by
  obtain ⟨hok, hfail⟩ := h.unmap
  unfold PageAllocator.safeMunmap
  rw [if_neg (by omega)]
  rcases hr : pa.munmap p size with ⟨ok, pa'⟩
  rw [hr] at hok hfail
  cases ok with
  | true => exact hok rfl
  | false => exact hfail rfl

/-- Page multiples add up page by page. -/
lemma pageRange_add {a : ℕ} (b : ℕ) (ha : a % pageSize = 0) :
    pageRange p (a + b) = ⟨p / pageSize, a / pageSize + b / pageSize⟩ ∧
      pageRange (p + a) b = ⟨p / pageSize + a / pageSize, b / pageSize⟩ := by
  unfold pageRange
  unfold pageSize at ha ⊢
  simp only [Extent.mk.injEq, true_and, and_true]
  omega

/-- A range may be cut in two at a page boundary. -/
lemma Inv.cut {a b : ℕ} (h : Inv k pa (pageRange p (a + b) ::ₘ out)) (ha : 0 < a) (hb : 0 < b)
    (ha' : a % pageSize = 0) (hb' : b % pageSize = 0) :
    Inv k pa (pageRange p a ::ₘ pageRange (p + a) b ::ₘ out) := by
  obtain ⟨hwhole, hsecond⟩ := pageRange_add (p := p) b ha'
  have hfirst : pageRange p a = ⟨p / pageSize, a / pageSize⟩ := rfl
  have hbounds := h.bounds
  have hcov := h.coverage
  simp only [ledger_cons, hwhole] at hbounds hcov
  refine ⟨fun q => ?_, fun e he => ?_, h.cache, h.aligned, h.counted, h.fallbacks, h.wrapped⟩
  · rw [ledger_cons, ledger_cons, hfirst, hsecond, Extent.coverage_split]
    exact hcov q
  · simp only [ledger_cons, hfirst, hsecond, Multiset.mem_cons] at he
    have hw := hbounds _ (Multiset.mem_cons_self _ _)
    unfold pageSize at ha' hb' hw he
    rcases he with rfl | rfl | he
    · simp only at hw ⊢
      omega
    · simp only at hw ⊢
      omega
    · exact hbounds e (Multiset.mem_cons_of_mem he)

/-- The entry at the top of the cache is taken out. -/
lemma Inv.get (h : Inv k pa out) :
    (pa.cache.entries = [] ∧ pa.cache.get = (0, pa.cache)) ∨
      ∃ p rest, pa.cache.entries = p :: rest ∧ pa.cache.get.1 = p ∧ p % hugePageSize = 0 ∧ 0 < p ∧
        p + hugePageSize ≤ 2 ^ 64 ∧ pa.cache.get.2.entries = rest ∧
        Inv k { pa with cache := pa.cache.get.2 } (pageRange p hugePageSize ::ₘ out) := by
  rcases HugePageCache.get_spec h.cache with hnil | ⟨p, rest, hentries, hget, hwf, hrest⟩
  · exact Or.inl hnil
  · obtain ⟨halign, hpos⟩ := h.aligned p (hentries ▸ List.mem_cons_self)
    have hledger : ({ pa with cache := pa.cache.get.2 } : PageAllocator).ledger
        (pageRange p hugePageSize ::ₘ out) = pa.ledger out := by
      simp only [ledger, cached, hentries, hrest, List.map_cons, ← Multiset.cons_coe,
        Multiset.cons_add, Multiset.add_cons]
    have hbounds := h.bounds
    have hcov := h.coverage
    rw [← hledger] at hbounds hcov
    have hend : p + hugePageSize ≤ 2 ^ 64 := by
      have hrange := hbounds (pageRange p hugePageSize)
        (by rw [ledger_cons]; exact Multiset.mem_cons_self _ _)
      simp only [pageRange] at hrange
      unfold pageSize hugePageSize at hrange
      unfold hugePageSize at halign ⊢
      omega
    refine Or.inr ⟨p, rest, hentries, hget, halign, hpos, hend, hrest, hcov, hbounds, hwf, ?_,
      h.counted, h.fallbacks, h.wrapped⟩
    intro p' hp'
    exact h.aligned p' (hentries ▸ List.mem_cons_of_mem p (hrest ▸ hp'))

/-! ## Allocation -/

/-- A call returns null, or a new range that begins at a multiple of `align`. -/
def Yields (align fallbacks : ℕ) (out : Multiset Extent) (size : ℕ) :
    Option ℕ × PageAllocator → Prop
  | (none, pa) => Inv fallbacks pa out
  | (some p, pa) =>
    p % align = 0 ∧ 0 < p ∧ p + size ≤ 2 ^ 64 ∧ Inv fallbacks pa (pageRange p size ::ₘ out)

/-- A multiple of `HUGE_PAGE_SIZE` is a multiple of `PAGE_SIZE`. -/
lemma Yields.of_huge {r : Option ℕ × PageAllocator} (h : Yields hugePageSize k out size r) :
    Yields pageSize k out size r := by
  obtain ⟨ptr, pa⟩ := r
  cases ptr with
  | none => exact h
  | some p =>
    obtain ⟨halign, hrest⟩ := h
    refine ⟨?_, hrest⟩
    unfold hugePageSize at halign
    unfold pageSize
    omega

/-- The count of a failed request keeps the ledger. -/
lemma Yields.countFailure {align : ℕ} {r : Option ℕ × PageAllocator}
    (h : Yields align k out size r) : Yields align k out size (countFailure r) := by
  obtain ⟨ptr, pa⟩ := r
  cases ptr with
  | none => exact Inv.count h rfl rfl
  | some p => exact h

/-- The retries of `mmap`. -/
lemma Inv.retryLoop (h : Inv k pa out) (hpos : 0 < size) (hmul : size % pageSize = 0)
    (retries : ℕ) : Yields pageSize k out size (retryLoop retries pa size) := by
  induction retries generalizing pa with
  | zero => exact h
  | succ retries ih =>
    unfold PageAllocator.retryLoop
    rcases h.mmap hpos hmul with ⟨p, pa', hr, hyield⟩ | ⟨e, pa', hr, hinv⟩
    · rw [hr]
      exact hyield
    · rw [hr]
      cases e with
      | enomem => exact ih (hinv.count rfl rfl)
      | other => exact hinv.count rfl rfl

/-- `AllocWithRetry` enters what it maps into the ledger. -/
lemma Inv.allocWithRetry (h : Inv k pa out) (hpos : 0 < size) (hmul : size % pageSize = 0) :
    Yields pageSize k out size (pa.allocWithRetry size) := h.retryLoop hpos hmul _

/-- `AllocNormalPage` enters what it maps into the ledger. -/
lemma Inv.allocNormalPage (h : Inv k pa out) (hpos : 0 < size) (hmul : size % pageSize = 0) :
    Yields pageSize k out size (pa.allocNormalPage size) := by
  unfold PageAllocator.allocNormalPage
  simp only
  have hcounted : Inv k (pa.count fun s =>
      { s with normalAllocCount := addU64 s.normalAllocCount 1 }) out := h.count rfl rfl
  have hyield := hcounted.allocWithRetry hpos hmul
  revert hyield
  rcases PageAllocator.allocWithRetry _ size with ⟨ptr, pa'⟩
  intro hyield
  cases ptr with
  | none => exact Inv.count hyield rfl rfl
  | some p => exact ⟨hyield.1, hyield.2.1, hyield.2.2.1, hyield.2.2.2.count rfl rfl⟩

/-- The parts of an over-allocated mapping: a head, a body of `size` bytes that is 2 MiB aligned,
and a tail. -/
structure TrimParts.Ok (f : TrimParts) (size : ℕ) : Prop where
  head : f.headPtr % pageSize = 0 ∧ 0 < f.headPtr
  headGap : f.headGap % pageSize = 0
  body : f.bodyPtr = f.headPtr + f.headGap
  aligned : f.bodyPtr % hugePageSize = 0
  size : f.size = size ∧ 0 < size ∧ size % pageSize = 0
  tail : f.tailPtr = f.bodyPtr + f.size
  tailGap : f.tailGap % pageSize = 0 ∧ 0 < f.tailGap
  limit : f.tailPtr + f.tailGap ≤ 2 ^ 64

/-- **The parts** of a mapping of `size + HUGE_PAGE_SIZE` bytes are computed without wrapping. -/
lemma trimParts_eq (pa : PageAllocator) {rawAddr : ℕ} (hraw : rawAddr % pageSize = 0)
    (hnull : 0 < rawAddr) (hend : rawAddr + (size + hugePageSize) ≤ 2 ^ 64) (hpos : 0 < size)
    (hmul : size % pageSize = 0) :
    ∃ f : TrimParts, pa.trimParts rawAddr (size + hugePageSize) size = (f, pa) ∧ f.Ok size ∧
      f.headPtr = rawAddr ∧ f.headGap + (size + f.tailGap) = size + hugePageSize := by
  -- the first multiple of 2 MiB at or above `rawAddr`
  obtain ⟨b, hb⟩ : ∃ b, b = (rawAddr + hugePageSize - 1) / hugePageSize * hugePageSize := ⟨_, rfl⟩
  have hge : rawAddr ≤ b := by
    rw [hb]
    unfold hugePageSize
    omega
  have hlt : b < rawAddr + hugePageSize := by
    rw [hb]
    unfold hugePageSize
    omega
  have halign : b % hugePageSize = 0 := by
    rw [hb]
    exact Nat.mul_mod_left _ _
  have hgap : (b - rawAddr) % pageSize = 0 := by
    unfold hugePageSize at halign
    unfold pageSize at hraw ⊢
    omega
  refine ⟨⟨rawAddr, b - rawAddr, b, size, b + size, hugePageSize - (b - rawAddr)⟩, ?_, ?_, rfl, ?_⟩
  · have htail : size + hugePageSize - (b - rawAddr) - size = hugePageSize - (b - rawAddr) := by
      omega
    have hlimit : pa.addSize rawAddr hugePageSize = (rawAddr + hugePageSize, pa) :=
      addSize_eq (by omega)
    have hlast : pa.subSize (rawAddr + hugePageSize) 1 = (rawAddr + hugePageSize - 1, pa) :=
      subSize_eq (by omega) (by omega)
    have hhead : pa.subSize b rawAddr = (b - rawAddr, pa) := subSize_eq (by omega) hge
    have hrest : pa.subSize (size + hugePageSize) (b - rawAddr) =
        (size + hugePageSize - (b - rawAddr), pa) := subSize_eq (by omega) (by omega)
    have hgap' : pa.subSize (size + hugePageSize - (b - rawAddr)) size =
        (size + hugePageSize - (b - rawAddr) - size, pa) := subSize_eq (by omega) (by omega)
    have hptr : pa.addSize b size = (b + size, pa) := addSize_eq (by omega)
    simp only [trimParts, hlimit, hlast, ← hb, hhead, hrest, hgap', hptr, htail]
  · refine ⟨⟨hraw, hnull⟩, hgap, by simp only; omega, halign, ⟨rfl, hpos, hmul⟩, rfl, ⟨?_, ?_⟩, ?_⟩
    · unfold hugePageSize pageSize at *
      simp only
      omega
    · simp only
      omega
    · simp only
      omega
  · simp only
    omega

/-- A failed `AllocHugePage` keeps the ledger. -/
lemma Inv.hugeAllocFailed (h : Inv k pa out) :
    Yields hugePageSize k out size pa.hugeAllocFailed := h.count rfl rfl

/-- An `AllocHugePage` that succeeds hands out an entry of the ledger. -/
lemma Inv.hugeAllocDone (h : Inv k pa (pageRange p size ::ₘ out)) (halign : p % hugePageSize = 0)
    (hpos : 0 < p) (hend : p + size ≤ 2 ^ 64) :
    Yields hugePageSize k out size (pa.hugeAllocDone p size) :=
  ⟨halign, hpos, hend, h.applyHugePageHint.count rfl rfl⟩

section Trim

variable {f : TrimParts}

/-- Once the head is trimmed: the body is returned, or everything is given up. -/
lemma Inv.trimTail
    (h : Inv k pa (pageRange f.bodyPtr size ::ₘ pageRange f.tailPtr f.tailGap ::ₘ out))
    (hf : f.Ok size) : Yields hugePageSize k out size (pa.trimTail f) := by
  obtain ⟨⟨-, hnull⟩, -, hbody, halign, ⟨hsize, hpos, -⟩, htail, ⟨-, hgap⟩, hlimit⟩ := hf
  have hunmapped := (Multiset.cons_swap _ _ out ▸ h).safeMunmap
    (show f.tailPtr ≠ 0 by omega) (show f.tailGap ≠ 0 by omega)
  unfold PageAllocator.trimTail
  simp only [gt_iff_lt, if_pos hgap]
  rcases hr : pa.safeMunmap f.tailPtr f.tailGap with ⟨ok, pa'⟩
  rw [hr] at hunmapped
  cases ok with
  | true =>
    rw [hsize]
    exact Inv.hugeAllocDone (hunmapped.count rfl rfl) halign (by omega) (by omega)
  | false =>
    refine Inv.hugeAllocFailed ?_
    simp only [cleanupRemainingMappings, hsize, Bool.not_true, Bool.false_and, Bool.not_false,
      Bool.and_false, Bool.false_eq_true, if_false]
    exact hunmapped.safeMunmap (by omega) (by omega)

/-- **The trim**: the body is returned, or every part is unmapped or counted as failed. -/
lemma Inv.trimHead
    (h : Inv k pa (pageRange f.headPtr (f.headGap + (size + f.tailGap)) ::ₘ out))
    (hf : f.Ok size) : Yields hugePageSize k out size (pa.trimHead f) := by
  have hf' := hf
  obtain ⟨⟨-, hnull⟩, hhead, hbody, -, ⟨hsize, hpos, hmul⟩, htail, ⟨htailMul, hgap⟩, hlimit⟩ := hf
  rw [hsize] at htail
  have hmul' : (size + f.tailGap) % pageSize = 0 := by
    unfold pageSize at *
    omega
  unfold PageAllocator.trimHead
  split
  · rename_i hheadPos
    have hcut := h.cut hheadPos (by omega) hhead hmul'
    have hunmapped := hcut.safeMunmap (by omega) (by omega)
    rcases hr : pa.safeMunmap f.headPtr f.headGap with ⟨ok, pa'⟩
    rw [hr] at hunmapped
    have hparts := hunmapped.cut hpos hgap hmul htailMul
    rw [← hbody, ← htail] at hparts
    cases ok with
    | true => exact hparts.trimTail hf'
    | false =>
      refine Inv.hugeAllocFailed ?_
      simp only [cleanupRemainingMappings, hsize, gt_iff_lt, hgap, decide_true, Bool.not_false,
        Bool.true_and, if_true, Bool.not_true, Bool.false_and, Bool.false_eq_true, if_false]
      exact (hparts.safeMunmap (by omega) (by omega)).safeMunmap (by omega) (by omega)
  · rename_i hzero
    have hzero' : f.headGap = 0 := by omega
    rw [hzero', Nat.zero_add] at h
    rw [hzero', Nat.add_zero] at hbody
    have hparts := h.cut hpos hgap hmul htailMul
    rw [← hbody, ← htail] at hparts
    exact hparts.trimTail hf'

end Trim

/-- **`AllocHugePageWithTrim`.** -/
lemma Inv.allocHugePageWithTrim (h : Inv k pa out) (hpos : 0 < size)
    (hmul : size % pageSize = 0) :
    Yields hugePageSize k out size (pa.allocHugePageWithTrim size) := by
  unfold PageAllocator.allocHugePageWithTrim
  split
  · exact h.hugeAllocFailed
  · rename_i hle
    have hsum : size + hugePageSize < 2 ^ 64 := by
      unfold sizeMax hugePageSize at *
      omega
    have hmul' : (size + hugePageSize) % pageSize = 0 := by
      unfold hugePageSize pageSize at *
      omega
    rw [addSize_eq hsum]
    simp only
    have hyield := h.allocWithRetry (show 0 < size + hugePageSize by omega) hmul'
    rcases hr : pa.allocWithRetry (size + hugePageSize) with ⟨ptr, pa'⟩
    rw [hr] at hyield
    cases ptr with
    | none => exact Inv.hugeAllocFailed hyield
    | some rawAddr =>
      obtain ⟨hraw, hnull, hend, hinv⟩ := hyield
      obtain ⟨f, hparts, hok, hhead, hsize⟩ := trimParts_eq pa' hraw hnull hend hpos hmul
      simp only [hparts]
      refine Inv.trimHead ?_ hok
      rw [hhead, hsize]
      exact hinv

/-- **`AllocHugePage`.** -/
lemma Inv.allocHugePage (h : Inv k pa out) (hpos : 0 < size) (hmul : size % pageSize = 0) :
    Yields hugePageSize k out size (pa.allocHugePage size) := by
  unfold PageAllocator.allocHugePage
  simp only
  have hcounted : Inv k (pa.count fun s =>
      { s with hugeAllocCount := addU64 s.hugeAllocCount 1 }) out := h.count rfl rfl
  have hyield := hcounted.allocWithRetry hpos hmul
  revert hyield
  rcases PageAllocator.allocWithRetry _ size with ⟨ptr, pa'⟩
  intro hyield
  cases ptr with
  | none => exact Inv.hugeAllocFailed hyield
  | some p =>
    obtain ⟨-, hnull, hend, hinv⟩ := hyield
    simp only
    split
    · rename_i halign
      exact hinv.hugeAllocDone ((isHugePageAligned_iff p).mp halign) hnull hend
    · exact (hinv.safeMunmap (by omega) (by omega)).allocHugePageWithTrim hpos hmul

/-- A relaxed counter that is increased is not the same afterwards. -/
lemma addU64_one_ne (c : ℕ) : addU64 c 1 ≠ c := by
  unfold addU64
  omega

/-- **`AllocHugePage` with its fallback**: the result is 2 MiB aligned, or the fallback is counted.
-/
lemma Inv.allocHugeOrNormal (h : Inv k pa out) (hpos : 0 < size) (hmul : size % pageSize = 0) :
    Yields hugePageSize k out size (pa.allocHugeOrNormal size) ∨
      Yields pageSize (addU64 k 1) out size (pa.allocHugeOrNormal size) := by
  have hyield := h.allocHugePage hpos hmul
  unfold PageAllocator.allocHugeOrNormal
  rcases hr : pa.allocHugePage size with ⟨ptr, pa'⟩
  rw [hr] at hyield
  cases ptr with
  | some p => exact Or.inl hyield
  | none =>
    refine Or.inr (Yields.countFailure ?_)
    have hinv : Inv k pa' out := hyield
    have hfall : Inv (addU64 k 1) (pa'.count fun s =>
        { s with hugeFallbackToNormalCount := addU64 s.hugeFallbackToNormalCount 1 }) out :=
      ⟨hinv.coverage, hinv.bounds, hinv.cache, hinv.aligned, hinv.counted,
        congrArg (addU64 · 1) hinv.fallbacks, hinv.wrapped⟩
    exact hfall.allocNormalPage hpos hmul

/-- **`SystemAlloc`** returns null or a new range of `n` pages; one of 1 MiB or more is 2 MiB
aligned, unless a fallback to normal pages was counted. -/
lemma Inv.systemAlloc (h : Inv k pa out) (n : ℕ) :
    (Yields pageSize k out (n * pageSize) (pa.systemAlloc n) ∧
        (hugePageSize / 2 ≤ n * pageSize →
          Yields hugePageSize k out (n * pageSize) (pa.systemAlloc n))) ∨
      Yields pageSize (addU64 k 1) out (n * pageSize) (pa.systemAlloc n) := by
  unfold PageAllocator.systemAlloc
  split
  · exact Or.inl ⟨h, fun _ => h⟩
  split
  · exact Or.inl ⟨h, fun _ => h⟩
  rename_i hzero hmax
  rw [byteSize_eq hmax]
  have hpos : 0 < n * pageSize := Nat.mul_pos (by omega) (by norm_num [pageSize])
  have hmul : n * pageSize % pageSize = 0 := Nat.mul_mod_left _ _
  have hhuge : ∀ {pa : PageAllocator}, Inv k pa out →
      (Yields pageSize k out (n * pageSize) (pa.allocHugeOrNormal (n * pageSize)) ∧
        (hugePageSize / 2 ≤ n * pageSize →
          Yields hugePageSize k out (n * pageSize) (pa.allocHugeOrNormal (n * pageSize)))) ∨
      Yields pageSize (addU64 k 1) out (n * pageSize) (pa.allocHugeOrNormal (n * pageSize)) := by
    intro pa h
    rcases h.allocHugeOrNormal hpos hmul with hy | hy
    · exact Or.inl ⟨hy.of_huge, fun _ => hy⟩
    · exact Or.inr hy
  simp only
  split
  · rename_i hsmall
    rw [Nat.shiftRight_eq_div_pow] at hsmall
    exact Or.inl ⟨(h.allocNormalPage hpos hmul).countFailure, fun hbig => by omega⟩
  split
  · rename_i hsize
    rcases h.get with ⟨-, hget⟩ | ⟨p, rest, -, hget, halign, hnull, hend, -, hinv⟩
    · rw [hget]
      simp only [ne_eq, not_true_eq_false, false_and, if_false]
      exact hhuge (h.count rfl rfl)
    · rw [hget, if_pos ⟨by omega, (isHugePageAligned_iff p).mpr halign⟩]
      have hyield : Yields hugePageSize k out (n * pageSize) (some p,
          ({ pa with cache := pa.cache.get.2 } : PageAllocator).count fun s =>
            { s with hugeCacheHitCount := addU64 s.hugeCacheHitCount 1 }) := by
        rw [hsize]
        exact ⟨halign, hnull, hend, hinv.count rfl rfl⟩
      exact Or.inl ⟨hyield.of_huge, fun _ => hyield⟩
  · exact hhuge h

/-! ## Release -/

/-- **`SystemFree`** of a range: it goes to the cache, or is unmapped, or its `munmap` fails. -/
lemma Inv.systemFree (h : Inv k pa (pageRange p (n * pageSize) ::ₘ out))
    (hp : p % pageSize = 0 ∧ 0 < p) : Inv k (pa.systemFree p n) out := by
  obtain ⟨hlen, hend⟩ := h.bounds _ (by rw [ledger_cons]; exact Multiset.mem_cons_self _ _)
  have hpages : n * pageSize / pageSize = n := Nat.mul_div_cancel n (by norm_num [pageSize])
  simp only [pageRange, hpages] at hlen hend
  have hmax : ¬ n > sizeMax >>> pageShift := by
    have : sizeMax >>> pageShift = 2 ^ 52 - 1 := by
      norm_num [sizeMax, pageShift, Nat.shiftRight_eq_div_pow]
    unfold pageSize at *
    omega
  have hpos : n * pageSize ≠ 0 := by
    unfold pageSize
    omega
  unfold PageAllocator.systemFree
  rw [if_neg (by omega), if_neg hmax, byteSize_eq hmax]
  simp only
  have hcounted : Inv k (pa.count fun s => { s with
      freeCount := addU64 s.freeCount 1
      freeBytes := addU64 s.freeBytes (n * pageSize) }) (pageRange p (n * pageSize) ::ₘ out) :=
    h.count rfl rfl
  revert hcounted
  generalize (pa.count fun s => { s with
      freeCount := addU64 s.freeCount 1
      freeBytes := addU64 s.freeBytes (n * pageSize) }) = pa₁
  intro hcounted
  split
  · rename_i hhuge
    obtain ⟨hsize, halign⟩ := hhuge
    have hadvised : Inv k pa₁.madvise.2 (pageRange p (n * pageSize) ::ₘ out) := hcounted.withEnv _
    rcases hr : pa₁.madvise with ⟨ok, pa₂⟩
    rw [hr] at hadvised
    cases ok with
    | false => exact (hadvised.count rfl rfl).safeMunmap (by omega) hpos
    | true =>
      simp only
      rcases HugePageCache.put_spec hadvised.cache p with hput | ⟨hput, hwf, hentries⟩
      · rw [hput]
        exact hadvised.safeMunmap (by omega) hpos
      · rcases hc : pa₂.cache.put p with ⟨accepted, cache⟩
        rw [hc] at hput hwf hentries
        simp only at hput hwf hentries
        subst hput
        have hledger : ({ pa₂ with cache := cache } : PageAllocator).ledger out =
            pa₂.ledger (pageRange p (n * pageSize) ::ₘ out) := by
          simp only [ledger, cached, hentries, List.map_cons, ← Multiset.cons_coe,
            Multiset.cons_add, Multiset.add_cons, hsize]
        refine ⟨fun q => ?_, fun e he => ?_, hwf, fun p' hp' => ?_, hadvised.counted,
          hadvised.fallbacks, hadvised.wrapped⟩
        · rw [hledger]
          exact hadvised.coverage q
        · rw [hledger] at he
          exact hadvised.bounds e he
        · simp only [hentries] at hp'
          rcases List.mem_cons.mp hp' with rfl | hp'
          · exact ⟨(isHugePageAligned_iff p').mp halign, hp.2⟩
          · exact hadvised.aligned p' hp'
  · exact hcounted.safeMunmap (by omega) hpos

/-- The loop of `ReleaseAllForTesting` empties the cache. -/
lemma Inv.releaseLoop (h : Inv k pa out) {fuel : ℕ} (hfuel : pa.cache.entries.length < fuel) :
    Inv k (releaseLoop fuel pa) out ∧ (PageAllocator.releaseLoop fuel pa).cache.entries = [] := by
  induction fuel generalizing pa with
  | zero => omega
  | succ fuel ih =>
    unfold PageAllocator.releaseLoop
    simp only
    rcases h.get with ⟨hnil, hget⟩ | ⟨p, rest, hentries, hget, -, hpos, -, hrest, hinv⟩
    · rw [hget]
      exact ⟨h, hnil⟩
    · rw [hget, if_neg (by omega)]
      have hlen : rest.length < fuel := by
        rw [hentries] at hfuel
        simpa using hfuel
      obtain ⟨hok, hfail⟩ := hinv.unmap
      have hcache : ({ pa with cache := pa.cache.get.2 } : PageAllocator).munmap p
          hugePageSize |>.2.cache.entries = rest := by
        rw [← hrest]
        unfold PageAllocator.munmap
        simp only
        split <;> rfl
      rcases hr : ({ pa with cache := pa.cache.get.2 } : PageAllocator).munmap p hugePageSize
        with ⟨ok, pa'⟩
      rw [hr] at hok hfail hcache
      simp only at hcache
      cases ok with
      | true => exact ih (hok rfl) (by rw [hcache]; exact hlen)
      | false =>
        refine ih (hfail rfl) ?_
        show pa'.cache.entries.length < fuel
        rw [hcache]
        exact hlen

/-- **`ReleaseHugePageCache`** unmaps the entries of the cache. -/
lemma Inv.releaseHugePageCache (h : Inv k pa out) :
    Inv k pa.releaseHugePageCache out ∧ pa.releaseHugePageCache.cache.entries = [] :=
  h.releaseLoop (Nat.lt_succ_of_le h.cache.length_entries_le)

/-! ## Sequences of calls -/

/-- The page allocator and what its callers hold: pointers with their page counts. -/
structure System where
  pa : PageAllocator := {}
  held : List (ℕ × ℕ) := []

/-- A call, and what the kernel answers. -/
inductive Call where
  | systemAlloc (pageNum : ℕ) (env : OsEnv)
  /-- `SystemFree` of null, or of a held range with its own page count. -/
  | systemFree (ptr pageNum : ℕ) (env : OsEnv)
  | releaseHugePageCache (env : OsEnv)

/-- Sequences of calls. -/
def machine : Machine System Call where
  init := {{}, { pa := { useMapPopulate := true } }}
  next st
    | .systemAlloc pageNum env =>
      if pageNum < 2 ^ 64 then
        match (st.pa.load env).systemAlloc pageNum with
        | (none, pa) => { st with pa := pa }
        | (some ptr, pa) => { pa := pa, held := (ptr, pageNum) :: st.held }
      else st
    | .systemFree ptr pageNum env =>
      if ptr = 0 ∨ (ptr, pageNum) ∈ st.held then
        { pa := (st.pa.load env).systemFree ptr pageNum, held := st.held.erase (ptr, pageNum) }
      else st
    | .releaseHugePageCache env => { st with pa := (st.pa.load env).releaseHugePageCache }

namespace System

/-- The ranges of the callers. -/
def heldRanges (st : System) : List Extent := st.held.map fun h => ⟨h.1 / pageSize, h.2⟩

/-- The ranges held by callers, in the cache, and those whose `munmap` failed. -/
def ranges (st : System) : List Extent := st.heldRanges ++ st.pa.cached ++ st.pa.failed

end System

/-- The ledger between calls. -/
structure SystemInv (st : System) : Prop where
  ledger : ∃ k, Inv k st.pa (st.heldRanges : Multiset Extent)
  held : ∀ h ∈ st.held, h.1 % pageSize = 0 ∧ 0 < h.1

/-- The pages of `n * pageSize` bytes are `n`. -/
lemma pageRange_mul (p n : ℕ) : pageRange p (n * pageSize) = ⟨p / pageSize, n⟩ := by
  rw [pageRange, Nat.mul_div_cancel n (by norm_num [pageSize])]

/-- **One call keeps the ledger.** -/
lemma SystemInv.next {st : System} (h : SystemInv st) (c : Call) :
    SystemInv (machine.next st c) := by
  obtain ⟨⟨k, hinv⟩, hheld⟩ := h
  cases c with
  | systemAlloc n env =>
    simp only [machine]
    split
    · have hspec := Inv.systemAlloc (hinv.withEnv env) n
      have hyield : ∃ k, Yields pageSize k (st.heldRanges : Multiset Extent) (n * pageSize)
          ((st.pa.load env).systemAlloc n) := by
        rcases hspec with ⟨hy, -⟩ | hy
        · exact ⟨_, hy⟩
        · exact ⟨_, hy⟩
      obtain ⟨k', hyield⟩ := hyield
      rcases hr : (st.pa.load env).systemAlloc n with ⟨ptr, pa'⟩
      rw [hr] at hyield
      cases ptr with
      | none => exact ⟨⟨k', hyield⟩, hheld⟩
      | some p =>
        obtain ⟨halign, hpos, -, hinv'⟩ := hyield
        rw [pageRange_mul] at hinv'
        refine ⟨⟨k', hinv'⟩, fun x hx => ?_⟩
        rcases List.mem_cons.mp hx with rfl | hx
        · exact ⟨halign, hpos⟩
        · exact hheld x hx
    · exact ⟨⟨k, hinv⟩, hheld⟩
  | systemFree p n env =>
    simp only [machine]
    split
    · rename_i hguard
      by_cases hmem : (p, n) ∈ st.held
      · refine ⟨⟨k, Inv.systemFree (Inv.withEnv ?_ env) (hheld _ hmem)⟩,
          fun x hx => hheld x (List.mem_of_mem_erase hx)⟩
        have hperm : st.heldRanges.Perm (pageRange p (n * pageSize) ::
            ({ st with held := st.held.erase (p, n) } : System).heldRanges) := by
          rw [pageRange_mul]
          exact (List.perm_cons_erase hmem).map _
        have hsplit : (st.heldRanges : Multiset Extent) = pageRange p (n * pageSize) ::ₘ
            (({ st with held := st.held.erase (p, n) } : System).heldRanges : Multiset Extent) :=
          Multiset.coe_eq_coe.mpr hperm
        rw [hsplit] at hinv
        exact hinv
      · have hzero : p = 0 := hguard.resolve_right hmem
        rw [List.erase_of_not_mem hmem]
        simp only [PageAllocator.systemFree, hzero, true_or, if_true]
        exact ⟨⟨k, hinv.withEnv env⟩, hheld⟩
    · exact ⟨⟨k, hinv⟩, hheld⟩
  | releaseHugePageCache env =>
    exact ⟨⟨k, (Inv.releaseHugePageCache (hinv.withEnv env)).1⟩, hheld⟩

/-- **The mapping ledger.** After every sequence of calls, whatever the kernel answers: the mapped
pages are the disjoint union of the ranges held by callers, those in the cache and those whose
`munmap` failed, and the last are counted; the entries of the cache are 2 MiB aligned; nothing has
wrapped around. The next `SystemAlloc` returns null or a mapped range of exactly `n` pages, which is
2 MiB aligned if it has 1 MiB or more and no fallback to normal pages was made. -/
theorem mapping_ledger (useMapPopulate : Bool) (cs : List Call) :
    let st := machine.run { pa := { useMapPopulate := useMapPopulate } } cs
    (∀ q, st.pa.pages q = true ↔ ∃ e ∈ st.ranges, e.Contains q) ∧
      st.ranges.Pairwise Extent.Disjoint ∧
      st.pa.stats.munmapFailedCount = st.pa.failed.length ∧
      (∀ e ∈ st.pa.cached,
        e.start * pageSize % hugePageSize = 0 ∧ e.len * pageSize = hugePageSize) ∧
      st.pa.wrapped = false ∧
      ∀ n < 2 ^ 64, ∀ env p pa, (st.pa.load env).systemAlloc n = (some p, pa) →
        p % pageSize = 0 ∧ (∀ q, (⟨p / pageSize, n⟩ : Extent).Contains q → pa.pages q = true) ∧
          (hugePageSize / 2 ≤ n * pageSize →
            pa.stats.hugeFallbackToNormalCount = st.pa.stats.hugeFallbackToNormalCount →
              p % hugePageSize = 0) := by
  intro st
  have hreach : machine.Reachable st := by
    refine (Machine.Reachable.init ?_).run cs
    cases useMapPopulate <;> simp [machine]
  have hst : SystemInv st := by
    refine hreach.invariant (I := SystemInv) (fun s hs => ?_) fun s c hs => hs.next c
    rcases hs with rfl | rfl
    · exact ⟨⟨0, inv_create⟩, by simp⟩
    · exact ⟨⟨0, { inv_create with }⟩, by simp⟩
  obtain ⟨⟨k, hinv⟩, -⟩ := hst
  have hranges : (st.ranges : Multiset Extent) =
      st.pa.ledger (st.heldRanges : Multiset Extent) := by
    simp only [System.ranges, ledger, Multiset.coe_add]
  refine ⟨fun q => ?_, ?_, hinv.counted, fun e he => ?_, hinv.wrapped, fun n _ env p pa hr => ?_⟩
  · rw [← Bool.toNat_eq_one, ← hinv.coverage q, ← hranges]
    have hle := hinv.coverage_le_one q
    rw [← hranges] at hle
    have hpos := Extent.coverage_pos_iff (l := (st.ranges : Multiset Extent)) (q := q)
    simp only [Multiset.mem_coe] at hpos
    rw [← hpos]
    omega
  · refine Extent.pairwise_disjoint_of_coverage (fun e he => ?_) fun q => ?_
    · exact (hinv.bounds e (hranges ▸ he)).1
    · rw [hranges]
      exact hinv.coverage_le_one q
  · obtain ⟨p, hp, rfl⟩ := List.mem_map.mp he
    have halign := (hinv.aligned p hp).1
    simp only [pageRange]
    unfold pageSize hugePageSize at *
    omega
  · -- the new range is covered, so it is mapped
    have hmapped : ∀ {k' pa'}, Inv k' pa' (pageRange p (n * pageSize) ::ₘ st.heldRanges) →
        ∀ q, (⟨p / pageSize, n⟩ : Extent).Contains q → pa'.pages q = true := by
      intro k' pa' h' q hq
      have hcov := h'.coverage q
      rw [ledger_cons, pageRange_mul, coverage_cons, if_pos hq] at hcov
      have := Bool.toNat_le (pa'.pages q)
      rw [← Bool.toNat_eq_one]
      omega
    have hspec := Inv.systemAlloc (hinv.withEnv env) n
    rw [show ({ st.pa with env := env } : PageAllocator) = st.pa.load env from rfl, hr] at hspec
    rcases hspec with ⟨⟨halign, -, -, hinv'⟩, hhuge⟩ | ⟨halign, -, -, hinv'⟩
    · exact ⟨halign, hmapped hinv', fun hbig _ => (hhuge hbig).1⟩
    · refine ⟨halign, hmapped hinv', fun _ hsame => absurd ?_ (addU64_one_ne k)⟩
      rw [← hinv'.fallbacks, hsame, hinv.fallbacks]

end PageAllocator

end Ammalloc
