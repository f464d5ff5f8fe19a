import Ammalloc.Lib.AccessProgram
import Ammalloc.PageAllocator.Ledger

set_option relaxedAutoImplicit false
set_option autoImplicit false

/-!
# The page allocator, access by access

The functions of `src/page_allocator.cpp` as programs that make system calls, use the cache of 2 MiB
mappings and bump counters, so that calls of several threads may be interleaved at every access.
Pointers are numbers, and `0` is the null pointer. Run alone against the model of the kernel, the
programs are the functions of `Ammalloc.PageAllocator`.

## Main definitions

* `Ammalloc.PageAllocator.Counter`, `Ammalloc.PageAllocator.Access` — what a program accesses.
* `Ammalloc.PageAllocator.Prog` — the programs of `SystemAlloc`, `SystemFree` and what they call.
* `Ammalloc.PageAllocator.respond` — the answers of the kernel and the cache.

## Main results

* `Ammalloc.PageAllocator.exec_systemAlloc`, `Ammalloc.PageAllocator.exec_systemFree` — a call that
  runs alone.
-/

namespace Ammalloc

namespace PageAllocator

/-! ## Accesses -/

/-- The counters of `PageAllocatorStats`. -/
inductive Counter where
  | normalAllocCount
  | normalAllocSuccess
  | normalAllocBytes
  | hugeAllocCount
  | hugeAllocSuccess
  | hugeAllocBytes
  | hugeAlignWasteBytes
  | hugeCacheHitCount
  | hugeCacheMissCount
  | freeCount
  | freeBytes
  | normalAllocFailedCount
  | hugeAllocFailedCount
  | allocFailedCount
  | hugeFallbackToNormalCount
  | mmapEnomemCount
  | mmapOtherErrorCount
  | munmapFailedCount
  | madviseFailedCount
  deriving DecidableEq, Repr

end PageAllocator

namespace PageAllocatorStats

open PageAllocator (Counter)

/-- The value of a counter. -/
def load (s : PageAllocatorStats) : Counter → ℕ
  | .normalAllocCount => s.normalAllocCount
  | .normalAllocSuccess => s.normalAllocSuccess
  | .normalAllocBytes => s.normalAllocBytes
  | .hugeAllocCount => s.hugeAllocCount
  | .hugeAllocSuccess => s.hugeAllocSuccess
  | .hugeAllocBytes => s.hugeAllocBytes
  | .hugeAlignWasteBytes => s.hugeAlignWasteBytes
  | .hugeCacheHitCount => s.hugeCacheHitCount
  | .hugeCacheMissCount => s.hugeCacheMissCount
  | .freeCount => s.freeCount
  | .freeBytes => s.freeBytes
  | .normalAllocFailedCount => s.normalAllocFailedCount
  | .hugeAllocFailedCount => s.hugeAllocFailedCount
  | .allocFailedCount => s.allocFailedCount
  | .hugeFallbackToNormalCount => s.hugeFallbackToNormalCount
  | .mmapEnomemCount => s.mmapEnomemCount
  | .mmapOtherErrorCount => s.mmapOtherErrorCount
  | .munmapFailedCount => s.munmapFailedCount
  | .madviseFailedCount => s.madviseFailedCount

/-- A relaxed `fetch_add`; the counters are `size_t`. -/
def fetchAdd (s : PageAllocatorStats) (c : Counter) (n : ℕ) : PageAllocatorStats :=
  match c with
  | .normalAllocCount => { s with normalAllocCount := addU64 s.normalAllocCount n }
  | .normalAllocSuccess => { s with normalAllocSuccess := addU64 s.normalAllocSuccess n }
  | .normalAllocBytes => { s with normalAllocBytes := addU64 s.normalAllocBytes n }
  | .hugeAllocCount => { s with hugeAllocCount := addU64 s.hugeAllocCount n }
  | .hugeAllocSuccess => { s with hugeAllocSuccess := addU64 s.hugeAllocSuccess n }
  | .hugeAllocBytes => { s with hugeAllocBytes := addU64 s.hugeAllocBytes n }
  | .hugeAlignWasteBytes => { s with hugeAlignWasteBytes := addU64 s.hugeAlignWasteBytes n }
  | .hugeCacheHitCount => { s with hugeCacheHitCount := addU64 s.hugeCacheHitCount n }
  | .hugeCacheMissCount => { s with hugeCacheMissCount := addU64 s.hugeCacheMissCount n }
  | .freeCount => { s with freeCount := addU64 s.freeCount n }
  | .freeBytes => { s with freeBytes := addU64 s.freeBytes n }
  | .normalAllocFailedCount =>
    { s with normalAllocFailedCount := addU64 s.normalAllocFailedCount n }
  | .hugeAllocFailedCount => { s with hugeAllocFailedCount := addU64 s.hugeAllocFailedCount n }
  | .allocFailedCount => { s with allocFailedCount := addU64 s.allocFailedCount n }
  | .hugeFallbackToNormalCount =>
    { s with hugeFallbackToNormalCount := addU64 s.hugeFallbackToNormalCount n }
  | .mmapEnomemCount => { s with mmapEnomemCount := addU64 s.mmapEnomemCount n }
  | .mmapOtherErrorCount => { s with mmapOtherErrorCount := addU64 s.mmapOtherErrorCount n }
  | .munmapFailedCount => { s with munmapFailedCount := addU64 s.munmapFailedCount n }
  | .madviseFailedCount => { s with madviseFailedCount := addU64 s.madviseFailedCount n }

/-- Only the counter itself changes. -/
lemma load_fetchAdd (s : PageAllocatorStats) (c c' : Counter) (n : ℕ) :
    (s.fetchAdd c n).load c' = if c' = c then addU64 (s.load c) n else s.load c' := by
  cases c <;> cases c' <;> rfl

end PageAllocatorStats

namespace PageAllocator

/-- The advice of an `madvise`. -/
inductive Advice where
  | hugePage
  | willNeed
  | dontNeed
  deriving DecidableEq, Repr

/-- What a function of the allocator asks of its surroundings. -/
inductive Access where
  | mmap (size : ℕ) (populate : Bool)
  | munmap (ptr size : ℕ)
  | madvise (ptr size : ℕ) (advice : Advice)
  /-- `HugePageCache::Get`. -/
  | get
  /-- `HugePageCache::Put`. -/
  | put (ptr : ℕ)
  /-- `RuntimeConfig::UseMapPopulate`. -/
  | useMapPopulate
  | fetchAdd (c : Counter) (n : ℕ)
  deriving DecidableEq, Repr

/-- The type of the answer. -/
abbrev Access.Answer : Access → Type
  | mmap _ _ => Except Errno ℕ
  | munmap _ _ | madvise _ _ _ | put _ | useMapPopulate => Bool
  | get => ℕ
  | fetchAdd _ _ => Unit

/-- A program of the allocator. -/
abbrev Prog := AccessProgram Access Access.Answer

namespace Prog

open AccessProgram (perform)

/-- `mmap(nullptr, size, ...)`. -/
def mmap (size : ℕ) (populate : Bool) : Prog (Except Errno ℕ) := perform (Access.mmap size populate)

/-- `munmap(ptr, size) == 0`. -/
def munmap (ptr size : ℕ) : Prog Bool := perform (Access.munmap ptr size)

/-- `madvise(ptr, size, advice) == 0`. -/
def madvise (ptr size : ℕ) (advice : Advice) : Prog Bool := perform (Access.madvise ptr size advice)

/-- `HugePageCache::Get`. -/
def get : Prog ℕ := perform Access.get

/-- `HugePageCache::Put`. -/
def put (ptr : ℕ) : Prog Bool := perform (Access.put ptr)

/-- `RuntimeConfig::UseMapPopulate`. -/
def useMapPopulate : Prog Bool := perform Access.useMapPopulate

/-- `fetch_add` on a counter. -/
def count (c : Counter) (n : ℕ) : Prog Unit := perform (Access.fetchAdd c n)

/-! ## Allocation -/

/-- `SafeMunmap`. -/
def safeMunmap (ptr size : ℕ) : Prog Bool :=
  if ptr = 0 ∨ size = 0 then pure true
  else do
    let ok ← munmap ptr size
    if ok then pure true
    else do
      count .munmapFailedCount 1
      pure false

/-- `SafeMunmap`, whose result is not looked at. -/
def unmap (ptr size : ℕ) : Prog Unit := do
  let _ ← safeMunmap ptr size
  pure ()

/-- The loop of `AllocWithRetry`. -/
def retryLoop : ℕ → ℕ → Bool → Prog ℕ
  | 0, _, _ => pure 0
  | retries + 1, size, populate => do
    let r ← mmap size populate
    match r with
    | .ok ptr => pure ptr
    | .error .enomem => do
      count .mmapEnomemCount 1
      retryLoop retries size populate
    | .error .other => do
      count .mmapOtherErrorCount 1
      pure 0

/-- `AllocWithRetry`. -/
def allocWithRetry (size : ℕ) (populate : Bool) : Prog ℕ := retryLoop maxAllocRetries size populate

/-- One `madvise` whose failure is only counted. -/
def hint (ptr size : ℕ) (advice : Advice) : Prog Unit := do
  let ok ← madvise ptr size advice
  if ok then pure () else count .madviseFailedCount 1

/-- `ApplyHugePageHint`. -/
def applyHugePageHint (ptr size : ℕ) : Prog Unit := do
  hint ptr size .hugePage
  let populate ← useMapPopulate
  if populate then hint ptr size .willNeed else pure ()

/-- `AllocNormalPage`. -/
def allocNormalPage (size : ℕ) : Prog ℕ := do
  count .normalAllocCount 1
  let populate ← useMapPopulate
  let ptr ← allocWithRetry size populate
  if ptr = 0 then do
    count .normalAllocFailedCount 1
    pure 0
  else do
    count .normalAllocSuccess 1
    count .normalAllocBytes size
    pure ptr

/-- A failure of the huge-page path. -/
def hugeAllocFailed : Prog ℕ := do
  count .hugeAllocFailedCount 1
  pure 0

/-- The successful end of both huge-page paths. -/
def hugeAllocDone (ptr size : ℕ) : Prog ℕ := do
  applyHugePageHint ptr size
  count .hugeAllocSuccess 1
  count .hugeAllocBytes size
  pure ptr

/-- `SafeMunmap` of a part that is to be unmapped. -/
def unmapIf (mapped : Bool) (ptr size : ℕ) : Prog Unit :=
  if mapped then unmap ptr size else pure ()

/-- `cleanup_remaining_mappings`. -/
def cleanupRemainingMappings (f : TrimParts) (headMapped tailMapped skipHead skipTail : Bool) :
    Prog Unit := do
  unmap f.bodyPtr f.size
  unmapIf (!skipTail && tailMapped) f.tailPtr f.tailGap
  unmapIf (!skipHead && headMapped) f.headPtr f.headGap

/-- The head or the tail is unmapped, if it is not empty. -/
def trim (ptr gap : ℕ) : Prog Bool := if gap > 0 then safeMunmap ptr gap else pure true

/-- `AllocHugePageWithTrim` once the head is trimmed. -/
def trimTail (f : TrimParts) : Prog ℕ := do
  let trimmed ← trim f.tailPtr f.tailGap
  if trimmed then do
    count .hugeAlignWasteBytes (f.headGap + f.tailGap)
    hugeAllocDone f.bodyPtr f.size
  else do
    cleanupRemainingMappings f false true false true
    hugeAllocFailed

/-- `AllocHugePageWithTrim` once the parts are known. -/
def trimHead (f : TrimParts) : Prog ℕ := do
  let trimmed ← trim f.headPtr f.headGap
  if trimmed then trimTail f
  else do
    cleanupRemainingMappings f true (decide (f.tailGap > 0)) true false
    hugeAllocFailed

/-- The parts of the mapping of `allocSize` bytes at `rawAddr`, computed in `size_t`. -/
def trimParts (rawAddr allocSize size : ℕ) : TrimParts :=
  let alignedAddr := subU64 (addU64 rawAddr hugePageSize) 1 / hugePageSize * hugePageSize
  let headGap := subU64 alignedAddr rawAddr
  ⟨rawAddr, headGap, alignedAddr, size, addU64 alignedAddr size,
    subU64 (subU64 allocSize headGap) size⟩

/-- `AllocHugePageWithTrim`. -/
def allocHugePageWithTrim (size : ℕ) : Prog ℕ :=
  if size > sizeMax - hugePageSize then hugeAllocFailed
  else do
    let allocSize := addU64 size hugePageSize
    let rawAddr ← allocWithRetry allocSize false
    if rawAddr = 0 then hugeAllocFailed
    else trimHead (trimParts rawAddr allocSize size)

/-- `AllocHugePage`. -/
def allocHugePage (size : ℕ) : Prog ℕ := do
  count .hugeAllocCount 1
  let ptr ← allocWithRetry size false
  if ptr = 0 then hugeAllocFailed
  else if isHugePageAligned ptr then hugeAllocDone ptr size
  else do
    unmap ptr size
    allocHugePageWithTrim size

/-- `AllocNormalPage`, whose failure is the failure of the call. -/
def allocNormalOrFail (size : ℕ) : Prog ℕ := do
  let ptr ← allocNormalPage size
  if ptr = 0 then do
    count .allocFailedCount 1
    pure 0
  else pure ptr

/-- `AllocHugePage` with the fallback to normal pages. -/
def allocHugeOrNormal (size : ℕ) : Prog ℕ := do
  let ptr ← allocHugePage size
  if ptr = 0 then do
    count .hugeFallbackToNormalCount 1
    allocNormalOrFail size
  else pure ptr

/-- `SystemAlloc`. -/
def systemAlloc (pageNum : ℕ) : Prog ℕ :=
  if pageNum = 0 then pure 0
  else if pageNum > sizeMax >>> pageShift then pure 0
  else
    let size := pageNum <<< pageShift % 2 ^ 64
    if size < hugePageSize >>> 1 then allocNormalOrFail size
    else if size = hugePageSize then do
      let ptr ← get
      if ptr ≠ 0 ∧ isHugePageAligned ptr then do
        count .hugeCacheHitCount 1
        pure ptr
      else do
        count .hugeCacheMissCount 1
        allocHugeOrNormal size
    else allocHugeOrNormal size

/-! ## Release -/

/-- `SystemFree`. -/
def systemFree (ptr pageNum : ℕ) : Prog Unit :=
  if ptr = 0 ∨ pageNum = 0 then pure ()
  else if pageNum > sizeMax >>> pageShift then pure ()
  else do
    let size := pageNum <<< pageShift % 2 ^ 64
    count .freeCount 1
    count .freeBytes size
    if size = hugePageSize ∧ isHugePageAligned ptr then do
      let ok ← madvise ptr size .dontNeed
      if ok then do
        let cached ← put ptr
        if cached then pure () else unmap ptr size
      else do
        count .madviseFailedCount 1
        unmap ptr size
    else unmap ptr size

end Prog

/-! ## Running alone -/

/-- The answers of the kernel, the cache and the counters. -/
def respond : (e : Access) → PageAllocator → e.Answer × PageAllocator
  | .mmap size _, pa => pa.mmap size
  | .munmap ptr size, pa => pa.munmap ptr size
  | .madvise _ _ _, pa => pa.madvise
  | .get, pa => (pa.cache.get.1, { pa with cache := pa.cache.get.2 })
  | .put ptr, pa => ((pa.cache.put ptr).1, { pa with cache := (pa.cache.put ptr).2 })
  | .useMapPopulate, pa => (pa.useMapPopulate, pa)
  | .fetchAdd c n, pa => ((), pa.count fun s => s.fetchAdd c n)

open AccessProgram

variable {pa : PageAllocator} {ptr size n : ℕ}

@[simp] lemma exec_mmap (populate : Bool) :
    (Prog.mmap size populate).exec respond pa = pa.mmap size := exec_perform respond _ pa

@[simp] lemma exec_munmap : (Prog.munmap ptr size).exec respond pa = pa.munmap ptr size := rfl

@[simp] lemma exec_madvise (advice : Advice) :
    (Prog.madvise ptr size advice).exec respond pa = pa.madvise := rfl

@[simp] lemma exec_get :
    Prog.get.exec respond pa = (pa.cache.get.1, { pa with cache := pa.cache.get.2 }) := rfl

@[simp] lemma exec_put : (Prog.put ptr).exec respond pa =
    ((pa.cache.put ptr).1, { pa with cache := (pa.cache.put ptr).2 }) := rfl

@[simp] lemma exec_useMapPopulate :
    Prog.useMapPopulate.exec respond pa = (pa.useMapPopulate, pa) := rfl

@[simp] lemma exec_count (c : Counter) :
    (Prog.count c n).exec respond pa = ((), pa.count fun s => s.fetchAdd c n) := rfl

/-- The program of `SafeMunmap` computes the function. -/
lemma exec_safeMunmap :
    (Prog.safeMunmap ptr size).exec respond pa = pa.safeMunmap ptr size := by
  unfold Prog.safeMunmap PageAllocator.safeMunmap
  split
  · rfl
  · rw [exec_bind, exec_munmap]
    rcases pa.munmap ptr size with ⟨ok, pa'⟩
    cases ok <;> rfl

/-- The program of `SafeMunmap` with its result ignored. -/
lemma exec_unmap :
    (Prog.unmap ptr size).exec respond pa = ((), (pa.safeMunmap ptr size).2) := by
  rw [Prog.unmap, exec_bind, exec_safeMunmap]
  rfl

/-- The null pointer for a failure. -/
def orNull (r : Option ℕ × PageAllocator) : ℕ × PageAllocator := (r.1.getD 0, r.2)

/-- The program of the loop of `AllocWithRetry` computes the loop. -/
lemma exec_retryLoop (retries : ℕ) (populate : Bool) :
    (Prog.retryLoop retries size populate).exec respond pa =
      orNull (retryLoop retries pa size) := by
  induction retries generalizing pa with
  | zero => rfl
  | succ retries ih =>
    unfold Prog.retryLoop PageAllocator.retryLoop
    rw [exec_bind, exec_mmap]
    rcases pa.mmap size with ⟨r, pa'⟩
    rcases r with (_ | _) | p
    · exact ih
    · rfl
    · rfl

/-- The program of `AllocWithRetry` computes the function. -/
lemma exec_allocWithRetry (populate : Bool) :
    (Prog.allocWithRetry size populate).exec respond pa = orNull (pa.allocWithRetry size) :=
  exec_retryLoop _ populate

/-- The program of a hint computes the function. -/
lemma exec_hint (advice : Advice) :
    (Prog.hint ptr size advice).exec respond pa = ((), pa.hint) := by
  unfold Prog.hint PageAllocator.hint
  rw [exec_bind, exec_madvise]
  rcases pa.madvise with ⟨ok, pa'⟩
  cases ok <;> rfl

/-- The program of `ApplyHugePageHint` computes the function. -/
lemma exec_applyHugePageHint :
    (Prog.applyHugePageHint ptr size).exec respond pa = ((), pa.applyHugePageHint) := by
  unfold Prog.applyHugePageHint PageAllocator.applyHugePageHint
  rw [exec_bind, exec_hint, exec_bind, exec_useMapPopulate]
  by_cases hpopulate : pa.hint.useMapPopulate = true
  · rw [if_pos hpopulate, if_pos hpopulate, exec_hint]
  · rw [if_neg hpopulate, if_neg hpopulate, exec_pure]

/-- What `mmap` returns is a range of the address space, and not null. -/
lemma retryLoop_some {retries p : ℕ} (h : (retryLoop retries pa size).1 = some p) :
    p % pageSize = 0 ∧ 0 < p ∧ p + size ≤ 2 ^ 64 := by
  induction retries generalizing pa with
  | zero => cases h
  | succ retries ih =>
    unfold PageAllocator.retryLoop at h
    have hok : ∀ q, (pa.mmap size).1 = .ok q → q % pageSize = 0 ∧ 0 < q ∧ q + size ≤ 2 ^ 64 := by
      intro q hq
      unfold PageAllocator.mmap at hq
      simp only at hq
      split at hq
      · split at hq
        · rename_i hmap
          cases hq
          exact ⟨hmap.1, hmap.2.1, hmap.2.2.1⟩
        · cases hq
      · cases hq
    rcases hr : pa.mmap size with ⟨r, pa'⟩
    rw [hr] at h hok
    rcases r with (_ | _) | q
    · exact ih h
    · cases h
    · cases h
      exact hok _ rfl

/-- `AllocWithRetry` returns an aligned range of the address space, not at zero. -/
lemma allocWithRetry_some {p : ℕ} (h : (pa.allocWithRetry size).1 = some p) :
    p % pageSize = 0 ∧ 0 < p ∧ p + size ≤ 2 ^ 64 := retryLoop_some h

/-- A test for null sees the failure, -/
lemma exec_ifNull_none {α : Type} {r : Option ℕ × PageAllocator} (hr : r = (none, pa)) (P : Prog α)
    (Q : ℕ → Prog α) :
    (if (orNull r).1 = 0 then P else Q (orNull r).1).exec respond (orNull r).2 =
      P.exec respond pa := by
  rw [hr]
  rfl

/-- and the success, if that is not null. -/
lemma exec_ifNull_some {α : Type} {r : Option ℕ × PageAllocator} {p : ℕ} (hr : r = (some p, pa))
    (hp : 0 < p) (P : Prog α) (Q : ℕ → Prog α) :
    (if (orNull r).1 = 0 then P else Q (orNull r).1).exec respond (orNull r).2 =
      (Q p).exec respond pa := by
  have horNull : orNull r = (p, pa) := by rw [hr]; rfl
  rw [horNull, if_neg hp.ne']

/-- The program of `AllocNormalPage` computes the function. -/
lemma exec_allocNormalPage :
    (Prog.allocNormalPage size).exec respond pa = orNull (pa.allocNormalPage size) := by
  unfold Prog.allocNormalPage PageAllocator.allocNormalPage
  rw [exec_bind, exec_count, exec_bind, exec_useMapPopulate, exec_bind, exec_allocWithRetry]
  simp only
  obtain ⟨⟨_ | p, pa'⟩, hr⟩ : ∃ r, allocWithRetry (pa.count fun s =>
    { s with normalAllocCount := addU64 s.normalAllocCount 1 }) size = r := ⟨_, rfl⟩
  · rw [hr]
    exact exec_ifNull_none hr _ fun p => do
      Prog.count .normalAllocSuccess 1
      Prog.count .normalAllocBytes size
      pure p
  · have hp := (allocWithRetry_some (congrArg Prod.fst hr)).2.1
    rw [hr]
    exact exec_ifNull_some hr hp _ fun p => do
      Prog.count .normalAllocSuccess 1
      Prog.count .normalAllocBytes size
      pure p

/-- What `AllocNormalPage` returns is not null. -/
lemma allocNormalPage_some {p : ℕ} (h : (pa.allocNormalPage size).1 = some p) : 0 < p := by
  unfold PageAllocator.allocNormalPage at h
  simp only at h
  split at h
  · cases h
  · rename_i q pa' hq
    cases h
    exact (allocWithRetry_some (congrArg Prod.fst hq)).2.1

/-- The program of the success of `AllocHugePage` computes the function. -/
lemma exec_hugeAllocDone :
    (Prog.hugeAllocDone ptr size).exec respond pa = orNull (pa.hugeAllocDone ptr size) := by
  unfold Prog.hugeAllocDone PageAllocator.hugeAllocDone
  simp only [exec_bind, exec_applyHugePageHint]
  rfl

/-- The program of `CleanupRemainingMappings` computes the function. -/
lemma exec_cleanupRemainingMappings (f : TrimParts)
    (headMapped tailMapped skipHead skipTail : Bool) :
    (Prog.cleanupRemainingMappings f headMapped tailMapped skipHead skipTail).exec respond pa =
      ((), pa.cleanupRemainingMappings f headMapped tailMapped skipHead skipTail) := by
  unfold Prog.cleanupRemainingMappings PageAllocator.cleanupRemainingMappings
  have hif : ∀ (b : Bool) (p n : ℕ) (pa : PageAllocator), (Prog.unmapIf b p n).exec respond pa =
      ((), if b = true then (pa.safeMunmap p n).2 else pa) := by
    rintro (_ | _) p n pa
    · rfl
    · exact exec_unmap
  rw [exec_bind, exec_unmap, exec_bind, hif, hif]

/-- The program that unmaps a gap does so if there is one. -/
lemma exec_trim {gap : ℕ} : (Prog.trim ptr gap).exec respond pa =
    if gap > 0 then pa.safeMunmap ptr gap else (true, pa) := by
  unfold Prog.trim
  split
  · exact exec_safeMunmap
  · rfl

/-- The program of the trim from the tail on computes the function. -/
lemma exec_trimTail (f : TrimParts) :
    (Prog.trimTail f).exec respond pa = orNull (pa.trimTail f) := by
  unfold Prog.trimTail PageAllocator.trimTail
  rw [exec_bind, exec_trim]
  by_cases hgap : f.tailGap > 0
  · rw [if_pos hgap, if_pos hgap]
    rcases pa.safeMunmap f.tailPtr f.tailGap with ⟨_ | _, pa'⟩
    · exact (exec_bind respond _ _ _).trans (by rw [exec_cleanupRemainingMappings]; rfl)
    · exact exec_hugeAllocDone
  · rw [if_neg hgap, if_neg hgap]
    exact exec_hugeAllocDone

/-- The program of the trim of an over-allocated mapping computes the function. -/
lemma exec_trimHead (f : TrimParts) :
    (Prog.trimHead f).exec respond pa = orNull (pa.trimHead f) := by
  unfold Prog.trimHead PageAllocator.trimHead
  rw [exec_bind, exec_trim]
  by_cases hgap : f.headGap > 0
  · rw [if_pos hgap, if_pos hgap]
    rcases pa.safeMunmap f.headPtr f.headGap with ⟨_ | _, pa'⟩
    · exact (exec_bind respond _ _ _).trans (by rw [exec_cleanupRemainingMappings]; rfl)
    · exact exec_trimTail f
  · rw [if_neg hgap, if_neg hgap]
    exact exec_trimTail f

/-- What the trim returns is the body. -/
lemma trimTail_some {f : TrimParts} {p : ℕ} (h : (pa.trimTail f).1 = some p) : p = f.bodyPtr := by
  unfold PageAllocator.trimTail at h
  simp only at h
  split at h
  · split at h
    · cases h
    · exact (Option.some.inj h).symm
  · exact (Option.some.inj h).symm

/-- A trim that succeeds returns the body. -/
lemma trimHead_some {f : TrimParts} {p : ℕ} (h : (pa.trimHead f).1 = some p) : p = f.bodyPtr := by
  unfold PageAllocator.trimHead at h
  split at h
  · split at h
    · cases h
    · exact trimTail_some h
  · exact trimTail_some h

/-- Both models cut a mapping in the same way. -/
lemma trimParts_fst (pa : PageAllocator) (rawAddr allocSize size : ℕ) :
    (pa.trimParts rawAddr allocSize size).1 = Prog.trimParts rawAddr allocSize size := rfl

/-- `AllocHugePageWithTrim` computes the parts without wrapping. -/
lemma allocHugePageWithTrim_eq {pa' : PageAllocator} {raw : ℕ} (hpos : 0 < size)
    (hle : ¬ size > sizeMax - hugePageSize) (hmul : size % pageSize = 0)
    (hr : pa.allocWithRetry (size + hugePageSize) = (some raw, pa')) :
    pa.allocHugePageWithTrim size =
      pa'.trimHead (Prog.trimParts raw (size + hugePageSize) size) := by
  have hsum : size + hugePageSize < 2 ^ 64 := by
    unfold sizeMax hugePageSize at *
    omega
  obtain ⟨hraw, hnull, hend⟩ := allocWithRetry_some (congrArg Prod.fst hr)
  obtain ⟨f, hparts, -, -, -⟩ := trimParts_eq pa' hraw hnull hend hpos hmul
  have hf : f = Prog.trimParts raw (size + hugePageSize) size := by
    rw [← trimParts_fst pa', hparts]
  unfold PageAllocator.allocHugePageWithTrim
  rw [if_neg hle, addSize_eq hsum]
  simp only [hr, hparts]
  rw [hf]

/-- The body of a mapping does not begin at null. -/
lemma trimParts_bodyPtr_pos {raw : ℕ} (hraw : 0 < raw) (hend : raw + hugePageSize < 2 ^ 64)
    (allocSize size : ℕ) : 0 < (Prog.trimParts raw allocSize size).bodyPtr := by
  have hbody : (Prog.trimParts raw allocSize size).bodyPtr =
      (raw + hugePageSize - 1) / hugePageSize * hugePageSize := by
    unfold Prog.trimParts
    simp only
    rw [addU64_of_lt hend, subU64_of_le hend (by omega)]
  rw [hbody]
  refine Nat.mul_pos (Nat.div_pos ?_ (by decide)) (by decide)
  omega

/-- `AllocHugePageWithTrim`, and that what it returns is not null. -/
lemma exec_allocHugePageWithTrim (hpos : 0 < size) (hmul : size % pageSize = 0) :
    (Prog.allocHugePageWithTrim size).exec respond pa = orNull (pa.allocHugePageWithTrim size) ∧
      ∀ p, (pa.allocHugePageWithTrim size).1 = some p → 0 < p := by
  by_cases hle : size > sizeMax - hugePageSize
  · unfold Prog.allocHugePageWithTrim PageAllocator.allocHugePageWithTrim
    rw [if_pos hle, if_pos hle]
    exact ⟨rfl, fun p hp => absurd hp (by simp [hugeAllocFailed])⟩
  have hsum : size + hugePageSize < 2 ^ 64 := by
    unfold sizeMax hugePageSize at *
    omega
  unfold Prog.allocHugePageWithTrim
  rw [if_neg hle, addU64_of_lt hsum, exec_bind, exec_allocWithRetry]
  obtain ⟨⟨_ | raw, pa'⟩, hr⟩ : ∃ r, pa.allocWithRetry (size + hugePageSize) = r := ⟨_, rfl⟩
  · have hfail : pa.allocHugePageWithTrim size = pa'.hugeAllocFailed := by
      unfold PageAllocator.allocHugePageWithTrim
      rw [if_neg hle, addSize_eq hsum]
      simp only [hr]
    rw [exec_ifNull_none hr _ fun p => Prog.trimHead (Prog.trimParts p (size + hugePageSize) size),
      hfail]
    exact ⟨rfl, fun p hp => absurd hp (by simp [hugeAllocFailed])⟩
  · obtain ⟨-, hnull, hend⟩ := allocWithRetry_some (congrArg Prod.fst hr)
    rw [exec_ifNull_some hr hnull _ fun p =>
      Prog.trimHead (Prog.trimParts p (size + hugePageSize) size),
      allocHugePageWithTrim_eq hpos hle hmul hr]
    refine ⟨exec_trimHead _, fun p hp => ?_⟩
    rw [trimHead_some hp]
    exact trimParts_bodyPtr_pos hnull (by omega) _ _

/-- `AllocHugePage`, and that what it returns is not null. -/
lemma exec_allocHugePage (hpos : 0 < size) (hmul : size % pageSize = 0) :
    (Prog.allocHugePage size).exec respond pa = orNull (pa.allocHugePage size) ∧
      ∀ p, (pa.allocHugePage size).1 = some p → 0 < p := by
  unfold Prog.allocHugePage PageAllocator.allocHugePage
  rw [exec_bind, exec_count, exec_bind, exec_allocWithRetry]
  simp only
  obtain ⟨⟨_ | p, pa'⟩, hr⟩ : ∃ r, allocWithRetry (pa.count fun s =>
    { s with hugeAllocCount := addU64 s.hugeAllocCount 1 }) size = r := ⟨_, rfl⟩
  · rw [hr]
    refine ⟨exec_ifNull_none hr _ fun p =>
      if isHugePageAligned p then Prog.hugeAllocDone p size
      else do
        Prog.unmap p size
        Prog.allocHugePageWithTrim size, fun p hp => absurd hp (by simp [hugeAllocFailed])⟩
  have hnull := (allocWithRetry_some (congrArg Prod.fst hr)).2.1
  have hexec := exec_ifNull_some hr hnull Prog.hugeAllocFailed fun p =>
    if isHugePageAligned p then Prog.hugeAllocDone p size
    else do
      Prog.unmap p size
      Prog.allocHugePageWithTrim size
  rw [hr]
  simp only
  by_cases halign : isHugePageAligned p = true
  · rw [if_pos halign] at hexec ⊢
    refine ⟨hexec.trans exec_hugeAllocDone, fun q hq => ?_⟩
    rw [← Option.some.inj hq]
    exact hnull
  · rw [if_neg halign] at hexec ⊢
    rw [exec_bind, exec_unmap] at hexec
    exact ⟨hexec.trans (exec_allocHugePageWithTrim hpos hmul).1,
      (exec_allocHugePageWithTrim hpos hmul).2⟩

/-- The program for normal pages computes the function. -/
lemma exec_allocNormalOrFail : (Prog.allocNormalOrFail size).exec respond pa =
    orNull (countFailure (pa.allocNormalPage size)) := by
  unfold Prog.allocNormalOrFail
  rw [exec_bind, exec_allocNormalPage]
  obtain ⟨⟨_ | p, pa'⟩, hr⟩ : ∃ r, pa.allocNormalPage size = r := ⟨_, rfl⟩
  · rw [exec_ifNull_none hr _ fun p => pure p, hr]
    rfl
  · rw [exec_ifNull_some hr (allocNormalPage_some (congrArg Prod.fst hr)) _ fun p => pure p, hr]
    rfl

/-- The program for huge pages, with the fallback, computes the function. -/
lemma exec_allocHugeOrNormal (hpos : 0 < size) (hmul : size % pageSize = 0) :
    (Prog.allocHugeOrNormal size).exec respond pa = orNull (pa.allocHugeOrNormal size) := by
  obtain ⟨hexec, hnull⟩ :
      (Prog.allocHugePage size).exec respond pa = orNull (pa.allocHugePage size) ∧
      ∀ p, (pa.allocHugePage size).1 = some p → 0 < p := exec_allocHugePage hpos hmul
  unfold Prog.allocHugeOrNormal PageAllocator.allocHugeOrNormal
  rw [exec_bind, hexec]
  obtain ⟨⟨_ | p, pa'⟩, hr⟩ : ∃ r, pa.allocHugePage size = r := ⟨_, rfl⟩
  · rw [exec_ifNull_none hr _ fun p => pure p, hr, exec_bind, exec_count]
    exact exec_allocNormalOrFail
  · rw [exec_ifNull_some hr (hnull p (congrArg Prod.fst hr)) _ fun p => pure p, hr]
    rfl

/-- **`SystemAlloc` alone** does what the sequential model says. -/
theorem exec_systemAlloc (pa : PageAllocator) (pageNum : ℕ) :
    (Prog.systemAlloc pageNum).exec respond pa = orNull (pa.systemAlloc pageNum) := by
  unfold Prog.systemAlloc PageAllocator.systemAlloc
  by_cases hzero : pageNum = 0
  · rw [if_pos hzero, if_pos hzero]
    rfl
  rw [if_neg hzero, if_neg hzero]
  by_cases hmax : pageNum > sizeMax >>> pageShift
  · rw [if_pos hmax, if_pos hmax]
    rfl
  rw [if_neg hmax, if_neg hmax]
  have hbytes : pa.byteSize pageNum = (pageNum * pageSize, pa) := byteSize_eq hmax
  have hsize : pageNum <<< pageShift % 2 ^ 64 = pageNum * pageSize := congrArg Prod.fst hbytes
  have hpos : 0 < pageNum * pageSize := Nat.mul_pos (by omega) (by decide)
  have hmul : pageNum * pageSize % pageSize = 0 := Nat.mul_mod_left _ _
  simp only [hbytes, hsize]
  by_cases hsmall : pageNum * pageSize < hugePageSize >>> 1
  · rw [if_pos hsmall, if_pos hsmall]
    exact exec_allocNormalOrFail
  rw [if_neg hsmall, if_neg hsmall]
  by_cases hhuge : pageNum * pageSize = hugePageSize
  · rw [if_pos hhuge, if_pos hhuge, exec_bind, exec_get]
    by_cases hhit : pa.cache.get.1 ≠ 0 ∧ isHugePageAligned pa.cache.get.1 = true
    · rw [if_pos hhit, if_pos hhit]
      rfl
    · rw [if_neg hhit, if_neg hhit, exec_bind, exec_count]
      exact exec_allocHugeOrNormal hpos hmul
  · rw [if_neg hhuge, if_neg hhuge]
    exact exec_allocHugeOrNormal hpos hmul

/-- **`SystemFree` alone** does what the sequential model says. -/
theorem exec_systemFree (pa : PageAllocator) (ptr pageNum : ℕ) :
    (Prog.systemFree ptr pageNum).exec respond pa = ((), pa.systemFree ptr pageNum) := by
  unfold Prog.systemFree PageAllocator.systemFree
  by_cases hnull : ptr = 0 ∨ pageNum = 0
  · rw [if_pos hnull, if_pos hnull]
    rfl
  rw [if_neg hnull, if_neg hnull]
  by_cases hmax : pageNum > sizeMax >>> pageShift
  · rw [if_pos hmax, if_pos hmax]
    rfl
  rw [if_neg hmax, if_neg hmax]
  have hbytes : pa.byteSize pageNum = (pageNum * pageSize, pa) := byteSize_eq hmax
  have hsize : pageNum <<< pageShift % 2 ^ 64 = pageNum * pageSize := congrArg Prod.fst hbytes
  simp only [hbytes, hsize]
  rw [exec_bind, exec_count, exec_bind, exec_count]
  -- The two counters have been bumped one after the other.
  change AccessProgram.exec respond _ (pa.count fun s => { s with
    freeCount := addU64 s.freeCount 1
    freeBytes := addU64 s.freeBytes (pageNum * pageSize) }) = _
  generalize (pa.count fun s => { s with
    freeCount := addU64 s.freeCount 1
    freeBytes := addU64 s.freeBytes (pageNum * pageSize) }) = pa₁
  by_cases hcache : pageNum * pageSize = hugePageSize ∧ isHugePageAligned ptr = true
  · rw [if_pos hcache, if_pos hcache, exec_bind, exec_madvise]
    rcases pa₁.madvise with ⟨_ | _, pa₂⟩
    · exact exec_unmap
    · simp only [if_true]
      rw [exec_bind, exec_put]
      rcases pa₂.cache.put ptr with ⟨_ | _, cache⟩
      · exact exec_unmap
      · rfl
  · rw [if_neg hcache, if_neg hcache]
    exact exec_unmap

end PageAllocator

end Ammalloc
