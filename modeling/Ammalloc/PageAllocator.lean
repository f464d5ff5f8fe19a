import Ammalloc.HugePageCache
import Ammalloc.Lib.ExtentMap

set_option relaxedAutoImplicit false
set_option autoImplicit false

/-!
# The page allocator

`PageAllocator` of `src/page_allocator.cpp`: `SystemAlloc` and `SystemFree` over `mmap`, `munmap`
and `madvise`, with the cache of 2 MiB mappings.

The kernel is part of the state: `pages` says which pages are mapped, and the system calls answer
from the lists in `env`. An empty list is a failure, and so is an `mmap` answer that the kernel
cannot give (an address that is not page aligned or null, or a range that leaves the address space
or meets a mapped page).

Two fields are not in the program: `failed` (the ranges whose `munmap` failed) and `wrapped` (a size
or address computation has wrapped around).

## Main definitions

* `Ammalloc.PageAllocator`, `Ammalloc.OsEnv`.
* `Ammalloc.PageAllocator.systemAlloc`, `Ammalloc.PageAllocator.systemFree`,
  `Ammalloc.PageAllocator.releaseHugePageCache`.
-/

namespace Ammalloc

/-- `SystemConfig::HUGE_PAGE_SIZE`. -/
def hugePageSize : ℕ := 2 * 1024 * 1024

/-- `PageConfig::MAX_ALLOC_RETRIES`. -/
def maxAllocRetries : ℕ := 3

/-- `errno` after a failed `mmap`, as far as it is looked at. -/
inductive Errno where
  | enomem
  | other
  deriving DecidableEq, Repr

/-- What the kernel answers to the system calls of one operation, in call order. -/
structure OsEnv where
  mmap : List (Except Errno ℕ) := []
  munmap : List Bool := []
  madvise : List Bool := []

/-- `PageAllocatorStats`. -/
structure PageAllocatorStats where
  normalAllocCount : ℕ := 0
  normalAllocSuccess : ℕ := 0
  normalAllocBytes : ℕ := 0
  hugeAllocCount : ℕ := 0
  hugeAllocSuccess : ℕ := 0
  hugeAllocBytes : ℕ := 0
  hugeAlignWasteBytes : ℕ := 0
  hugeCacheHitCount : ℕ := 0
  hugeCacheMissCount : ℕ := 0
  freeCount : ℕ := 0
  freeBytes : ℕ := 0
  normalAllocFailedCount : ℕ := 0
  hugeAllocFailedCount : ℕ := 0
  allocFailedCount : ℕ := 0
  hugeFallbackToNormalCount : ℕ := 0
  mmapEnomemCount : ℕ := 0
  mmapOtherErrorCount : ℕ := 0
  munmapFailedCount : ℕ := 0
  madviseFailedCount : ℕ := 0

/-- The page allocator and the kernel below it. -/
structure PageAllocator where
  cache : HugePageCache := .create
  stats : PageAllocatorStats := {}
  /-- `RuntimeConfig::UseMapPopulate`. -/
  useMapPopulate : Bool := false
  /-- The mapped pages, by page id. -/
  pages : ℕ → Bool := fun _ => false
  env : OsEnv := {}
  /-- The ranges whose `munmap` was attempted and failed. -/
  failed : List Extent := []
  /-- Some size or address computation has wrapped around. -/
  wrapped : Bool := false

/-- The pages of `size` bytes at `ptr`. -/
def pageRange (ptr size : ℕ) : Extent := ⟨ptr / pageSize, size / pageSize⟩

namespace PageAllocator

/-! ## System calls -/

/-- The answers for the next operation. -/
def load (pa : PageAllocator) (env : OsEnv) : PageAllocator := { pa with env := env }

/-- A relaxed `fetch_add` on some of the counters. -/
def count (pa : PageAllocator) (f : PageAllocatorStats → PageAllocatorStats) : PageAllocator :=
  { pa with stats := f pa.stats }

/-- A range that `mmap` can return: page aligned, not null, inside the address space and without
mapped pages. -/
def Mappable (pa : PageAllocator) (ptr size : ℕ) : Prop :=
  ptr % pageSize = 0 ∧ 0 < ptr ∧ ptr + size ≤ 2 ^ 64 ∧
    ∀ i < size / pageSize, pa.pages (ptr / pageSize + i) = false

instance (pa : PageAllocator) (ptr size : ℕ) : Decidable (pa.Mappable ptr size) :=
  inferInstanceAs (Decidable (_ ∧ _ ∧ _ ∧ _))

/-- `mmap(nullptr, size, ...)`. -/
def mmap (pa : PageAllocator) (size : ℕ) : Except Errno ℕ × PageAllocator :=
  let pa' := { pa with env := { pa.env with mmap := pa.env.mmap.tail } }
  match pa.env.mmap.headD (.error .other) with
  | .ok ptr =>
    if pa.Mappable ptr size then
      (.ok ptr, { pa' with
        pages := fun q => if (pageRange ptr size).Contains q then true else pa.pages q })
    else (.error .other, pa')
  | .error e => (.error e, pa')

/-- `munmap(ptr, size) == 0`. A failure leaves the range mapped. -/
def munmap (pa : PageAllocator) (ptr size : ℕ) : Bool × PageAllocator :=
  let pa' := { pa with env := { pa.env with munmap := pa.env.munmap.tail } }
  if pa.env.munmap.headD false then
    (true, { pa' with
      pages := fun q => if (pageRange ptr size).Contains q then false else pa.pages q })
  else (false, { pa' with failed := pageRange ptr size :: pa.failed })

/-- `madvise(ptr, size, advice) == 0`. -/
def madvise (pa : PageAllocator) : Bool × PageAllocator :=
  (pa.env.madvise.headD false, { pa with env := { pa.env with madvise := pa.env.madvise.tail } })

/-! ## Sizes and addresses -/

/-- `a + b` in `size_t`. -/
def addSize (pa : PageAllocator) (a b : ℕ) : ℕ × PageAllocator :=
  (addU64 a b, { pa with wrapped := pa.wrapped || decide (2 ^ 64 ≤ a + b) })

/-- `a - b` in `size_t`. -/
def subSize (pa : PageAllocator) (a b : ℕ) : ℕ × PageAllocator :=
  (subU64 a b, { pa with wrapped := pa.wrapped || decide (a < b) })

/-- `page_num << PAGE_SHIFT` in `size_t`. -/
def byteSize (pa : PageAllocator) (pageNum : ℕ) : ℕ × PageAllocator :=
  (pageNum <<< pageShift % 2 ^ 64,
    { pa with wrapped := pa.wrapped || decide (2 ^ 64 ≤ pageNum <<< pageShift) })

/-- `IsHugePageAligned`. -/
def isHugePageAligned (ptr : ℕ) : Bool := ptr &&& (hugePageSize - 1) = 0

/-! ## Allocation -/

/-- `SafeMunmap`. -/
def safeMunmap (pa : PageAllocator) (ptr size : ℕ) : Bool × PageAllocator :=
  if ptr = 0 ∨ size = 0 then (true, pa)
  else
    match pa.munmap ptr size with
    | (true, pa) => (true, pa)
    | (false, pa) =>
      (false, pa.count fun s => { s with munmapFailedCount := addU64 s.munmapFailedCount 1 })

/-- The loop of `AllocWithRetry`: only `ENOMEM` is retried. -/
def retryLoop : ℕ → PageAllocator → ℕ → Option ℕ × PageAllocator
  | 0, pa, _ => (none, pa)
  | retries + 1, pa, size =>
    match pa.mmap size with
    | (.ok ptr, pa) => (some ptr, pa)
    | (.error .enomem, pa) =>
      retryLoop retries
        (pa.count fun s => { s with mmapEnomemCount := addU64 s.mmapEnomemCount 1 }) size
    | (.error .other, pa) =>
      (none, pa.count fun s => { s with mmapOtherErrorCount := addU64 s.mmapOtherErrorCount 1 })

/-- `AllocWithRetry`. -/
def allocWithRetry (pa : PageAllocator) (size : ℕ) : Option ℕ × PageAllocator :=
  retryLoop maxAllocRetries pa size

/-- One `madvise` whose failure is only counted. -/
def hint (pa : PageAllocator) : PageAllocator :=
  match pa.madvise with
  | (true, pa) => pa
  | (false, pa) =>
    pa.count fun s => { s with madviseFailedCount := addU64 s.madviseFailedCount 1 }

/-- `ApplyHugePageHint`: `MADV_HUGEPAGE`, and `MADV_WILLNEED` if configured. -/
def applyHugePageHint (pa : PageAllocator) : PageAllocator :=
  let pa := pa.hint
  if pa.useMapPopulate then pa.hint else pa

/-- `AllocNormalPage`. -/
def allocNormalPage (pa : PageAllocator) (size : ℕ) : Option ℕ × PageAllocator :=
  let pa := pa.count fun s => { s with normalAllocCount := addU64 s.normalAllocCount 1 }
  match pa.allocWithRetry size with
  | (none, pa) =>
    (none, pa.count fun s =>
      { s with normalAllocFailedCount := addU64 s.normalAllocFailedCount 1 })
  | (some ptr, pa) =>
    (some ptr, pa.count fun s => { s with
      normalAllocSuccess := addU64 s.normalAllocSuccess 1
      normalAllocBytes := addU64 s.normalAllocBytes size })

/-- `huge_alloc_failed_count`. -/
def hugeAllocFailed (pa : PageAllocator) : Option ℕ × PageAllocator :=
  (none, pa.count fun s => { s with hugeAllocFailedCount := addU64 s.hugeAllocFailedCount 1 })

/-- The successful end of both huge-page paths. -/
def hugeAllocDone (pa : PageAllocator) (ptr size : ℕ) : Option ℕ × PageAllocator :=
  (some ptr, pa.applyHugePageHint.count fun s => { s with
    hugeAllocSuccess := addU64 s.hugeAllocSuccess 1
    hugeAllocBytes := addU64 s.hugeAllocBytes size })

/-- The parts of an over-allocated mapping. -/
structure TrimParts where
  headPtr : ℕ
  headGap : ℕ
  bodyPtr : ℕ
  size : ℕ
  tailPtr : ℕ
  tailGap : ℕ

/-- `cleanup_remaining_mappings`. The body is mapped whenever it is called. -/
def cleanupRemainingMappings (pa : PageAllocator) (f : TrimParts)
    (headMapped tailMapped skipHead skipTail : Bool) : PageAllocator :=
  let pa := (pa.safeMunmap f.bodyPtr f.size).2
  let pa := if !skipTail && tailMapped then (pa.safeMunmap f.tailPtr f.tailGap).2 else pa
  if !skipHead && headMapped then (pa.safeMunmap f.headPtr f.headGap).2 else pa

/-- `AllocHugePageWithTrim` once the head is trimmed. -/
def trimTail (pa : PageAllocator) (f : TrimParts) : Option ℕ × PageAllocator :=
  let done (pa : PageAllocator) :=
    (pa.count fun s => { s with
      hugeAlignWasteBytes := addU64 s.hugeAlignWasteBytes (f.headGap + f.tailGap) }).hugeAllocDone
      f.bodyPtr f.size
  if f.tailGap > 0 then
    match pa.safeMunmap f.tailPtr f.tailGap with
    | (false, pa) => (pa.cleanupRemainingMappings f false true false true).hugeAllocFailed
    | (true, pa) => done pa
  else done pa

/-- `AllocHugePageWithTrim` once the parts are known. -/
def trimHead (pa : PageAllocator) (f : TrimParts) : Option ℕ × PageAllocator :=
  if f.headGap > 0 then
    match pa.safeMunmap f.headPtr f.headGap with
    | (false, pa) =>
      (pa.cleanupRemainingMappings f true (decide (f.tailGap > 0)) true false).hugeAllocFailed
    | (true, pa) => pa.trimTail f
  else pa.trimTail f

/-- The parts of the mapping of `allocSize` bytes at `rawAddr`. -/
def trimParts (pa : PageAllocator) (rawAddr allocSize size : ℕ) : TrimParts × PageAllocator :=
  let (limit, pa) := pa.addSize rawAddr hugePageSize
  let (last, pa) := pa.subSize limit 1
  -- `& ~(HUGE_PAGE_SIZE - 1)`
  let alignedAddr := last / hugePageSize * hugePageSize
  let (headGap, pa) := pa.subSize alignedAddr rawAddr
  let (rest, pa) := pa.subSize allocSize headGap
  let (tailGap, pa) := pa.subSize rest size
  let (tailPtr, pa) := pa.addSize alignedAddr size
  (⟨rawAddr, headGap, alignedAddr, size, tailPtr, tailGap⟩, pa)

/-- `AllocHugePageWithTrim`. -/
def allocHugePageWithTrim (pa : PageAllocator) (size : ℕ) : Option ℕ × PageAllocator :=
  if size > sizeMax - hugePageSize then pa.hugeAllocFailed
  else
    let (allocSize, pa) := pa.addSize size hugePageSize
    match pa.allocWithRetry allocSize with
    | (none, pa) => pa.hugeAllocFailed
    | (some rawAddr, pa) =>
      let (f, pa) := pa.trimParts rawAddr allocSize size
      pa.trimHead f

/-- `AllocHugePage`. -/
def allocHugePage (pa : PageAllocator) (size : ℕ) : Option ℕ × PageAllocator :=
  let pa := pa.count fun s => { s with hugeAllocCount := addU64 s.hugeAllocCount 1 }
  match pa.allocWithRetry size with
  | (none, pa) => pa.hugeAllocFailed
  | (some ptr, pa) =>
    if isHugePageAligned ptr then pa.hugeAllocDone ptr size
    else (pa.safeMunmap ptr size).2.allocHugePageWithTrim size

/-- `alloc_failed_count`, when the result is null. -/
def countFailure : Option ℕ × PageAllocator → Option ℕ × PageAllocator
  | (some ptr, pa) => (some ptr, pa)
  | (none, pa) =>
    (none, pa.count fun s => { s with allocFailedCount := addU64 s.allocFailedCount 1 })

/-- `AllocHugePage` with the fallback to normal pages. -/
def allocHugeOrNormal (pa : PageAllocator) (size : ℕ) : Option ℕ × PageAllocator :=
  match pa.allocHugePage size with
  | (some ptr, pa) => (some ptr, pa)
  | (none, pa) =>
    countFailure ((pa.count fun s =>
      { s with hugeFallbackToNormalCount := addU64 s.hugeFallbackToNormalCount 1 }).allocNormalPage
        size)

/-- `SystemAlloc`. -/
def systemAlloc (pa : PageAllocator) (pageNum : ℕ) : Option ℕ × PageAllocator :=
  if pageNum = 0 then (none, pa)
  else if pageNum > sizeMax >>> pageShift then (none, pa)
  else
    let (size, pa) := pa.byteSize pageNum
    if size < hugePageSize >>> 1 then countFailure (pa.allocNormalPage size)
    else if size = hugePageSize then
      let (ptr, cache) := pa.cache.get
      let pa := { pa with cache := cache }
      if ptr ≠ 0 ∧ isHugePageAligned ptr then
        (some ptr,
          pa.count fun s => { s with hugeCacheHitCount := addU64 s.hugeCacheHitCount 1 })
      else
        (pa.count fun s =>
          { s with hugeCacheMissCount := addU64 s.hugeCacheMissCount 1 }).allocHugeOrNormal size
    else pa.allocHugeOrNormal size

/-! ## Release -/

/-- `SystemFree`. -/
def systemFree (pa : PageAllocator) (ptr pageNum : ℕ) : PageAllocator :=
  if ptr = 0 ∨ pageNum = 0 then pa
  else if pageNum > sizeMax >>> pageShift then pa
  else
    let (size, pa) := pa.byteSize pageNum
    let pa := pa.count fun s => { s with
      freeCount := addU64 s.freeCount 1
      freeBytes := addU64 s.freeBytes size }
    if size = hugePageSize ∧ isHugePageAligned ptr then
      match pa.madvise with
      | (false, pa) =>
        ((pa.count fun s =>
          { s with madviseFailedCount := addU64 s.madviseFailedCount 1 }).safeMunmap
          ptr size).2
      | (true, pa) =>
        match pa.cache.put ptr with
        | (true, cache) => { pa with cache := cache }
        | (false, cache) => ({ pa with cache := cache }.safeMunmap ptr size).2
    else (pa.safeMunmap ptr size).2

/-- The loop of `ReleaseAllForTesting`. -/
def releaseLoop : ℕ → PageAllocator → PageAllocator
  | 0, pa => pa
  | fuel + 1, pa =>
    let (ptr, cache) := pa.cache.get
    let pa := { pa with cache := cache }
    if ptr = 0 then pa
    else
      match pa.munmap ptr hugePageSize with
      | (true, pa) => releaseLoop fuel pa
      | (false, pa) =>
        releaseLoop fuel
          (pa.count fun s => { s with munmapFailedCount := addU64 s.munmapFailedCount 1 })

/-- `ReleaseHugePageCache`: every pass takes an entry, and the cache has `kCapacity` slots. -/
def releaseHugePageCache (pa : PageAllocator) : PageAllocator :=
  releaseLoop (HugePageCache.kCapacity + 1) pa

end PageAllocator

end Ammalloc
