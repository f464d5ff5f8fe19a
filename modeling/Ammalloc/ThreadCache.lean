import Ammalloc.FreeList

set_option relaxedAutoImplicit false
set_option autoImplicit false

/-!
# The thread cache

`ThreadCache` of `include/ammalloc/thread_cache.h` and `src/thread_cache.cpp`. Its operations
call the CentralCache in the middle (a refill, a trim, an overflow), and other threads run
meanwhile; so an operation is modelled as a sequence of local steps between the points where
it reads the shared trim word or waits for the CentralCache. `TcPc` names these points.

The process-wide `reserved_quota_bytes` statistic is the only shared variable that the local
steps write; it is passed in and out as `stat`. The other statistics are left out.

## Main definitions

* `Ammalloc.ThreadCache`, with `canSetQuota`, `setQuota`, `cachedBytesSnapshot`.
* `Ammalloc.TcPc`, `Ammalloc.CentralCall` — where an operation stands, and what it asks for.
* `Ammalloc.ThreadCache.allocate`, `deallocate`, `trim`, `releaseAll` — how operations begin.
* `Ammalloc.ThreadCache.step`, `Ammalloc.ThreadCache.resume` — how they go on.
-/

namespace Ammalloc

/-- `enum class ThreadCacheTrimMode`. -/
inductive TrimMode where
  | kReuse
  | kRelease
  deriving DecidableEq, Repr

/-- The mode as its underlying `uint8_t`. -/
def TrimMode.toNat : TrimMode → ℕ
  | .kReuse => 0
  | .kRelease => 1

/-- `static_cast<ThreadCacheTrimMode>(request & 1)`. -/
def TrimMode.ofRequest (request : ℕ) : TrimMode := if request &&& 1 = 1 then .kRelease else .kReuse

/-- The CentralCache mode of a trim's releases. -/
def TrimMode.releaseMode : TrimMode → CentralReleaseMode
  | .kReuse => .kTransferCache
  | .kRelease => .kSpanBitmap

/-- `class ThreadCache`. -/
structure ThreadCache where
  /-- `free_lists_`, by size class. -/
  freeLists : ℕ → FreeList := fun _ => {}
  reservedQuotaBytes : ℕ
  cacheBudgetBytes : ℕ
  observedTrimEpoch : ℕ

/-- A call of an operation into the CentralCache. -/
inductive CentralCall where
  | fetch (idx preferredCount : ℕ)
  | release (idx : ℕ) (batch : List ℕ) (mode : CentralReleaseMode)
  deriving DecidableEq, Repr

/-- What comes after `HandleGlobalTrimRequest`: the rest of `FetchFromCentralCache`, the rest of
`DeallocateSlowPath`, or the return to the caller. -/
inductive TcAfter where
  | fetch (idx : ℕ)
  | overflow (idx : ℕ)
  | ret
  deriving DecidableEq, Repr

/-- The local variables of a `Trim` in progress. A trim that answers a published request
records its `epoch` at the end. -/
structure TrimFrame where
  mode : TrimMode
  targetBytes : ℕ
  cachedBytes : ℕ
  epoch : Option ℕ
  after : TcAfter
  deriving DecidableEq, Repr

/-- Where an operation of a ThreadCache stands. -/
inductive TcPc where
  /-- No operation is in progress. -/
  | idle
  /-- About to load `trim_request_`. -/
  | handle (after : TcAfter)
  /-- In the loop of `Trim`, before class `i - 1`. -/
  | trim (i : ℕ) (f : TrimFrame)
  /-- In `Trim`, waiting for the release of class `idx`. -/
  | trimCall (idx : ℕ) (f : TrimFrame)
  /-- Waiting for `FetchBatch(idx, fetch_num)`. -/
  | fetchCall (idx fetchNum : ℕ)
  /-- In `DeallocateSlowPath`, waiting for the release of one batch. -/
  | overflowCall (idx : ℕ)
  /-- In the loop of `ReleaseAll`, before class `i`. -/
  | all (i : ℕ)
  /-- In `ReleaseAll`, waiting for the release of class `i`. -/
  | allCall (i : ℕ)
  deriving DecidableEq, Repr

/-- The operation waits for the CentralCache. -/
def TcPc.waits : TcPc → Bool
  | .trimCall .. | .fetchCall .. | .overflowCall .. | .allCall .. => true
  | _ => false

/-- The outcome of one local step. `ret` is the result of an `Allocate` that ends here. -/
structure TcOut where
  tc : ThreadCache
  stat : ℕ
  pc : TcPc
  call : Option CentralCall := none
  ret : Option (Option ℕ) := none

namespace ThreadCache

/-- `kDefaultCacheBudgetBytes`. -/
def kDefaultCacheBudgetBytes : ℕ := 2 * 1024 * 1024

/-- `kDefaultTrimTargetBytes`. -/
def kDefaultTrimTargetBytes : ℕ := kDefaultCacheBudgetBytes / 2

/-- `TrimTargetForMode`. -/
def trimTargetForMode : TrimMode → ℕ
  | .kRelease => 0
  | .kReuse => kDefaultTrimTargetBytes

/-- `InitialReservedQuotaBytes`: one object in every class. -/
def initialReservedQuotaBytes : ℕ := ∑ i ∈ Finset.range SizeClass.kNumSizeClasses, SizeClass.size i

/-- The constructor; the statistic is raised by the initial reservation. -/
def create (cacheBudgetBytes trimRequest stat : ℕ) : ThreadCache × ℕ :=
  ({ reservedQuotaBytes := initialReservedQuotaBytes
     cacheBudgetBytes := max cacheBudgetBytes initialReservedQuotaBytes
     observedTrimEpoch := trimRequest >>> 1 },
    addU64 stat initialReservedQuotaBytes)

/-- `SizeClass::CalculateBatchSize(SizeClass::Size(idx))`. -/
def batchNum (idx : ℕ) : ℕ := SizeClass.calculateBatchSize (SizeClass.size idx)

/-- Replace one free list. -/
def setFreeList (tc : ThreadCache) (idx : ℕ) (l : FreeList) : ThreadCache :=
  { tc with freeLists := Function.update tc.freeLists idx l }

/-- `FreeList::set_overages` on one class. -/
def setOverages (tc : ThreadCache) (idx n : ℕ) : ThreadCache :=
  tc.setFreeList idx ((tc.freeLists idx).setOverages n)

/-- `CachedBytesSnapshot`. -/
def cachedBytesSnapshot (tc : ThreadCache) : ℕ :=
  (List.range SizeClass.kNumSizeClasses).foldl
    (fun total i => addU64 total ((tc.freeLists i).size * SizeClass.size i % 2 ^ 64)) 0

/-! ## Quotas -/

/-- `CanSetQuota`. -/
def canSetQuota (tc : ThreadCache) (idx nextMaxSize : ℕ) : Bool :=
  let curMaxSize := (tc.freeLists idx).maxSize
  if nextMaxSize ≤ curMaxSize then true
  else
    let delta := (nextMaxSize - curMaxSize) * SizeClass.size idx % 2 ^ 64
    decide (delta ≤ subU64 tc.cacheBudgetBytes tc.reservedQuotaBytes)

/-- `SetQuota`; the second component is the statistic. -/
def setQuota (tc : ThreadCache) (stat idx newMaxSize : ℕ) : ThreadCache × ℕ :=
  let list := tc.freeLists idx
  if list.maxSize = newMaxSize then (tc, stat)
  else
    let tc' := tc.setFreeList idx (list.setMaxSize newMaxSize)
    if newMaxSize > list.maxSize then
      let delta := (newMaxSize - list.maxSize) * SizeClass.size idx % 2 ^ 64
      ({ tc' with reservedQuotaBytes := addU64 tc.reservedQuotaBytes delta }, addU64 stat delta)
    else
      let delta := (list.maxSize - newMaxSize) * SizeClass.size idx % 2 ^ 64
      ({ tc' with reservedQuotaBytes := subU64 tc.reservedQuotaBytes delta }, subU64 stat delta)

/-! ## The beginnings of the operations -/

/-- `Allocate`, by size class. -/
def allocate (tc : ThreadCache) (stat idx : ℕ) : TcOut :=
  match (tc.freeLists idx).pop with
  | (some ptr, l) =>
    { tc := tc.setFreeList idx l, stat := stat, pc := .idle, ret := some (some ptr) }
  | (none, _) => { tc := tc, stat := stat, pc := .handle (.fetch idx) }

/-- `Deallocate`. -/
def deallocate (tc : ThreadCache) (stat ptr idx : ℕ) : TcOut :=
  let l := (tc.freeLists idx).push ptr
  { tc := tc.setFreeList idx l
    stat := stat
    pc := if l.size > l.maxSize then .handle (.overflow idx) else .idle }

/-- The beginning of `Trim`. -/
def trim (tc : ThreadCache) (stat : ℕ) (mode : TrimMode) (targetBytes : ℕ) (epoch : Option ℕ)
    (after : TcAfter) : TcOut :=
  { tc := tc
    stat := stat
    pc := .trim SizeClass.kNumSizeClasses
      { mode := mode, targetBytes := targetBytes, cachedBytes := tc.cachedBytesSnapshot,
        epoch := epoch, after := after } }

/-- The beginning of `ReleaseAll`. -/
def releaseAll (tc : ThreadCache) (stat : ℕ) : TcOut := { tc := tc, stat := stat, pc := .all 0 }

/-! ## Local steps -/

/-- The end of `DeallocateSlowPath`, after the release of a batch. -/
def overflowEnd (tc : ThreadCache) (stat idx : ℕ) : TcOut :=
  let list := tc.freeLists idx
  let next := QuotaPolicy.nextAfterOverflow list.maxSize (batchNum idx) list.overages
  let (tc, stat) := tc.setQuota stat idx next.1
  { tc := tc.setOverages idx next.2, stat := stat, pc := .idle }

/-- What follows `HandleGlobalTrimRequest`. -/
def afterHandle (tc : ThreadCache) (stat : ℕ) : TcAfter → TcOut
  | .ret => { tc := tc, stat := stat, pc := .idle }
  | .fetch idx =>
    let fetchNum := min (batchNum idx) (tc.freeLists idx).maxSize
    { tc := tc, stat := stat, pc := .fetchCall idx fetchNum, call := some (.fetch idx fetchNum) }
  | .overflow idx =>
    let list := tc.freeLists idx
    if list.size ≤ list.maxSize then { tc := tc, stat := stat, pc := .idle }
    else
      match list.popBatchTail (batchNum idx) with
      | ([], _) => tc.overflowEnd stat idx
      | (batch, list) =>
        { tc := tc.setFreeList idx list
          stat := stat
          pc := .overflowCall idx
          call := some (.release idx batch .kTransferCache) }

/-- `HandleGlobalTrimRequest` up to the beginning of its trim. -/
def handle (tc : ThreadCache) (stat trimRequest : ℕ) (after : TcAfter) : TcOut :=
  let epoch := trimRequest >>> 1
  if epoch = tc.observedTrimEpoch then tc.afterHandle stat after
  else
    let mode := TrimMode.ofRequest trimRequest
    tc.trim stat mode (trimTargetForMode mode) (some epoch) after

/-- How many objects of class `idx` a trim evicts. -/
def trimEvictCount (tc : ThreadCache) (idx : ℕ) (f : TrimFrame) : ℕ :=
  let list := tc.freeLists idx
  let classSize := SizeClass.size idx
  let evictable :=
    match f.mode with
    | .kReuse => list.size - min list.size (batchNum idx)
    | .kRelease => list.size
  if f.cachedBytes > f.targetBytes ∧ evictable > 0 then
    min evictable ((f.cachedBytes - f.targetBytes + classSize - 1) / classSize)
  else 0

/-- The quota contraction of a trim, after the eviction from class `idx`. -/
def trimQuota (tc : ThreadCache) (stat idx : ℕ) (mode : TrimMode) : ThreadCache × ℕ :=
  let list := tc.freeLists idx
  match mode with
  | .kRelease =>
    let (tc, stat) := tc.setQuota stat idx (min list.maxSize (max 1 list.size))
    (tc.setOverages idx 0, stat)
  | .kReuse =>
    if list.maxSize > batchNum idx then
      let (tc, stat) := tc.setQuota stat idx (min list.maxSize (max (batchNum idx) list.size))
      (tc.setOverages idx 0, stat)
    else (tc, stat)

/-- The contraction of class `idx` and the way to the next class. -/
def trimNext (tc : ThreadCache) (stat idx : ℕ) (f : TrimFrame) : TcOut :=
  let (tc, stat) := tc.trimQuota stat idx f.mode
  { tc := tc, stat := stat, pc := .trim idx f }

/-- One class of the loop of `Trim`, from the largest down, or its end. -/
def trimStep (tc : ThreadCache) (stat : ℕ) (f : TrimFrame) : ℕ → TcOut
  | 0 =>
    let tc := match f.epoch with
      | some epoch => { tc with observedTrimEpoch := epoch }
      | none => tc
    tc.afterHandle stat f.after
  | idx + 1 =>
    let evictCount := tc.trimEvictCount idx f
    if evictCount > 0 then
      let (batch, list) := (tc.freeLists idx).popBatchTail evictCount
      let evictedBytes := batch.length * SizeClass.size idx % 2 ^ 64
      { tc := tc.setFreeList idx list
        stat := stat
        pc := .trimCall idx { f with cachedBytes := subU64 f.cachedBytes evictedBytes }
        call := some (.release idx batch f.mode.releaseMode) }
    else tc.trimNext stat idx f

/-- The end of class `i` in `ReleaseAll`. -/
def allNext (tc : ThreadCache) (stat i : ℕ) : TcOut :=
  let (tc, stat) := tc.setQuota stat i 1
  { tc := tc.setOverages i 0, stat := stat, pc := .all (i + 1) }

/-- One class of the loop of `ReleaseAll`. -/
def allStep (tc : ThreadCache) (stat i : ℕ) : TcOut :=
  if i ≥ SizeClass.kNumSizeClasses then { tc := tc, stat := stat, pc := .idle }
  else
    match (tc.freeLists i).objs with
    | [] => tc.allNext stat i
    | objs =>
      let (batch, list) := (tc.freeLists i).popBatch objs.length
      { tc := tc.setFreeList i list
        stat := stat
        pc := .allCall i
        call := some (.release i batch .kTransferCache) }

/-- The next local step of an operation that does not wait for the CentralCache. -/
def step (tc : ThreadCache) (stat trimRequest : ℕ) : TcPc → TcOut
  | .handle after => tc.handle stat trimRequest after
  | .trim i f => tc.trimStep stat f i
  | .all i => tc.allStep stat i
  | pc => { tc := tc, stat := stat, pc := pc }

/-- The rest of `FetchFromCentralCache`, with the fetched batch. -/
def fetchEnd (tc : ThreadCache) (stat idx fetchNum : ℕ) (batch : List ℕ) : TcOut :=
  match batch with
  | [] => { tc := tc, stat := stat, pc := .idle, ret := some none }
  | _ =>
    let tc := tc.setFreeList idx ((tc.freeLists idx).pushBatch batch)
    let (tc, stat) :=
      if batch.length < fetchNum then (tc, stat)
      else
        let nextMaxSize :=
          QuotaPolicy.nextAfterRefill (tc.freeLists idx).maxSize (batchNum idx)
        let (tc, stat) :=
          if tc.canSetQuota idx nextMaxSize then tc.setQuota stat idx nextMaxSize else (tc, stat)
        (tc.setOverages idx 0, stat)
    let (ptr, list) := (tc.freeLists idx).pop
    { tc := tc.setFreeList idx list, stat := stat, pc := .idle, ret := some ptr }

/-- The step after a call into the CentralCache has returned; `batch` is the result of a
fetch. -/
def resume (tc : ThreadCache) (stat : ℕ) (batch : List ℕ) : TcPc → TcOut
  | .fetchCall idx fetchNum => tc.fetchEnd stat idx fetchNum batch
  | .trimCall idx f => tc.trimNext stat idx f
  | .overflowCall idx => tc.overflowEnd stat idx
  | .allCall i => tc.allNext stat i
  | pc => { tc := tc, stat := stat, pc := pc }

end ThreadCache

end Ammalloc
