import Ammalloc.CentralCache
import Ammalloc.Lib.Machine
import Ammalloc.Scavenger
import Ammalloc.ThreadCache

set_option relaxedAutoImplicit false
set_option autoImplicit false

/-!
# The allocator

The API of `src/ammalloc.cpp` over the thread caches, the central cache and the page cache, with
any number of threads and the scavenger. One action is the part of a call up to its first lock
section, one lock section, or the local work between two of them; a run is any interleaving. The
page source, the metadata pools and the mapping for a new ThreadCache succeed or fail as they like,
and the trim word may be overwritten at any moment.

Two fields of the state are not in the program: `live` (what `am_malloc` returned and nobody freed
yet, with the request) and `fault` (how the program died, if it did).

## Main definitions

* `Ammalloc.Allocator` — the state.
* `Ammalloc.Allocator.amMalloc`, `amFree`, `amThreadCacheTrim`, `amThreadCachePurge`,
  `amRequestThreadCachePurge`, `threadCacheCleaner` — how the calls begin.
* `Ammalloc.Allocator.threadStep` — how they go on.
* `Ammalloc.Allocator.machine` — the runs.
-/

namespace Ammalloc

open PageCache (ScavPc)

/-- `kMaxRequestBytes`: the largest request whose page rounding does not wrap. -/
def kMaxRequestBytes : ℕ := sizeMax - (pageSize - 1)

/-- The page count of a large request. -/
def requestPages (originalSize : ℕ) : ℕ := alignUp originalSize pageSize >>> pageShift

/-! ## Threads -/

/-- The frame of a call into the CentralCache, at its beginning. -/
def CentralCall.frame : CentralCall → CentralFrame
  | .fetch idx preferredCount => .fetch (.start idx preferredCount)
  | .release idx batch mode => .release idx mode (.chunk batch)

/-- The batch that a call has returned. -/
def CentralFrame.batch : CentralFrame → List ℕ
  | .fetch f => f.chain
  | _ => []

/-- Which API function an operation of a ThreadCache belongs to. -/
inductive TcCaller where
  /-- `am_malloc(request)`. -/
  | malloc (request : ℕ)
  | free
  /-- `am_thread_cache_trim`, in `HandleGlobalTrimRequest`. -/
  | trimRequest
  /-- `am_thread_cache_trim`, in its own `Trim`. -/
  | trim
  | purge
  /-- The destructor of `tc_cleaner`. -/
  | exit
  deriving DecidableEq, Repr

/-- The argument of an `am_malloc`. -/
def TcCaller.request : TcCaller → Option ℕ
  | .malloc request => some request
  | _ => none

/-- Where a thread stands. -/
inductive ThreadPc where
  | idle
  /-- In an operation of its ThreadCache, possibly inside a call into the CentralCache. -/
  | cache (caller : TcCaller) (pc : TcPc) (call : Option CentralFrame)
  /-- In `am_malloc_slow_path`, before `AllocSpan`. -/
  | allocSpan (request : ℕ)
  /-- In `am_free_slow_path`, before `ReleaseSpan`. -/
  | releaseSpan (span : ℕ)
  /-- In the `ReleaseBatch` of `am_free_slow_path` or the `DrainTransferCaches` of a purge. -/
  | central (f : CentralFrame)
  /-- In `am_thread_cache_trim`, before its own `Trim`. -/
  | trim
  /-- In the destructor of `tc_cleaner`, before `ReleaseThreadCache`. -/
  | destroy
  deriving DecidableEq, Repr

/-- Where a thread stands when the operation of its ThreadCache has returned. -/
def TcCaller.after : TcCaller → ThreadPc
  | .trimRequest => .trim
  | .purge => .central (.drain (.start sizeMax))
  | .exit => .destroy
  | _ => .idle

/-- Where a thread stands after a local step of its ThreadCache. -/
def ThreadPc.after (caller : TcCaller) (out : TcOut) : ThreadPc :=
  if out.pc = .idle then caller.after
  else .cache caller out.pc (out.call.map CentralCall.frame)

/-- The thread-local variables of a thread, and where it stands. -/
structure Thread where
  ptls : Option ThreadCache := none
  /-- `g_ThreadCacheAlreadyDestructed`. -/
  threadCacheAlreadyDestructed : Bool := false
  pc : ThreadPc := .idle

/-- A pointer that `am_malloc` returned, with the request and, for a large object, the
descriptor of its span. -/
structure Block where
  ptr : ℕ
  request : ℕ
  span : Option ℕ := none
  deriving DecidableEq, Repr

/-- The bytes that a block owns: a slot of its class, or whole pages. -/
def Block.extent (b : Block) : Extent where
  start := b.ptr
  len := if b.request ≤ maxTcSize then SizeClass.roundUp b.request
    else requestPages b.request * pageSize

/-- The state of the allocator. -/
structure Allocator where
  central : CentralCache
  scav : ScavPc := .idle
  /-- `trim_request_`. -/
  trimRequest : ℕ := 0
  /-- `g_thread_cache_stats.reserved_quota_bytes`. -/
  stat : ℕ := 0
  threads : ℕ → Thread := fun _ => {}
  live : List Block := []
  fault : Option Fault := none

namespace Allocator

/-- Replace a thread. -/
def setThread (st : Allocator) (t : ℕ) (th : Thread) : Allocator :=
  { st with threads := Function.update st.threads t th }

/-- Move a thread. -/
def setPc (st : Allocator) (t : ℕ) (pc : ThreadPc) : Allocator :=
  st.setThread t { st.threads t with pc := pc }

/-- Replace the page cache. -/
def setPageCache (st : Allocator) (pc : PageCache) : Allocator :=
  { st with central := { st.central with pageCache := pc } }

/-- The block that an operation of a ThreadCache returns to the caller of `am_malloc`. -/
def newBlock : Option ℕ → Option (Option ℕ) → List Block
  | some request, some (some ptr) => [{ ptr := ptr, request := request }]
  | _, _ => []

/-- The state after a local step of the ThreadCache of thread `t`. -/
def commit (st : Allocator) (t : ℕ) (caller : TcCaller) (out : TcOut) : Allocator :=
  { st with
    stat := out.stat
    threads := Function.update st.threads t
      { st.threads t with
        ptls := some out.tc
        pc := ThreadPc.after caller out }
    live := newBlock caller.request out.ret ++ st.live }

/-- `CreateThreadCache`, with the statistic; `mapped` says whether `SystemAlloc` succeeds. -/
def createThreadCache (st : Allocator) (t : ℕ) (mapped : Bool) : Option (ThreadCache × ℕ) :=
  if (st.threads t).threadCacheAlreadyDestructed then none
  else
    match (st.threads t).ptls with
    | some tc => some (tc, st.stat)
    | none =>
      if mapped then
        some (ThreadCache.create ThreadCache.kDefaultCacheBudgetBytes st.trimRequest st.stat)
      else none

/-! ## `am_malloc` -/

/-- `am_malloc_slow_path`, up to its first lock section. -/
def amMallocSlowPath (st : Allocator) (t originalSize : ℕ) (mapped : Bool) : Allocator :=
  if originalSize > maxTcSize then
    if originalSize > kMaxRequestBytes then st else st.setPc t (.allocSpan originalSize)
  else
    match st.createThreadCache t mapped with
    | none => st
    | some (tc, stat) =>
      st.commit t (.malloc originalSize) (tc.allocate stat (SizeClass.index originalSize))

/-- `am_malloc`, up to its first lock section. -/
def amMalloc (st : Allocator) (t originalSize : ℕ) (mapped : Bool) : Allocator :=
  match (st.threads t).ptls with
  | none => st.amMallocSlowPath t originalSize mapped
  | some tc =>
    if originalSize > maxTcSize then st.amMallocSlowPath t originalSize mapped
    else st.commit t (.malloc originalSize) (tc.allocate st.stat (SizeClass.index originalSize))

/-! ## `am_free` -/

/-- `Deallocate` of a ThreadCache. -/
def deallocate (hardened : Bool) (st : Allocator) (t : ℕ) (tc : ThreadCache) (stat ptr idx : ℕ) :
    Except Fault Allocator := do
  hcheck hardened (idx < SizeClass.kNumSizeClasses) "class index out of range"
  return st.commit t .free (tc.deallocate stat ptr idx)

/-- `am_free_slow_path`, up to its first lock section. -/
def amFreeSlowPath (hardened : Bool) (st : Allocator) (t ptr span : ℕ) (s : Span)
    (alignedSize idx : ℕ) (mapped : Bool) : Except Fault Allocator :=
  if alignedSize = 0 then do
    hcheck hardened (ptr = s.getPageBaseAddr) "Invalid large-object pointer."
    return st.setPc t (.releaseSpan span)
  else
    match st.createThreadCache t mapped with
    | none => .ok (st.setPc t (.central (.release idx .kTransferCache (.chunk [ptr]))))
    | some (tc, stat) => st.deallocate hardened t tc stat ptr idx

/-- `am_free`, up to its first lock section. -/
def amFree (hardened : Bool) (st : Allocator) (t ptr : ℕ) (mapped : Bool) :
    Except Fault Allocator :=
  if ptr = 0 then .ok st
  else
    match st.central.pageCache.pageMap.getSpan (ptr >>> pageShift) with
    | none => .ok st
    | some span => do
      let s ← st.central.pageCache.deref span
      hcheck hardened s.used "Pointer belongs to a released Span."
      let pageIdx := ptr >>> pageShift
      hcheck hardened (pageIdx ≥ s.startPageIdx ∧ pageIdx - s.startPageIdx < s.pageNum)
        "Pointer lies outside the mapped Span."
      let alignedSize := s.alignedObjSize
      let idx := s.sizeClassIdx
      hcheck hardened (alignedSize = 0 ∨
        (idx < SizeClass.kNumSizeClasses ∧ SizeClass.size idx = alignedSize))
        "Corrupted Span size-class metadata."
      match (st.threads t).ptls with
      | none => st.amFreeSlowPath hardened t ptr span s alignedSize idx mapped
      | some tc =>
        if alignedSize = 0 then st.amFreeSlowPath hardened t ptr span s alignedSize idx mapped
        else do
          hcheck hardened (s.objectSlotOf ptr ≠ sizeMax) "Invalid small-object pointer."
          st.deallocate hardened t tc st.stat ptr idx

/-! ## Trims, purges and the end of a thread -/

/-- `kCooperativeTransferDrainBytes`. -/
def kCooperativeTransferDrainBytes : ℕ := ThreadCache.kDefaultTrimTargetBytes

/-- `am_thread_cache_trim`, up to the load of the trim word. -/
def amThreadCacheTrim (st : Allocator) (t : ℕ) : Allocator :=
  match (st.threads t).ptls with
  | none => st
  | some _ => st.setPc t (.cache .trimRequest (.handle .ret) none)

/-- `am_thread_cache_purge`, up to its first lock section. -/
def amThreadCachePurge (st : Allocator) (t : ℕ) : Allocator :=
  match (st.threads t).ptls with
  | none => st.setPc t TcCaller.purge.after
  | some tc => st.commit t .purge (tc.trim st.stat .kRelease 0 none .ret)

/-- `am_request_thread_cache_purge`, after the publication of its request. -/
def amRequestThreadCachePurge (st : Allocator) (t : ℕ) : Allocator :=
  st.setPc t (.central (.drain (.start kCooperativeTransferDrainBytes)))

/-- The destructor of `tc_cleaner`, up to its first lock section. -/
def threadCacheCleaner (st : Allocator) (t : ℕ) : Allocator :=
  let st := st.setThread t { st.threads t with threadCacheAlreadyDestructed := true }
  match (st.threads t).ptls with
  | none => st
  | some tc => st.commit t .exit (tc.releaseAll st.stat)

/-- `ReleaseThreadCache`, with the destructor of the cache. -/
def releaseThreadCache (st : Allocator) (t : ℕ) (tc : ThreadCache) : Allocator :=
  { st.setThread t { st.threads t with ptls := none, pc := .idle } with
    stat := subU64 st.stat tc.reservedQuotaBytes }

/-! ## The rest of a call -/

/-- The next lock section, or the local work up to it, of the call of thread `t`. -/
def threadStep (hardened : Bool) (st : Allocator) (t : ℕ) (env : PageEnv) :
    Except Fault Allocator :=
  match (st.threads t).pc with
  | .idle => .ok st
  | .allocSpan request => do
    let (span, pc) ← (st.central.pageCache.load env).allocSpan (requestPages request)
    match span with
    | none => return (st.setPageCache pc).setPc t .idle
    | some i =>
      let s ← pc.deref i
      return { (st.setPageCache pc).setPc t .idle with
        live := { ptr := s.getPageBaseAddr, request := request, span := some i } :: st.live }
  | .releaseSpan i => do
    let pc ← (st.central.pageCache.load env).releaseSpan i
    return (st.setPageCache pc).setPc t .idle
  | .central f =>
    if f.returned then .ok (st.setPc t .idle)
    else do
      let (central, f) ← st.central.step hardened env f
      return { st with central := central }.setPc t (.central f)
  | .cache caller pc call =>
    match (st.threads t).ptls, call with
    | none, _ => .ok st
    | some tc, none => .ok (st.commit t caller (tc.step st.stat st.trimRequest pc))
    | some tc, some f =>
      if f.returned then .ok (st.commit t caller (tc.resume st.stat f.batch pc))
      else do
        let (central, f) ← st.central.step hardened env f
        return { st with central := central }.setPc t (.cache caller pc (some f))
  | .trim =>
    match (st.threads t).ptls with
    | none => .ok st
    | some tc =>
      .ok (st.commit t .trim
        (tc.trim st.stat .kReuse ThreadCache.kDefaultTrimTargetBytes none .ret))
  | .destroy =>
    match (st.threads t).ptls with
    | none => .ok st
    | some tc => .ok (st.releaseThreadCache t tc)

/-! ## Runs -/

/-- What threads, the scavenger and the controllers of the trim word do. -/
inductive AllocAction where
  | malloc (t originalSize : ℕ) (mapped : Bool)
  | free (t ptr : ℕ) (mapped : Bool)
  | trim (t : ℕ)
  | purge (t : ℕ)
  | requestPurge (t : ℕ)
  /-- The end of a thread, which may still allocate and free afterwards. -/
  | exit (t : ℕ)
  /-- The call of `t` goes on. -/
  | step (t : ℕ) (env : PageEnv)
  /-- A `RequestGlobalTrim` writes the trim word. -/
  | publishTrim (word : ℕ)
  /-- The next step of the scavenger; `ok` is the outcome of its `madvise`. -/
  | scavenge (env : PageEnv) (ok : Bool)

/-- The state after a step that may abort. -/
def settle (st : Allocator) : Except Fault Allocator → Allocator
  | .ok st' => st'
  | .error e => { st with fault := some e }

/-- One action of an allocator with `n` threads. A thread calls `am_free` with null or with a
live pointer. -/
def next (n : ℕ) (hardened : Bool) (st : Allocator) : AllocAction → Allocator
  | .malloc t originalSize mapped =>
    if t < n ∧ (st.threads t).pc = .idle ∧ originalSize < 2 ^ 64 then
      st.amMalloc t originalSize mapped
    else st
  | .free t ptr mapped =>
    if t < n ∧ (st.threads t).pc = .idle ∧ (ptr = 0 ∨ ∃ b ∈ st.live, b.ptr = ptr) then
      st.settle
        ({ st with live := st.live.eraseP fun b => b.ptr = ptr }.amFree hardened t ptr mapped)
    else st
  | .trim t => if t < n ∧ (st.threads t).pc = .idle then st.amThreadCacheTrim t else st
  | .purge t => if t < n ∧ (st.threads t).pc = .idle then st.amThreadCachePurge t else st
  | .requestPurge t =>
    if t < n ∧ (st.threads t).pc = .idle then st.amRequestThreadCachePurge t else st
  | .exit t => if t < n ∧ (st.threads t).pc = .idle then st.threadCacheCleaner t else st
  | .step t env => if t < n then st.settle (st.threadStep hardened t env) else st
  | .publishTrim word => { st with trimRequest := word % 2 ^ 64 }
  | .scavenge env ok =>
    match (st.central.pageCache.load env).scavengeStep st.scav ok with
    | .error e => { st with fault := some e }
    | .ok (scav, _, pc) => { st.setPageCache pc with scav := scav }

/-- The start, with or without a backing for the TransferCaches. -/
def create (backed : Bool) : Allocator := { central := .create backed }

/-- The allocator with `n` threads. -/
def machine (n : ℕ) (hardened : Bool) : Machine Allocator AllocAction where
  init := {create true, create false}
  next := next n hardened

end Allocator

end Ammalloc
