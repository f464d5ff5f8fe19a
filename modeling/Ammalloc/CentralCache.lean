import Ammalloc.FreeList
import Ammalloc.Lib.RingBuffer
import Ammalloc.PageCache

set_option relaxedAutoImplicit false
set_option autoImplicit false

/-!
# The central cache

`CentralCache::FetchBatch`, `ReleaseBatch`, `DrainTransferCaches` and `GetOneSpan` of
`src/central_cache.cpp`. Each of them takes and drops the two locks of a bucket several times,
and the PageCache mutex in between; other threads run meanwhile. A call is therefore modelled as
a frame (its local variables and where it stands) and a step function; one step is one critical
section, or the work between two of them. A full span list is scanned in one step, because
`span_list_lock` is held all along.

The test-only cap of `FetchBatch` and the statistics are left out.

## Main definitions

* `Ammalloc.CentralCache`, `Ammalloc.Bucket` — the buckets over the page cache.
* `Ammalloc.ReleasePc`, `Ammalloc.FetchFrame`, `Ammalloc.DrainFrame` — calls in progress.
* `Ammalloc.CentralCache.releaseStep`, `fetchStep`, `drainStep` — their steps.
* `Ammalloc.CentralFrame`, `Ammalloc.CentralCache.step` — the three together.
-/

namespace Ammalloc

/-- `CentralCache::Bucket`: the TransferCache ring and the spans, front first. -/
structure Bucket where
  transferCache : RingBuffer ℕ
  spanList : List ℕ := []

/-- `class CentralCache`, with the page cache below it. -/
structure CentralCache where
  buckets : ℕ → Bucket
  pageCache : PageCache := {}

/-- The inner loop of `FetchBatch`: up to `n` objects of one span, the span afterwards, and
whether `AllocObject` returned null. -/
def Span.allocLoop : ℕ → Span → List ℕ × Span × Bool
  | 0, s => ([], s, false)
  | n + 1, s =>
    match s.allocObject with
    | none => ([], s, true)
    | some (obj, s') =>
      let (objs, s'', hitNull) := allocLoop n s'
      (obj :: objs, s'', hitNull)

/-! ## Calls in progress -/

/-- Where a `ReleaseBatch` stands. -/
inductive ReleasePc where
  /-- At the loop head, with the rest of the chain. -/
  | chunk (rest : List ℕ)
  /-- Before the bitmap section, with what the TransferCache did not absorb of this chunk. -/
  | bitmap (objs rest : List ℕ)
  /-- Returning empty spans to the PageCache. -/
  | returning (spans rest : List ℕ)
  deriving DecidableEq, Repr

/-- The objects in the local buffers of a `ReleaseBatch`. -/
def ReleasePc.objs : ReleasePc → List ℕ
  | .chunk rest => rest
  | .bitmap objs rest => objs ++ rest
  | .returning _ rest => rest

/-- The spans that a `ReleaseBatch` has taken off the list. -/
def ReleasePc.spans : ReleasePc → List ℕ
  | .returning spans _ => spans
  | _ => []

/-- Where a `FetchBatch` stands. -/
inductive FetchPc where
  /-- Before the TransferCache section. -/
  | grab
  /-- Before the SpanList section. -/
  | scan
  /-- In `GetOneSpan`, before `AllocSpan`. -/
  | allocSpan
  /-- In `GetOneSpan`, before `Init`. -/
  | initSpan (span : ℕ)
  /-- In `GetOneSpan`, before retaking the lock. -/
  | install (span : ℕ)
  /-- Before the TransferCache section that publishes the prefetched objects. -/
  | publish
  /-- Returning what did not fit. -/
  | rollback (pc : ReleasePc)
  | done
  deriving DecidableEq, Repr

/-- A `FetchBatch` in progress: the objects grabbed from the TransferCache, hottest first, and
those extracted from spans, in order. -/
structure FetchFrame where
  idx : ℕ
  fetchNum : ℕ
  grabbed : List ℕ := []
  extracted : List ℕ := []
  pc : FetchPc := .grab
  deriving DecidableEq, Repr

namespace FetchFrame

/-- `need_for_thread`. -/
def needForThread (f : FetchFrame) : ℕ := f.fetchNum - f.grabbed.length

/-- `extract_target`: what the thread needs, and one more batch to prefetch. -/
def extractTarget (f : FetchFrame) : ℕ := f.needForThread + f.fetchNum

/-- The chain for the caller: the first `need_for_thread` extracted objects are inserted at the
head. -/
def chain (f : FetchFrame) : List ℕ := (f.extracted.take f.needForThread).reverse ++ f.grabbed

/-- `scratch_ptrs[0, actual_prefetched)`: the other extracted objects. -/
def prefetched (f : FetchFrame) : List ℕ := f.extracted.drop f.needForThread

/-- The objects in the local buffers of a `FetchBatch`. -/
def objs (f : FetchFrame) : List ℕ :=
  match f.pc with
  | .rollback pc => f.chain ++ pc.objs
  | .done => f.chain
  | _ => f.grabbed ++ f.extracted

/-- The spans a `FetchBatch` holds outside the list. -/
def spans (f : FetchFrame) : List ℕ :=
  match f.pc with
  | .initSpan i => [i]
  | .install i => [i]
  | .rollback pc => pc.spans
  | _ => []

/-- The beginning of `FetchBatch`; an empty request touches no lock. -/
def start (idx preferredCount : ℕ) : FetchFrame :=
  { idx := idx, fetchNum := preferredCount, pc := if preferredCount = 0 then .done else .grab }

end FetchFrame

/-- Where a `DrainTransferCaches` stands. -/
inductive DrainPc where
  /-- Before class `i - 1`. -/
  | next (i : ℕ)
  /-- Before detaching from class `idx`. -/
  | detach (idx remaining : ℕ)
  /-- Releasing what was detached from class `idx`. -/
  | release (idx remaining detached : ℕ) (pc : ReleasePc)
  deriving DecidableEq, Repr

/-- A `DrainTransferCaches` in progress. -/
structure DrainFrame where
  maxBytes : ℕ
  unbounded : Bool
  drainedBytes : ℕ := 0
  pc : DrainPc
  deriving DecidableEq, Repr

/-- The beginning of `DrainTransferCaches`. -/
def DrainFrame.start (maxBytes : ℕ) : DrainFrame :=
  { maxBytes := maxBytes
    unbounded := maxBytes = sizeMax
    pc := .next (if maxBytes = 0 then 0 else SizeClass.kNumSizeClasses) }

/-- The objects in the local buffers of a `DrainTransferCaches`, with their class. -/
def DrainFrame.objs (f : DrainFrame) : List (ℕ × ℕ) :=
  match f.pc with
  | .release idx _ _ pc => pc.objs.map (idx, ·)
  | _ => []

/-- The spans a `DrainTransferCaches` has taken off a list. -/
def DrainFrame.spans (f : DrainFrame) : List ℕ :=
  match f.pc with
  | .release _ _ _ pc => pc.spans
  | _ => []

/-- A call into the CentralCache in progress. -/
inductive CentralFrame where
  | fetch (f : FetchFrame)
  | release (idx : ℕ) (mode : CentralReleaseMode) (pc : ReleasePc)
  | drain (f : DrainFrame)
  deriving DecidableEq, Repr

namespace CentralFrame

/-- The objects in its local buffers, with their class. -/
def objs : CentralFrame → List (ℕ × ℕ)
  | .fetch f => f.objs.map (f.idx, ·)
  | .release idx _ pc => pc.objs.map (idx, ·)
  | .drain f => f.objs

/-- The spans it holds outside the lists. -/
def spans : CentralFrame → List ℕ
  | .fetch f => f.spans
  | .release _ _ pc => pc.spans
  | .drain f => f.spans

/-- The call has returned. -/
def returned : CentralFrame → Bool
  | .fetch f => f.pc = .done
  | .release _ _ pc => pc = .chunk []
  | .drain f => f.pc = .next 0

end CentralFrame

namespace CentralCache

/-- `kCapScale`. -/
def kCapScale : ℕ := 8

/-- The capacity of the TransferCache of a class. -/
def transferCapacity (idx : ℕ) : ℕ :=
  kCapScale * SizeClass.calculateBatchSize (SizeClass.size idx)

/-- The constructor: `TryInitTransferCache` finds a backing for all classes or for none. -/
def create (backed : Bool) : CentralCache where
  buckets idx :=
    { transferCache :=
        { slots := fun _ => 0, first := 0, size := 0
          capacity := if backed then transferCapacity idx else 0 } }

/-- Replace the TransferCache of a class. -/
def setRing (c : CentralCache) (idx : ℕ) (r : RingBuffer ℕ) : CentralCache :=
  { c with buckets := Function.update c.buckets idx { c.buckets idx with transferCache := r } }

/-- Replace the span list of a class. -/
def setSpanList (c : CentralCache) (idx : ℕ) (l : List ℕ) : CentralCache :=
  { c with buckets := Function.update c.buckets idx { c.buckets idx with spanList := l } }

/-- Write a descriptor. -/
def storeSpan (c : CentralCache) (i : ℕ) (s : Span) : CentralCache :=
  { c with pageCache := c.pageCache.store i s }

/-! ## `ReleaseBatch` -/

/-- The bitmap section of `ReleaseBatch`; the second result is the list of empty spans. -/
def freeLoop (hardened : Bool) (idx : ℕ) :
    List ℕ → CentralCache → List ℕ → Except Fault (CentralCache × List ℕ)
  | [], c, empty => .ok (c, empty)
  | obj :: objs, c, empty =>
    match c.pageCache.pageMap.getSpan (obj >>> pageShift) with
    | none => freeLoop hardened idx objs c empty
    | some i => do
      let s ← c.pageCache.deref i
      let s' ← s.freeObject hardened obj
      let c := c.storeSpan i s'
      let list := (c.buckets idx).spanList
      if s'.useCount = 0 then
        freeLoop hardened idx objs (c.setSpanList idx (list.erase i)) (i :: empty)
      else if s'.useCount = s'.capacity - 1 then
        freeLoop hardened idx objs (c.setSpanList idx (i :: list.erase i)) empty
      else freeLoop hardened idx objs c empty

/-- One step of `ReleaseBatch` on class `idx`. It has returned when the chain is empty. -/
def releaseStep (hardened : Bool) (env : PageEnv) (c : CentralCache) (idx : ℕ)
    (mode : CentralReleaseMode) : ReleasePc → Except Fault (CentralCache × ReleasePc)
  | .chunk [] => .ok (c, .chunk [])
  | .chunk (obj :: objs) =>
    let localPtrs := (obj :: objs).take SizeClass.kMaxBatchSize
    let rest := (obj :: objs).drop SizeClass.kMaxBatchSize
    match mode with
    | .kTransferCache =>
      match (c.buckets idx).transferCache.append localPtrs with
      | (r, []) => .ok (c.setRing idx r, .chunk rest)
      | (r, left) => .ok (c.setRing idx r, .bitmap left rest)
    | .kSpanBitmap => .ok (c, .bitmap localPtrs rest)
  | .bitmap objs rest => do
    let (c, empty) ← freeLoop hardened idx objs c []
    return (c, .returning empty rest)
  | .returning [] rest => .ok (c, .chunk rest)
  | .returning (i :: spans) rest => do
    let pc ← (c.pageCache.load env).releaseSpan i
    return ({ c with pageCache := pc }, .returning spans rest)

/-! ## `FetchBatch` -/

/-- Move the front span behind the others if it is full. -/
def rotateIfFull (c : CentralCache) (idx : ℕ) : Except Fault CentralCache :=
  match (c.buckets idx).spanList with
  | [] => .ok c
  | i :: rest => do
    let s ← c.pageCache.deref i
    if s.isFull then return c.setSpanList idx (rest ++ [i]) else return c

/-- The loop of `FetchBatch` under `span_list_lock`, until `target` objects are extracted or a
new span is needed; the last result says which. Every pass extracts an object. -/
def scanLoop (idx target : ℕ) :
    ℕ → CentralCache → List ℕ → Except Fault (CentralCache × List ℕ × Bool)
  | 0, c, extracted => .ok (c, extracted, false)
  | fuel + 1, c, extracted =>
    if extracted.length < target then
      match (c.buckets idx).spanList with
      | [] => .ok (c, extracted, true)
      | i :: rest => do
        let s ← c.pageCache.deref i
        if s.isFull then return (c, extracted, true)
        else
          let (objs, s', hitNull) := s.allocLoop (target - extracted.length)
          let c := (c.storeSpan i s').setSpanList idx (if hitNull then rest ++ [i] else i :: rest)
          let c ← c.rotateIfFull idx
          scanLoop idx target fuel c (extracted ++ objs)
    else .ok (c, extracted, false)

/-- The SpanList section, from the moment the lock is held. -/
def scanSection (c : CentralCache) (f : FetchFrame) : Except Fault (CentralCache × FetchFrame) := do
  let (c, extracted, needSpan) ←
    scanLoop f.idx f.extractTarget f.extractTarget c f.extracted
  return (c, { f with extracted := extracted, pc := if needSpan then .allocSpan else .publish })

/-- One step of `FetchBatch`. -/
def fetchStep (hardened : Bool) (env : PageEnv) (c : CentralCache) (f : FetchFrame) :
    Except Fault (CentralCache × FetchFrame) :=
  match f.pc with
  | .grab =>
    let r := (c.buckets f.idx).transferCache
    let (objs, r) := r.grab (min f.fetchNum r.size)
    .ok (c.setRing f.idx r,
      { f with grabbed := objs, pc := if objs.length < f.fetchNum then .scan else .done })
  | .scan => c.scanSection f
  | .allocSpan => do
    let (span, pc) ← (c.pageCache.load env).allocSpan
      (SizeClass.getMovePageNum (SizeClass.size f.idx))
    let c := { c with pageCache := pc }
    match span with
    | none => return (c, { f with pc := .publish })
    | some i => return (c, { f with pc := .initSpan i })
  | .initSpan i => do
    let s ← c.pageCache.deref i
    let s ← s.init (SizeClass.size f.idx)
    return (c.storeSpan i s, { f with pc := .install i })
  | .install i => (c.setSpanList f.idx (i :: (c.buckets f.idx).spanList)).scanSection f
  | .publish =>
    match (c.buckets f.idx).transferCache.append f.prefetched with
    | (r, []) => .ok (c.setRing f.idx r, { f with pc := .done })
    | (r, left) => .ok (c.setRing f.idx r, { f with pc := .rollback (.chunk left.reverse) })
  | .rollback pc => do
    let (c, pc) ← releaseStep hardened env c f.idx .kTransferCache pc
    return (c, { f with pc := if pc = .chunk [] then .done else .rollback pc })
  | .done => .ok (c, f)

/-! ## `DrainTransferCaches` -/

/-- One step of `DrainTransferCaches`. It has returned when no class is left. -/
def drainStep (hardened : Bool) (env : PageEnv) (c : CentralCache) (f : DrainFrame) :
    Except Fault (CentralCache × DrainFrame) :=
  match f.pc with
  | .next 0 => .ok (c, f)
  | .next (idx + 1) =>
    let alignedSize := SizeClass.size idx
    if f.unbounded = false ∧ f.maxBytes < alignedSize then .ok (c, { f with pc := .next idx })
    else
      let size := (c.buckets idx).transferCache.size
      let snapshotCount := if f.unbounded then size else min size (f.maxBytes / alignedSize)
      .ok (c, { f with pc := .detach idx snapshotCount })
  | .detach idx remaining =>
    let r := (c.buckets idx).transferCache
    let detached := min (min SizeClass.kMaxBatchSize remaining) r.size
    if detached = 0 then .ok (c, { f with pc := .next idx })
    else
      let (localPtrs, r) := r.detach detached
      .ok (c.setRing idx r,
        { f with pc := .release idx remaining detached (.chunk localPtrs.reverse) })
  | .release idx remaining detached pc => do
    let (c, pc) ← releaseStep hardened env c idx .kSpanBitmap pc
    if pc = .chunk [] then
      let batchBytes := detached * SizeClass.size idx % 2 ^ 64
      return (c,
        { f with
          drainedBytes := addU64 f.drainedBytes batchBytes
          maxBytes := if f.unbounded then f.maxBytes else subU64 f.maxBytes batchBytes
          pc := .detach idx (remaining - detached) })
    else return (c, { f with pc := .release idx remaining detached pc })

/-- One step of a call. -/
def step (hardened : Bool) (env : PageEnv) (c : CentralCache) :
    CentralFrame → Except Fault (CentralCache × CentralFrame)
  | .fetch f => do
    let (c, f) ← c.fetchStep hardened env f
    return (c, .fetch f)
  | .release idx mode pc => do
    let (c, pc) ← c.releaseStep hardened env idx mode pc
    return (c, .release idx mode pc)
  | .drain f => do
    let (c, f) ← c.drainStep hardened env f
    return (c, .drain f)

end CentralCache

end Ammalloc
