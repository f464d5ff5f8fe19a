import Ammalloc.Span
import Ammalloc.PageMap
import Ammalloc.Lib.ExtentMap

set_option relaxedAutoImplicit false
set_option autoImplicit false

/-!
# The page cache

`PageCacheShard::AllocSpanLocked`, `PageCacheShard::ReleaseSpanLocked` and the `PageCache`
entry points of `src/page_cache.cpp` (the sharded variant, which is the one built by default).
Both run under the shard mutex and are modelled as one atomic step each.

Span descriptors are named by the address of their pool slot; `spans` holds the live ones. The
operating system, the metadata pools and the clock answer from the lists in `env`: an empty
list or a `none` is a failure, so every pattern of failures is a choice of `env`. An answer
that the real callee cannot give (a mapping over a live one, a pool slot in use) is read as a
failure as well.

The operations record in `env` what they ask of their callees and what they write, in program
order. `SystemFree` of pages that are not mapped and `Delete` of a descriptor that is not live are
faults, as is a read through one.

## Main definitions

* `Ammalloc.PageCache`, `Ammalloc.PageEnv`, `Ammalloc.SectionEvent`.
* `Ammalloc.PageCache.allocSpan`, `Ammalloc.PageCache.releaseSpan`.
-/

namespace Ammalloc

/-- What a critical section asks of its callees, and writes for others to see. -/
inductive SectionEvent where
  /-- `PageAllocator::SystemAlloc(pageNum)` and the first page id of its result. -/
  | systemAlloc (pageNum : ℕ) (result : Option ℕ)
  /-- `PageAllocator::SystemFree(start, pageNum)`. -/
  | systemFree (start pageNum : ℕ)
  /-- `TryNew` built descriptor `i`. -/
  | tryNew (i : ℕ) (range : Extent)
  /-- `start_page_idx` and `page_num` of descriptor `i` are assigned. -/
  | resize (i : ℕ) (range : Extent)
  /-- `Delete` of descriptor `i`. -/
  | delete (i : ℕ)
  /-- `PageMap::SetSpan` of descriptor `i`, with the page map that it finds. -/
  | setSpan (pageMap : PageMap) (i : ℕ) (range : Extent)
  /-- `PageMap::ClearRange`. -/
  | clearRange (range : Extent)
  /-- `SpanList::erase` of span `i`, called on a list that holds `list`. -/
  | erase (i : ℕ) (list : List ℕ)

/-- The surroundings of one critical section: what its callees answer, in call order, and what it
has done so far. -/
structure PageEnv where
  /-- `PageAllocator::SystemAlloc`: the first page id of the mapping. -/
  sysAlloc : List (Option ℕ) := []
  /-- `ObjectPool<Span>::TryNew`: the pool slot. -/
  tryNew : List (Option ℕ) := []
  /-- `TryNewRadixNode`. -/
  radixNode : List Bool := []
  /-- The time in ms that passes before each `GetCurrentTimeMs`. -/
  ticks : List ℕ := []
  /-- The events of the section, in program order. -/
  trace : List SectionEvent := []

/-- The state behind the PageCache mutexes. -/
structure PageCache where
  /-- The live descriptors of the span pools. -/
  spans : ℕ → Option Span := fun _ => none
  /-- `span_lists_`, by shard and page count, front first. -/
  spanLists : ℕ → ℕ → List ℕ := fun _ _ => []
  pageMap : PageMap := {}
  /-- The page ranges obtained from `SystemAlloc` and not yet passed to `SystemFree`. -/
  mapped : List Extent := []
  /-- The steady clock, in ms. -/
  clock : ℕ := 0
  env : PageEnv := {}

/-- The page range of a span. -/
def Span.extent (s : Span) : Extent := ⟨s.startPageIdx, s.pageNum⟩

/-- The fields of a descriptor that its owner writes: those of `Span::Init`, `AllocObject` and
`FreeObject`. -/
def Span.withObjects (s o : Span) : Span :=
  { s with
    sizeClassIdx := o.sizeClassIdx
    alignedObjSize := o.alignedObjSize
    capacity := o.capacity
    useCount := o.useCount
    scanCursor := o.scanCursor
    objOffset := o.objOffset
    bitmap := o.bitmap }

namespace PageCache

/-! ## Memory accesses -/

/-- Read through a `Span*`. -/
def deref (pc : PageCache) (i : ℕ) : Except Fault Span :=
  match pc.spans i with
  | some s => .ok s
  | none => .error .danglingSpan

/-- Write the descriptor in slot `i`. -/
def store (pc : PageCache) (i : ℕ) (s : Span) : PageCache :=
  { pc with spans := Function.update pc.spans i (some s) }

/-- Append an event to the trace. -/
def record (pc : PageCache) (e : SectionEvent) : PageCache :=
  { pc with env := { pc.env with trace := pc.env.trace ++ [e] } }

/-- Write the descriptor in slot `i` with another page range. -/
def resize (pc : PageCache) (i : ℕ) (s : Span) : PageCache :=
  (pc.store i s).record (.resize i s.extent)

/-- `span_pool_.Delete`. -/
def delete (pc : PageCache) (i : ℕ) : Except Fault PageCache := do
  let _ ← pc.deref i
  return PageCache.record { pc with spans := Function.update pc.spans i none } (.delete i)

/-- Overwrite bucket `n` of shard `k`. -/
def setList (pc : PageCache) (k n : ℕ) (l : List ℕ) : PageCache :=
  { pc with spanLists := Function.update pc.spanLists k (Function.update (pc.spanLists k) n l) }

/-- `span_lists_[n].push_front`. -/
def pushFront (pc : PageCache) (k n i : ℕ) : PageCache := pc.setList k n (i :: pc.spanLists k n)

/-- `span_lists_[n].erase` on shard `k`. It works on the links of the span, and so takes it out of
the list that it is in, whether this is the list of the call or not. -/
def erase (pc : PageCache) (k n i : ℕ) : PageCache :=
  PageCache.record { pc with spanLists := fun k' n' => (pc.spanLists k' n').filter (· ≠ i) }
    (.erase i (pc.spanLists k n))

/-- `PageMap::SetSpan` of descriptor `i`. -/
def setSpan (pc : PageCache) (i : ℕ) (s : Span) : Except Fault PageCache :=
  match pc.pageMap.setSpan i s.startPageIdx s.pageNum with
  | .ok pm => .ok (PageCache.record { pc with pageMap := pm } (.setSpan pc.pageMap i s.extent))
  | .error e => .error e

/-- `PageMap::ClearRange`. -/
def clearRange (pc : PageCache) (start n : ℕ) : PageCache :=
  PageCache.record { pc with pageMap := pc.pageMap.clearRange start n } (.clearRange ⟨start, n⟩)

/-! ## The environment -/

/-- The answers for the next critical section, which has done nothing yet. -/
def load (pc : PageCache) (env : PageEnv) : PageCache := { pc with env := { env with trace := [] } }

/-- `GetCurrentTimeMs`: a monotone 64-bit clock. -/
def getCurrentTimeMs (pc : PageCache) : ℕ × PageCache :=
  let now := min (pc.clock + pc.env.ticks.headD 0) sizeMax
  (now, { pc with clock := now, env := { pc.env with ticks := pc.env.ticks.tail } })

/-- A range that `mmap` can return: page aligned, not null, inside the address space and
disjoint from everything mapped. -/
def Mappable (pc : PageCache) (p n : ℕ) : Prop :=
  0 < p ∧ (p + n) * pageSize ≤ 2 ^ 64 ∧ ∀ e ∈ pc.mapped, Extent.Disjoint ⟨p, n⟩ e

instance (pc : PageCache) (p n : ℕ) : Decidable (pc.Mappable p n) :=
  inferInstanceAs (Decidable (_ ∧ _ ∧ _))

/-- `PageAllocator::SystemAlloc(n)`, up to the first page id of its result. -/
def systemAlloc (pc : PageCache) (n : ℕ) : Option ℕ × PageCache :=
  let pc' := { pc with env := { pc.env with sysAlloc := pc.env.sysAlloc.tail } }
  match pc.env.sysAlloc.headD none with
  | some p =>
    if pc.Mappable p n then
      (some p, PageCache.record { pc' with mapped := ⟨p, n⟩ :: pc.mapped }
        (.systemAlloc n (some p)))
    else (none, pc'.record (.systemAlloc n none))
  | none => (none, pc'.record (.systemAlloc n none))

/-- `PageAllocator::SystemFree`. -/
def systemFree (pc : PageCache) (p n : ℕ) : Except Fault PageCache :=
  if ⟨p, n⟩ ∈ pc.mapped then
    .ok (PageCache.record { pc with mapped := pc.mapped.erase ⟨p, n⟩ } (.systemFree p n))
  else .error .notMapped

/-- `span_pool_.TryNew(start, n)`: a default descriptor in a slot that is not in use. -/
def tryNew (pc : PageCache) (start n : ℕ) : Option ℕ × PageCache :=
  let pc' := { pc with env := { pc.env with tryNew := pc.env.tryNew.tail } }
  match pc.env.tryNew.headD none with
  | some i =>
    if (pc.spans i).isNone then
      (some i, (pc'.store i { startPageIdx := start, pageNum := n }).record (.tryNew i ⟨start, n⟩))
    else (none, pc')
  | none => (none, pc')

/-- `PageMap::EnsureRange`. -/
def ensureRange (pc : PageCache) (start n : ℕ) : Bool × PageCache :=
  match pc.pageMap.ensureRange pc.env.radixNode start n with
  | (ok, pm, nodes) => (ok, { pc with pageMap := pm, env := { pc.env with radixNode := nodes } })

/-! ## Allocation -/

/-- `SystemAlloc`, `TryNew` and `EnsureRange` with their rollbacks: the common beginning of the
oversized branch and of the refill. -/
def mapFreshSpan (pc : PageCache) (n : ℕ) : Except Fault (Option (ℕ × Span) × PageCache) :=
  match pc.systemAlloc n with
  | (none, pc) => .ok (none, pc)
  | (some p, pc) =>
    match pc.tryNew p n with
    | (none, pc) => do
      let pc ← pc.systemFree p n
      return (none, pc)
    | (some i, pc) =>
      match pc.ensureRange p n with
      | (false, pc) => do
        let pc ← pc.delete i
        let pc ← pc.systemFree p n
        return (none, pc)
      | (true, pc) => .ok (some (i, { startPageIdx := p, pageNum := n }), pc)

/-- The oversized branch of `AllocSpanLocked`. -/
def allocOversized (pc : PageCache) (n : ℕ) : Except Fault (Option ℕ × PageCache) := do
  match ← pc.mapFreshSpan n with
  | (none, pc) => return (none, pc)
  | (some (i, s), pc) =>
    let s := { s with used := true, committed := true, ownerShardId := 0 }
    let pc ← (pc.store i s).setSpan i s
    return (some i, pc)

/-- The exact-hit branch: `i` is the front of the bucket and `rest` the others. -/
def takeExact (pc : PageCache) (k n i : ℕ) (rest : List ℕ) :
    Except Fault (Option ℕ × PageCache) := do
  let s ← pc.deref i
  return (some i, (pc.setList k n rest).store i { s with used := true, committed := true })

/-- The first larger bucket that is not empty. -/
def firstLarger (pc : PageCache) (k n : ℕ) : Option ℕ :=
  (List.range' (n + 1) (maxPageNum - n)).find? fun i => !(pc.spanLists k i).isEmpty

/-- The split branch: the low `n` pages of the span `big` at the front of bucket `i` become a
new span. When the descriptor of the new span cannot be had, `big` goes back. -/
def splitSpan (pc : PageCache) (k n i big : ℕ) (rest : List ℕ) :
    Except Fault (Option ℕ × PageCache) := do
  let pc := pc.setList k i rest
  let b ← pc.deref big
  match pc.tryNew b.startPageIdx n with
  | (none, pc) => return (none, pc.pushFront k i big)
  | (some small, pc) =>
    let s : Span :=
      { startPageIdx := b.startPageIdx, pageNum := n, used := true, committed := true,
        ownerShardId := b.ownerShardId }
    let (now, pc) := pc.getCurrentTimeMs
    let b := { b with
      startPageIdx := b.startPageIdx + n
      pageNum := b.pageNum - n
      used := false
      committed := true
      lastUsedTimeMs := now }
    let pc := ((pc.store small s).resize big b).pushFront k b.pageNum big
    let pc ← pc.setSpan small s
    let pc ← pc.setSpan big b
    return (some small, pc)

/-- The refill: a fresh free span of `MAX_PAGE_NUM` pages, or `false`. -/
def refill (pc : PageCache) (k : ℕ) : Except Fault (Bool × PageCache) := do
  match ← pc.mapFreshSpan maxPageNum with
  | (none, pc) => return (false, pc)
  | (some (i, s), pc) =>
    let (now, pc) := pc.getCurrentTimeMs
    let s := { s with used := false, committed := true, lastUsedTimeMs := now, ownerShardId := 0 }
    let pc ← ((pc.store i s).pushFront k maxPageNum i).setSpan i s
    return (true, pc)

/-- The loop of `PageCacheShard::AllocSpanLocked`. -/
def allocSpanLoop (k n : ℕ) : ℕ → PageCache → Except Fault (Option ℕ × PageCache)
  | 0, _ => .error .outOfFuel
  | fuel + 1, pc =>
    if n > maxPageNum then pc.allocOversized n
    else
      match pc.spanLists k n with
      | i :: rest => pc.takeExact k n i rest
      | [] =>
        match pc.firstLarger k n with
        | some i =>
          match pc.spanLists k i with
          | big :: rest => pc.splitSpan k n i big rest
          | [] => .error .danglingSpan
        | none =>
          match pc.refill k with
          | .error e => .error e
          | .ok (false, pc) => .ok (none, pc)
          | .ok (true, pc) => allocSpanLoop k n fuel pc

/-- `PageCacheShard::AllocSpanLocked` on shard `k`. A refill is followed by a split or an exact
hit, so two passes are enough. -/
def allocSpanLocked (pc : PageCache) (k n : ℕ) : Except Fault (Option ℕ × PageCache) :=
  if n = 0 ∨ n > uint32Max then .ok (none, pc) else allocSpanLoop k n 2 pc

/-- `PageCache::SelectShardForAlloc`. -/
def selectShardForAlloc (_pageNum : ℕ) : ℕ := 0

/-- `PageCache::AllocSpan`. -/
def allocSpan (pc : PageCache) (n : ℕ) : Except Fault (Option ℕ × PageCache) := do
  let shardId := selectShardForAlloc n
  match ← pc.allocSpanLocked shardId n with
  | (none, pc) => return (none, pc)
  | (some i, pc) =>
    let s ← pc.deref i
    return (some i, pc.store i { s with ownerShardId := shardId })

/-! ## Release -/

/-- The two merge loops of `ReleaseSpanLocked`. -/
inductive Side where
  | left
  | right
  deriving DecidableEq, Repr

/-- The page just outside the span, where the loop looks for a neighbour. -/
def Side.neighbour : Side → Span → Option ℕ
  | .left, s => if s.startPageIdx = 0 then none else some (s.startPageIdx - 1)
  | .right, s => some (s.startPageIdx + s.pageNum)

/-- The span `s` extended by its neighbour `t`. -/
def Side.merged : Side → Span → Span → Span
  | .left, s, t => { s with startPageIdx := t.startPageIdx, pageNum := s.pageNum + t.pageNum }
  | .right, s, t => { s with pageNum := s.pageNum + t.pageNum }

/-- The neighbour `t` may be absorbed by `s`. -/
def mergeable (s t : Span) : Bool :=
  !t.used && t.ownerShardId == s.ownerShardId && decide (s.pageNum + t.pageNum ≤ maxPageNum)

/-- A merge loop: unlink free neighbours and take over their pages. Their descriptors are
collected and stay readable; the leaves still name them. -/
def coalesce (side : Side) (k i : ℕ) : ℕ → PageCache → List ℕ → Except Fault (PageCache × List ℕ)
  | 0, _, _ => .error .outOfFuel
  | fuel + 1, pc, retired => do
    let s ← pc.deref i
    match (side.neighbour s).bind pc.pageMap.getSpan with
    | none => return (pc, retired)
    | some j =>
      let t ← pc.deref j
      if mergeable s t then
        let pc := pc.erase k t.pageNum j
        coalesce side k i fuel (pc.resize i (side.merged s t)) (j :: retired)
      else return (pc, retired)

/-- The two merge loops of `ReleaseSpanLocked`. Every merge adds a page and stops at
`MAX_PAGE_NUM`, which bounds both. -/
def mergeNeighbours (pc : PageCache) (k i : ℕ) : Except Fault (PageCache × List ℕ) := do
  let (pc, retired) ← coalesce .left k i maxPageNum pc []
  coalesce .right k i maxPageNum pc retired

/-- The fields of the survivor that `ReleaseSpanLocked` writes after the merge loops. -/
def freed (s : Span) (now : ℕ) : Span :=
  { s with
    used := false
    committed := true
    alignedObjSize := 0
    useCount := 0
    objOffset := 0
    capacity := 0
    lastUsedTimeMs := now }

/-- `PageCacheShard::ReleaseSpanLocked` on shard `k`. -/
def releaseSpanLocked (pc : PageCache) (k i : ℕ) : Except Fault PageCache := do
  let s ← pc.deref i
  if s.pageNum > maxPageNum then
    let pc := pc.clearRange s.startPageIdx s.pageNum
    let pc ← pc.systemFree s.startPageIdx s.pageNum
    pc.delete i
  else
    let (pc, retired) ← pc.mergeNeighbours k i
    let s ← pc.deref i
    let (now, pc) := pc.getCurrentTimeMs
    let s := freed s now
    let pc ← (pc.store i s).setSpan i s
    let pc ← retired.foldlM delete pc
    return pc.pushFront k s.pageNum i

/-- `PageCache::ReleaseSpan`. -/
def releaseSpan (pc : PageCache) (i : ℕ) : Except Fault PageCache := do
  let s ← pc.deref i
  pc.releaseSpanLocked s.ownerShardId i

end PageCache

end Ammalloc
