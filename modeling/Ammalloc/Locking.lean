import Ammalloc.CentralCache
import Ammalloc.Lib.LockProgram
import Ammalloc.Scavenger

set_option relaxedAutoImplicit false
set_option autoImplicit false

/-!
# The locks of the allocator

`FetchBatch`, `ReleaseBatch`, `DrainTransferCaches`, `PageCache::AllocSpan`,
`PageCache::ReleaseSpan` and `ScavengeOnePass` as programs that take and drop locks, one
instruction at a time. Between the lock instructions stand the critical sections of
`Ammalloc.CentralCache` and `Ammalloc.PageCache`, with their data, so that every branch is taken
as the data say. `NoThrowUniqueLock` is modelled with its `owns_` flag and its two fatal branches.

`PageMap::EnsureRange` takes `structure_mutex_` once for each leaf that is missing. Here the
number of times is read off when the shard mutex has been taken, and the section that grows the
map runs after them, still under the shard mutex.

## Main definitions

* `Ammalloc.AllocatorLock`, `Ammalloc.NoThrowUniqueLock`.
* `Ammalloc.Locking.Label`, `Ammalloc.Locking.code` — the programs.

## Main results

* `Ammalloc.Locking.verified` — every label keeps to the lock order.
* `Ammalloc.Locking.lock_discipline` — what follows for all interleavings.
-/

namespace Ammalloc

open LockProgram (lock unlock access goto)

/-- The locks of the allocator. -/
inductive AllocatorLock where
  /-- `Bucket::transfer_cache_lock` of a class. -/
  | transferCacheLock (idx : ℕ)
  /-- `Bucket::span_list_lock` of a class. -/
  | spanListLock (idx : ℕ)
  /-- The mutex of a `PageCacheShard`. -/
  | shardMutex (shardId : ℕ)
  /-- `PageMap::structure_mutex_`. -/
  | structureMutex
  deriving DecidableEq, Repr

/-! ## The structure mutex -/

/-- How often the loop of `PageMap::EnsureRange` calls `EnsurePathLocked`. -/
def PageMap.lockedPaths : ℕ → PageMap → List Bool → ℕ → ℕ → ℕ
  | 0, _, _, _, _ => 0
  | fuel + 1, pm, nodes, current, remaining =>
    if remaining = 0 then 0
    else if i0 current ≥ radixRootSize then 0
    else
      let step := min remaining (radixNodeSize - i3 current)
      if pm.hasPath current then lockedPaths fuel pm nodes (current + step) (remaining - step)
      else
        match pm.ensurePathLocked nodes current with
        | (true, pm, nodes) => 1 + lockedPaths fuel pm nodes (current + step) (remaining - step)
        | (false, _, _) => 1

/-- How often `PageMap::EnsureRange` takes `structure_mutex_`. -/
def PageMap.structureSections (pm : PageMap) (nodes : List Bool) (startPageId pageNum : ℕ) : ℕ :=
  if pageNum = 0 then 0
  else if pageNum > 1 ∧ startPageId > sizeMax - (pageNum - 1) then 0
  else pm.lockedPaths pageNum nodes startPageId pageNum

/-- How often the beginning of the oversized branch or of the refill takes it. -/
def PageCache.freshSections (pc : PageCache) (n : ℕ) : ℕ :=
  match pc.systemAlloc n with
  | (none, _) => 0
  | (some p, pc) =>
    match pc.tryNew p n with
    | (none, _) => 0
    | (some _, pc) => pc.pageMap.structureSections pc.env.radixNode p n

/-- How often `AllocSpanLocked` takes it. The pass after a refill finds a span. -/
def PageCache.structureSections (pc : PageCache) (k n : ℕ) : ℕ :=
  if n = 0 ∨ n > uint32Max then 0
  else if n > maxPageNum then pc.freshSections n
  else if pc.spanLists k n = [] ∧ pc.firstLarger k n = none then pc.freshSections maxPageNum
  else 0

namespace Locking

/-- The points at which the operations are cut: their loop heads and the places between two lock
sections. `owns` is the flag of the `SpanListUniqueLock` in scope, `inner` that of the
`ReleaseBatch` that `FetchBatch` calls. -/
inductive Label where
  | fetchBatch (f : FetchFrame) (owns inner : Bool)
  | releaseBatch (idx : ℕ) (mode : CentralReleaseMode) (pc : ReleasePc) (owns : Bool)
  | drainTransferCaches (f : DrainFrame) (owns : Bool)
  | allocSpan (pageNum : ℕ)
  | releaseSpan (span : ℕ)
  | scavengeOnePass
  | scavenging (scav : PageCache.ScavPc)

/-- The programs of the allocator. An input holds the answers of the page source and of the pools,
and the outcome of a `madvise`. -/
abbrev Program (α : Type) : Type 1 :=
  LockProgram AllocatorLock CentralCache (PageEnv × Bool) Fault Label α

end Locking

/-! ## `NoThrowUniqueLock` -/

namespace NoThrowUniqueLock

/-- The constructor; the result is `owns_`. -/
def construct (mutex : AllocatorLock) : Locking.Program Bool := do
  lock mutex
  return true

/-- `NoThrowUniqueLock::lock`. -/
def relock (mutex : AllocatorLock) (owns : Bool) : Locking.Program Bool :=
  if owns then .fatal "NoThrowUniqueLock double lock"
  else do
    lock mutex
    return true

/-- `NoThrowUniqueLock::unlock`. -/
def release (mutex : AllocatorLock) (owns : Bool) : Locking.Program Bool :=
  if !owns then .fatal "NoThrowUniqueLock unlock without ownership"
  else do
    unlock mutex
    return false

/-- The destructor. -/
def destroy (mutex : AllocatorLock) (owns : Bool) : Locking.Program Unit :=
  if owns then unlock mutex else return ()

end NoThrowUniqueLock

/-! ## The operations -/

namespace Locking

open AllocatorLock

variable {β : Type}

/-- `EnsurePathLocked`, as often as given: its guard is local to one pass of the loop. -/
def ensurePaths : ℕ → Program Unit
  | 0 => return ()
  | n + 1 => do
    lock structureMutex
    unlock structureMutex
    ensurePaths n

/-- `PageCache::AllocSpan`: the shard mutex around `AllocSpanLocked`, here the section `f`. -/
def allocSpan (pageNum : ℕ) (f : PageEnv → CentralCache → Except Fault (CentralCache × β)) :
    Program β := do
  let shardId := PageCache.selectShardForAlloc pageNum
  lock (shardMutex shardId)
  let (env, n) ← access fun (env, _) c =>
    .ok (c, env, (c.pageCache.load env).structureSections shardId pageNum)
  ensurePaths n
  let result ← access fun _ c => f env c
  unlock (shardMutex shardId)
  return result

/-- `PageCache::ReleaseSpan`: the mutex of the owner around `ReleaseSpanLocked`, here the section
`f`. Neither `SetSpan` nor `ClearRange` takes a lock. -/
def releaseSpan (span : ℕ) (f : PageEnv → CentralCache → Except Fault (CentralCache × β)) :
    Program β := do
  let shardId ← access fun _ c => do
    let s ← c.pageCache.deref span
    return (c, s.ownerShardId)
  lock (shardMutex shardId)
  let result ← access fun (env, _) c => f env c
  unlock (shardMutex shardId)
  return result

/-- `ReleaseBatch`, from one of its labels to the next. -/
def releaseBatch (hardened : Bool) (idx : ℕ) (mode : CentralReleaseMode) (pc : ReleasePc)
    (owns : Bool) : Program (ReleasePc × Bool) :=
  match pc with
  | .chunk [] => return (.chunk [], owns)
  | .chunk (obj :: objs) =>
    match mode with
    | .kTransferCache => do
      lock (transferCacheLock idx)
      let pc ← access fun (env, _) c => c.releaseStep hardened env idx mode (.chunk (obj :: objs))
      unlock (transferCacheLock idx)
      return (pc, owns)
    | .kSpanBitmap => do
      let pc ← access fun (env, _) c => c.releaseStep hardened env idx mode (.chunk (obj :: objs))
      return (pc, owns)
  | .bitmap objs rest => do
    let owns ← NoThrowUniqueLock.construct (spanListLock idx)
    let pc ← access fun (env, _) c => c.releaseStep hardened env idx mode (.bitmap objs rest)
    let owns ← NoThrowUniqueLock.release (spanListLock idx) owns
    return (pc, owns)
  | .returning [] rest => do
    NoThrowUniqueLock.destroy (spanListLock idx) owns
    return (.chunk rest, false)
  | .returning (span :: spans) rest => do
    let pc ← releaseSpan span fun env c =>
      c.releaseStep hardened env idx mode (.returning (span :: spans) rest)
    return (pc, owns)

/-- `FetchBatch`, with `GetOneSpan` from `allocSpan` to `install`. -/
def fetchBatch (hardened : Bool) (f : FetchFrame) (owns inner : Bool) : Program Unit :=
  let step : PageEnv → CentralCache → Except Fault (CentralCache × FetchFrame) :=
    fun env c => c.fetchStep hardened env f
  match f.pc with
  | .grab => do
    lock (transferCacheLock f.idx)
    let f' ← access fun (env, _) c => step env c
    unlock (transferCacheLock f.idx)
    goto (.fetchBatch f' owns inner)
  | .scan => do
    let owns ← NoThrowUniqueLock.construct (spanListLock f.idx)
    let f' ← access fun (env, _) c => step env c
    goto (.fetchBatch f' owns inner)
  | .allocSpan => do
    let owns ← NoThrowUniqueLock.release (spanListLock f.idx) owns
    let f' ← allocSpan (SizeClass.getMovePageNum (SizeClass.size f.idx)) step
    -- a null span: the lock is restored before returning
    if f'.pc = .publish then
      let owns ← NoThrowUniqueLock.relock (spanListLock f.idx) owns
      goto (.fetchBatch f' owns inner)
    else goto (.fetchBatch f' owns inner)
  | .initSpan _ => do
    let f' ← access fun (env, _) c => step env c
    goto (.fetchBatch f' owns inner)
  | .install _ => do
    let owns ← NoThrowUniqueLock.relock (spanListLock f.idx) owns
    let f' ← access fun (env, _) c => step env c
    goto (.fetchBatch f' owns inner)
  | .publish => do
    let owns ← NoThrowUniqueLock.release (spanListLock f.idx) owns
    if f.prefetched = [] then goto (.fetchBatch { f with pc := .done } owns inner)
    else
      lock (transferCacheLock f.idx)
      let f' ← access fun (env, _) c => step env c
      unlock (transferCacheLock f.idx)
      goto (.fetchBatch f' owns inner)
  | .rollback pc => do
    let (pc, inner) ← releaseBatch hardened f.idx .kTransferCache pc inner
    goto (.fetchBatch { f with pc := if pc = .chunk [] then .done else .rollback pc } owns inner)
  | .done => NoThrowUniqueLock.destroy (spanListLock f.idx) owns

/-- `DrainTransferCaches` after a step of its `ReleaseBatch`. -/
def afterRelease (f : DrainFrame) (idx remaining detached : ℕ) (pc : ReleasePc) : DrainFrame :=
  if pc = .chunk [] then
    let batchBytes := detached * SizeClass.size idx % 2 ^ 64
    { f with
      drainedBytes := addU64 f.drainedBytes batchBytes
      maxBytes := if f.unbounded then f.maxBytes else subU64 f.maxBytes batchBytes
      pc := .detach idx (remaining - detached) }
  else { f with pc := .release idx remaining detached pc }

/-- This is what the section model does there. -/
lemma drainStep_release {hardened : Bool} {env : PageEnv} {c : CentralCache} {f : DrainFrame}
    {idx remaining detached : ℕ} {pc : ReleasePc}
    (hpc : f.pc = .release idx remaining detached pc) :
    c.drainStep hardened env f =
      (c.releaseStep hardened env idx .kSpanBitmap pc).map
        fun r => (r.1, afterRelease f idx remaining detached r.2) := by
  simp only [CentralCache.drainStep, hpc, afterRelease, bind, Except.bind, pure, Except.pure]
  cases c.releaseStep hardened env idx .kSpanBitmap pc with
  | error e => rfl
  | ok r =>
    dsimp only [Except.map]
    split <;> rfl

/-- `DrainTransferCaches`. -/
def drainTransferCaches (hardened : Bool) (f : DrainFrame) (owns : Bool) : Program Unit :=
  match f.pc with
  | .next 0 => return ()
  | .next (idx + 1) =>
    if f.unbounded = false ∧ f.maxBytes < SizeClass.size idx then
      goto (.drainTransferCaches { f with pc := .next idx } owns)
    else do
      lock (transferCacheLock idx)
      let f' ← access fun (env, _) c => c.drainStep hardened env f
      unlock (transferCacheLock idx)
      goto (.drainTransferCaches f' owns)
  | .detach idx remaining =>
    if remaining = 0 then goto (.drainTransferCaches { f with pc := .next idx } owns)
    else do
      lock (transferCacheLock idx)
      let f' ← access fun (env, _) c => c.drainStep hardened env f
      unlock (transferCacheLock idx)
      goto (.drainTransferCaches f' owns)
  | .release idx remaining detached pc => do
    let (pc, owns) ← releaseBatch hardened idx .kSpanBitmap pc owns
    goto (.drainTransferCaches (afterRelease f idx remaining detached pc) owns)

/-- One step of `ScavengeOnePass` on the shared state. -/
def scavengeSection (scav : PageCache.ScavPc) (i : PageEnv × Bool) (c : CentralCache) :
    Except Fault (CentralCache × PageCache.ScavPc) := do
  let (scav, _, pc) ← (c.pageCache.load i.1).scavengeStep scav i.2
  return ({ c with pageCache := pc }, scav)

/-- `ScavengeOnePass`, from one of its labels to the next: the scan of a bucket and the return of
its chain are under the mutex of shard 0, `madvise` is not. -/
def scavenging (scav : PageCache.ScavPc) : Program Unit :=
  match scav with
  | .idle => return ()
  | .madvise _ _ _ (_ :: _) => do
    let scav ← access (scavengeSection scav)
    goto (.scavenging scav)
  | .detach _ _ | .madvise _ _ _ [] => do
    lock (shardMutex 0)
    let scav ← access (scavengeSection scav)
    unlock (shardMutex 0)
    goto (.scavenging scav)

/-- The body of a label. -/
def body (hardened : Bool) : Label → Program Unit
  | .fetchBatch f owns inner => fetchBatch hardened f owns inner
  | .releaseBatch idx mode pc owns =>
    if pc = .chunk [] then return ()
    else do
      let (pc, owns) ← releaseBatch hardened idx mode pc owns
      goto (.releaseBatch idx mode pc owns)
  | .drainTransferCaches f owns => drainTransferCaches hardened f owns
  | .allocSpan pageNum => do
    let _ ← allocSpan pageNum fun env c => do
      let (span, pc) ← (c.pageCache.load env).allocSpan pageNum
      return ({ c with pageCache := pc }, span)
  | .releaseSpan span =>
    releaseSpan span fun env c => do
      let pc ← (c.pageCache.load env).releaseSpan span
      return ({ c with pageCache := pc }, ())
  | .scavengeOnePass => do
    let scav ← access (scavengeSection .idle)
    goto (.scavenging scav)
  | .scavenging scav => scavenging scav

/-- What a thread may call. -/
inductive Operation where
  | fetchBatch (idx preferredCount : ℕ)
  | releaseBatch (idx : ℕ) (objs : List ℕ) (mode : CentralReleaseMode)
  | drainTransferCaches (maxBytes : ℕ)
  | allocSpan (pageNum : ℕ)
  | releaseSpan (span : ℕ)
  | scavengeOnePass

/-- The label at which an operation starts; no `SpanListUniqueLock` is in scope. -/
def entry : Operation → Label
  | .fetchBatch idx preferredCount => .fetchBatch (.start idx preferredCount) false false
  | .releaseBatch idx objs mode => .releaseBatch idx mode (.chunk objs) false
  | .drainTransferCaches maxBytes => .drainTransferCaches (.start maxBytes) false
  | .allocSpan pageNum => .allocSpan pageNum
  | .releaseSpan span => .releaseSpan span
  | .scavengeOnePass => .scavengeOnePass

/-- The code of the allocator. -/
def code (hardened : Bool) :
    LockCode AllocatorLock CentralCache (PageEnv × Bool) Fault Label Operation where
  body := body hardened
  entry := entry

/-- Any number of threads run the operations, on a central cache with or without a backing for
the TransferCaches. -/
def machine (hardened : Bool) :
    Machine (LockSystem AllocatorLock CentralCache (PageEnv × Bool) Fault Label)
      (LockAction (PageEnv × Bool) Operation) :=
  (code hardened).machine {.create true, .create false}

/-! ## The conditions of the labels -/

/-- At this point of `FetchBatch` the span list lock is held. -/
def scanning : FetchPc → Bool
  | .allocSpan | .publish => true
  | _ => false

/-- The lock order: only the structure mutex is taken while another lock is held, and that lock
is a shard mutex. -/
def MayAttempt : AllocatorLock → AllocatorLock → Prop
  | shardMutex _, structureMutex => True
  | _, _ => False

/-- The locks held at a label, and the flags of the `SpanListUniqueLock`s there. -/
def Holds : Label → Set AllocatorLock → Prop
  | .fetchBatch f owns inner, H =>
    inner = false ∧ owns = scanning f.pc ∧ H = if owns then {spanListLock f.idx} else ∅
  | .releaseBatch _ _ _ owns, H => owns = false ∧ H = ∅
  | .drainTransferCaches _ owns, H => owns = false ∧ H = ∅
  | .allocSpan _, H | .releaseSpan _, H | .scavengeOnePass, H | .scavenging _, H => H = ∅

/-- The order goes up from the shard mutexes to the structure mutex. -/
lemma rank_lt_of_mayAttempt {h l : AllocatorLock} (hl : MayAttempt h l) :
    (if h = structureMutex then 1 else 0) < if l = structureMutex then 1 else 0 := by
  cases h <;> cases l <;> simp_all [MayAttempt]

/-- The scan ends with the list lock held. -/
lemma scanning_scanSection {c c' : CentralCache} {f f' : FetchFrame}
    (h : c.scanSection f = .ok (c', f')) : f'.idx = f.idx ∧ scanning f'.pc = true := by
  obtain ⟨r, -, h⟩ := exists_ok_of_bind h
  obtain ⟨-, rfl⟩ := Prod.mk.inj (Except.ok.inj h)
  refine ⟨rfl, ?_⟩
  dsimp only
  split <;> rfl

/-- After a step of `FetchBatch` the list lock has to be held exactly if the step was a scan, or
if no span was to be had. -/
lemma scanning_fetchStep {hardened : Bool} {env : PageEnv} {c c' : CentralCache}
    {f f' : FetchFrame} (h : c.fetchStep hardened env f = .ok (c', f')) :
    f'.idx = f.idx ∧ (scanning f'.pc = true ↔
      f.pc = .scan ∨ (∃ i, f.pc = .install i) ∨ f.pc = .allocSpan ∧ f'.pc = .publish) := by
  unfold CentralCache.fetchStep at h
  cases hpc : f.pc with
  | grab =>
    simp only [hpc, Except.ok.injEq, Prod.mk.injEq] at h
    obtain ⟨-, rfl⟩ := h
    dsimp only
    split <;> simp [scanning]
  | scan | install =>
    simp only [hpc] at h
    obtain ⟨hidx, hs⟩ := scanning_scanSection h
    simp [hidx, hs]
  | allocSpan =>
    simp only [hpc] at h
    obtain ⟨⟨span, pc⟩, -, h⟩ := exists_ok_of_bind h
    cases span with
    | none =>
      obtain ⟨-, rfl⟩ := Prod.mk.inj (Except.ok.inj h)
      simp [scanning]
    | some i =>
      obtain ⟨-, rfl⟩ := Prod.mk.inj (Except.ok.inj h)
      simp [scanning]
  | initSpan i =>
    simp only [hpc] at h
    obtain ⟨s, -, h⟩ := exists_ok_of_bind h
    obtain ⟨s', -, h⟩ := exists_ok_of_bind h
    obtain ⟨-, rfl⟩ := Prod.mk.inj (Except.ok.inj h)
    simp [scanning]
  | publish =>
    simp only [hpc] at h
    split at h <;>
    · obtain ⟨-, rfl⟩ := Prod.mk.inj (Except.ok.inj h)
      simp [scanning]
  | rollback pc =>
    simp only [hpc] at h
    obtain ⟨⟨c₁, pc'⟩, -, h⟩ := exists_ok_of_bind h
    obtain ⟨-, rfl⟩ := Prod.mk.inj (Except.ok.inj h)
    dsimp only
    split <;> simp [scanning]
  | done =>
    simp only [hpc, Except.ok.injEq, Prod.mk.injEq] at h
    obtain ⟨-, rfl⟩ := h
    simp [hpc, scanning]

/-! ## Every label is safe -/

section Safe

variable {Q : β → Set AllocatorLock → Prop}

/-- Under a shard mutex the structure mutex may be taken and dropped any number of times. -/
lemma ensurePaths_safe {Q : Unit → Set AllocatorLock → Prop} (k n : ℕ)
    (hQ : Q () {shardMutex k}) : (ensurePaths n).Safe MayAttempt Holds Q {shardMutex k} := by
  induction n with
  | zero => exact hQ
  | succ n ih =>
    have hdrop : insert structureMutex {shardMutex k} \ {structureMutex} =
        ({shardMutex k} : Set AllocatorLock) := by simp
    simp only [ensurePaths, LockProgram.safe_bind, LockProgram.safe_lock, LockProgram.safe_unlock,
      hdrop]
    exact ⟨by simp [MayAttempt], by simp, ih⟩

/-- `AllocSpan` starts and ends without a lock. -/
lemma allocSpan_safe {pageNum : ℕ} {f : PageEnv → CentralCache → Except Fault (CentralCache × β)}
    (hf : ∀ env c c' b, f env c = .ok (c', b) → Q b ∅) :
    (allocSpan pageNum f).Safe MayAttempt Holds Q ∅ := by
  simp only [allocSpan, LockProgram.safe_bind, LockProgram.safe_lock, LockProgram.safe_access]
  refine ⟨by simp, fun i c c' b _ => ?_⟩
  rw [insert_empty_eq]
  apply ensurePaths_safe
  rw [LockProgram.safe_bind, LockProgram.safe_access]
  intro i' c₁ c₂ r hr
  simp [hf _ _ _ _ hr]

/-- `ReleaseSpan` starts and ends without a lock. -/
lemma releaseSpan_safe {span : ℕ} {f : PageEnv → CentralCache → Except Fault (CentralCache × β)}
    (hf : ∀ env c c' b, f env c = .ok (c', b) → Q b ∅) :
    (releaseSpan span f).Safe MayAttempt Holds Q ∅ := by
  simp only [releaseSpan, LockProgram.safe_bind, LockProgram.safe_lock, LockProgram.safe_access]
  intro i c c' k _
  refine ⟨by simp, fun i' c₁ c₂ r hr => ?_⟩
  simp [hf _ _ _ _ hr]

/-- A part of `ReleaseBatch` starts and ends without a lock, and its `SpanListUniqueLock` does not
own the mutex then. -/
lemma releaseBatch_safe {Q : ReleasePc × Bool → Set AllocatorLock → Prop} {hardened : Bool}
    {idx : ℕ} {mode : CentralReleaseMode} {pc : ReleasePc} (hQ : ∀ pc', Q (pc', false) ∅) :
    (releaseBatch hardened idx mode pc false).Safe MayAttempt Holds Q ∅ := by
  match pc with
  | .chunk [] => exact hQ _
  | .chunk (obj :: objs) =>
    cases mode with
    | kTransferCache => simp [releaseBatch, hQ]
    | kSpanBitmap => simp [releaseBatch, hQ]
  | .bitmap objs rest =>
    simp [releaseBatch, NoThrowUniqueLock.construct, NoThrowUniqueLock.release, hQ]
  | .returning [] rest => exact hQ _
  | .returning (span :: spans) rest =>
    simp only [releaseBatch, LockProgram.safe_bind]
    exact releaseSpan_safe fun _ _ _ pc' _ => hQ pc'

end Safe

/-- The label after a step of `FetchBatch`, with the list lock held or not as it should be. -/
lemma holds_fetchStep {hardened : Bool} {env : PageEnv} {c c' : CentralCache}
    {f f' : FetchFrame} (h : c.fetchStep hardened env f = .ok (c', f')) :
    (scanning f'.pc = true → Holds (.fetchBatch f' true false) {spanListLock f.idx}) ∧
      (scanning f'.pc = false → Holds (.fetchBatch f' false false) ∅) := by
  obtain ⟨hidx, -⟩ := scanning_fetchStep h
  exact ⟨fun hs => ⟨rfl, hs.symm, by simp [hidx]⟩, fun hs => ⟨rfl, hs.symm, by simp⟩⟩

/-- **`FetchBatch`** is safe at every point that it reaches: `GetOneSpan` gives the list lock up
before it enters the PageCache, and both of its ends restore it. -/
lemma fetchBatch_safe {hardened : Bool} {f : FetchFrame} {owns inner : Bool}
    {H : Set AllocatorLock} (h : Holds (.fetchBatch f owns inner) H) :
    (fetchBatch hardened f owns inner).Safe MayAttempt Holds (fun _ H => H = ∅) H := by
  obtain ⟨rfl, rfl, rfl⟩ := h
  cases hpc : f.pc with
  | grab =>
    simp only [fetchBatch, hpc, scanning, LockProgram.safe_bind, LockProgram.safe_lock,
      LockProgram.safe_access, LockProgram.safe_unlock, LockProgram.safe_goto]
    refine ⟨by simp, fun i c c' f' hf => ⟨by simp, ?_⟩⟩
    have hs : scanning f'.pc = false := by simpa [hpc] using (scanning_fetchStep hf).2
    simpa using (holds_fetchStep hf).2 hs
  | scan =>
    simp only [fetchBatch, hpc, scanning, NoThrowUniqueLock.construct, LockProgram.safe_bind,
      LockProgram.safe_lock, LockProgram.safe_access, LockProgram.safe_goto, LockProgram.safe_pure]
    refine ⟨by simp, fun i c c' f' hf => ?_⟩
    have hs : scanning f'.pc = true := by simpa [hpc] using (scanning_fetchStep hf).2
    simpa using (holds_fetchStep hf).1 hs
  | allocSpan =>
    simp only [fetchBatch, hpc, scanning, NoThrowUniqueLock.release, LockProgram.safe_bind,
      LockProgram.safe_unlock, LockProgram.safe_pure, Bool.not_true, Bool.false_eq_true, if_false]
    refine ⟨by simp, ?_⟩
    simp only [if_true, sdiff_self, Set.bot_eq_empty]
    refine allocSpan_safe fun env c c' f' hf => ?_
    have hs := (scanning_fetchStep hf).2
    simp only [hpc, reduceCtorEq, exists_const, false_or, true_and] at hs
    split
    next hp => simpa [NoThrowUniqueLock.relock] using (holds_fetchStep hf).1 (hs.mpr hp)
    next hp => exact (holds_fetchStep hf).2 (by simpa using mt hs.mp hp)
  | initSpan i =>
    simp only [fetchBatch, hpc, scanning, LockProgram.safe_bind, LockProgram.safe_access,
      LockProgram.safe_goto]
    intro i c c' f' hf
    have hs : scanning f'.pc = false := by simpa [hpc] using (scanning_fetchStep hf).2
    simpa using (holds_fetchStep hf).2 hs
  | install i =>
    simp only [fetchBatch, hpc, scanning, NoThrowUniqueLock.relock, Bool.false_eq_true, if_false,
      LockProgram.safe_bind, LockProgram.safe_lock, LockProgram.safe_access, LockProgram.safe_goto,
      LockProgram.safe_pure]
    refine ⟨by simp, fun i c c' f' hf => ?_⟩
    have hs : scanning f'.pc = true := by simpa [hpc] using (scanning_fetchStep hf).2
    simpa using (holds_fetchStep hf).1 hs
  | publish =>
    simp only [fetchBatch, hpc, scanning, NoThrowUniqueLock.release, LockProgram.safe_bind,
      LockProgram.safe_unlock, LockProgram.safe_pure, Bool.not_true, Bool.false_eq_true, if_false]
    refine ⟨by simp, ?_⟩
    simp only [if_true, sdiff_self, Set.bot_eq_empty]
    split
    · exact ⟨rfl, rfl, rfl⟩
    · simp only [LockProgram.safe_bind, LockProgram.safe_lock, LockProgram.safe_access,
        LockProgram.safe_unlock, LockProgram.safe_goto]
      refine ⟨by simp, fun i c c' f' hf => ⟨by simp, ?_⟩⟩
      have hs : scanning f'.pc = false := by simpa [hpc] using (scanning_fetchStep hf).2
      simpa using (holds_fetchStep hf).2 hs
  | rollback pc =>
    simp only [fetchBatch, hpc, scanning, LockProgram.safe_bind]
    refine releaseBatch_safe fun pc' => ⟨rfl, ?_, rfl⟩
    dsimp only
    split <;> rfl
  | done =>
    simp [fetchBatch, hpc, scanning, NoThrowUniqueLock.destroy]

/-- **`DrainTransferCaches`** is safe. -/
lemma drainTransferCaches_safe {hardened : Bool} {f : DrainFrame} :
    (drainTransferCaches hardened f false).Safe MayAttempt Holds (fun _ H => H = ∅) ∅ := by
  unfold drainTransferCaches
  split
  · rfl
  · split
    · simp [Holds]
    · simp [Holds]
  · split
    · simp [Holds]
    · simp [Holds]
  · rw [LockProgram.safe_bind]
    exact releaseBatch_safe fun pc' => ⟨rfl, rfl⟩

/-- **`ScavengeOnePass`** is safe. -/
lemma scavenging_safe {scav : PageCache.ScavPc} :
    (scavenging scav).Safe MayAttempt Holds (fun _ H => H = ∅) ∅ := by
  unfold scavenging
  split <;> simp [Holds]

/-- The code keeps to the lock order. -/
theorem verified (hardened : Bool) : (code hardened).Verified MayAttempt Holds where
  body f H h := by
    cases f with
    | fetchBatch f owns inner => exact fetchBatch_safe h
    | releaseBatch idx mode pc owns =>
      obtain ⟨rfl, rfl⟩ := h
      dsimp only [code, body]
      split
      · rfl
      · rw [LockProgram.safe_bind]
        exact releaseBatch_safe fun pc' => ⟨rfl, rfl⟩
    | drainTransferCaches f owns =>
      obtain ⟨rfl, rfl⟩ := h
      exact drainTransferCaches_safe
    | allocSpan pageNum =>
      obtain rfl := h
      dsimp only [code, body]
      rw [LockProgram.safe_bind]
      exact allocSpan_safe fun _ _ _ _ _ => rfl
    | releaseSpan span =>
      obtain rfl := h
      dsimp only [code, body]
      exact releaseSpan_safe (Q := fun _ H => H = ∅) fun _ _ _ _ _ => rfl
    | scavengeOnePass =>
      obtain rfl := h
      exact fun _ _ _ _ _ => rfl
    | scavenging scav =>
      obtain rfl := h
      exact scavenging_safe
  entry op := by
    cases op with
    | fetchBatch idx preferredCount =>
      refine ⟨rfl, ?_, by simp⟩
      dsimp only [FetchFrame.start]
      split <;> rfl
    | releaseBatch | drainTransferCaches => exact ⟨rfl, rfl⟩
    | allocSpan | releaseSpan | scavengeOnePass => rfl

/-- **The lock discipline**, in every interleaving of the six operations by any number of threads.
A thread that holds a bucket lock attempts no other lock, one that holds a shard mutex attempts at
most the structure mutex, and one that holds the structure mutex attempts none. A call that has
returned holds no lock. The fatal branches of `NoThrowUniqueLock` are not reached. No threads wait
for each other in a cycle. -/
theorem lock_discipline (hardened backed : Bool)
    (as : List (LockAction (PageEnv × Bool) Operation)) :
    let st := (machine hardened).run { shared := .create backed } as
    (∀ t l, st.Attempts t l →
      (∀ idx, transferCacheLock idx ∉ st.held t ∧ spanListLock idx ∉ st.held t) ∧
      (∀ shardId, shardMutex shardId ∈ st.held t → l = structureMutex) ∧
      structureMutex ∉ st.held t) ∧
    (∀ t, st.Returned t → st.held t = ∅) ∧
    (st.fatal = none ∧ ∀ t message, st.threads t ≠ .fatal message) ∧
    ∀ t, ¬ Relation.TransGen st.WaitsFor t t := by
  intro st
  have hinit : (machine hardened).Reachable { shared := .create backed } := by
    refine .init ⟨.create backed, ?_, rfl⟩
    cases backed <;> simp
  have hd : st.Disciplined MayAttempt Holds := (verified hardened).disciplined (hinit.run as)
  refine ⟨fun t l hl => ?_, fun t ht => hd.returned ht, ⟨hd.fatal, hd.not_fatal⟩,
    hd.no_cycle fun h l => rank_lt_of_mayAttempt⟩
  have hallowed := hd.attempts hl
  refine ⟨fun idx => ⟨fun hm => ?_, fun hm => ?_⟩, fun k hm => ?_, fun hm => ?_⟩
  · simpa [MayAttempt] using hallowed _ hm
  · simpa [MayAttempt] using hallowed _ hm
  · have := hallowed _ hm
    cases l <;> simp_all [MayAttempt]
  · simpa [MayAttempt] using hallowed _ hm

-- threads do wait: the scavenger for the shard mutex that an `AllocSpan` has taken
example : ((machine true).run { shared := .create true }
    [.call 0 (.allocSpan 1), .step 0 ({}, true), .step 0 ({}, true), .call 1 .scavengeOnePass,
      .step 1 ({}, true), .step 1 ({}, true), .step 1 ({}, true)]).WaitsFor 1 0 :=
  ⟨shardMutex 0, ⟨_, rfl⟩, rfl⟩

end Locking

end Ammalloc
