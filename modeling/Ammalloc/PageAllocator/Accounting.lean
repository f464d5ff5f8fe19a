import Ammalloc.PageAllocator.Program

set_option relaxedAutoImplicit false
set_option autoImplicit false

/-!
# The accounting of the page allocator

Any number of threads call `SystemAlloc` and `SystemFree`, interleaved at every access, and every
access is answered from outside: `mmap` may fail or return any range of the address space, the other
system calls may fail, and the cache of 2 MiB mappings may return anything. Every bump of a counter
belongs to one call, and along each path of a call the bumps balance. So they balance in total
whenever no call is in progress. The counters are `size_t` and wrap around.

## Main definitions

* `Ammalloc.PageAllocator.Request`, `Ammalloc.PageAllocator.threads` — the calls of the threads.
* `Ammalloc.PageAllocator.Balanced` — the identities for what was counted.
* `Ammalloc.PageAllocator.CountIdentities`, `Ammalloc.PageAllocator.BytesIdentity` — the identities
  for the values of the counters.

## Main results

* `Ammalloc.PageAllocator.systemAlloc_spends` — the bumps of one call of `SystemAlloc`.
* `Ammalloc.PageAllocator.accounting_identities` — the identities in `size_t`, and as numbers below
  `2 ^ 64`.
-/

namespace Ammalloc

namespace PageAllocator

open AccessProgram

/-! ## Calls of several threads -/

/-- A call. -/
inductive Request where
  | alloc (pageNum : ℕ)
  | free (ptr pageNum : ℕ)
  deriving DecidableEq, Repr

/-- What the call does; `SystemFree` returns nothing. -/
def Request.body : Request → Prog ℕ
  | alloc pageNum => Prog.systemAlloc pageNum
  | free ptr pageNum => do
    Prog.systemFree ptr pageNum
    pure 0

/-- An answer from outside, as far as the access looks at it. -/
structure Input where
  mmap : Except Errno ℕ := .error .other
  success : Bool := true
  ptr : ℕ := 0

/-- `mmap` returns a range of the address space, and not null; other answers are failures. -/
def Input.mapped (i : Input) (size : ℕ) : Except Errno ℕ :=
  match i.mmap with
  | .ok ptr => if 0 < ptr ∧ ptr + size ≤ 2 ^ 64 then .ok ptr else .error .other
  | .error e => .error e

/-- The answer to an access, and the counters after it. -/
def answer : (e : Access) → Input → PageAllocatorStats → e.Answer × PageAllocatorStats
  | .mmap size _, i, s => (i.mapped size, s)
  | .munmap _ _, i, s | .madvise _ _ _, i, s => (i.success, s)
  | .put _, i, s | .useMapPopulate, i, s => (i.success, s)
  | .get, i, s => (i.ptr, s)
  | .fetchAdd c n, _, s => ((), s.fetchAdd c n)

/-- `ResetStats`. -/
def resetStats (_ : PageAllocatorStats) : PageAllocatorStats := {}

/-- The calls of any number of threads since `ResetStats`. -/
def threads : Machine (CallSystem Request Access Access.Answer ℕ PageAllocatorStats)
    (CallAction Request Input) :=
  CallSystem.machine Request.body answer { s | ∃ s₀, s = resetStats s₀ }

/-! ## What the callers see -/

/-- The completed calls and what they returned. -/
abbrev Log := List (Request × ℕ)

/-- A request for memory that is neither empty nor too large for a size in bytes. -/
def Request.accepted : Request → Bool
  | alloc pageNum => decide (pageNum ≠ 0 ∧ pageNum ≤ sizeMax >>> pageShift)
  | free _ _ => false

/-- The bytes that a request returned to its caller. -/
def Request.bytes (ptr : ℕ) : Request → ℕ
  | alloc pageNum => if ptr = 0 then 0 else pageNum * pageSize
  | free _ _ => 0

namespace Log

/-- The number of accepted requests. -/
def accepted (log : Log) : ℕ := log.countP fun f => f.1.accepted

/-- The number of requests for 512 pages. -/
def hugeRequests (log : Log) : ℕ := log.countP fun f => decide (f.1 = .alloc 512)

/-- The number of accepted requests that returned null. -/
def nulls (log : Log) : ℕ := log.countP fun f => f.1.accepted && decide (f.2 = 0)

/-- All bytes that were returned to callers. -/
def bytesReturned (log : Log) : ℕ := (log.map fun f => f.1.bytes f.2).sum

end Log

/-! ## The identities -/

/-- The identities between the counts, up to `R`. -/
structure CountIdentities (R : ℤ → ℤ → Prop) (s : PageAllocatorStats) (log : Log) : Prop where
  normal : R s.normalAllocCount (s.normalAllocSuccess + s.normalAllocFailedCount)
  huge : R s.hugeAllocCount (s.hugeAllocSuccess + s.hugeAllocFailedCount)
  fallback : R s.hugeFallbackToNormalCount s.hugeAllocFailedCount
  cache : R (s.hugeCacheHitCount + s.hugeCacheMissCount) log.hugeRequests
  requests : R log.accepted
    (s.normalAllocCount - s.hugeFallbackToNormalCount + s.hugeAllocCount + s.hugeCacheHitCount)
  failed : R s.allocFailedCount log.nulls

/-- The identity for the bytes, up to `R`. -/
def BytesIdentity (R : ℤ → ℤ → Prop) (s : PageAllocatorStats) (log : Log) : Prop :=
  R (s.normalAllocBytes + s.hugeAllocBytes + hugePageSize * s.hugeCacheHitCount) log.bytesReturned

/-- **What was counted**, before it wraps, balances with what the callers see. -/
structure Balanced (m : Counter → ℕ) (log : Log) : Prop where
  normal : m .normalAllocCount = m .normalAllocSuccess + m .normalAllocFailedCount
  huge : m .hugeAllocCount = m .hugeAllocSuccess + m .hugeAllocFailedCount
  fallback : m .hugeFallbackToNormalCount = m .hugeAllocFailedCount
  /-- A request that falls back makes an allocation of normal pages. -/
  fallback_le : m .hugeFallbackToNormalCount ≤ m .normalAllocCount
  cache : m .hugeCacheHitCount + m .hugeCacheMissCount = log.hugeRequests
  requests : log.accepted + m .hugeFallbackToNormalCount =
    m .normalAllocCount + m .hugeAllocCount + m .hugeCacheHitCount
  failed : m .allocFailedCount = log.nulls
  bytes : m .normalAllocBytes + m .hugeAllocBytes + hugePageSize * m .hugeCacheHitCount =
    log.bytesReturned

/-- The counters of the identities. -/
def Counter.accounted : Counter → Bool
  | hugeAlignWasteBytes | freeCount | freeBytes | mmapEnomemCount | mmapOtherErrorCount
  | munmapFailedCount | madviseFailedCount => false
  | _ => true

/-- The values of the counters are what was counted, in `size_t`. -/
def Holds (m : Counter → ℕ) (s : PageAllocatorStats) : Prop :=
  ∀ c, c.accounted = true → s.load c = m c % 2 ^ 64

namespace Balanced

variable {m m' : Counter → ℕ} {log : Log} {s : PageAllocatorStats}

/-- Without a request there is no bump. -/
lemma nil : Balanced 0 [] := by
  constructor <;> rfl

/-- The books of one call and of the others add up. -/
lemma cons {f : Request × ℕ} (h : Balanced m [f]) (h' : Balanced m' log) :
    Balanced (m + m') (f :: log) := by
  have hhuge : Log.hugeRequests (f :: log) = Log.hugeRequests [f] + log.hugeRequests := by
    simp [Log.hugeRequests, List.countP_cons, add_comm]
  have haccepted : Log.accepted (f :: log) = Log.accepted [f] + log.accepted := by
    simp [Log.accepted, List.countP_cons, add_comm]
  have hnulls : Log.nulls (f :: log) = Log.nulls [f] + log.nulls := by
    simp [Log.nulls, List.countP_cons, add_comm]
  have hbytes : Log.bytesReturned (f :: log) = Log.bytesReturned [f] + log.bytesReturned := by
    simp [Log.bytesReturned]
  obtain ⟨h₁, h₂, h₃, h₄, h₅, h₆, h₇, h₈⟩ := h
  obtain ⟨h₁', h₂', h₃', h₄', h₅', h₆', h₇', h₈'⟩ := h'
  constructor <;> simp only [Pi.add_apply]
  · omega
  · omega
  · omega
  · omega
  · omega
  · omega
  · omega
  · rw [hbytes, ← h₈, ← h₈']
    ring

/-- **In `size_t`** the identities hold without a condition. -/
lemma modular (h : Balanced m log) (hs : Holds m s) :
    CountIdentities (Int.ModEq (2 ^ 64)) s log ∧ BytesIdentity (Int.ModEq (2 ^ 64)) s log := by
  have hmod : ∀ c, c.accounted = true → (s.load c : ℤ) ≡ m c [ZMOD 2 ^ 64] := by
    intro c hc
    rw [hs c hc]
    push_cast
    exact Int.mod_modEq _ _
  have hnc := hmod .normalAllocCount rfl
  have hfb := hmod .hugeFallbackToNormalCount rfl
  have hhc := hmod .hugeAllocCount rfl
  have hhit := hmod .hugeCacheHitCount rfl
  refine ⟨⟨?_, ?_, ?_, ?_, ?_, ?_⟩, ?_⟩
  · have hsum := (hmod .normalAllocSuccess rfl).add (hmod .normalAllocFailedCount rfl)
    exact hnc.trans (by rw [h.normal]; exact_mod_cast hsum.symm)
  · have hsum := (hmod .hugeAllocSuccess rfl).add (hmod .hugeAllocFailedCount rfl)
    exact hhc.trans (by rw [h.huge]; exact_mod_cast hsum.symm)
  · exact hfb.trans (by rw [h.fallback]; exact (hmod .hugeAllocFailedCount rfl).symm)
  · rw [← h.cache]
    exact_mod_cast hhit.add (hmod .hugeCacheMissCount rfl)
  · have hrequests : (log.accepted : ℤ) = m .normalAllocCount - m .hugeFallbackToNormalCount +
        m .hugeAllocCount + m .hugeCacheHitCount := by
      have := h.requests
      omega
    rw [hrequests]
    exact (((hnc.sub hfb).add hhc).add hhit).symm
  · rw [← h.failed]
    exact hmod .allocFailedCount rfl
  · unfold BytesIdentity
    rw [← h.bytes]
    push_cast
    exact ((hmod .normalAllocBytes rfl).add (hmod .hugeAllocBytes rfl)).add
      (hhit.mul_left _)

/-- **As numbers** the identities between the counts hold below `2 ^ 64` requests: no count is
larger than their number. -/
lemma exact_counts (h : Balanced m log) (hs : Holds m s) (hlog : log.accepted < 2 ^ 64) :
    CountIdentities Eq s log := by
  have hhuge : log.hugeRequests ≤ log.accepted := by
    refine List.countP_mono_left fun f _ hf => ?_
    rw [of_decide_eq_true hf]
    rfl
  have hnulls : log.nulls ≤ log.accepted :=
    List.countP_mono_left fun f _ hf => (Bool.and_eq_true_iff.mp hf).1
  obtain ⟨h₁, h₂, h₃, h₄, h₅, h₆, h₇, -⟩ := h
  have hexact : ∀ c, c.accounted = true → m c ≤ log.accepted → s.load c = m c := fun c hc hle =>
    (hs c hc).trans (Nat.mod_eq_of_lt (hle.trans_lt hlog))
  have hnc : s.normalAllocCount = _ := hexact .normalAllocCount rfl (by omega)
  have hns : s.normalAllocSuccess = _ := hexact .normalAllocSuccess rfl (by omega)
  have hnf : s.normalAllocFailedCount = _ := hexact .normalAllocFailedCount rfl (by omega)
  have hhc : s.hugeAllocCount = _ := hexact .hugeAllocCount rfl (by omega)
  have hhs : s.hugeAllocSuccess = _ := hexact .hugeAllocSuccess rfl (by omega)
  have hhf : s.hugeAllocFailedCount = _ := hexact .hugeAllocFailedCount rfl (by omega)
  have hfb : s.hugeFallbackToNormalCount = _ := hexact .hugeFallbackToNormalCount rfl (by omega)
  have hhit : s.hugeCacheHitCount = _ := hexact .hugeCacheHitCount rfl (by omega)
  have hmiss : s.hugeCacheMissCount = _ := hexact .hugeCacheMissCount rfl (by omega)
  have haf : s.allocFailedCount = _ := hexact .allocFailedCount rfl (by omega)
  constructor <;> omega

/-- **As a number** the identity for the bytes holds below `2 ^ 64` bytes. -/
lemma exact_bytes (h : Balanced m log) (hs : Holds m s) (hlog : log.bytesReturned < 2 ^ 64) :
    BytesIdentity Eq s log := by
  have hbytes := h.bytes
  have hhit : m .hugeCacheHitCount ≤ hugePageSize * m .hugeCacheHitCount :=
    Nat.le_mul_of_pos_left _ (by decide)
  have hexact : ∀ c, c.accounted = true → m c ≤ log.bytesReturned → s.load c = m c :=
    fun c hc hle => (hs c hc).trans (Nat.mod_eq_of_lt (hle.trans_lt hlog))
  have hnb : s.normalAllocBytes = _ := hexact .normalAllocBytes rfl (by omega)
  have hhb : s.hugeAllocBytes = _ := hexact .hugeAllocBytes rfl (by omega)
  have hht : s.hugeCacheHitCount = _ := hexact .hugeCacheHitCount rfl (by omega)
  unfold BytesIdentity
  rw [hnb, hhb, hht]
  exact_mod_cast hbytes

end Balanced

/-! ## The bumps of one call -/

/-- What an access adds to the counters of the identities. -/
def cost : (e : Access) → e.Answer → Counter → ℕ
  | .fetchAdd c n, _ => if c.accounted then Pi.single c n else 0
  | _, _ => 0

/-- The answers that `mmap` can give. -/
def Possible : (e : Access) → e.Answer → Prop
  | .mmap size _, r => ∀ ptr, r = .ok ptr → 0 < ptr ∧ ptr + size ≤ 2 ^ 64
  | _, _ => True

variable {α : Type} {c : Counter → ℕ} {ptr size n : ℕ}

section Accesses

variable {Q : Bool → (Counter → ℕ) → Prop}

/-- `mmap` bumps nothing, and returns an error or a range of the address space. -/
lemma spends_mmap {Q : Except Errno ℕ → (Counter → ℕ) → Prop} {populate : Bool} :
    (Prog.mmap size populate).Spends Possible cost Q c ↔
      ∀ r : Except Errno ℕ, (∀ ptr, r = .ok ptr → 0 < ptr ∧ ptr + size ≤ 2 ^ 64) → Q r c :=
  spends_perform

/-- `munmap` bumps nothing. -/
lemma spends_munmap : (Prog.munmap ptr size).Spends Possible cost Q c ↔ ∀ b, Q b c :=
  spends_perform.trans (forall_congr' fun _ => ⟨fun h => h trivial, fun h _ => h⟩)

/-- `madvise` bumps nothing. -/
lemma spends_madvise {advice : Advice} :
    (Prog.madvise ptr size advice).Spends Possible cost Q c ↔ ∀ b, Q b c :=
  spends_perform.trans (forall_congr' fun _ => ⟨fun h => h trivial, fun h _ => h⟩)

/-- `HugePageCache::Put` bumps nothing. -/
lemma spends_put : (Prog.put ptr).Spends Possible cost Q c ↔ ∀ b, Q b c :=
  spends_perform.trans (forall_congr' fun _ => ⟨fun h => h trivial, fun h _ => h⟩)

/-- The configuration bumps nothing. -/
lemma spends_useMapPopulate : Prog.useMapPopulate.Spends Possible cost Q c ↔ ∀ b, Q b c :=
  spends_perform.trans (forall_congr' fun _ => ⟨fun h => h trivial, fun h _ => h⟩)

/-- `HugePageCache::Get` bumps nothing. -/
lemma spends_get {Q : ℕ → (Counter → ℕ) → Prop} :
    Prog.get.Spends Possible cost Q c ↔ ∀ p, Q p c :=
  spends_perform.trans (forall_congr' fun _ => ⟨fun h => h trivial, fun h _ => h⟩)

/-- A counter of the identities is bumped, -/
lemma spends_count {Q : Unit → (Counter → ℕ) → Prop} {k : Counter} (hk : k.accounted = true) :
    (Prog.count k n).Spends Possible cost Q c ↔ Q () (c + Pi.single k n) := by
  have hcost : cost (.fetchAdd k n) () = Pi.single k n := if_pos hk
  refine ⟨fun h => hcost ▸ h () trivial, fun h _ _ => ?_⟩
  exact hcost.symm ▸ h

/-- or another one. -/
lemma spends_count_other {Q : Unit → (Counter → ℕ) → Prop} {k : Counter}
    (hk : k.accounted = false) :
    (Prog.count k n).Spends Possible cost Q c ↔ Q () c := by
  have hcost : c + cost (.fetchAdd k n) () = c := by
    show c + (if k.accounted = true then Pi.single k n else 0) = c
    rw [hk]
    rfl
  refine ⟨fun h => ?_, fun h _ _ => ?_⟩
  · have h' : Q () (c + cost (.fetchAdd k n) ()) := h () trivial
    rwa [hcost] at h'
  · show Q () (c + cost (.fetchAdd k n) ())
    rwa [hcost]

end Accesses

/-! ### Functions that bump none of the counters of the identities -/

/-- `SafeMunmap` bumps no accounted counter. -/
lemma safeMunmap_spends :
    (Prog.safeMunmap ptr size).Spends Possible cost (fun _ c' => c' = c) c := by
  unfold Prog.safeMunmap
  split
  · rfl
  · rw [spends_bind, spends_munmap]
    rintro (_ | _)
    · exact (spends_bind _ _).mpr ((spends_count_other rfl).mpr rfl)
    · rfl

/-- `SafeMunmap` with its result ignored bumps no accounted counter. -/
lemma unmap_spends : (Prog.unmap ptr size).Spends Possible cost (fun _ c' => c' = c) c :=
  (spends_bind _ _).mpr (safeMunmap_spends.mono fun _ _ h => h)

/-- The loop of `AllocWithRetry` returns null or a range of the address space. -/
lemma retryLoop_spends (retries : ℕ) (populate : Bool) :
    (Prog.retryLoop retries size populate).Spends Possible cost
      (fun p c' => c' = c ∧ (p ≠ 0 → p + size ≤ 2 ^ 64)) c := by
  induction retries with
  | zero => exact ⟨rfl, fun h => absurd rfl h⟩
  | succ retries ih =>
    unfold Prog.retryLoop
    rw [spends_bind, spends_mmap]
    rintro ((_ | _) | p) hr
    · exact (spends_bind _ _).mpr ((spends_count_other rfl).mpr ih)
    · exact (spends_bind _ _).mpr ((spends_count_other rfl).mpr ⟨rfl, fun h => absurd rfl h⟩)
    · exact ⟨rfl, fun _ => (hr p rfl).2⟩

/-- A hint bumps no accounted counter. -/
lemma hint_spends {advice : Advice} :
    (Prog.hint ptr size advice).Spends Possible cost (fun _ c' => c' = c) c := by
  unfold Prog.hint
  rw [spends_bind, spends_madvise]
  rintro (_ | _)
  · exact (spends_count_other rfl).mpr rfl
  · rfl

/-- `ApplyHugePageHint` bumps no accounted counter. -/
lemma applyHugePageHint_spends :
    (Prog.applyHugePageHint ptr size).Spends Possible cost (fun _ c' => c' = c) c := by
  unfold Prog.applyHugePageHint
  rw [spends_bind]
  refine hint_spends.mono ?_
  rintro _ _ rfl
  rw [spends_bind, spends_useMapPopulate]
  rintro (_ | _)
  · rfl
  · exact hint_spends

/-- `CleanupRemainingMappings` bumps no accounted counter. -/
lemma cleanupRemainingMappings_spends {f : TrimParts}
    {headMapped tailMapped skipHead skipTail : Bool} :
    (Prog.cleanupRemainingMappings f headMapped tailMapped skipHead skipTail).Spends Possible cost
      (fun _ c' => c' = c) c := by
  have hif : ∀ {b : Bool} {p n : ℕ},
      (Prog.unmapIf b p n).Spends Possible cost (fun _ c' => c' = c) c := by
    rintro (_ | _) p n
    · rfl
    · exact unmap_spends
  unfold Prog.cleanupRemainingMappings
  rw [spends_bind]
  refine unmap_spends.mono ?_
  rintro _ _ rfl
  rw [spends_bind]
  refine hif.mono ?_
  rintro _ _ rfl
  exact hif

/-- `SystemFree` bumps no accounted counter. -/
lemma systemFree_spends :
    (Prog.systemFree ptr n).Spends Possible cost (fun _ c' => c' = c) c := by
  unfold Prog.systemFree
  split
  · rfl
  split
  · rfl
  rw [spends_bind, spends_count_other rfl, spends_bind, spends_count_other rfl]
  split
  · rw [spends_bind, spends_madvise]
    rintro (_ | _)
    · exact (spends_bind _ _).mpr ((spends_count_other rfl).mpr unmap_spends)
    · refine (spends_bind _ _).mpr (spends_put.mpr ?_)
      rintro (_ | _)
      · exact unmap_spends
      · rfl
  · exact unmap_spends

/-! ### Allocation -/

/-- The bumps of `AllocNormalPage`. -/
def normalCost (size ptr : ℕ) : Counter → ℕ :=
  Pi.single .normalAllocCount 1 +
    if ptr = 0 then Pi.single .normalAllocFailedCount 1
    else Pi.single .normalAllocSuccess 1 + Pi.single .normalAllocBytes size

/-- The bumps of `AllocHugePage` after the first. -/
def hugeOutcome (size ptr : ℕ) : Counter → ℕ :=
  if ptr = 0 then Pi.single .hugeAllocFailedCount 1
  else Pi.single .hugeAllocSuccess 1 + Pi.single .hugeAllocBytes size

/-- `AllocNormalPage` bumps what its outcome says. -/
lemma allocNormalPage_spends :
    (Prog.allocNormalPage size).Spends Possible cost
      (fun p c' => c' = c + normalCost size p) c := by
  unfold Prog.allocNormalPage
  rw [spends_bind, spends_count rfl, spends_bind, spends_useMapPopulate]
  intro populate
  rw [spends_bind]
  refine (retryLoop_spends _ _).mono ?_
  rintro p _ ⟨rfl, -⟩
  split
  next hp =>
    rw [spends_bind, spends_count rfl, spends_pure, normalCost, if_pos rfl, add_assoc]
  next hp =>
    rw [spends_bind, spends_count rfl, spends_bind, spends_count rfl, spends_pure, normalCost,
      if_neg hp, add_assoc, add_assoc]

/-- A failed `AllocHugePage` bumps what its outcome says. -/
lemma hugeAllocFailed_spends : Prog.hugeAllocFailed.Spends Possible cost
    (fun p c' => c' = c + hugeOutcome size p) c :=
  (spends_bind _ _).mpr ((spends_count rfl).mpr rfl)

/-- An `AllocHugePage` that succeeds bumps what its outcome says. -/
lemma hugeAllocDone_spends (hp : ptr ≠ 0) : (Prog.hugeAllocDone ptr size).Spends Possible cost
    (fun p c' => c' = c + hugeOutcome size p) c := by
  unfold Prog.hugeAllocDone
  rw [spends_bind]
  refine applyHugePageHint_spends.mono ?_
  rintro _ _ rfl
  rw [spends_bind, spends_count rfl, spends_bind, spends_count rfl, spends_pure, hugeOutcome,
    if_neg hp, add_assoc]

/-- The unmapping of a gap bumps no accounted counter. -/
lemma trim_spends {gap : ℕ} :
    (Prog.trim ptr gap).Spends Possible cost (fun _ c' => c' = c) c := by
  unfold Prog.trim
  split
  · exact safeMunmap_spends
  · rfl

/-- The trim from the tail on bumps what its outcome says. -/
lemma trimTail_spends {f : TrimParts} (hbody : f.bodyPtr ≠ 0) :
    (Prog.trimTail f).Spends Possible cost (fun p c' => c' = c + hugeOutcome f.size p) c := by
  unfold Prog.trimTail
  rw [spends_bind]
  refine trim_spends.mono ?_
  rintro (_ | _) _ rfl
  · refine (spends_bind _ _).mpr (cleanupRemainingMappings_spends.mono ?_)
    rintro _ _ rfl
    exact hugeAllocFailed_spends
  · exact (spends_bind _ _).mpr ((spends_count_other rfl).mpr (hugeAllocDone_spends hbody))

/-- The trim of an over-allocated mapping bumps what its outcome says. -/
lemma trimHead_spends {f : TrimParts} (hbody : f.bodyPtr ≠ 0) :
    (Prog.trimHead f).Spends Possible cost (fun p c' => c' = c + hugeOutcome f.size p) c := by
  unfold Prog.trimHead
  rw [spends_bind]
  refine trim_spends.mono ?_
  rintro (_ | _) _ rfl
  · refine (spends_bind _ _).mpr (cleanupRemainingMappings_spends.mono ?_)
    rintro _ _ rfl
    exact hugeAllocFailed_spends
  · exact trimTail_spends hbody

/-- The second attempt of `AllocHugePage` fails once or succeeds once, on each of its paths. -/
lemma allocHugePageWithTrim_spends (hpos : 0 < size) :
    (Prog.allocHugePageWithTrim size).Spends Possible cost
      (fun p c' => c' = c + hugeOutcome size p) c := by
  unfold Prog.allocHugePageWithTrim
  split
  · exact hugeAllocFailed_spends
  next hle =>
    have hsum : size + hugePageSize < 2 ^ 64 := by
      unfold sizeMax hugePageSize at *
      omega
    rw [addU64_of_lt hsum, spends_bind]
    refine (retryLoop_spends _ _).mono ?_
    rintro raw _ ⟨rfl, hend⟩
    split
    · exact hugeAllocFailed_spends
    next hraw =>
      have hrange := hend hraw
      have hbody : (Prog.trimParts raw (size + hugePageSize) size).bodyPtr ≠ 0 :=
        (trimParts_bodyPtr_pos (by omega) (by omega) _ _).ne'
      exact trimHead_spends hbody

/-- **`AllocHugePage`** counts itself and one outcome. -/
lemma allocHugePage_spends (hpos : 0 < size) : (Prog.allocHugePage size).Spends Possible cost
    (fun p c' => c' = c + (Pi.single .hugeAllocCount 1 + hugeOutcome size p)) c := by
  unfold Prog.allocHugePage
  rw [spends_bind, spends_count rfl, spends_bind]
  simp only [← add_assoc]
  refine (retryLoop_spends _ _).mono ?_
  rintro p _ ⟨rfl, -⟩
  split
  · exact hugeAllocFailed_spends
  next hp =>
    split
    · exact hugeAllocDone_spends hp
    · refine (spends_bind _ _).mpr (unmap_spends.mono ?_)
      rintro _ _ rfl
      exact allocHugePageWithTrim_spends hpos

/-- The bump of a failed call. -/
def failureCost (ptr : ℕ) : Counter → ℕ := if ptr = 0 then Pi.single .allocFailedCount 1 else 0

/-- Normal pages: what their outcome says, and a failure if there are none. -/
lemma allocNormalOrFail_spends : (Prog.allocNormalOrFail size).Spends Possible cost
    (fun p c' => c' = c + (normalCost size p + failureCost p)) c := by
  unfold Prog.allocNormalOrFail
  rw [spends_bind]
  refine allocNormalPage_spends.mono ?_
  rintro p _ rfl
  split
  next hp =>
    rw [spends_bind, spends_count rfl, spends_pure, hp, failureCost, if_pos rfl, add_assoc]
  next hp =>
    rw [spends_pure, failureCost, if_neg hp, add_zero]

/-- The bumps of a request of at least 1 MiB that is not served from the cache: it succeeds with
huge pages, or it falls back. -/
def LargeCost (size ptr : ℕ) (m : Counter → ℕ) : Prop :=
  ptr ≠ 0 ∧ m = Pi.single .hugeAllocCount 1 + hugeOutcome size ptr ∨
    m = Pi.single .hugeAllocCount 1 + hugeOutcome size 0 + Pi.single .hugeFallbackToNormalCount 1 +
      (normalCost size ptr + failureCost ptr)

/-- Huge pages, or the fallback: one of the sums that `LargeCost` allows. -/
lemma allocHugeOrNormal_spends (hpos : 0 < size) :
    (Prog.allocHugeOrNormal size).Spends Possible cost
      (fun p c' => ∃ m, LargeCost size p m ∧ c' = c + m) c := by
  unfold Prog.allocHugeOrNormal
  rw [spends_bind]
  refine (allocHugePage_spends hpos).mono ?_
  rintro p _ rfl
  split
  next hp =>
    rw [spends_bind, spends_count rfl]
    refine allocNormalOrFail_spends.mono ?_
    rintro q _ rfl
    refine ⟨_, Or.inr rfl, ?_⟩
    rw [hp]
    simp only [add_assoc]
  next hp => exact ⟨_, Or.inl ⟨hp, rfl⟩, rfl⟩

/-! ### The books of one call -/

/-- The identities for one accepted request: its caller sees whether it asked for 512 pages and
whether it got its pages. -/
lemma Balanced.single {p : ℕ} {m : Counter → ℕ} (hacc : (Request.alloc n).accepted = true)
    (hnormal : m .normalAllocCount = m .normalAllocSuccess + m .normalAllocFailedCount)
    (hhuge : m .hugeAllocCount = m .hugeAllocSuccess + m .hugeAllocFailedCount)
    (hfallback : m .hugeFallbackToNormalCount = m .hugeAllocFailedCount)
    (hle : m .hugeFallbackToNormalCount ≤ m .normalAllocCount)
    (hcache : m .hugeCacheHitCount + m .hugeCacheMissCount = if n = 512 then 1 else 0)
    (hrequests : 1 + m .hugeFallbackToNormalCount =
      m .normalAllocCount + m .hugeAllocCount + m .hugeCacheHitCount)
    (hfailed : m .allocFailedCount = if p = 0 then 1 else 0)
    (hbytes : m .normalAllocBytes + m .hugeAllocBytes + hugePageSize * m .hugeCacheHitCount =
      if p = 0 then 0 else n * pageSize) : Balanced m [(.alloc n, p)] where
  normal := hnormal
  huge := hhuge
  fallback := hfallback
  fallback_le := hle
  cache := by simpa [Log.hugeRequests, List.countP_singleton] using hcache
  requests := by simpa [Log.accepted, hacc] using hrequests
  failed := by simpa [Log.nulls, List.countP_singleton, hacc] using hfailed
  bytes := by simpa [Log.bytesReturned, Request.bytes] using hbytes

/-- A request below 1 MiB. -/
lemma balanced_normal {p : ℕ} (hacc : (Request.alloc n).accepted = true) (hn : n ≠ 512) :
    Balanced (normalCost (n * pageSize) p + failureCost p) [(.alloc n, p)] := by
  by_cases hp : p = 0
  · apply Balanced.single hacc <;> simp [hn, hp, normalCost, failureCost]
  · apply Balanced.single hacc <;> simp [hn, hp, normalCost, failureCost]

/-- A larger request, with what the test of the cache has counted before. -/
lemma balanced_large {p : ℕ} {m : Counter → ℕ} (hacc : (Request.alloc n).accepted = true)
    (hm : LargeCost (n * pageSize) p m) :
    Balanced ((if n = 512 then Pi.single .hugeCacheMissCount 1 else 0) + m) [(.alloc n, p)] := by
  rcases hm with ⟨hp, rfl⟩ | rfl
  · by_cases hn : n = 512
    · apply Balanced.single hacc <;> simp [hn, hp, hugeOutcome]
    · apply Balanced.single hacc <;> simp [hn, hp, hugeOutcome]
  · by_cases hn : n = 512 <;> by_cases hp : p = 0
    all_goals
      apply Balanced.single hacc <;> simp [hn, hp, hugeOutcome, normalCost, failureCost]

/-- A request that is served from the cache. -/
lemma balanced_hit {p : ℕ} (hp : p ≠ 0) :
    Balanced (Pi.single .hugeCacheHitCount 1) [(.alloc 512, p)] := by
  apply Balanced.single rfl <;> simp [hp]
  rfl

/-- **`SystemAlloc`**: on every path the bumps of a call balance with what its caller sees.

**Proof sketch.** A rejected request bumps nothing. A small one makes one allocation of normal
pages. A larger one is a hit, or one allocation of huge pages, which fails exactly if it falls back.
-/
lemma systemAlloc_spends : (Prog.systemAlloc n).Spends Possible cost
    (fun p m => Balanced m [(.alloc n, p)]) 0 := by
  have hrejected : (Request.alloc n).accepted = false → Balanced 0 [(.alloc n, 0)] := by
    intro hrej
    have hn : n ≠ 512 := by
      rintro rfl
      cases hrej
    constructor <;>
      simp [Log.hugeRequests, Log.accepted, Log.nulls, Log.bytesReturned, Request.bytes, hrej, hn]
  unfold Prog.systemAlloc
  split
  next hzero => exact hrejected (by simp [Request.accepted, hzero])
  next hzero =>
  split
  next hmax => exact hrejected (by simp [Request.accepted]; omega)
  next hmax =>
  have hacc : (Request.alloc n).accepted = true := by
    simp [Request.accepted]
    omega
  have hbytes : ({} : PageAllocator).byteSize n = (n * pageSize, {}) := byteSize_eq hmax
  have hsize : n <<< pageShift % 2 ^ 64 = n * pageSize := congrArg Prod.fst hbytes
  have hpos : 0 < n * pageSize := Nat.mul_pos (by omega) (by decide)
  have hhuge : n * pageSize = hugePageSize ↔ n = 512 := by
    unfold pageSize hugePageSize
    omega
  rw [hsize]
  simp only
  split
  next hsmall =>
    refine allocNormalOrFail_spends.mono ?_
    rintro p _ rfl
    rw [zero_add]
    refine balanced_normal hacc ?_
    rintro rfl
    exact absurd hsmall (by decide)
  next hsmall =>
  split
  next heq =>
    have hn : n = 512 := hhuge.mp heq
    rw [spends_bind, spends_get]
    intro p
    split
    next hhit =>
      rw [spends_bind, spends_count rfl, spends_pure, zero_add, hn]
      exact balanced_hit hhit.1
    next hmiss =>
      rw [spends_bind, spends_count rfl]
      refine (allocHugeOrNormal_spends hpos).mono ?_
      rintro q _ ⟨m, hm, rfl⟩
      have hbal := balanced_large hacc hm
      rwa [if_pos hn, ← zero_add (Pi.single _ _)] at hbal
  next hne =>
    have hn : n ≠ 512 := fun h => hne (hhuge.mpr h)
    refine (allocHugeOrNormal_spends hpos).mono ?_
    rintro q _ ⟨m, hm, rfl⟩
    have hbal := balanced_large hacc hm
    rwa [if_neg hn] at hbal

/-- The bumps of a call balance with what its caller sees. -/
lemma body_spends (r : Request) :
    r.body.Spends Possible cost (fun p m => Balanced m [(r, p)]) 0 := by
  cases r with
  | alloc n => exact systemAlloc_spends
  | free ptr n =>
    refine (spends_bind _ _).mpr (systemFree_spends.mono ?_)
    rintro _ _ rfl
    constructor <;> rfl

/-! ## The identities -/

/-- The answers from outside are possible. -/
lemma answer_possible (e : Access) (i : Input) (s : PageAllocatorStats) :
    Possible e (answer e i s).1 := by
  cases e with
  | mmap size populate =>
    intro ptr hptr
    change i.mapped size = .ok ptr at hptr
    unfold Input.mapped at hptr
    split at hptr
    · split at hptr
      next hrange =>
        cases hptr
        exact hrange
      next => cases hptr
    · cases hptr
  | _ => trivial

/-- A bump changes the value of its counter in `size_t`. -/
lemma Holds.answer {m : Counter → ℕ} {s : PageAllocatorStats} (h : Holds m s) (e : Access)
    (i : Input) : Holds (m + cost e (answer e i s).1) (answer e i s).2 := by
  cases e with
  | fetchAdd k n =>
    intro c hc
    have hcost : cost (.fetchAdd k n) () = if k.accounted = true then Pi.single k n else 0 := rfl
    show (s.fetchAdd k n).load c = (m + cost (.fetchAdd k n) ()) c % 2 ^ 64
    rw [PageAllocatorStats.load_fetchAdd, hcost, Pi.add_apply]
    by_cases hck : c = k
    · subst hck
      rw [if_pos rfl, if_pos hc, Pi.single_eq_same, h c hc, addU64, Nat.mod_add_mod]
    · have hzero : (if k.accounted = true then Pi.single k n else 0 : Counter → ℕ) c = 0 := by
        split
        · exact Pi.single_eq_of_ne (M := fun _ => ℕ) hck n
        · rfl
      rw [if_neg hck, hzero, Nat.add_zero]
      exact h c hc
  | _ => exact h

/-- The books of all completed calls balance. -/
lemma Balanced.of_forall₂ {log : Log} {costs : List (Counter → ℕ)}
    (h : List.Forall₂ (fun f m => Balanced m [(f.1, f.2)]) log costs) : Balanced costs.sum log := by
  induction h with
  | nil => exact Balanced.nil
  | cons hf _ ih =>
    rw [List.sum_cons]
    exact hf.cons ih

/-- **The accounting identities.** Whenever no call is in progress, after any interleaving of calls
of `SystemAlloc` and `SystemFree` since `ResetStats` and whatever the kernel and the cache have
answered, the counters satisfy the identities in `size_t`. They satisfy those between the counts as
numbers as long as fewer than `2 ^ 64` requests have been accepted, and that for the bytes as long
as fewer than `2 ^ 64` bytes have been returned. -/
theorem accounting_identities (s₀ : PageAllocatorStats) (as : List (CallAction Request Input))
    (st : CallSystem Request Access Access.Answer ℕ PageAllocatorStats)
    (hst : st = threads.run { shared := resetStats s₀ } as) (hquiet : st.Quiet) :
    CountIdentities (Int.ModEq (2 ^ 64)) st.shared st.finished ∧
      BytesIdentity (Int.ModEq (2 ^ 64)) st.shared st.finished ∧
      (Log.accepted st.finished < 2 ^ 64 → CountIdentities Eq st.shared st.finished) ∧
      (Log.bytesReturned st.finished < 2 ^ 64 → BytesIdentity Eq st.shared st.finished) := by
  subst hst
  have hzero : Holds 0 (resetStats s₀) := by
    intro c _
    cases c <;> rfl
  have htotal : ∀ e i s m, Holds m s → Holds (m + cost e (answer e i s).1) (answer e i s).2 :=
    fun e i _ _ h => h.answer e i
  obtain ⟨costs, hcosts, hholds⟩ :=
    CallSystem.finished_accounts body_spends answer_possible htotal hzero _ as hquiet
  have hbal := Balanced.of_forall₂ hcosts
  obtain ⟨hcounts, hbytes⟩ := hbal.modular hholds
  exact ⟨hcounts, hbytes, hbal.exact_counts hholds, hbal.exact_bytes hholds⟩

/-- A request for 512 pages misses the cache and falls back, while another thread gets one page. -/
theorem accounting_identities_twoThreads :
    ∃ st, st = threads.run { shared := resetStats { freeCount := 3 } }
        ([.call 0 (.alloc 512), .step 0 {}, .step 0 {}, .call 1 (.alloc 1), .step 0 {},
            .step 1 {}] ++
          List.replicate 5 (.step 0 {}) ++ List.replicate 6 (.step 1 { mmap := .ok 4096 }) ++
          List.replicate 8 (.step 0 { mmap := .ok 8192 })) ∧
      Log.accepted st.finished = 2 ∧ st.shared.hugeFallbackToNormalCount = 1 ∧
      CountIdentities Eq st.shared st.finished := by
  refine ⟨_, rfl, ?_, ?_, (accounting_identities { freeCount := 3 } _ _ rfl ?_).2.2.1 ?_⟩
  · decide
  · decide
  · rintro (_ | _ | t) <;> rfl
  · decide

/-! ### Wrapping -/

/-- `mmap` succeeds at 1 TiB, and so does every other system call. -/
def atOneTiB : Input := { mmap := .ok (2 ^ 40) }

/-- A call that runs alone, with these answers. -/
lemma run_call (s : PageAllocatorStats) (log : Log) (r : Request) :
    ∃ as, threads.run { shared := s, finished := log } as =
      { shared := (r.body.exec (fun e => answer e atOneTiB) s).2
        finished := log ++ [(r, (r.body.exec (fun e => answer e atOneTiB) s).1)] } := by
  have hidle : ({ shared := s, finished := log } :
      CallSystem Request Access Access.Answer ℕ PageAllocatorStats).running 0 = none := rfl
  exact CallSystem.run_alone _ hidle r atOneTiB

/-- A thread gets 64 TiB and frees them. -/
lemma run_round (s : PageAllocatorStats) (log : Log) :
    ∃ as, threads.run { shared := s, finished := log } as =
      { shared := { s with
          hugeAllocCount := addU64 s.hugeAllocCount 1
          hugeAllocSuccess := addU64 s.hugeAllocSuccess 1
          hugeAllocBytes := addU64 s.hugeAllocBytes (2 ^ 46)
          freeCount := addU64 s.freeCount 1
          freeBytes := addU64 s.freeBytes (2 ^ 46) }
        finished := log ++ [(.alloc (2 ^ 34), 2 ^ 40)] ++ [(.free (2 ^ 40) (2 ^ 34), 0)] } := by
  obtain ⟨as, has⟩ := run_call s log (.alloc (2 ^ 34))
  have halloc : (Request.alloc (2 ^ 34)).body.exec (fun e => answer e atOneTiB) s =
      (2 ^ 40, { s with
        hugeAllocCount := addU64 s.hugeAllocCount 1
        hugeAllocSuccess := addU64 s.hugeAllocSuccess 1
        hugeAllocBytes := addU64 s.hugeAllocBytes (2 ^ 46) }) := rfl
  rw [halloc] at has
  obtain ⟨bs, hbs⟩ := run_call _ _ (.free (2 ^ 40) (2 ^ 34))
  refine ⟨as ++ bs, ?_⟩
  rw [Machine.run_append, has, hbs]
  rfl

/-- Rounds of 64 TiB: nothing but huge pages is counted as returned. -/
lemma run_rounds (k : ℕ) : ∃ as s log,
    threads.run { shared := resetStats {} } as = { shared := s, finished := log } ∧
      s.hugeAllocBytes = k * 2 ^ 46 % 2 ^ 64 ∧ s.normalAllocBytes = 0 ∧ s.hugeCacheHitCount = 0 ∧
      Log.bytesReturned log = k * 2 ^ 46 := by
  induction k with
  | zero => exact ⟨[], resetStats {}, [], rfl, rfl, rfl, rfl, rfl⟩
  | succ k ih =>
    obtain ⟨as, s, log, hrun, hhuge, hnormal, hhit, hlog⟩ := ih
    obtain ⟨bs, hbs⟩ := run_round s log
    have hsplit : threads.run { shared := resetStats {} } (as ++ bs) =
        threads.run { shared := s, finished := log } bs := by
      rw [Machine.run_append, hrun]
    refine ⟨as ++ bs, _, _, hsplit.trans hbs, ?_, hnormal, hhit, ?_⟩
    · show addU64 s.hugeAllocBytes (2 ^ 46) = _
      rw [hhuge, addU64, Nat.mod_add_mod, Nat.succ_mul]
    · have hround : Request.bytes (2 ^ 40) (.alloc (2 ^ 34)) = 2 ^ 46 := rfl
      have hfree : Request.bytes 0 (.free (2 ^ 40) (2 ^ 34)) = 0 := rfl
      unfold Log.bytesReturned at hlog ⊢
      rw [List.map_append, List.sum_append, List.map_append, List.sum_append, hlog, Nat.succ_mul]
      simp only [List.map_cons, List.map_nil, List.sum_singleton, hround, hfree, Nat.add_zero]

/-- **The number of bytes wraps**: after `2 ^ 18` requests of 64 TiB, each freed before the next,
the callers have got `2 ^ 64` bytes, and the counters say none. -/
theorem not_bytesIdentity_rounds : ∃ as st, st = threads.run { shared := resetStats {} } as ∧
    st.Quiet ∧ Log.bytesReturned st.finished = 2 ^ 64 ∧
    ¬ BytesIdentity Eq st.shared st.finished := by
  obtain ⟨as, s, log, hrun, hhuge, hnormal, hhit, hlog⟩ := run_rounds (2 ^ 18)
  have htotal : Log.bytesReturned log = 2 ^ 64 := by
    rw [hlog]
    norm_num
  refine ⟨as, _, rfl, ?_, ?_, ?_⟩
  · rw [hrun]
    exact fun _ => rfl
  · rw [hrun]
    exact htotal
  · have hwrapped : s.hugeAllocBytes = 0 := by
      rw [hhuge]
      norm_num
    rw [hrun]
    intro h
    unfold BytesIdentity at h
    rw [hwrapped, hnormal, hhit, htotal] at h
    have hnat : 0 + 0 + hugePageSize * 0 = 2 ^ 64 := by exact_mod_cast h
    omega

end PageAllocator

end Ammalloc
