import Ammalloc.SizeClass

set_option relaxedAutoImplicit false
set_option autoImplicit false

/-!
# Free lists and their quota

`FreeList` of `include/ammalloc/free_list.h`, with its intrusive chain as a list of object
addresses (front first), and the quota rules of `quota_policy` in `src/thread_cache.cpp`.
A batch (`ObjectBatch`) is the list of its objects together with their size class.

## Main definitions

* `Ammalloc.FreeList`, with `push`, `pop`, `pushBatch`, `popBatch`, `popBatchTail`.
* `Ammalloc.QuotaPolicy.nextAfterRefill`, `Ammalloc.QuotaPolicy.nextAfterOverflow`.

## Main results

* `Ammalloc.QuotaPolicy.nextAfterRefill_bounds`, `Ammalloc.QuotaPolicy.nextAfterOverflow_bounds`
  — the rules stay between one object and `kMaxQuotaBatches` batches.
-/

namespace Ammalloc

/-- `enum class CentralReleaseMode`: how a batch is delivered to the CentralCache. -/
inductive CentralReleaseMode where
  | kTransferCache
  | kSpanBitmap
  deriving DecidableEq, Repr

/-- `class FreeList`. -/
structure FreeList where
  objs : List ℕ := []
  maxSize : ℕ := 1
  overages : ℕ := 0
  deriving DecidableEq, Repr

namespace FreeList

/-- `FreeList::size`. -/
def size (l : FreeList) : ℕ := l.objs.length

/-- `FreeList::set_max_size`; a quota is at least one. -/
def setMaxSize (l : FreeList) (n : ℕ) : FreeList := { l with maxSize := max n 1 }

/-- `FreeList::set_overages`. -/
def setOverages (l : FreeList) (n : ℕ) : FreeList := { l with overages := n }

/-- `FreeList::Push`. -/
def push (l : FreeList) (ptr : ℕ) : FreeList := { l with objs := ptr :: l.objs }

/-- `FreeList::Pop`. -/
def pop (l : FreeList) : Option ℕ × FreeList :=
  match l.objs with
  | [] => (none, l)
  | ptr :: rest => (some ptr, { l with objs := rest })

/-- `FreeList::PushBatch`. -/
def pushBatch (l : FreeList) (batch : List ℕ) : FreeList := { l with objs := batch ++ l.objs }

/-- `FreeList::PopBatch`: the newest objects. -/
def popBatch (l : FreeList) (n : ℕ) : List ℕ × FreeList :=
  (l.objs.take n, { l with objs := l.objs.drop n })

/-- `FreeList::PopBatchTail`: the oldest objects. -/
def popBatchTail (l : FreeList) (n : ℕ) : List ℕ × FreeList :=
  let keep := l.size - min n l.size
  (l.objs.drop keep, { l with objs := l.objs.take keep })

/-- A tail pop cuts the list in two. -/
lemma popBatchTail_append (l : FreeList) (n : ℕ) :
    (l.popBatchTail n).2.objs ++ (l.popBatchTail n).1 = l.objs :=
  List.take_append_drop _ _

/-- `PopBatchTail(n)` leaves all but the last `n` objects. -/
lemma size_popBatchTail (l : FreeList) (n : ℕ) :
    (l.popBatchTail n).2.size = l.size - min n l.size := by
  simp only [popBatchTail, size, List.length_take]
  omega

/-- `PopBatchTail(n)` takes `n` objects, or all if there are fewer. -/
lemma length_popBatchTail (l : FreeList) (n : ℕ) :
    (l.popBatchTail n).1.length = min n l.size := by
  simp only [popBatchTail, size, List.length_drop]
  omega

end FreeList

/-! ## The quota rules -/

namespace QuotaPolicy

/-- `quota_policy::kMaxOverages`. -/
def kMaxOverages : ℕ := 3

/-- `quota_policy::kMaxQuotaBatches`. -/
def kMaxQuotaBatches : ℕ := 8

/-- `quota_policy::NextAfterRefill`. -/
def nextAfterRefill (curMaxSize batch : ℕ) : ℕ :=
  if curMaxSize < batch then min batch (curMaxSize + max 1 curMaxSize)
  else if curMaxSize < batch * kMaxQuotaBatches then
    min (batch * kMaxQuotaBatches) (curMaxSize + max 1 (batch / kMaxQuotaBatches))
  else curMaxSize

/-- `quota_policy::NextAfterOverflow`: the next `max_size` and `overages`. -/
def nextAfterOverflow (curMaxSize batch overages : ℕ) : ℕ × ℕ :=
  if curMaxSize ≤ batch then (curMaxSize, 0)
  else if overages + 1 ≥ kMaxOverages then (max (curMaxSize - batch) batch, 0)
  else (curMaxSize, overages + 1)

/-- A refill grows the quota, up to the ceiling. -/
lemma nextAfterRefill_bounds {cur : ℕ} (batch : ℕ) (hb : 1 ≤ batch)
    (hcur : cur ≤ kMaxQuotaBatches * batch) :
    cur ≤ nextAfterRefill cur batch ∧ nextAfterRefill cur batch ≤ kMaxQuotaBatches * batch := by
  unfold nextAfterRefill
  unfold kMaxQuotaBatches at *
  split_ifs <;> omega

/-- An overflow shrinks the quota, down to one batch, and keeps the counter below the limit. -/
lemma nextAfterOverflow_bounds {cur overages : ℕ} (batch : ℕ) (hb : 1 ≤ batch) (hcur : 1 ≤ cur)
    (ho : overages < kMaxOverages) :
    1 ≤ (nextAfterOverflow cur batch overages).1 ∧
      (nextAfterOverflow cur batch overages).1 ≤ cur ∧
      (nextAfterOverflow cur batch overages).2 < kMaxOverages := by
  unfold nextAfterOverflow
  unfold kMaxOverages at *
  split_ifs <;> simp only <;> omega

end QuotaPolicy

end Ammalloc
