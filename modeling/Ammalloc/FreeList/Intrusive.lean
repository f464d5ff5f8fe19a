import Ammalloc.FreeList
import Ammalloc.Lib.Machine
import Mathlib.Logic.Function.Basic

set_option relaxedAutoImplicit false
set_option autoImplicit false

/-!
# Free lists as intrusive chains

`FreeList`, `FreeChain` and `ObjectBatch` of `include/ammalloc/free_list.h`, over a heap of `next`
links. The three are descriptors: the objects themselves hold the links, and nothing but the
discipline of their users keeps two descriptors from reaching the same objects.

## Main definitions

* `Ammalloc.Intrusive.FreeChain`, `Ammalloc.Intrusive.ObjectBatch`, `Ammalloc.Intrusive.FreeList`
  with their operations.
* `Ammalloc.Intrusive.HeapState`, `Ammalloc.Intrusive.machine` — any number of lists, batches and
  detached chains over one heap.
-/

namespace Ammalloc.Intrusive

open SizeClass (kNumSizeClasses)

/-- The `next` link of every object; `0` is the null pointer. -/
abbrev Heap := ℕ → ℕ

/-- `struct FreeChain`. -/
structure FreeChain where
  head : ℕ := 0
  tail : ℕ := 0
  count : ℕ := 0
  deriving DecidableEq, Repr

/-- `class ObjectBatch`; `kInvalidClass` is `kNumSizeClasses`. -/
structure ObjectBatch where
  head : ℕ := 0
  tail : ℕ := 0
  count : ℕ := 0
  sizeClassIdx : ℕ := kNumSizeClasses
  deriving DecidableEq, Repr

/-- `class FreeList`. -/
structure FreeList where
  head : ℕ := 0
  size : ℕ := 0
  maxSize : ℕ := 1
  overages : ℕ := 0
  deriving DecidableEq, Repr

/-! ## Batches -/

namespace ObjectBatch

/-- The move constructor: the new batch, and the moved-from one. -/
def moveConstruct (other : ObjectBatch) : ObjectBatch × ObjectBatch := (other, {})

/-- `FromSingleObject`. -/
def fromSingleObject (heap : Heap) (object idx : ℕ) : Heap × ObjectBatch :=
  if object = 0 then (heap, {})
  else (Function.update heap object 0, ⟨object, object, 1, idx⟩)

/-- `AdoptChain`. -/
def adoptChain (chain : FreeChain) (idx : ℕ) : ObjectBatch :=
  if chain.count = 0 then {} else ⟨chain.head, chain.tail, chain.count, idx⟩

/-- `MarkProcessed`. -/
def markProcessed (_ : ObjectBatch) : ObjectBatch := ⟨0, 0, 0, kNumSizeClasses⟩

/-- `DetachChainForTransport`: the chain, and the batch after it. -/
def detachChainForTransport (batch : ObjectBatch) : FreeChain × ObjectBatch :=
  if batch.count = 0 then ({}, batch)
  else (⟨batch.head, batch.tail, batch.count⟩, batch.markProcessed)

/-- The walk of `IsCanonical`: follow `steps` links, and give up at a null pointer. -/
def canonicalWalk (heap : Heap) : ℕ → ℕ → Option ℕ
  | 0, cur => some cur
  | steps + 1, cur => if cur = 0 then none else canonicalWalk heap steps (heap cur)

/-- `IsCanonical`. -/
def isCanonical (heap : Heap) (batch : ObjectBatch) : Bool :=
  if batch.count = 0 then
    batch.head = 0 ∧ batch.tail = 0 ∧ batch.sizeClassIdx = kNumSizeClasses
  else if batch.head = 0 ∨ batch.tail = 0 ∨ batch.sizeClassIdx ≥ kNumSizeClasses then false
  else
    match canonicalWalk heap (batch.count - 1) batch.head with
    | some cur => cur = batch.tail ∧ heap cur = 0
    | none => false

end ObjectBatch

/-! ## Lists -/

namespace FreeList

variable (heap : Heap) (l : FreeList)

/-- `Push`; null is ignored. -/
def push (ptr : ℕ) : Heap × FreeList :=
  if ptr = 0 then (heap, l)
  else (Function.update heap ptr l.head, { l with head := ptr, size := addU64 l.size 1 })

/-- `PushRange`. -/
def pushRange (chain : FreeChain) : Heap × FreeList :=
  if chain.head = 0 ∨ chain.tail = 0 ∨ chain.count = 0 then (heap, l)
  else
    (Function.update heap chain.tail l.head,
      { l with head := chain.head, size := addU64 l.size chain.count })

/-- `PushBatch`: the heap, the list, and the consumed argument. -/
def pushBatch (batch : ObjectBatch) : Heap × FreeList × ObjectBatch :=
  if batch.count = 0 then (heap, l, batch.markProcessed)
  else
    (Function.update heap batch.tail l.head,
      { l with head := batch.head, size := addU64 l.size batch.count }, batch.markProcessed)

/-- The loop of `PopRange`, for at most `n` nodes. -/
def popRangeLoop : ℕ → ℕ → FreeChain → ℕ × FreeChain
  | 0, cur, out => (cur, out)
  | n + 1, cur, out =>
    if cur = 0 then (cur, out)
    else popRangeLoop n (heap cur) { out with tail := cur, count := addU64 out.count 1 }

/-- `PopRange`: the heap, the list, and the detached chain. -/
def popRange (n : ℕ) : Heap × FreeList × FreeChain :=
  let r := popRangeLoop heap n l.head {}
  if r.2.count > 0 then
    (Function.update heap r.2.tail 0,
      { l with head := r.1, size := subU64 l.size r.2.count }, { r.2 with head := l.head })
  else (heap, l, r.2)

/-- `while (tail->next) tail = tail->next`. `none` is a null pointer read, or a loop that was cut
off. -/
def tailLoop : ℕ → ℕ → Option ℕ
  | 0, _ => none
  | fuel + 1, tail =>
    if tail = 0 then none
    else if heap tail = 0 then some tail
    else tailLoop fuel (heap tail)

/-- The first loop of `PopRangeTail`: `steps` links from `keepTail`. -/
def keepLoop : ℕ → ℕ → ℕ
  | 0, keepTail => keepTail
  | steps + 1, keepTail => keepLoop steps (heap keepTail)

/-- `PopRangeTail`: the heap, the list, and the detached chain. -/
def popRangeTail (fuel n : ℕ) : Option (Heap × FreeList × FreeChain) :=
  let popCount := if n < l.size then n else l.size
  if popCount = 0 then some (heap, l, {})
  else
    let keep := l.size - popCount
    let keepTail := keepLoop heap (keep - 1) l.head
    let heap' := if keep = 0 then heap else Function.update heap keepTail 0
    let outHead := if keep = 0 then l.head else heap keepTail
    let newHead := if keep = 0 then 0 else l.head
    (tailLoop heap' fuel outHead).map fun tail =>
      (heap', { l with head := newHead, size := keep }, ⟨outHead, tail, popCount⟩)

/-- `PopBatch`. -/
def popBatch (n idx : ℕ) : Heap × FreeList × ObjectBatch :=
  let r := popRange heap l n
  (r.1, r.2.1,
    if r.2.2.count = 0 then {} else ⟨r.2.2.head, r.2.2.tail, r.2.2.count, idx⟩)

/-- `PopBatchTail`. -/
def popBatchTail (fuel n idx : ℕ) : Option (Heap × FreeList × ObjectBatch) :=
  (popRangeTail heap l fuel n).map fun r =>
    (r.1, r.2.1,
      if r.2.2.count = 0 then {} else ⟨r.2.2.head, r.2.2.tail, r.2.2.count, idx⟩)

/-- `Pop`: the object, and the list after it. -/
def pop : ℕ × FreeList :=
  if l.head = 0 then (0, l)
  else (l.head, { l with head := heap l.head, size := subU64 l.size 1 })

end FreeList

/-! ## Lists, batches and chains over one heap -/

/-- Any number of lists, batches and detached chains over one heap: `ι`, `κ` and `μ` name the
variables of the program that hold them. -/
structure HeapState (ι κ μ : Type) where
  heap : Heap
  lists : ι → FreeList := fun _ => {}
  batches : κ → ObjectBatch := fun _ => {}
  chains : μ → FreeChain := fun _ => {}

/-- What a program can do with them. A call that returns a chain or a batch stores it in a fresh
variable, and a call that consumes one leaves its variable empty. -/
inductive ListAction (ι κ μ : Type) where
  | push (i : ι) (ptr : ℕ)
  | pop (i : ι)
  | pushRange (i : ι) (k : μ)
  | pushBatch (i : ι) (j : κ)
  | popRange (i : ι) (n : ℕ) (k : μ)
  | popRangeTail (i : ι) (n : ℕ) (k : μ)
  | popBatch (i : ι) (n idx : ℕ) (j : κ)
  | popBatchTail (i : ι) (n idx : ℕ) (j : κ)
  | fromSingleObject (object idx : ℕ) (j : κ)
  | adoptChain (k : μ) (idx : ℕ) (j : κ)
  | detachChainForTransport (j : κ) (k : μ)
  | moveConstruct (j j' : κ)
  /-- Another component hands over a detached chain of the nodes `xs`. -/
  | supply (k : μ) (chain : FreeChain) (xs : List ℕ)
  /-- The user of the object `x` overwrites its first word. -/
  | write (x v : ℕ)

namespace HeapState

variable {ι κ μ : Type} [DecidableEq ι] [DecidableEq κ] [DecidableEq μ]

/-- The state after an action. -/
def step (s : HeapState ι κ μ) : ListAction ι κ μ → HeapState ι κ μ
  | .push i ptr =>
    let r := (s.lists i).push s.heap ptr
    { s with heap := r.1, lists := Function.update s.lists i r.2 }
  | .pop i => { s with lists := Function.update s.lists i ((s.lists i).pop s.heap).2 }
  | .pushRange i k =>
    let r := (s.lists i).pushRange s.heap (s.chains k)
    { s with
      heap := r.1
      lists := Function.update s.lists i r.2
      chains := Function.update s.chains k {} }
  | .pushBatch i j =>
    -- the parameter is taken by value, so that the argument is moved from
    let arg := (s.batches j).moveConstruct
    let r := (s.lists i).pushBatch s.heap arg.1
    { s with
      heap := r.1
      lists := Function.update s.lists i r.2.1
      batches := Function.update s.batches j arg.2 }
  | .popRange i n k =>
    let r := (s.lists i).popRange s.heap n
    { s with
      heap := r.1
      lists := Function.update s.lists i r.2.1
      chains := Function.update s.chains k r.2.2 }
  | .popRangeTail i n k =>
    match (s.lists i).popRangeTail s.heap (s.lists i).size n with
    | some r =>
      { s with
        heap := r.1
        lists := Function.update s.lists i r.2.1
        chains := Function.update s.chains k r.2.2 }
    | none => s
  | .popBatch i n idx j =>
    let r := (s.lists i).popBatch s.heap n idx
    { s with
      heap := r.1
      lists := Function.update s.lists i r.2.1
      batches := Function.update s.batches j r.2.2 }
  | .popBatchTail i n idx j =>
    match (s.lists i).popBatchTail s.heap (s.lists i).size n idx with
    | some r =>
      { s with
        heap := r.1
        lists := Function.update s.lists i r.2.1
        batches := Function.update s.batches j r.2.2 }
    | none => s
  | .fromSingleObject object idx j =>
    let r := ObjectBatch.fromSingleObject s.heap object idx
    { s with heap := r.1, batches := Function.update s.batches j r.2 }
  | .adoptChain k idx j =>
    { s with
      batches := Function.update s.batches j (ObjectBatch.adoptChain (s.chains k) idx)
      chains := Function.update s.chains k {} }
  | .detachChainForTransport j k =>
    let r := (s.batches j).detachChainForTransport
    { s with
      batches := Function.update s.batches j r.2
      chains := Function.update s.chains k r.1 }
  | .moveConstruct j j' =>
    let r := (s.batches j).moveConstruct
    { s with batches := Function.update (Function.update s.batches j r.2) j' r.1 }
  | .supply k chain _ => { s with chains := Function.update s.chains k chain }
  | .write x v => { s with heap := Function.update s.heap x v }

end HeapState

/-- A program that starts with empty lists, batches and chains over an arbitrary heap. -/
def machine (ι κ μ : Type) [DecidableEq ι] [DecidableEq κ] [DecidableEq μ] :
    Machine (HeapState ι κ μ) (ListAction ι κ μ) where
  init := { s | ∃ heap, s = { heap } }
  next := HeapState.step

end Ammalloc.Intrusive
