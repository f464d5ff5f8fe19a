import Ammalloc.Lib.AccessProgram
import Ammalloc.PageMap

set_option relaxedAutoImplicit false
set_option autoImplicit false

/-!
# The radix nodes in memory

`PageMap` access by access. The nodes of the radix tree are arrays of atomic pointers; `GetSpan`
follows them without a lock, while other threads attach nodes and store descriptors. Here the
functions of `PageMap` are programs over a memory of nodes, and every load and store of a pointer is
one access. The tree of `Ammalloc.PageMap` is what the memory represents.

A new node is cleared by its constructor before anyone can see it, so `TryNewRadixNode` is one
access. The test-only failure countdown is left to the answers of the pool.

## Main definitions

* `Ammalloc.PageMap.RadixMemory`, `Ammalloc.PageMap.RadixMemory.tree` — the memory, and its tree.
* `Ammalloc.PageMap.RadixAccess`, `Ammalloc.PageMap.RadixMemory.answer` — the accesses.
* `Ammalloc.PageMap.Prog` — the programs.
* `Ammalloc.PageMap.RadixCall`, `Ammalloc.PageMap.RadixCall.Apart` — the calls, and when two of them
  write no common page.
-/

namespace Ammalloc

namespace PageMap

/-! ## The memory -/

/-- The node `root_storage_`. -/
def rootStorage : ℕ := 0

/-- The memory of the page map. Nodes and descriptors are named by their addresses. -/
structure RadixMemory where
  /-- `root_` points to `root_storage_`, or is null. -/
  root : Bool := false
  /-- The pointers in a node; those in a bottom node point to descriptors. -/
  children : ℕ → ℕ → Option ℕ := fun _ _ => none
  /-- The nodes that `radix_node_pool_` has handed out. -/
  nodes : List ℕ := []
  /-- The owner of `structure_mutex_`. -/
  mutex : Option ℕ := none
  /-- How the process died. -/
  fatal : Option String := none

namespace RadixMemory

/-- The memory after a store to slot `i` of a node. -/
def store (m : RadixMemory) (node i : ℕ) (v : Option ℕ) : RadixMemory :=
  { m with children := Function.update m.children node (Function.update (m.children node) i v) }

/-- The tree that the memory represents. -/
def tree (m : RadixMemory) : PageMap where
  root := if m.root then
      some fun a => (m.children rootStorage a).map fun p1 => fun b => (m.children p1 b).map
        fun p2 => fun c => (m.children p2 c).map m.children
    else none

end RadixMemory

/-! ## Accesses -/

/-- The accesses to the memory of the page map. -/
inductive RadixAccess
  | loadRoot
  | storeRoot
  | loadChild (node i : ℕ)
  | storeChild (node i : ℕ) (v : Option ℕ)
  | tryNewRadixNode
  | lock
  | unlock
  | fatalNoAlloc (message : String)

/-- What an access returns. -/
abbrev RadixAccess.Answer : RadixAccess → Type
  | .loadRoot => Option ℕ
  | .loadChild _ _ => Option ℕ
  | .tryNewRadixNode => Option ℕ
  | _ => Unit

/-- The answer to an access of thread `t`, or `none` if the access has to wait. The input is the
answer of the node pool: null, or a node that is not in use. A dead process makes no access. -/
def RadixMemory.answer (t : ℕ) (e : RadixAccess) (i : Option ℕ) (m : RadixMemory) :
    Option (e.Answer × RadixMemory) :=
  if m.fatal.isSome then none
  else
    match e with
    | .loadRoot => some (if m.root then some rootStorage else none, m)
    | .storeRoot => some ((), { m with root := true })
    | .loadChild node i => some (m.children node i, m)
    | .storeChild node i v => some ((), m.store node i v)
    | .tryNewRadixNode =>
      match i with
      | none => some (none, m)
      | some n =>
        if n = rootStorage ∨ n ∈ m.nodes then some (none, m)
        else some (some n, { m with
          nodes := n :: m.nodes
          children := Function.update m.children n fun _ => none })
    | .lock => if m.mutex = none then some ((), { m with mutex := some t }) else none
    | .unlock => some ((), { m with mutex := none })
    | .fatalNoAlloc message => some ((), { m with fatal := some message })

/-! ## Programs -/

namespace Prog

/-- A program of `PageMap`. -/
abbrev Program := AccessProgram RadixAccess RadixAccess.Answer

/-- An access. -/
def access (e : RadixAccess) : Program e.Answer := AccessProgram.perform e

/-- The load of `root_`. -/
def loadRoot : Program (Option ℕ) := access .loadRoot

/-- The load of a pointer in a node. -/
def loadChild (node i : ℕ) : Program (Option ℕ) := access (.loadChild node i)

/-- The store of a pointer in a node. -/
def storeChild (node i : ℕ) (v : Option ℕ) : Program Unit := access (.storeChild node i v)

/-- `PageMap::TryNewRadixNode`. -/
def tryNewRadixNode : Program (Option ℕ) := access .tryNewRadixNode

/-- `FatalNoAlloc`. -/
def fatalNoAlloc (message : String) : Program Unit := access (.fatalNoAlloc message)

/-- The walk from the root to the bottom node of a page id. -/
def leafOf (root q : ℕ) : Program (Option ℕ) := do
  match ← loadChild root (i0 q) with
  | none => pure none
  | some p1 =>
    match ← loadChild p1 (i1 q) with
    | none => pure none
    | some p2 => loadChild p2 (i2 q)

/-- `PageMap::GetSpan`. -/
def getSpan (q : ℕ) : Program (Option ℕ) := do
  match ← loadRoot with
  | none => pure none
  | some curr =>
    if i0 q ≥ radixRootSize then pure none
    else
      match ← leafOf curr q with
      | none => pure none
      | some p3 => loadChild p3 (i3 q)

/-- `PageMap::HasPath`. -/
def hasPath (q : ℕ) : Program Bool := do
  match ← loadRoot with
  | none => pure false
  | some root =>
    if i0 q ≥ radixRootSize then pure false
    else
      let p3 ← leafOf root q
      pure p3.isSome

/-- The stores of null to the first `n` children of the root. -/
def clearRoot : ℕ → Program Unit
  | 0 => pure ()
  | n + 1 => do
    clearRoot n
    storeChild rootStorage n none

/-- The loop that clears the root ends when there is no entry left. -/
lemma clearRoot_zero : clearRoot 0 = pure () := rfl

/-- The loop that clears the root stores a null in each entry, the last one last. -/
lemma clearRoot_succ (n : ℕ) :
    clearRoot (n + 1) = clearRoot n >>= fun _ => storeChild rootStorage n none := rfl

-- there are many children, and their stores are never to be listed
attribute [irreducible] clearRoot

/-- The root, which is cleared and published if it is not there. -/
def ensureRoot : Program ℕ := do
  match ← loadRoot with
  | some root => pure root
  | none => do
    clearRoot radixRootSize
    access .storeRoot
    pure rootStorage

/-- The child of a node, which is attached if it is not there. -/
def childOrNew (node i : ℕ) : Program (Option ℕ) := do
  match ← loadChild node i with
  | some child => pure (some child)
  | none =>
    match ← tryNewRadixNode with
    | none => pure none
    | some child => do
      storeChild node i (some child)
      pure (some child)

/-- `PageMap::EnsurePathLocked`. -/
def ensurePathLocked (q : ℕ) : Program Bool :=
  if i0 q ≥ radixRootSize then pure false
  else do
    let root ← ensureRoot
    match ← childOrNew root (i0 q) with
    | none => pure false
    | some p1 =>
      match ← childOrNew p1 (i1 q) with
      | none => pure false
      | some p2 =>
        let p3 ← childOrNew p2 (i2 q)
        pure p3.isSome

/-- The part of `EnsureRange` under `structure_mutex_`. -/
def ensurePath (q : ℕ) : Program Bool := do
  access .lock
  let ok ← ensurePathLocked q
  access .unlock
  pure ok

/-- The loop of `PageMap::EnsureRange`, one bottom node at a time. -/
def ensureLoop : ℕ → ℕ → ℕ → Program Bool
  | 0, _, _ => pure true
  | fuel + 1, current, remaining =>
    if remaining = 0 then pure true
    else if i0 current ≥ radixRootSize then pure false
    else do
      let step := min remaining (radixNodeSize - i3 current)
      match ← hasPath current with
      | true => ensureLoop fuel (current + step) (remaining - step)
      | false =>
        match ← ensurePath current with
        | true => ensureLoop fuel (current + step) (remaining - step)
        | false => pure false

/-- `PageMap::EnsureRange`. -/
def ensureRange (startPageId pageNum : ℕ) : Program Bool :=
  if pageNum = 0 then pure true
  else if pageNum > 1 ∧ startPageId > sizeMax - (pageNum - 1) then pure false
  else ensureLoop pageNum startPageId pageNum

/-- The stores to `n` children of a bottom node, from index `i` on. -/
def storeRange (p3 i : ℕ) (v : Option ℕ) : ℕ → Program Unit
  | 0 => pure ()
  | n + 1 => do
    storeRange p3 i v n
    storeChild p3 (i + n) v

/-- The loop of `PageMap::SetSpan`, one bottom node at a time. -/
def setLoop (id root : ℕ) : ℕ → ℕ → ℕ → Program Unit
  | 0, _, _ => pure ()
  | fuel + 1, current, remaining =>
    if remaining = 0 then pure ()
    else if i0 current ≥ radixRootSize then
      fatalNoAlloc "PageMap::SetSpan page ID is out of range"
    else do
      match ← leafOf root current with
      | none => fatalNoAlloc "PageMap::SetSpan path was not prepared"
      | some p3 => do
        let count := min remaining (radixNodeSize - i3 current)
        storeRange p3 (i3 current) (some id) count
        setLoop id root fuel (current + count) (remaining - count)

/-- `PageMap::SetSpan` of the descriptor `id` with its page range. -/
def setSpan (id startPageIdx pageNum : ℕ) : Program Unit :=
  if pageNum = 0 then fatalNoAlloc "PageMap::SetSpan received invalid Span"
  else do
    match ← loadRoot with
    | none => fatalNoAlloc "PageMap::SetSpan path was not prepared"
    | some root => setLoop id root pageNum startPageIdx pageNum

/-- The loop of `PageMap::ClearRange`: pages under a missing node are skipped. -/
def clearLoop (root : ℕ) : ℕ → ℕ → ℕ → Program Unit
  | 0, _, _ => pure ()
  | fuel + 1, current, remaining =>
    if remaining = 0 then pure ()
    else if i0 current ≥ radixRootSize then pure ()
    else do
      match ← loadChild root (i0 current) with
      | none =>
        let step := min remaining (2 ^ 27 - (current &&& (2 ^ 27 - 1)))
        clearLoop root fuel (current + step) (remaining - step)
      | some p1 =>
        match ← loadChild p1 (i1 current) with
        | none =>
          let step := min remaining (2 ^ 18 - (current &&& (2 ^ 18 - 1)))
          clearLoop root fuel (current + step) (remaining - step)
        | some p2 =>
          match ← loadChild p2 (i2 current) with
          | none =>
            let step := min remaining (2 ^ 9 - (current &&& (2 ^ 9 - 1)))
            clearLoop root fuel (current + step) (remaining - step)
          | some p3 => do
            let cnt := min remaining (radixNodeSize - i3 current)
            storeRange p3 (i3 current) none cnt
            clearLoop root fuel (current + cnt) (remaining - cnt)

/-- `PageMap::ClearRange`. -/
def clearRange (startPageId pageNum : ℕ) : Program Unit := do
  match ← loadRoot with
  | none => pure ()
  | some root => clearLoop root pageNum startPageId pageNum

end Prog

/-! ## The calls -/

/-- The calls. -/
inductive RadixCall
  | getSpan (pageId : ℕ)
  | ensureRange (startPageId pageNum : ℕ)
  | setSpan (id startPageIdx pageNum : ℕ)
  | clearRange (startPageId pageNum : ℕ)

/-- What a call returns. -/
inductive RadixResult
  | span (id : Option ℕ)
  | grown (ok : Bool)
  | done

/-- The programs of the calls. -/
def RadixCall.body : RadixCall → Prog.Program RadixResult
  | .getSpan pageId => do
    let id ← Prog.getSpan pageId
    pure (.span id)
  | .ensureRange startPageId pageNum => do
    let ok ← Prog.ensureRange startPageId pageNum
    pure (.grown ok)
  | .setSpan id startPageIdx pageNum => do
    Prog.setSpan id startPageIdx pageNum
    pure .done
  | .clearRange startPageId pageNum => do
    Prog.clearRange startPageId pageNum
    pure .done

/-- The pages from `a` on, `n` of them. -/
def pages (a n : ℕ) : Set ℕ := {q | a ≤ q ∧ q < a + n}

/-- The pages whose slots a call may store to. -/
def RadixCall.writes : RadixCall → Set ℕ
  | .setSpan _ startPageIdx pageNum => pages startPageIdx pageNum
  | .clearRange startPageId pageNum => pages startPageId pageNum
  | _ => ∅

/-- No page is written by both calls. The header asks the callers of `SetSpan` and `ClearRange` to
hold the lock of the shard that owns the range, so that calls in progress are apart. -/
def RadixCall.Apart (op op' : RadixCall) : Prop := ∀ q ∈ op.writes, q ∉ op'.writes

end PageMap

end Ammalloc
