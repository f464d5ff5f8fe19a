import Ammalloc.Lib.ByteMemory
import Ammalloc.Lib.LinkedStack
import Ammalloc.Lib.Machine
import Ammalloc.Span.Layout

set_option relaxedAutoImplicit false
set_option autoImplicit false

/-!
# The object pool

`ObjectPool<T, CHUNK_SIZE>` recycles fixed-size slots in chunks of pages. A chunk starts with a
header of two words (the next chunk and the page count); behind it, at the first aligned address,
slots are cut off one after another. A deleted slot is linked into the free list through its own
first word, and is reused before the bump region is touched.

The pool keeps its lists in the memory it hands out, so the model has the memory: objects, freed
slots and chunk headers are bytes at addresses, and a program may write anything into its live
objects and into memory that is not the pool's.

## Main definitions

* `Ammalloc.PoolType` — `sizeof(T)`, `alignof(T)` and `CHUNK_SIZE`; `pageNum`, the pages of a chunk.
* `Ammalloc.ObjectPool`, with `tryNew`, `delete`, `releaseLoop`, `releaseMemory` and `destroy`.
* `Ammalloc.PoolState.machine` — a program that uses one pool.
-/

namespace Ammalloc

/-! ## Sizes -/

/-- The template arguments of a pool. `T` is at least a pointer large (the `requires` clause), its
size is a multiple of its power-of-two alignment, and all three are 64-bit words. -/
structure PoolType where
  /-- `sizeof(T)`. -/
  size : ℕ
  /-- `alignof(T)`. -/
  align : ℕ
  /-- `CHUNK_SIZE`. -/
  chunkSize : ℕ
  align_pow : ∃ k, align = 2 ^ k
  align_dvd : align ∣ size
  pointer_le : 8 ≤ size
  size_lt : size < 2 ^ 64
  chunkSize_lt : chunkSize < 2 ^ 64

/-- `sizeof(ChunkHeader)`. -/
def chunkHeaderSize : ℕ := 16

namespace PoolType

variable (T : PoolType)

/-- `num_objs`: the objects a chunk is sized for. -/
def numObjs : ℕ := if T.chunkSize / T.size < 10 then 10 else T.chunkSize / T.size

/-- `needed_bytes`, in 64-bit arithmetic. -/
def neededBytes : ℕ :=
  subU64 (addU64 (addU64 chunkHeaderSize (mulU64 T.numObjs T.size)) T.align) 1

/-- `page_num`, in 64-bit arithmetic. -/
def pageNum : ℕ := subU64 (addU64 T.neededBytes pageSize) 1 >>> pageShift

/-- `aligned_data_start` of the chunk at `ptr`: the mask `~(alignof(T) - 1)` clears the low bits of
`ptr + sizeof(ChunkHeader) + alignof(T) - 1`. -/
def alignedDataStart (ptr : ℕ) : ℕ :=
  subU64 (addU64 (addU64 ptr chunkHeaderSize) T.align) 1 / T.align * T.align

/-- The storage of the object at `obj`. -/
def slot (obj : ℕ) : Extent := ⟨obj, T.size⟩

end PoolType

/-! ## The pool -/

/-- A chunk: a range that `SystemAlloc` returned, and the page count it was asked for. -/
structure PoolChunk where
  ptr : ℕ
  pageNum : ℕ
  deriving DecidableEq, Repr

namespace PoolChunk

/-- The bytes of a chunk. -/
def extent (c : PoolChunk) : Extent := ⟨c.ptr, c.pageNum * pageSize⟩

/-- The bytes of its header. -/
def header (c : PoolChunk) : Extent := ⟨c.ptr, chunkHeaderSize⟩

end PoolChunk

/-- The members of an `ObjectPool`; `0` is the null pointer. -/
structure ObjectPool where
  /-- `data_`: the next unused slot of the newest chunk. -/
  data : ℕ := 0
  /-- `remain_bytes_`: the bytes left in it. -/
  remainBytes : ℕ := 0
  /-- `free_list_`: the deleted slots. -/
  freeList : ℕ := 0
  /-- `chunk_list_`: the chunks, newest first. -/
  chunkList : ℕ := 0
  deriving DecidableEq, Repr

namespace ObjectPool

variable (T : PoolType)

/-- The chunk that `SystemAlloc` returned at `ptr` becomes the newest one. -/
def addChunk (ptr : ℕ) (mem : ByteMemory) (pool : ObjectPool) : ByteMemory × ObjectPool :=
  ((mem.storeWord ptr pool.chunkList).storeWord (ptr + 8) T.pageNum,
    { pool with
      chunkList := ptr
      data := T.alignedDataStart ptr
      remainBytes := subU64 (T.pageNum <<< pageShift) (subU64 (T.alignedDataStart ptr) ptr) })

/-- The last lines of `TryNew`: cut the next slot off and construct the object `contents` in it. -/
def bump (contents mem : ByteMemory) (pool : ObjectPool) : ByteMemory × ObjectPool × ℕ :=
  (mem.write (T.slot pool.data) contents,
    { pool with
      data := addU64 pool.data T.size
      remainBytes := subU64 pool.remainBytes T.size },
    pool.data)

/-- `TryNew`: the memory, the pool and the result. `answer` is what `SystemAlloc` returns if it is
called, and `contents` what the constructor of `T` writes. -/
def tryNew (answer : ℕ) (contents mem : ByteMemory) (pool : ObjectPool) :
    ByteMemory × ObjectPool × ℕ :=
  if pool.freeList ≠ 0 then
    (mem.write (T.slot pool.freeList) contents,
      { pool with freeList := mem.loadWord pool.freeList }, pool.freeList)
  else if pool.remainBytes < T.size then
    if answer = 0 then (mem, pool, 0)
    else bump T contents (addChunk T answer mem pool).1 (addChunk T answer mem pool).2
  else bump T contents mem pool

/-- `Delete(obj)`; `contents` is what the destructor of `T` leaves in the slot. -/
def delete (obj : ℕ) (contents mem : ByteMemory) (pool : ObjectPool) : ByteMemory × ObjectPool :=
  ((mem.write (T.slot obj) contents).storeWord obj pool.freeList, { pool with freeList := obj })

/-- The loop of `ReleaseMemory` and of the destructor: the memory after it, and the calls of
`SystemFree` in their order. A freed range is another's, so its contents become arbitrary
(`junk`) at once. `none` is a loop that was cut off. -/
def releaseLoop (junk : ByteMemory) : ℕ → ByteMemory → ℕ → Option (ByteMemory × List PoolChunk)
  | 0, mem, cur => if cur = 0 then some (mem, []) else none
  | fuel + 1, mem, cur =>
    if cur = 0 then some (mem, [])
    else
      let next := mem.loadWord cur
      let chunk : PoolChunk := ⟨cur, mem.loadWord (cur + 8)⟩
      (releaseLoop junk fuel (mem.write chunk.extent junk) next).map
        fun r => (r.1, chunk :: r.2)

/-- `ReleaseMemory`: the memory, the calls of `SystemFree`, and the pool after them. -/
def releaseMemory (junk : ByteMemory) (fuel : ℕ) (mem : ByteMemory) (pool : ObjectPool) :
    Option (ByteMemory × List PoolChunk × ObjectPool) :=
  (releaseLoop junk fuel mem pool.chunkList).map fun r => (r.1, r.2, {})

/-- `~ObjectPool`: the same calls. -/
def destroy (junk : ByteMemory) (fuel : ℕ) (mem : ByteMemory) (pool : ObjectPool) :
    Option (ByteMemory × List PoolChunk) :=
  releaseLoop junk fuel mem pool.chunkList

end ObjectPool

/-! ## A program that uses a pool -/

/-- A pool in its memory. `live` lists the objects that `TryNew` returned and that are not deleted,
and `chunks` the ranges that `SystemAlloc` returned to the pool, newest first; no code reads
either. -/
structure PoolState where
  mem : ByteMemory
  pool : ObjectPool := {}
  live : List ℕ := []
  chunks : List PoolChunk := []

/-- What a program can do. -/
inductive PoolAction where
  /-- `TryNew`, with `SystemAlloc` ready to return `answer`. -/
  | tryNew (answer : ℕ) (contents : ByteMemory)
  /-- `Delete` of a live object. -/
  | delete (obj : ℕ) (contents : ByteMemory)
  /-- A write to a live object, or to memory that is not the pool's. -/
  | write (e : Extent) (contents : ByteMemory)
  /-- `ReleaseMemory`; no object may be used after it. -/
  | releaseMemory (junk : ByteMemory)

namespace PoolState

variable (T : PoolType) (st : PoolState)

/-- A `TryNew` in this state calls `SystemAlloc`. -/
def Refills : Prop := st.pool.freeList = 0 ∧ st.pool.remainBytes < T.size

instance : Decidable (st.Refills T) := inferInstanceAs (Decidable (_ ∧ _))

/-- `SystemAlloc(page_num)` may return `ptr`: a fresh page-aligned range. -/
def Fresh (ptr : ℕ) : Prop :=
  0 < T.pageNum ∧ ptr ≠ 0 ∧ pageSize ∣ ptr ∧ ptr + T.pageNum * pageSize ≤ 2 ^ 64 ∧
    ∀ c ∈ st.chunks, c.extent.Disjoint (PoolChunk.extent ⟨ptr, T.pageNum⟩)

instance (ptr : ℕ) : Decidable (st.Fresh T ptr) := inferInstanceAs (Decidable (_ ∧ _))

/-- What `SystemAlloc` returns: a fresh range, or null. -/
def systemAlloc (answer : ℕ) : ℕ := if st.Fresh T answer then answer else 0

/-- `e` may be written by the program. -/
def Writable (e : Extent) : Prop :=
  (∃ obj ∈ st.live, e.Within (T.slot obj)) ∨ ∀ c ∈ st.chunks, e.Disjoint c.extent

instance (e : Extent) : Decidable (st.Writable T e) :=
  haveI : ∀ f, Decidable (e.Within f) := fun _ => inferInstanceAs (Decidable (_ ∧ _))
  inferInstanceAs (Decidable (_ ∨ _))

/-- The result of a `TryNew` in this state. -/
def tryNew (answer : ℕ) (contents : ByteMemory) : ByteMemory × ObjectPool × ℕ :=
  st.pool.tryNew T (st.systemAlloc T answer) contents st.mem

/-- The chunks after a `TryNew` in this state. -/
def chunksAfter (answer : ℕ) : List PoolChunk :=
  if st.Refills T ∧ st.Fresh T answer then ⟨answer, T.pageNum⟩ :: st.chunks else st.chunks

/-- The state after an action. -/
def step : PoolState → PoolAction → PoolState
  | st, .tryNew answer contents =>
    let r := st.tryNew T answer contents
    { mem := r.1
      pool := r.2.1
      live := if r.2.2 = 0 then st.live else r.2.2 :: st.live
      chunks := st.chunksAfter T answer }
  | st, .delete obj contents =>
    if obj ∈ st.live then
      let r := st.pool.delete T obj contents st.mem
      { st with mem := r.1, pool := r.2, live := st.live.erase obj }
    else st
  | st, .write e contents =>
    if st.Writable T e then { st with mem := st.mem.write e contents } else st
  | st, .releaseMemory junk =>
    match st.pool.releaseMemory junk st.chunks.length st.mem with
    | some r => { mem := r.1, pool := r.2.2 }
    | none => st

/-- A program that starts with an empty pool in an arbitrary memory. -/
def machine : Machine PoolState PoolAction where
  init := { st | ∃ mem, st = { mem } }
  next := step T

end PoolState

end Ammalloc
