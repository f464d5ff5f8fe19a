import Ammalloc.ObjectPool

set_option relaxedAutoImplicit false
set_option autoImplicit false

/-!
# Slot safety of the object pool

The slots that the pool hands out are aligned, lie inside one chunk behind its header, and overlap
neither each other nor the free slots nor the bump region, as long as every chunk has room for one
aligned object behind its header. The chunk size is computed in 64-bit arithmetic without a guard;
where that does not wrap, every chunk has room for `num_objs` of them, and where it does, a slot
can be cut off behind the end of its chunk.

## Main definitions

* `Ammalloc.PoolInv` — how the pool is laid out in memory.
* `Ammalloc.SlotsSafe` — what a program can rely on.
* `Ammalloc.PoolState.LeavesRoom` — a chunk that `TryNew` takes has room for one object.

## Main results

* `Ammalloc.PoolState.step_inv` — one step keeps the layout if it leaves room.
* `Ammalloc.PoolState.forall_slotsSafe_iff` — a run is safe exactly as long as its chunks leave
  room.
* `Ammalloc.PoolState.slot_safety` — every run is safe if the size computation does not wrap.
-/

namespace Ammalloc

open LinkedStack

/-! ## Sizes and offsets -/

namespace PoolType

variable (T : PoolType)

/-- An alignment is positive. -/
lemma align_pos : 0 < T.align := by
  obtain ⟨k, hk⟩ := T.align_pow
  rw [hk]
  exact Nat.two_pow_pos k

/-- An object is at least as large as its alignment. -/
lemma align_le_size : T.align ≤ T.size :=
  Nat.le_of_dvd (Nat.lt_of_lt_of_le (by decide) T.pointer_le) T.align_dvd

/-- The alignment divides the size of the address space. -/
lemma align_dvd_space : T.align ∣ 2 ^ 64 := by
  obtain ⟨k, hk⟩ := T.align_pow
  have hlt : 2 ^ k < 2 ^ 64 := hk ▸ Nat.lt_of_le_of_lt T.align_le_size T.size_lt
  rw [hk]
  exact pow_dvd_pow 2 (Nat.le_of_lt ((Nat.pow_lt_pow_iff_right (by decide)).mp hlt))

/-- An aligned size below the end of the address space leaves room for the alignment. -/
lemma size_add_align_le : T.size + T.align ≤ 2 ^ 64 := by
  obtain ⟨q, hq⟩ := T.align_dvd
  obtain ⟨r, hr⟩ := T.align_dvd_space
  have hlt : q < r := by
    by_contra hge
    have := Nat.mul_le_mul_left T.align (Nat.not_lt.mp hge)
    have := T.size_lt
    omega
  have := Nat.mul_le_mul_left T.align hlt
  rw [Nat.mul_succ] at this
  omega

/-- A chunk has less than `2 ^ 52` pages, as its size is a 64-bit number. -/
lemma pageNum_lt : T.pageNum < 2 ^ 52 := by
  have h : subU64 (addU64 T.neededBytes pageSize) 1 < 2 ^ 64 := Nat.mod_lt _ (by decide)
  rw [pageNum, pageShift, Nat.shiftRight_eq_div_pow]
  omega

/-- The distance from the start of the chunk at `ptr` to its first slot, computed exactly. -/
def dataOffset (ptr : ℕ) : ℕ := (ptr + chunkHeaderSize + (T.align - 1)) / T.align * T.align - ptr

/-- The first slot is the first aligned address behind the header. -/
lemma dataOffset_spec (ptr : ℕ) :
    chunkHeaderSize ≤ T.dataOffset ptr ∧ T.dataOffset ptr ≤ chunkHeaderSize + (T.align - 1) ∧
      T.align ∣ ptr + T.dataOffset ptr := by
  have hpos := T.align_pos
  have hdiv := Nat.div_add_mod (ptr + chunkHeaderSize + (T.align - 1)) T.align
  have hmod := Nat.mod_lt (ptr + chunkHeaderSize + (T.align - 1)) hpos
  rw [Nat.mul_comm] at hdiv
  have hsum : ptr + T.dataOffset ptr =
      (ptr + chunkHeaderSize + (T.align - 1)) / T.align * T.align := by
    unfold dataOffset
    omega
  refine ⟨by omega, by omega, ?_⟩
  rw [hsum]
  exact Nat.dvd_mul_left _ _

/-- `aligned_data_start` is that address, wrapped. -/
lemma alignedDataStart_eq (ptr : ℕ) :
    T.alignedDataStart ptr = (ptr + T.dataOffset ptr) % 2 ^ 64 := by
  have hpos := T.align_pos
  have hsum : ptr + T.dataOffset ptr =
      (ptr + chunkHeaderSize + (T.align - 1)) / T.align * T.align := by
    have := (T.dataOffset_spec ptr).1
    unfold dataOffset chunkHeaderSize at *
    omega
  have hraw : subU64 (addU64 (addU64 ptr chunkHeaderSize) T.align) 1 =
      (ptr + chunkHeaderSize + (T.align - 1)) % 2 ^ 64 := by
    unfold subU64 addU64
    omega
  obtain ⟨r, hr⟩ := T.align_dvd_space
  rw [alignedDataStart, hraw, hsum]
  generalize ptr + chunkHeaderSize + (T.align - 1) = x
  rw [hr, Nat.mod_mul_right_div_self, Nat.mul_comm T.align r, Nat.mul_mod_mul_right]

/-- What `addChunk` leaves in `remain_bytes_`, for a chunk that has room behind the offset. -/
lemma remainAfterAddChunk {ptr : ℕ} (hptr : ptr < 2 ^ 64) :
    subU64 (T.pageNum <<< pageShift) (subU64 (T.alignedDataStart ptr) ptr) =
      subU64 (T.pageNum * pageSize) (T.dataOffset ptr) := by
  have hoff := (T.dataOffset_spec ptr).2.1
  have halign := T.size_add_align_le
  have hle := T.align_le_size
  have hsub : subU64 (T.alignedDataStart ptr) ptr = T.dataOffset ptr := by
    rw [alignedDataStart_eq]
    unfold subU64 chunkHeaderSize at *
    omega
  rw [hsub, Nat.shiftLeft_eq]
  rfl

/-- The computation of the chunk size stays below `2 ^ 64`. -/
def NoWrap : Prop :=
  chunkHeaderSize + T.numObjs * T.size + T.align - 1 + (pageSize - 1) < 2 ^ 64

instance : Decidable T.NoWrap := inferInstanceAs (Decidable (_ < _))

/-- The chunk at `ptr` has room for one aligned object behind its header. -/
def RoomAt (ptr : ℕ) : Prop := T.dataOffset ptr + T.size ≤ T.pageNum * pageSize

instance (ptr : ℕ) : Decidable (T.RoomAt ptr) := inferInstanceAs (Decidable (_ ≤ _))

/-- **A chunk size that did not wrap leaves room**, wherever the chunk is. -/
lemma NoWrap.roomAt {T : PoolType} (h : T.NoWrap) (ptr : ℕ) : T.RoomAt ptr := by
  have hobjs : 10 ≤ T.numObjs := by
    unfold numObjs
    split
    · exact le_rfl
    · omega
  have hpos := T.align_pos
  have hmul := Nat.mul_le_mul_right T.size hobjs
  unfold NoWrap at h
  have hneeded : T.neededBytes = chunkHeaderSize + T.numObjs * T.size + T.align - 1 := by
    rw [neededBytes, mulU64_of_lt (by omega)]
    unfold subU64 addU64 chunkHeaderSize pageSize at *
    omega
  have hpages : T.pageNum = (T.neededBytes + (pageSize - 1)) / pageSize := by
    unfold pageNum
    rw [hneeded]
    unfold pageSize at *
    rw [Nat.shiftRight_eq_div_pow]
    unfold subU64 addU64 pageShift
    omega
  have hoff := (T.dataOffset_spec ptr).2.1
  unfold RoomAt
  rw [hpages]
  unfold pageSize at *
  omega

end PoolType

/-! ## The layout in memory -/

/-- A slot of the pool: aligned, and inside one chunk behind its header. -/
def PoolType.SlotOk (T : PoolType) (chunks : List PoolChunk) (obj : ℕ) : Prop :=
  T.align ∣ obj ∧ ∃ c ∈ chunks, c.ptr + chunkHeaderSize ≤ obj ∧
    obj + T.size ≤ c.ptr + c.pageNum * pageSize

/-- The two lists that the pool keeps in memory. -/
structure PoolLinked (mem : ByteMemory) (pool : ObjectPool) (chunks : List PoolChunk)
    (free : List ℕ) : Prop where
  chunkList : Chain mem.loadWord 0 pool.chunkList (chunks.map PoolChunk.ptr)
  pages : ∀ c ∈ chunks, mem.loadWord (c.ptr + 8) = c.pageNum
  freeList : Chain mem.loadWord 0 pool.freeList free

/-- The bump region ends with the newest chunk `c`, starts at an aligned address behind the header
and holds no slot. `data_` is its start, which wraps only if the region is empty. -/
structure BumpOk (T : PoolType) (c : PoolChunk) (slots : List ℕ) (pool : ObjectPool) : Prop where
  remain_le : pool.remainBytes + chunkHeaderSize ≤ c.pageNum * pageSize
  data_eq : pool.data = (c.ptr + c.pageNum * pageSize - pool.remainBytes) % 2 ^ 64
  aligned : T.align ∣ c.ptr + c.pageNum * pageSize - pool.remainBytes
  disjoint : ∀ s ∈ slots, (T.slot s).Disjoint
    ⟨c.ptr + c.pageNum * pageSize - pool.remainBytes, pool.remainBytes⟩

/-- **A slot cut off the bump region**: it is aligned, behind the header and inside the chunk, it
overlaps no slot, and what is left of the region is laid out as before. -/
lemma BumpOk.cut {T : PoolType} {c : PoolChunk} {slots : List ℕ} {pool : ObjectPool}
    (h : BumpOk T c slots pool) (hroom : T.size ≤ pool.remainBytes)
    (hend : c.ptr + c.pageNum * pageSize ≤ 2 ^ 64) :
    (T.align ∣ pool.data ∧ c.ptr + chunkHeaderSize ≤ pool.data ∧
        pool.data + T.size ≤ c.ptr + c.pageNum * pageSize) ∧
      (∀ s ∈ slots, (T.slot pool.data).Disjoint (T.slot s)) ∧
      BumpOk T c (pool.data :: slots)
        { pool with
          data := addU64 pool.data T.size, remainBytes := subU64 pool.remainBytes T.size } := by
  obtain ⟨hle, hdata, halign, hdis⟩ := h
  have hpos := T.pointer_le
  unfold chunkHeaderSize at hle
  -- the region is not empty, so its start did not wrap
  have hstart : pool.data = c.ptr + c.pageNum * pageSize - pool.remainBytes := by
    rw [hdata]
    exact Nat.mod_eq_of_lt (by omega)
  rw [← hstart] at halign hdis
  have hremain : subU64 pool.remainBytes T.size = pool.remainBytes - T.size :=
    subU64_of_le (by omega) hroom
  have hnext : c.ptr + c.pageNum * pageSize - (pool.remainBytes - T.size) =
      pool.data + T.size := by omega
  refine ⟨⟨halign, by unfold chunkHeaderSize; omega, by omega⟩, fun s hs => ?_, ?_⟩
  · exact (hdis s hs).symm.mono ⟨le_rfl, Nat.add_le_add_left hroom _⟩ ⟨le_rfl, le_rfl⟩
  rw [hremain]
  refine ⟨?_, ?_, ?_, ?_⟩
  · show pool.remainBytes - T.size + chunkHeaderSize ≤ c.pageNum * pageSize
    unfold chunkHeaderSize
    omega
  · show addU64 pool.data T.size = (c.ptr + c.pageNum * pageSize -
      (pool.remainBytes - T.size)) % 2 ^ 64
    rw [hnext]
    rfl
  · show T.align ∣ c.ptr + c.pageNum * pageSize - (pool.remainBytes - T.size)
    rw [hnext]
    exact (Nat.dvd_add_right halign).mpr T.align_dvd
  · show ∀ s ∈ pool.data :: slots, (T.slot s).Disjoint
      ⟨c.ptr + c.pageNum * pageSize - (pool.remainBytes - T.size), pool.remainBytes - T.size⟩
    rw [hnext]
    refine List.forall_mem_cons.mpr ⟨Or.inl le_rfl, fun s hs => ?_⟩
    refine (hdis s hs).mono ⟨le_rfl, le_rfl⟩ ⟨Nat.le_add_right pool.data T.size, ?_⟩
    show pool.data + T.size + (pool.remainBytes - T.size) ≤ pool.data + pool.remainBytes
    omega

/-- **The layout of a pool**, with the free slots in the order of the free list. -/
structure PoolInv (T : PoolType) (st : PoolState) (free : List ℕ) : Prop where
  linked : PoolLinked st.mem st.pool st.chunks free
  header_le : ∀ c ∈ st.chunks, chunkHeaderSize ≤ c.pageNum * pageSize
  end_le : ∀ c ∈ st.chunks, c.ptr + c.pageNum * pageSize ≤ 2 ^ 64
  chunks_disjoint : st.chunks.Pairwise fun c d => c.extent.Disjoint d.extent
  slotOk : ∀ s ∈ st.live ++ free, T.SlotOk st.chunks s
  slots_disjoint : (st.live ++ free).Pairwise fun s t => (T.slot s).Disjoint (T.slot t)
  remain_empty : st.chunks = [] → st.pool.remainBytes = 0
  bump : ∀ c ∈ st.chunks.head?, BumpOk T c (st.live ++ free) st.pool

/-- A write outside the headers and the free slots leaves the lists as they are. -/
lemma PoolLinked.write (T : PoolType) {mem : ByteMemory} {pool : ObjectPool}
    {chunks : List PoolChunk} {free : List ℕ} (h : PoolLinked mem pool chunks free) {e : Extent}
    (hheader : ∀ c ∈ chunks, e.Disjoint c.header) (hfree : ∀ s ∈ free, e.Disjoint (T.slot s))
    (contents : ByteMemory) : PoolLinked (mem.write e contents) pool chunks free := by
  refine ⟨h.chunkList.congr ?_, fun c hc => ?_, h.freeList.congr fun s hs => ?_⟩
  · intro p hp
    obtain ⟨c, hc, rfl⟩ := List.mem_map.mp hp
    refine ByteMemory.loadWord_write ((hheader c hc).mono ⟨le_rfl, le_rfl⟩ ?_) contents
    exact ⟨le_rfl, Nat.add_le_add_left (show 8 ≤ chunkHeaderSize by decide) c.ptr⟩
  · rw [← h.pages c hc]
    refine ByteMemory.loadWord_write ((hheader c hc).mono ⟨le_rfl, le_rfl⟩ ?_) contents
    exact ⟨Nat.le_add_right c.ptr 8, le_rfl⟩
  · refine ByteMemory.loadWord_write ((hfree s hs).mono ⟨le_rfl, le_rfl⟩ ?_) contents
    exact ⟨le_rfl, Nat.add_le_add_left T.pointer_le s⟩

namespace PoolInv

variable {T : PoolType} {st : PoolState} {free : List ℕ}

/-- Two chunks of a pool are the same or disjoint. -/
lemma eq_or_disjoint (h : PoolInv T st free) {c d : PoolChunk} (hc : c ∈ st.chunks)
    (hd : d ∈ st.chunks) : c = d ∨ c.extent.Disjoint d.extent := by
  by_cases heq : c = d
  · exact Or.inl heq
  · have : Std.Symm fun c d : PoolChunk => c.extent.Disjoint d.extent := ⟨fun _ _ hcd => hcd.symm⟩
    exact Or.inr (h.chunks_disjoint.forall hc hd heq)

/-- No slot reaches into a header. -/
lemma slot_disjoint_header (h : PoolInv T st free) {s : ℕ} (hs : T.SlotOk st.chunks s)
    {c : PoolChunk} (hc : c ∈ st.chunks) : (T.slot s).Disjoint c.header := by
  obtain ⟨-, d, hd, hlo, hhi⟩ := hs
  rcases h.eq_or_disjoint hd hc with rfl | hdis
  · exact Or.inr hlo
  · exact hdis.mono ⟨by show d.ptr ≤ s; omega, hhi⟩ ⟨le_rfl,
      Nat.add_le_add_left (h.header_le c hc) c.ptr⟩

/-- Two slots in different places of the lists are disjoint. -/
lemma live_disjoint_free (h : PoolInv T st free) {s t : ℕ} (hs : s ∈ st.live) (ht : t ∈ free) :
    (T.slot s).Disjoint (T.slot t) :=
  (List.pairwise_append.mp h.slots_disjoint).2.2 s hs t ht

/-- A write that only changes memory keeps the layout if it keeps the lists. -/
lemma of_linked (h : PoolInv T st free) {mem : ByteMemory}
    (hl : PoolLinked mem st.pool st.chunks free) : PoolInv T { st with mem } free :=
  ⟨hl, h.header_le, h.end_le, h.chunks_disjoint, h.slotOk, h.slots_disjoint, h.remain_empty, h.bump⟩

/-- **A write inside a live object** keeps the layout. -/
lemma write_live (h : PoolInv T st free) {s : ℕ} (hs : s ∈ st.live) {e : Extent}
    (he : e.Within (T.slot s)) (contents : ByteMemory) :
    PoolInv T { st with mem := st.mem.write e contents } free := by
  refine h.of_linked (h.linked.write T (fun c hc => ?_) (fun t ht => ?_) contents)
  · have hok := h.slotOk s (List.mem_append_left free hs)
    exact (h.slot_disjoint_header hok hc).mono he ⟨le_rfl, le_rfl⟩
  · exact (h.live_disjoint_free hs ht).mono he ⟨le_rfl, le_rfl⟩

/-- **A write outside the chunks** keeps the layout. -/
lemma write_outside (h : PoolInv T st free) {e : Extent}
    (he : ∀ c ∈ st.chunks, e.Disjoint c.extent) (contents : ByteMemory) :
    PoolInv T { st with mem := st.mem.write e contents } free := by
  refine h.of_linked (h.linked.write T (fun c hc => ?_) (fun t ht => ?_) contents)
  · exact (he c hc).mono ⟨le_rfl, le_rfl⟩ ⟨le_rfl, Nat.add_le_add_left (h.header_le c hc) c.ptr⟩
  · obtain ⟨-, d, hd, hlo, hhi⟩ := h.slotOk t (List.mem_append_right st.live ht)
    exact (he d hd).mono ⟨le_rfl, le_rfl⟩ ⟨by show d.ptr ≤ t; omega, hhi⟩

/-- The slots may be listed in another order. -/
lemma of_perm (h : PoolInv T st free) {live free' : List ℕ} {pool : ObjectPool}
    (hperm : (live ++ free').Perm (st.live ++ free)) (hdata : pool.data = st.pool.data)
    (hremain : pool.remainBytes = st.pool.remainBytes)
    (hl : PoolLinked st.mem pool st.chunks free') :
    PoolInv T { st with pool, live } free' where
  linked := hl
  header_le := h.header_le
  end_le := h.end_le
  chunks_disjoint := h.chunks_disjoint
  slotOk s hs := h.slotOk s (hperm.mem_iff.mp hs)
  slots_disjoint := (List.Perm.pairwise_iff (fun hst => hst.symm) hperm).mpr h.slots_disjoint
  remain_empty hc := hremain.trans (h.remain_empty hc)
  bump c hc := by
    obtain ⟨h₁, h₂, h₃, h₄⟩ := h.bump c hc
    rw [← hremain] at h₁ h₂ h₃ h₄
    exact ⟨h₁, hdata.trans h₂, h₃, fun s hs => h₄ s (hperm.mem_iff.mp hs)⟩

/-- **Reuse of a free slot**: the first free slot becomes live. -/
lemma pop (h : PoolInv T st free) (hne : st.pool.freeList ≠ 0) (contents : ByteMemory) :
    ∃ free', PoolInv T
      { st with
        mem := st.mem.write (T.slot st.pool.freeList) contents
        pool := { st.pool with freeList := st.mem.loadWord st.pool.freeList }
        live := st.pool.freeList :: st.live } free' := by
  obtain ⟨free', hfree, hchain⟩ := h.linked.freeList.pop hne
  refine ⟨free', ?_⟩
  have hperm : (st.pool.freeList :: st.live ++ free').Perm (st.live ++ free) := by
    rw [hfree]
    exact List.perm_middle.symm
  have hmoved : PoolInv T { st with
      pool := { st.pool with freeList := st.mem.loadWord st.pool.freeList }
      live := st.pool.freeList :: st.live } free' :=
    h.of_perm hperm rfl rfl ⟨h.linked.chunkList, h.linked.pages, hchain⟩
  exact hmoved.write_live List.mem_cons_self ⟨le_rfl, le_rfl⟩ contents

/-- A slot is a non-null 64-bit address. -/
lemma slot_bounds (h : PoolInv T st free) {s : ℕ} (hs : s ∈ st.live ++ free) :
    s ≠ 0 ∧ s < 2 ^ 64 := by
  obtain ⟨-, c, hc, hlo, hhi⟩ := h.slotOk s hs
  have := h.end_le c hc
  have := T.pointer_le
  unfold chunkHeaderSize at hlo
  omega

/-- **Deletion**: a live slot becomes the first free one. -/
lemma delete (h : PoolInv T st free) {obj : ℕ} (hobj : obj ∈ st.live) (contents : ByteMemory) :
    PoolInv T
      { st with
        mem := (st.pool.delete T obj contents st.mem).1
        pool := (st.pool.delete T obj contents st.mem).2
        live := st.live.erase obj } (obj :: free) := by
  have hwithin : Extent.Within ⟨obj, 8⟩ (T.slot obj) :=
    ⟨le_rfl, Nat.add_le_add_left T.pointer_le obj⟩
  have hstored := (h.write_live hobj ⟨le_rfl, le_rfl⟩ contents).write_live hobj hwithin
    fun b => UInt8.ofNat (st.pool.freeList / 256 ^ (b - obj))
  have hhead : st.pool.freeList < 2 ^ 64 := by
    rcases h.linked.freeList.head_mem with h₀ | hmem
    · rw [h₀]
      decide
    · exact (h.slot_bounds (List.mem_append_right st.live hmem)).2
  have hnull := (h.slot_bounds (List.mem_append_left free hobj)).1
  have hperm : (st.live.erase obj ++ obj :: free).Perm (st.live ++ free) :=
    List.perm_middle.trans ((List.perm_cons_erase hobj).symm.append_right free)
  refine hstored.of_perm hperm rfl rfl ⟨hstored.linked.chunkList, hstored.linked.pages, ?_⟩
  exact hstored.linked.freeList.push hnull (ByteMemory.loadWord_storeWord _ obj hhead)

/-- **A slot cut off the bump region** is live and the region shrinks by it. -/
lemma bump_slot (h : PoolInv T st free) (hroom : T.size ≤ st.pool.remainBytes)
    (contents : ByteMemory) :
    PoolInv T
      { st with
        mem := (st.pool.bump T contents st.mem).1
        pool := (st.pool.bump T contents st.mem).2.1
        live := st.pool.data :: st.live } free := by
  have hpos := T.pointer_le
  obtain ⟨c, cs, hcs⟩ := List.exists_cons_of_ne_nil
    fun hnil => absurd (h.remain_empty hnil) (by omega)
  have hmem : c ∈ st.chunks := hcs ▸ List.mem_cons_self
  obtain ⟨⟨halign, hlo, hhi⟩, hfar, hnext⟩ :=
    (h.bump c (by rw [hcs]; rfl)).cut hroom (h.end_le c hmem)
  have hcut : PoolInv T { st with
      pool := { st.pool with
        data := addU64 st.pool.data T.size, remainBytes := subU64 st.pool.remainBytes T.size }
      live := st.pool.data :: st.live } free :=
    { linked := ⟨h.linked.chunkList, h.linked.pages, h.linked.freeList⟩
      header_le := h.header_le
      end_le := h.end_le
      chunks_disjoint := h.chunks_disjoint
      slotOk := by
        intro s hs
        rcases List.mem_cons.mp hs with rfl | hs
        · exact ⟨halign, c, hmem, hlo, hhi⟩
        · exact h.slotOk s hs
      slots_disjoint := List.pairwise_cons.mpr ⟨hfar, h.slots_disjoint⟩
      remain_empty := fun hnil => absurd (hcs.symm.trans hnil) (List.cons_ne_nil c cs)
      bump := by
        intro d hd
        rw [hcs] at hd
        obtain rfl := Option.some.inj hd
        exact hnext }
  exact hcut.write_live List.mem_cons_self ⟨le_rfl, le_rfl⟩ contents

/-- **A new chunk** in front of the others: its header is linked, and all of it behind the header
and the padding is the bump region. -/
lemma addChunk (h : PoolInv T st free) {ptr : ℕ} (hfresh : st.Fresh T ptr) (hroom : T.RoomAt ptr) :
    PoolInv T
      { st with
        mem := (st.pool.addChunk T ptr st.mem).1
        pool := (st.pool.addChunk T ptr st.mem).2
        chunks := ⟨ptr, T.pageNum⟩ :: st.chunks } free ∧
      T.size ≤ (st.pool.addChunk T ptr st.mem).2.remainBytes := by
  obtain ⟨hpages, hnull, -, hend, hfar⟩ := hfresh
  obtain ⟨hoff, -, halign⟩ := T.dataOffset_spec ptr
  have hsize := T.pointer_le
  unfold PoolType.RoomAt at hroom
  have hlarge : pageSize ≤ T.pageNum * pageSize := Nat.le_mul_of_pos_left pageSize hpages
  have hheader : chunkHeaderSize ≤ T.pageNum * pageSize := Nat.le_trans (by decide) hlarge
  -- both header words are outside the older chunks
  have hwords : ∀ a, ptr ≤ a → a + 8 ≤ ptr + chunkHeaderSize → ∀ c ∈ st.chunks,
      Extent.Disjoint ⟨a, 8⟩ c.extent := by
    intro a hlo hhi c hc
    refine (hfar c hc).symm.mono ⟨hlo, ?_⟩ ⟨le_rfl, le_rfl⟩
    exact Nat.le_trans hhi (Nat.add_le_add_left hheader ptr)
  have hstored := (h.write_outside (hwords ptr le_rfl (Nat.add_le_add_left (by decide) ptr))
    fun b => UInt8.ofNat (st.pool.chunkList / 256 ^ (b - ptr))).write_outside
      (hwords (ptr + 8) (Nat.le_add_right ptr 8) le_rfl)
      fun b => UInt8.ofNat (T.pageNum / 256 ^ (b - (ptr + 8)))
  have hhead : st.pool.chunkList < 2 ^ 64 := by
    rcases h.linked.chunkList.head_mem with h₀ | hmem
    · rw [h₀]
      decide
    · obtain ⟨c, hc, hptr⟩ := List.mem_map.mp hmem
      have h₁ := h.header_le c hc
      have h₂ := h.end_le c hc
      unfold chunkHeaderSize at h₁
      omega
  have hremain : (st.pool.addChunk T ptr st.mem).2.remainBytes =
      T.pageNum * pageSize - T.dataOffset ptr := by
    refine (T.remainAfterAddChunk (by unfold pageSize at *; omega)).trans ?_
    exact subU64_of_le (by unfold pageSize at *; omega) (by omega)
  have hstart : ptr + T.pageNum * pageSize - (T.pageNum * pageSize - T.dataOffset ptr) =
      ptr + T.dataOffset ptr := by omega
  refine ⟨{
    linked := ?_
    header_le := List.forall_mem_cons.mpr ⟨hheader, h.header_le⟩
    end_le := List.forall_mem_cons.mpr ⟨hend, h.end_le⟩
    chunks_disjoint := List.pairwise_cons.mpr ⟨fun c hc => (hfar c hc).symm, h.chunks_disjoint⟩
    slotOk := fun s hs => ?_
    slots_disjoint := h.slots_disjoint
    remain_empty := fun hnil => absurd hnil (List.cons_ne_nil _ _)
    bump := ?_ }, by rw [hremain]; omega⟩
  · refine ⟨hstored.linked.chunkList.push hnull ?_, List.forall_mem_cons.mpr
      ⟨ByteMemory.loadWord_storeWord _ (ptr + 8) ?_, hstored.linked.pages⟩,
      hstored.linked.freeList⟩
    · refine (ByteMemory.loadWord_write (Or.inr le_rfl) _).trans ?_
      exact ByteMemory.loadWord_storeWord _ ptr hhead
    · exact Nat.lt_trans T.pageNum_lt (by decide)
  · obtain ⟨hs₁, c, hc, hs₂⟩ := h.slotOk s hs
    exact ⟨hs₁, c, List.mem_cons_of_mem _ hc, hs₂⟩
  · intro c hc
    obtain rfl := Option.some.inj hc
    refine ⟨?_, ?_, ?_, fun s hs => ?_⟩
    · rw [hremain]
      show T.pageNum * pageSize - T.dataOffset ptr + chunkHeaderSize ≤ T.pageNum * pageSize
      omega
    · rw [hremain, hstart]
      exact T.alignedDataStart_eq ptr
    · rw [hremain, hstart]
      exact halign
    · obtain ⟨-, d, hd, hlo, hhi⟩ := h.slotOk s hs
      rw [hremain, hstart]
      refine (hfar d hd).mono ⟨by show d.ptr ≤ s; omega, hhi⟩ ⟨Nat.le_add_right _ _, ?_⟩
      show ptr + T.dataOffset ptr + (T.pageNum * pageSize - T.dataOffset ptr) ≤
        ptr + T.pageNum * pageSize
      omega

end PoolInv

/-! ## Release -/

/-- **The release loop** passes every chunk to `SystemFree`, in the order of the list.

**Proof sketch.** By induction on the chunks: freeing the first one overwrites its bytes only, and
the headers of the others are elsewhere. -/
lemma ObjectPool.releaseLoop_spec (T : PoolType) (junk : ByteMemory) {chunks : List PoolChunk}
    {mem : ByteMemory} {cur : ℕ} (h : PoolLinked mem { chunkList := cur } chunks [])
    (hheader : ∀ c ∈ chunks, chunkHeaderSize ≤ c.pageNum * pageSize)
    (hdis : chunks.Pairwise fun c d => c.extent.Disjoint d.extent) {fuel : ℕ}
    (hfuel : chunks.length ≤ fuel) :
    ∃ mem', releaseLoop junk fuel mem cur = some (mem', chunks) := by
  induction chunks generalizing mem cur fuel with
  | nil =>
    refine ⟨mem, ?_⟩
    cases fuel <;> exact if_pos h.chunkList
  | cons c cs ih =>
    obtain ⟨fuel, rfl⟩ := Nat.exists_eq_succ_of_ne_zero (Nat.ne_zero_of_lt hfuel)
    obtain ⟨hcur, hnull, hrest⟩ := h.chunkList
    obtain ⟨hfirst, hothers⟩ := List.pairwise_cons.mp hdis
    have htail : PoolLinked mem { chunkList := mem.loadWord c.ptr } cs [] :=
      ⟨hrest, fun d hd => h.pages d (List.mem_cons_of_mem c hd), rfl⟩
    have hfreed := htail.write T (e := c.extent) (fun d hd => (hfirst d hd).mono ⟨le_rfl, le_rfl⟩
      ⟨le_rfl, Nat.add_le_add_left (hheader d (List.mem_cons_of_mem c hd)) d.ptr⟩)
      (fun s hs => absurd hs List.not_mem_nil) junk
    obtain ⟨mem', hmem'⟩ := ih hfreed (fun d hd => hheader d (List.mem_cons_of_mem c hd)) hothers
      (Nat.le_of_succ_le_succ hfuel)
    have hchunk : (⟨c.ptr, mem.loadWord (c.ptr + 8)⟩ : PoolChunk) = c := by
      rw [h.pages c List.mem_cons_self]
    refine ⟨mem', ?_⟩
    change cur = c.ptr at hcur
    subst hcur
    rw [releaseLoop, if_neg hnull]
    simp only [hchunk, hmem', Option.map_some]

/-- `ReleaseMemory` of a pool: the calls of `SystemFree` are its chunks. -/
lemma PoolInv.releaseMemory {T : PoolType} {st : PoolState} {free : List ℕ} (h : PoolInv T st free)
    (junk : ByteMemory) {fuel : ℕ} (hfuel : st.chunks.length ≤ fuel) :
    ∃ mem, st.pool.releaseMemory junk fuel st.mem = some (mem, st.chunks, {}) ∧
      st.pool.destroy junk fuel st.mem = some (mem, st.chunks) := by
  have hl : PoolLinked st.mem { chunkList := st.pool.chunkList } st.chunks [] :=
    ⟨h.linked.chunkList, h.linked.pages, rfl⟩
  obtain ⟨mem, hmem⟩ := ObjectPool.releaseLoop_spec T junk hl h.header_le h.chunks_disjoint hfuel
  refine ⟨mem, ?_, hmem⟩
  rw [ObjectPool.releaseMemory, hmem]
  rfl

/-! ## Runs -/

namespace PoolState

variable (T : PoolType) (st : PoolState)

/-- If the action takes a new chunk, there is room in it for one object. -/
def LeavesRoom : PoolAction → Prop
  | .tryNew answer _ => st.Refills T → st.Fresh T answer → T.RoomAt answer
  | _ => True

variable {T st}

/-- The empty pool. -/
lemma inv_start (T : PoolType) (mem : ByteMemory) : PoolInv T { mem } [] where
  linked := ⟨rfl, fun _ hc => absurd hc List.not_mem_nil, rfl⟩
  header_le _ hc := absurd hc List.not_mem_nil
  end_le _ hc := absurd hc List.not_mem_nil
  chunks_disjoint := List.Pairwise.nil
  slotOk _ hs := absurd hs List.not_mem_nil
  slots_disjoint := List.Pairwise.nil
  remain_empty _ := rfl
  bump _ hc := absurd hc (by simp)

/-- What a `TryNew` can do: reuse a free slot, cut one off the bump region, fail, or take a chunk
and cut the first slot off it. -/
inductive TryNewStep (T : PoolType) (st : PoolState) (answer : ℕ) (contents : ByteMemory) : Prop
  | reuse (h : st.pool.freeList ≠ 0)
      (heq : st.tryNew T answer contents = (st.mem.write (T.slot st.pool.freeList) contents,
        { st.pool with freeList := st.mem.loadWord st.pool.freeList }, st.pool.freeList))
      (hchunks : st.chunksAfter T answer = st.chunks)
  | bump (h : T.size ≤ st.pool.remainBytes)
      (heq : st.tryNew T answer contents = st.pool.bump T contents st.mem)
      (hchunks : st.chunksAfter T answer = st.chunks)
  | fail (heq : st.tryNew T answer contents = (st.mem, st.pool, 0))
      (hchunks : st.chunksAfter T answer = st.chunks)
  | chunk (h : st.Refills T) (hfresh : st.Fresh T answer)
      (heq : st.tryNew T answer contents =
        ObjectPool.bump T contents (st.pool.addChunk T answer st.mem).1
          (st.pool.addChunk T answer st.mem).2)
      (hchunks : st.chunksAfter T answer = ⟨answer, T.pageNum⟩ :: st.chunks)

/-- The branches of `TryNew`: the free list, the chunk, no memory, a new chunk. -/
lemma tryNew_cases (T : PoolType) (st : PoolState) (answer : ℕ) (contents : ByteMemory) :
    TryNewStep T st answer contents := by
  by_cases hfree : st.pool.freeList = 0
  · by_cases hremain : st.pool.remainBytes < T.size
    · by_cases hfresh : st.Fresh T answer
      · refine .chunk ⟨hfree, hremain⟩ hfresh ?_ (if_pos ⟨⟨hfree, hremain⟩, hfresh⟩)
        rw [tryNew, ObjectPool.tryNew, if_neg (not_not.mpr hfree), if_pos hremain, systemAlloc,
          if_pos hfresh, if_neg hfresh.2.1]
      · refine .fail ?_ (if_neg fun h => hfresh h.2)
        rw [tryNew, ObjectPool.tryNew, if_neg (not_not.mpr hfree), if_pos hremain, systemAlloc,
          if_neg hfresh, if_pos rfl]
    · refine .bump (Nat.not_lt.mp hremain) ?_ (if_neg fun h => hremain h.1.2)
      rw [tryNew, ObjectPool.tryNew, if_neg (not_not.mpr hfree), if_neg hremain]
  · refine .reuse hfree ?_ (if_neg fun h => hfree h.1.1)
    rw [tryNew, ObjectPool.tryNew, if_pos hfree]

/-- The result of a `TryNew` that leaves room: a slot, with the layout kept, or null, with nothing
changed. -/
lemma tryNew_spec {free : List ℕ} (h : PoolInv T st free) (answer : ℕ) (contents : ByteMemory)
    (hroom : st.LeavesRoom T (.tryNew answer contents)) :
    ((st.tryNew T answer contents).2.2 ≠ 0 ∧ ∃ free', PoolInv T
        { mem := (st.tryNew T answer contents).1
          pool := (st.tryNew T answer contents).2.1
          live := (st.tryNew T answer contents).2.2 :: st.live
          chunks := st.chunksAfter T answer } free') ∨
      st.tryNew T answer contents = (st.mem, st.pool, 0) ∧ st.chunksAfter T answer = st.chunks := by
  rcases tryNew_cases T st answer contents with
    ⟨hfree, heq, hchunks⟩ | ⟨hremain, heq, hchunks⟩ | ⟨heq, hchunks⟩ |
    ⟨hrefill, hfresh, heq, hchunks⟩
  · refine Or.inl ?_
    rw [heq, hchunks]
    exact ⟨hfree, h.pop hfree contents⟩
  · refine Or.inl ?_
    rw [heq, hchunks]
    have hnew := h.bump_slot hremain contents
    exact ⟨(hnew.slot_bounds (List.mem_append_left free List.mem_cons_self)).1, free, hnew⟩
  · exact Or.inr ⟨heq, hchunks⟩
  · refine Or.inl ?_
    rw [heq, hchunks]
    obtain ⟨hadded, hsize⟩ := h.addChunk hfresh (hroom hrefill hfresh)
    have hnew := hadded.bump_slot hsize contents
    exact ⟨(hnew.slot_bounds (List.mem_append_left free List.mem_cons_self)).1, free, hnew⟩

/-- **One step keeps the layout** if it leaves room. -/
theorem step_inv {free : List ℕ} (h : PoolInv T st free) (a : PoolAction)
    (hroom : st.LeavesRoom T a) : ∃ free', PoolInv T (st.step T a) free' := by
  cases a with
  | tryNew answer contents =>
    rcases tryNew_spec h answer contents hroom with ⟨hne, hnew⟩ | ⟨heq, hchunks⟩
    · rw [step, if_neg hne]
      exact hnew
    · refine ⟨free, ?_⟩
      rw [step, heq, hchunks]
      exact h
  | delete obj contents =>
    by_cases hobj : obj ∈ st.live
    · rw [step, if_pos hobj]
      exact ⟨_, h.delete hobj contents⟩
    · rw [step, if_neg hobj]
      exact ⟨free, h⟩
  | write e contents =>
    by_cases hw : st.Writable T e
    · rw [step, if_pos hw]
      rcases hw with ⟨obj, hobj, he⟩ | hout
      · exact ⟨free, h.write_live hobj he contents⟩
      · exact ⟨free, h.write_outside hout contents⟩
    · rw [step, if_neg hw]
      exact ⟨free, h⟩
  | releaseMemory junk =>
    obtain ⟨mem, hmem, -⟩ := h.releaseMemory junk le_rfl
    rw [step, hmem]
    exact ⟨[], inv_start T mem⟩

end PoolState

/-! ## Safety -/

/-- **What a program can rely on** in a state whose free list holds `free`. -/
structure SlotsSafe (T : PoolType) (st : PoolState) (free : List ℕ) : Prop where
  /-- The slots on the free list. -/
  freeList : Chain st.mem.loadWord 0 st.pool.freeList free
  /-- Slots are aligned and lie inside one chunk behind its header. -/
  slotOk : ∀ s ∈ st.live ++ free, T.SlotOk st.chunks s
  /-- No two slots, live or free, overlap. -/
  disjoint : (st.live ++ free).Pairwise fun s t => (T.slot s).Disjoint (T.slot t)
  /-- No slot reaches into the bump region. -/
  bump_disjoint : ∀ s ∈ st.live ++ free,
    (T.slot s).Disjoint ⟨st.pool.data, st.pool.remainBytes⟩
  /-- `remain_bytes_` has not wrapped: it is what the newest chunk has left from `data_` on. -/
  remain : ∀ c ∈ st.chunks.head?,
    st.pool.remainBytes + chunkHeaderSize ≤ c.pageNum * pageSize ∧
      (0 < st.pool.remainBytes →
        st.pool.data + st.pool.remainBytes = c.ptr + c.pageNum * pageSize)
  remain_empty : st.chunks = [] → st.pool.remainBytes = 0
  /-- A `TryNew` that returns null has changed neither the pool nor the memory. -/
  null_unchanged : ∀ answer contents, st.LeavesRoom T (.tryNew answer contents) →
    (st.tryNew T answer contents).2.2 = 0 →
      st.tryNew T answer contents = (st.mem, st.pool, 0)
  /-- `ReleaseMemory` and the destructor end, and pass to `SystemFree` the chunks with the page
  counts they were obtained with. -/
  release : ∀ junk fuel, st.chunks.length ≤ fuel → ∃ mem,
    st.pool.releaseMemory junk fuel st.mem = some (mem, st.chunks, {}) ∧
      st.pool.destroy junk fuel st.mem = some (mem, st.chunks)
  /-- No chunk is listed twice. -/
  chunks_once : (st.chunks.map PoolChunk.ptr).Nodup

/-- A pool that is laid out in memory is safe to use. -/
lemma PoolInv.slotsSafe {T : PoolType} {st : PoolState} {free : List ℕ} (h : PoolInv T st free) :
    SlotsSafe T st free where
  freeList := h.linked.freeList
  slotOk := h.slotOk
  disjoint := h.slots_disjoint
  bump_disjoint s hs := by
    obtain ⟨-, c, hc, hlo, hhi⟩ := h.slotOk s hs
    obtain ⟨d, ds, hd⟩ := List.exists_cons_of_ne_nil (List.ne_nil_of_mem hc)
    obtain ⟨hle, hdata, -, hdis⟩ := h.bump d (by rw [hd]; rfl)
    have hend := h.end_le d (hd ▸ List.mem_cons_self)
    rcases Nat.lt_or_ge (d.ptr + d.pageNum * pageSize - st.pool.remainBytes) (2 ^ 64) with hlt | hge
    · rw [hdata, Nat.mod_eq_of_lt hlt]
      exact hdis s hs
    · -- an empty region at the very end of the address space
      have hzero : d.ptr + d.pageNum * pageSize - st.pool.remainBytes = 2 ^ 64 := by omega
      refine Or.inr ?_
      show st.pool.data + st.pool.remainBytes ≤ s
      rw [hdata, hzero, Nat.mod_self]
      omega
  remain c hc := by
    obtain ⟨hle, hdata, -, -⟩ := h.bump c hc
    have hend := h.end_le c (List.mem_of_mem_head? hc)
    refine ⟨hle, fun hpos => ?_⟩
    unfold chunkHeaderSize at hle
    rw [hdata, Nat.mod_eq_of_lt (by omega)]
    omega
  remain_empty := h.remain_empty
  null_unchanged answer contents hroom hnull := by
    rcases PoolState.tryNew_spec h answer contents hroom with ⟨hne, -⟩ | ⟨heq, -⟩
    · exact absurd hnull hne
    · exact heq
  release junk _ hfuel := h.releaseMemory junk hfuel
  chunks_once := by
    refine List.pairwise_map.mpr (h.chunks_disjoint.imp_of_mem fun {c d} hc hd hdis heq => ?_)
    have hc' := h.header_le c hc
    have hd' := h.header_le d hd
    unfold Extent.Disjoint PoolChunk.extent at hdis
    unfold chunkHeaderSize at hc' hd'
    dsimp only at hdis
    omega

namespace PoolState

variable {T : PoolType} {st : PoolState}

/-- **A chunk without room breaks the pool**: `remain_bytes_` wraps when the first slot is cut
off.

**Proof sketch.** The slot needs more bytes behind the header than the chunk has, but at most
`2 ^ 64 + 15`, so that the wrapped difference is more than the chunk has behind its header. -/
lemma not_slotsSafe_of_not_leavesRoom {a : PoolAction} {free : List ℕ}
    (h : ¬ st.LeavesRoom T a) : ¬ SlotsSafe T (st.step T a) free := by
  cases a with
  | tryNew answer contents =>
    simp only [LeavesRoom, Classical.not_imp] at h
    obtain ⟨hrefill, hfresh, hroom⟩ := h
    have hptr : answer < 2 ^ 64 := by
      obtain ⟨hpages, -, -, hend, -⟩ := hfresh
      have := Nat.le_mul_of_pos_left pageSize hpages
      unfold pageSize at *
      omega
    have heq : (st.step T (.tryNew answer contents)).pool.remainBytes =
        subU64 (subU64 (T.pageNum * pageSize) (T.dataOffset answer)) T.size := by
      rw [← T.remainAfterAddChunk hptr]
      show (st.tryNew T answer contents).2.1.remainBytes = _
      rw [tryNew, ObjectPool.tryNew, if_neg (not_not.mpr hrefill.1), if_pos hrefill.2, systemAlloc,
        if_pos hfresh, if_neg hfresh.2.1]
      rfl
    have hhead : ⟨answer, T.pageNum⟩ ∈ (st.step T (.tryNew answer contents)).chunks.head? := by
      show _ ∈ (st.chunksAfter T answer).head?
      rw [chunksAfter, if_pos ⟨hrefill, hfresh⟩]
      rfl
    intro hsafe
    have hle := (hsafe.remain _ hhead).1
    rw [heq] at hle
    have hoff := (T.dataOffset_spec answer).2.1
    have hsum := T.size_add_align_le
    have hpos := T.align_pos
    have hpages := hfresh.1
    have hend := hfresh.2.2.2.1
    unfold PoolType.RoomAt at hroom
    unfold subU64 chunkHeaderSize pageSize at *
    dsimp only at hle
    omega
  | delete | write | releaseMemory => exact absurd trivial h

/-- **A run is safe exactly as long as its chunks leave room**: all states of a run of `TryNew`
(with `SystemAlloc` failing or returning fresh ranges), `Delete`, writes by the program and
`ReleaseMemory` are safe if and only if every chunk that a `TryNew` of the run takes has room for
one aligned object behind its header. -/
lemma forall_slotsSafe_iff (T : PoolType) (mem : ByteMemory) (as : List PoolAction) :
    (∀ bs, bs <+: as → ∃ free, SlotsSafe T ((machine T).run { mem } bs) free) ↔
      Machine.Guarded (machine T) (fun st a => st.LeavesRoom T a) { mem } as := by
  refine Machine.forall_prefix_iff_guarded (P := fun st => ∃ free, SlotsSafe T st free)
    (I := fun st => ∃ free, PoolInv T st free) ?_ ?_ ?_ ⟨[], inv_start T mem⟩ as
  · rintro st ⟨free, h⟩
    exact ⟨free, h.slotsSafe⟩
  · rintro st a ⟨free, h⟩ hroom
    exact step_inv h a hroom
  · rintro st a - hroom ⟨free, hsafe⟩
    exact not_slotsSafe_of_not_leavesRoom hroom hsafe

/-- It is enough that page-aligned chunks leave room. -/
lemma leavesRoom_of_roomAt (h : ∀ ptr, pageSize ∣ ptr → T.RoomAt ptr) (st : PoolState)
    (a : PoolAction) : st.LeavesRoom T a := by
  cases a with
  | tryNew answer contents => exact fun _ hfresh => h answer hfresh.2.2.1
  | delete | write | releaseMemory => trivial

/-- **Slot safety.** Let the computation of the chunk size not wrap: with the header, the objects
(`CHUNK_SIZE` bytes of them, but at least ten), the alignment and the rounding to pages it stays
below `2 ^ 64`. Then along every run of `TryNew` (with `SystemAlloc` failing or returning fresh
ranges), `Delete`, writes by the program and `ReleaseMemory` the pool is safe, and a `TryNew` that
returns null leaves the pool and the memory as they are. -/
theorem slot_safety (T : PoolType) (hwrap : T.NoWrap) (mem : ByteMemory) (as : List PoolAction) :
    let st := (machine T).run { mem } as
    (∃ free, SlotsSafe T st free) ∧
      ∀ answer contents, (st.tryNew T answer contents).2.2 = 0 →
        st.tryNew T answer contents = (st.mem, st.pool, 0) := by
  intro st
  have hroom := leavesRoom_of_roomAt fun ptr _ => hwrap.roomAt ptr
  obtain ⟨free, hsafe⟩ := (forall_slotsSafe_iff T mem as).mpr
    (Machine.guarded_of_forall hroom _ as) as (List.prefix_refl as)
  exact ⟨⟨free, hsafe⟩, fun answer contents hnull =>
    hsafe.null_unchanged answer contents (hroom st _) hnull⟩

/-- The pool of the page-sized, page-aligned radix nodes, with the default `CHUNK_SIZE`. -/
def radixNodePool : PoolType where
  size := 4096
  align := 4096
  chunkSize := 65536
  align_pow := ⟨12, rfl⟩
  align_dvd := dvd_rfl
  pointer_le := by decide
  size_lt := by decide
  chunkSize_lt := by decide

/-- Radix nodes: two are built, the first one is deleted and its slot is reused. -/
theorem slot_safety_radixNodes :
    let st := (machine radixNodePool).run { mem := fun _ => 0 }
      [.tryNew 4096 fun _ => 1, .tryNew 0 fun _ => 2, .delete 8192 fun _ => 3,
        .tryNew 0 fun _ => 4]
    radixNodePool.NoWrap ∧ st.live = [8192, 12288] ∧ st.chunks = [⟨4096, 18⟩] ∧
      ∃ free, SlotsSafe radixNodePool st free :=
  ⟨by decide, by decide +kernel, by decide +kernel,
    (slot_safety radixNodePool (by decide) _ _).1⟩

/-- Word-sized objects with the largest `CHUNK_SIZE`: `needed_bytes` wraps to 15. -/
def wrappedWordPool : PoolType where
  size := 8
  align := 8
  chunkSize := 2 ^ 64 - 1
  align_pow := ⟨3, rfl⟩
  align_dvd := dvd_rfl
  pointer_le := by decide
  size_lt := by decide
  chunkSize_lt := by decide

/-- **A wrapped chunk size can be safe all the same**: the one page of a chunk has room for
small objects. -/
lemma wrappedWordPool_safe (mem : ByteMemory) (as : List PoolAction) :
    ¬ wrappedWordPool.NoWrap ∧
      ∃ free, SlotsSafe wrappedWordPool ((machine wrappedWordPool).run { mem } as) free := by
  refine ⟨by decide, ?_⟩
  have hroom : ∀ ptr, pageSize ∣ ptr → wrappedWordPool.RoomAt ptr := by
    rintro ptr ⟨m, rfl⟩
    have hpages : wrappedWordPool.pageNum = 1 := by decide
    rw [PoolType.RoomAt, hpages]
    simp only [PoolType.dataOffset, wrappedWordPool, chunkHeaderSize, pageSize]
    omega
  exact (forall_slotsSafe_iff _ mem as).mpr
    (Machine.guarded_of_forall (leavesRoom_of_roomAt hroom) _ as) as (List.prefix_refl as)

/-- A page-sized, page-aligned type with the largest `CHUNK_SIZE`: `needed_bytes` wraps to 15. -/
def wrappingPool : PoolType where
  size := 4096
  align := 4096
  chunkSize := 2 ^ 64 - 1
  align_pow := ⟨12, rfl⟩
  align_dvd := dvd_rfl
  pointer_le := by decide
  size_lt := by decide
  chunkSize_lt := by decide

/-- The first object of that pool lies behind the end of its one-page chunk, and `remain_bytes_`
has wrapped. -/
theorem wrappingPool_first_slot :
    let st := (machine wrappingPool).run { mem := fun _ => 0 } [.tryNew 4096 fun _ => 1]
    wrappingPool.neededBytes = 15 ∧ st.chunks = [⟨4096, 1⟩] ∧ st.live = [8192] ∧
      st.pool.remainBytes = 2 ^ 64 - 4096 ∧ ¬ ∃ free, SlotsSafe wrappingPool st free := by
  refine ⟨by decide, by decide, by decide, by decide, ?_⟩
  rintro ⟨free, hsafe⟩
  exact absurd (hsafe.remain ⟨4096, 1⟩ (by decide)).1 (by decide)

end PoolState

end Ammalloc
