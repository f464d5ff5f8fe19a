import Ammalloc.Allocator.Invariant

set_option relaxedAutoImplicit false
set_option autoImplicit false

/-!
# Every run keeps the invariant of the allocator

One lemma for each thing a thread can do: begin an `am_malloc`, begin an `am_free`, go on with
either. No check fails on the way, whatever the page source answers.

## Main results

* `Ammalloc.Allocator.Inv.amMalloc`, `Inv.amFree`, `Inv.threadStep` — the three kinds of steps.
* `Ammalloc.Allocator.run_inv` — the invariant holds along every run.
-/

namespace Ammalloc

open SizeClass (kNumSizeClasses)
open PageCache (ScavPc ScavInv)

namespace Allocator

variable {n t : ℕ} {st st' : Allocator}

/-! ## Threads outside their ThreadCache -/

/-- The invariant of the CentralCache, seen from the call of thread `t`. -/
lemma Inv.central_of_pc (h : Inv n st) (ht : t < n) : st.central.Inv st.scav.chain
    ((st.threads t).pc.objs + ((st.threads t).cached + (liveObjs st.live + restObjs n t st)))
    ((st.threads t).pc.spans + (liveSpans st.live + restSpans n t st)) none := by
  have hinv := h.central_of ht
  rwa [Thread.objs, add_assoc] at hinv

/-- The frame rule for a thread that keeps its ThreadCache. -/
lemma Inv.actPc (h : Inv n st) (ht : t < n) {central : CentralCache} {live : List Block}
    {pc : ThreadPc}
    (hinv : central.Inv st.scav.chain
      (pc.objs + ((st.threads t).cached + (liveObjs live + restObjs n t st)))
      (pc.spans + (liveSpans live + restSpans n t st)) none)
    (hkeep : st.central.Keeps central st.scav.chain (restSpans n t st))
    (hth : ThreadOk central { st.threads t with pc := pc })
    (hblocks : ∀ b ∈ live, BlockOk central b) :
    Inv n ({ st with central := central, live := live }.setPc t pc) := by
  refine h.act ht rfl rfl rfl ?_ hkeep hth hblocks
  rw [Thread.objs, add_assoc]
  exact hinv

/-- A thread moves, and what it held and the users had is all there. -/
lemma Inv.setPc (h : Inv n st) (ht : t < n) {pc : ThreadPc} {live : List Block}
    (hobjs : pc.objs + liveObjs live = (st.threads t).pc.objs + liveObjs st.live)
    (hspans : pc.spans + liveSpans live = (st.threads t).pc.spans + liveSpans st.live)
    (hth : ThreadOk st.central { st.threads t with pc := pc })
    (hblocks : ∀ b ∈ live, BlockOk st.central b) :
    Inv n ({ st with live := live }.setPc t pc) := by
  have hinv := h.central_of_pc ht
  refine h.actPc ht ?_ (CentralCache.Keeps.of_eq rfl) hth hblocks
  rw [add_left_comm, ← add_assoc pc.objs, hobjs, ← add_assoc pc.spans, hspans, add_assoc, add_assoc,
    ← add_left_comm]
  exact hinv

/-- The invariant of the CentralCache, seen from a thread that makes no call. -/
lemma Inv.central_of_idle (h : Inv n st) (ht : t < n) (hidle : (st.threads t).pc = .idle) :
    st.central.Inv st.scav.chain ((st.threads t).cached + (liveObjs st.live + restObjs n t st))
      (liveSpans st.live + restSpans n t st) none := by
  have hinv := h.central_of ht
  simpa [Thread.objs, hidle, ThreadPc.objs, ThreadPc.spans, ThreadPc.frame] using hinv

/-- The ThreadCache of a thread that makes no call. -/
lemma Inv.pcInv_of_idle (h : Inv n st) (ht : t < n) (hidle : (st.threads t).pc = .idle)
    {tc : ThreadCache} (htc : (st.threads t).ptls = some tc) : tc.PcInv 1 .idle := by
  have hpc := (h.threads t ht).tc tc htc
  rwa [hidle] at hpc

/-- `CreateThreadCache` returns the old cache or an empty one. -/
lemma Inv.createThreadCache (h : Inv n st) (ht : t < n) (hidle : (st.threads t).pc = .idle)
    {mapped : Bool} {tc : ThreadCache} {stat : ℕ}
    (hcreate : st.createThreadCache t mapped = some (tc, stat)) :
    tc.objs = (st.threads t).cached ∧ tc.PcInv 1 .idle := by
  unfold Allocator.createThreadCache at hcreate
  cases hptls : (st.threads t).ptls with
  | some tc₀ =>
    simp only [hptls] at hcreate
    split_ifs at hcreate
    obtain ⟨rfl, -⟩ := Prod.mk.inj (Option.some.inj hcreate)
    exact ⟨by simp [Thread.cached, hptls], h.pcInv_of_idle ht hidle hptls⟩
  | none =>
    simp only [hptls] at hcreate
    split_ifs at hcreate
    obtain rfl :
        (ThreadCache.create ThreadCache.kDefaultCacheBudgetBytes st.trimRequest st.stat).1 =
      tc := by rw [Option.some.inj hcreate]
    refine ⟨?_, ThreadCache.create_spec 1 (by decide) _ _⟩
    simp [Thread.cached, hptls, ThreadCache.objs, ThreadCache.create]

/-! ## `am_malloc` -/

/-- `Allocate` begins. -/
lemma Inv.allocate (h : Inv n st) (ht : t < n) (hidle : (st.threads t).pc = .idle)
    {tc : ThreadCache} (hobjs : tc.objs = (st.threads t).cached) (hpc : tc.PcInv 1 .idle)
    (stat : ℕ) {m : ℕ} (hm : m ≤ maxTcSize) :
    Inv n (st.commit t (.malloc m) (tc.allocate stat (SizeClass.index m))) := by
  have hinv := h.central_of_idle ht hidle
  rw [← hobjs, ← add_zero tc.objs] at hinv
  have hidx := SizeClass.index_lt hm
  have hstep : tc.StepOk 1 stat _ := ThreadCache.allocate_spec hpc hidx
  refine h.commit ht hinv h.blocks (ThreadCache.allocate_moves hidx) hstep rfl ?_
    (by simp [TcCaller.empties])
  rintro _ ⟨rfl⟩
  exact hm

/-- The beginning of `am_malloc_slow_path` keeps the invariant. -/
lemma Inv.amMallocSlowPath (h : Inv n st) (ht : t < n) (hidle : (st.threads t).pc = .idle)
    (m : ℕ) (mapped : Bool) : Inv n (st.amMallocSlowPath t m mapped) := by
  unfold Allocator.amMallocSlowPath
  split_ifs with hlarge hmax
  · exact h
  · refine h.setPc ht ?_ ?_
      ⟨fun tc htc => h.pcInv_of_idle ht hidle htc, ?_, ?_, ?_, ?_, ?_⟩ h.blocks
    · simp [hidle, ThreadPc.objs, ThreadPc.frame]
    · simp [hidle, ThreadPc.spans, ThreadPc.frame]
    · simp [ThreadPc.frame]
    · simp
    · rintro _ ⟨rfl⟩
      exact ⟨hlarge, not_lt.mp hmax⟩
    · simp
    · simp
  · cases hcreate : st.createThreadCache t mapped with
    | none => exact h
    | some r =>
      obtain ⟨tc, stat⟩ := r
      obtain ⟨hobjs, hpc⟩ := h.createThreadCache ht hidle hcreate
      exact h.allocate ht hidle hobjs hpc stat (not_lt.mp hlarge)

/-- **`am_malloc` begins.** -/
lemma Inv.amMalloc (h : Inv n st) (ht : t < n) (hidle : (st.threads t).pc = .idle) (m : ℕ)
    (mapped : Bool) : Inv n (st.amMalloc t m mapped) := by
  unfold Allocator.amMalloc
  cases hptls : (st.threads t).ptls with
  | none => exact h.amMallocSlowPath ht hidle m mapped
  | some tc =>
    simp only
    split_ifs with hlarge
    · exact h.amMallocSlowPath ht hidle m mapped
    · exact h.allocate ht hidle (by simp [Thread.cached, hptls]) (h.pcInv_of_idle ht hidle hptls) _
        (not_lt.mp hlarge)

/-! ## `am_free` -/

/-- `am_free` of a pointer that passes the checks both paths share. -/
lemma amFree_of_checks (st : Allocator) {hardened mapped : Bool} {ptr i : ℕ} {s : Span}
    (h₀ : ptr ≠ 0) (hget : st.central.pageCache.pageMap.getSpan (ptr >>> pageShift) = some i)
    (hs : st.central.pageCache.spans i = some s) (hused : s.used = true)
    (hcov : s.Covers (ptr >>> pageShift))
    (hclass : s.alignedObjSize = 0 ∨ (s.sizeClassIdx < kNumSizeClasses ∧
      SizeClass.size s.sizeClassIdx = s.alignedObjSize)) :
    st.amFree hardened t ptr mapped =
      match (st.threads t).ptls with
      | none => st.amFreeSlowPath hardened t ptr i s s.alignedObjSize s.sizeClassIdx mapped
      | some tc =>
        if s.alignedObjSize = 0 then
          st.amFreeSlowPath hardened t ptr i s s.alignedObjSize s.sizeClassIdx mapped
        else
          hcheck hardened (s.objectSlotOf ptr ≠ sizeMax) "Invalid small-object pointer." >>=
            fun _ => st.deallocate hardened t tc st.stat ptr s.sizeClassIdx := by
  obtain ⟨h₁, h₂⟩ := hcov
  have hpage : ptr >>> pageShift ≥ s.startPageIdx ∧
      ptr >>> pageShift - s.startPageIdx < s.pageNum := ⟨h₁, by omega⟩
  simp only [amFree, if_neg h₀, hget, PageCache.deref, hs, bind, Except.bind]
  rewrite [Span.hcheck_true hused, Span.hcheck_true (by simpa using hpage),
    Span.hcheck_true (by simpa using hclass)]
  rfl

/-- The object of a small block is a used slot of a span of its class. -/
lemma Inv.small_home (h : Inv n st) {b : Block} (hb : b ∈ st.live) (hspan : b.span = none) :
    ∃ i s k, CentralCache.Borrowed st.central.pageCache st.scav.chain i s ∧
      s.Carved (SizeClass.index b.request) ∧ k < s.capacity ∧ s.slotAddr k = b.ptr := by
  have hle : b.objs ≤ liveObjs st.live :=
    List.single_le_sum (fun _ _ => Multiset.zero_le _) _ (List.mem_map_of_mem hb)
  have hmem : (SizeClass.index b.request, b.ptr) ∈ liveObjs st.live :=
    Multiset.mem_of_le hle (by simp [Block.objs, hspan])
  exact h.central.home (Multiset.mem_add.mpr (Or.inr hmem))

/-- The span of a large block is in use. -/
lemma Inv.large_home (h : Inv n st) {b : Block} (hb : b ∈ st.live) {i : ℕ}
    (hspan : b.span = some i) :
    ∃ s, CentralCache.Borrowed st.central.pageCache st.scav.chain i s ∧ PageCache.Clean s ∧
      s.pageNum = requestPages b.request ∧ s.getPageBaseAddr = b.ptr := by
  have hmem : i ∈ liveSpans st.live :=
    Multiset.mem_of_le (spans_le_liveSpans hb) (by simp [Block.spans, hspan])
  obtain ⟨s, hs, -⟩ := h.central.offList i (Multiset.mem_add.mpr (Or.inr hmem))
  obtain ⟨-, -, t, ht, hclean⟩ := (h.blocks b hb).large i hspan
  obtain rfl : t = s := Option.some.inj (ht.symm.trans hs.spans)
  exact ⟨t, hs, hclean⟩

/-- `am_malloc` returns null only to report a failure. -/
lemma Inv.ptr_ne_zero (h : Inv n st) {b : Block} (hb : b ∈ st.live) : b.ptr ≠ 0 := by
  cases hspan : b.span with
  | none =>
    obtain ⟨i, s, k, hs, -, -, he⟩ := h.small_home hb hspan
    have hpos := h.central.pages.getPageBaseAddr_pos hs.spans
    rw [← he, Span.slotAddr, Span.getDataBasePtr]
    omega
  | some i =>
    obtain ⟨s, hs, -, -, he⟩ := h.large_home hb hspan
    have hpos := h.central.pages.getPageBaseAddr_pos hs.spans
    omega

/-- A live block leaves the list. -/
lemma liveObjs_of_perm {live live' : List Block} {b : Block} (h : live.Perm (b :: live')) :
    liveObjs live = b.objs + liveObjs live' ∧ liveSpans live = b.spans + liveSpans live' := by
  constructor
  · rw [liveObjs, (h.map Block.objs).sum_eq]
    simp [liveObjs]
  · rw [liveSpans, (h.map Block.spans).sum_eq]
    simp [liveSpans]

/-- `Deallocate` begins, with an object that nobody else has. -/
lemma Inv.deallocate (h : Inv n st) (hardened : Bool) (ht : t < n) {live : List Block}
    {tc : ThreadCache} {ptr idx : ℕ} (hidx : idx < kNumSizeClasses)
    (hinv : st.central.Inv st.scav.chain
      (tc.objs + {(idx, ptr)} + (liveObjs live + restObjs n t st))
      (liveSpans live + restSpans n t st)
      none)
    (hblocks : ∀ b ∈ live, BlockOk st.central b) (hpc : tc.PcInv 1 .idle) (stat : ℕ) :
    ∃ st', { st with live := live }.deallocate hardened t tc stat ptr idx = .ok st' ∧
      Inv n st' := by
  have hstep : tc.StepOk 1 stat _ := ThreadCache.deallocate_spec hpc hidx ptr
  have hcommit : Inv n ({ st with live := live }.commit t .free (tc.deallocate stat ptr idx)) :=
    h.commit ht hinv hblocks (ThreadCache.deallocate_moves hidx ptr) hstep rfl
      (by simp [TcCaller.request]) (by simp [TcCaller.empties])
  refine ⟨_, ?_, hcommit⟩
  simp only [Allocator.deallocate, Span.hcheck_true (decide_eq_true hidx), bind, Except.bind]
  rfl

/-- **`am_free` of a small block** begins: the span of the block is found, every check passes. -/
lemma Inv.freeSmall (h : Inv n st) (hardened : Bool) (ht : t < n)
    (hidle : (st.threads t).pc = .idle) {b : Block} {live : List Block}
    (hperm : st.live.Perm (b :: live)) (hspan : b.span = none) (mapped : Bool) :
    ∃ st', { st with live := live }.amFree hardened t b.ptr mapped = .ok st' ∧ Inv n st' := by
  have hinv := h.central_of_idle ht hidle
  obtain ⟨hlo, hls⟩ := liveObjs_of_perm hperm
  have hobj : b.objs = {(SizeClass.index b.request, b.ptr)} := by simp [Block.objs, hspan]
  have hbs : b.spans = 0 := by simp [Block.spans, hspan]
  rw [hlo, hls, hobj, hbs, zero_add, add_assoc, ← add_assoc] at hinv
  have hblocks : ∀ b' ∈ live, BlockOk st.central b' := fun b' hb' =>
    h.blocks b' (hperm.mem_iff.mpr (List.mem_cons_of_mem b hb'))
  have hb : b ∈ st.live := hperm.mem_iff.mpr List.mem_cons_self
  obtain ⟨i, s, k, hs, hcs, hk, he⟩ := h.small_home hb hspan
  have hcov := hcs.covers_slot hk
  rw [he] at hcov
  have hclass : s.sizeClassIdx < kNumSizeClasses ∧
      SizeClass.size s.sizeClassIdx = s.alignedObjSize := by
    rw [hcs.class_idx, hcs.obj_size]
    exact ⟨hcs.idx_lt, rfl⟩
  have hsize := hcs.size_pos
  rw [amFree_of_checks { st with live := live } (h.ptr_ne_zero hb)
    ((hinv.pages.getSpan_iff _ i).mpr ⟨s, hs.spans, hcov⟩) hs.spans hs.used hcov (Or.inr hclass)]
  rw [hcs.class_idx]
  cases hptls : (st.threads t).ptls with
  | none =>
    simp only [amFreeSlowPath, if_neg hsize.ne']
    have hsame : { st with live := live }.createThreadCache t mapped =
      st.createThreadCache t mapped := rfl
    rw [hsame]
    cases hcreate : st.createThreadCache t mapped with
    | none =>
      -- the object goes straight to the CentralCache
      refine ⟨_, rfl, h.setPc ht ?_ ?_ ?_ hblocks⟩
      · rw [hlo, hobj]
        simp [hidle, ThreadPc.objs, ThreadPc.frame, CentralFrame.objs, ReleasePc.objs]
      · rw [hls, hbs]
        simp [hidle, ThreadPc.spans, ThreadPc.frame, CentralFrame.spans, ReleasePc.spans]
      · refine ⟨by simp [hptls], ?_, by simp, by simp, ?_, by simp⟩
        · rintro f ⟨rfl⟩
          exact hcs.idx_lt
        · rintro f ⟨rfl⟩
          simp
    | some r =>
      obtain ⟨tc, stat⟩ := r
      obtain ⟨hobjs, hpc⟩ := h.createThreadCache ht hidle hcreate
      rw [← hobjs] at hinv
      exact h.deallocate hardened ht hcs.idx_lt hinv hblocks hpc stat
  | some tc =>
    have hslot : s.objectSlotOf b.ptr ≠ sizeMax := by
      rw [← he, hcs.objectSlotOf_slotAddr hk]
      have := hcs.capacity_le
      unfold uint32Max at this
      unfold sizeMax
      omega
    simp only [if_neg hsize.ne', Span.hcheck_true (decide_eq_true hslot), bind, Except.bind]
    have hcached : (st.threads t).cached = tc.objs := by simp [Thread.cached, hptls]
    rw [hcached] at hinv
    exact h.deallocate hardened ht hcs.idx_lt hinv hblocks (h.pcInv_of_idle ht hidle hptls) st.stat

/-- **`am_free` of a large block** begins. -/
lemma Inv.freeLarge (h : Inv n st) (hardened : Bool) (ht : t < n)
    (hidle : (st.threads t).pc = .idle) {b : Block} {live : List Block}
    (hperm : st.live.Perm (b :: live)) {i : ℕ} (hspan : b.span = some i) (mapped : Bool) :
    ∃ st', { st with live := live }.amFree hardened t b.ptr mapped = .ok st' ∧ Inv n st' := by
  obtain ⟨hlo, hls⟩ := liveObjs_of_perm hperm
  have hb : b ∈ st.live := hperm.mem_iff.mpr List.mem_cons_self
  obtain ⟨s, hs, ⟨hsize, -⟩, -, he⟩ := h.large_home hb hspan
  have hpos := (h.central.pages.spanOk i s hs.spans).pos
  have hcov : s.Covers (b.ptr >>> pageShift) := by
    rw [← he, Span.getPageBaseAddr, Nat.shiftLeft_shiftRight]
    exact ⟨le_rfl, by omega⟩
  have hrun : { st with live := live }.amFreeSlowPath hardened t b.ptr i s s.alignedObjSize
      s.sizeClassIdx mapped = .ok ({ st with live := live }.setPc t (.releaseSpan i)) := by
    simp only [amFreeSlowPath, if_pos hsize, Span.hcheck_true (decide_eq_true he.symm), bind,
      Except.bind]
    rfl
  rw [amFree_of_checks { st with live := live } (h.ptr_ne_zero hb)
    ((h.central.pages.getSpan_iff _ i).mpr ⟨s, hs.spans, hcov⟩) hs.spans hs.used hcov
    (Or.inl hsize), hrun]
  refine ⟨{ st with live := live }.setPc t (.releaseSpan i),
    by cases (st.threads t).ptls <;> simp [hsize], h.setPc ht ?_ ?_ ?_ ?_⟩
  · rw [hlo]
    simp [hidle, ThreadPc.objs, ThreadPc.frame, Block.objs, hspan]
  · rw [hls]
    simp [hidle, ThreadPc.spans, ThreadPc.frame, Block.spans, hspan]
  · exact ⟨fun tc htc => h.pcInv_of_idle ht hidle htc, by simp [ThreadPc.frame], by simp, by simp,
      by simp, by simp⟩
  · exact fun b' hb' => h.blocks b' (hperm.mem_iff.mpr (List.mem_cons_of_mem b hb'))

/-- **`am_free` begins**, with null or a live pointer. -/
lemma Inv.amFree (h : Inv n st) (hardened : Bool) (ht : t < n)
    (hidle : (st.threads t).pc = .idle) {ptr : ℕ} (hptr : ptr = 0 ∨ ∃ b ∈ st.live, b.ptr = ptr)
    (mapped : Bool) :
    ∃ st', { st with live := st.live.eraseP fun b => b.ptr = ptr }.amFree hardened t ptr mapped =
      .ok st' ∧ Inv n st' := by
  rcases hptr with rfl | ⟨b₀, hb₀, hb₀ptr⟩
  · have hnone : st.live.eraseP (fun b => b.ptr = 0) = st.live :=
      List.eraseP_of_forall_not fun b hb => by simpa using h.ptr_ne_zero hb
    rw [hnone]
    exact ⟨st, by simp [Allocator.amFree], h⟩
  · obtain ⟨b, l₁, l₂, -, hb, hlive, herase⟩ :=
      List.exists_of_eraseP (p := fun b : Block => decide (b.ptr = ptr)) hb₀ (by simpa using hb₀ptr)
    obtain rfl := of_decide_eq_true hb
    have hperm : st.live.Perm (b :: (l₁ ++ l₂)) := by
      rw [hlive]
      exact List.perm_middle
    rw [herase]
    cases hspan : b.span with
    | none => exact h.freeSmall hardened ht hidle hperm hspan mapped
    | some i => exact h.freeLarge hardened ht hidle hperm hspan mapped

/-! ## The rest of a call -/

/-- A thread that steps back out of the page layer. -/
lemma Inv.idleOk (h : Inv n st) (ht : t < n) (htc : (st.threads t).pc.tcPc = .idle)
    (c : CentralCache) : ThreadOk c { st.threads t with pc := .idle } := by
  have hpc : ({ st.threads t with pc := .idle } : Thread).pc = TcCaller.free.after := rfl
  refine threadOk_return hpc (fun tc hptls => ?_) (by simp [TcCaller.empties])
  have hinv := (h.threads t ht).tc tc hptls
  rwa [htc] at hinv

/-- `AllocSpan` of a large request. -/
lemma Inv.allocSpanStep (h : Inv n st) (hardened : Bool) (ht : t < n) {m : ℕ}
    (hpc : (st.threads t).pc = .allocSpan m) (env : PageEnv) :
    ∃ st', st.threadStep hardened t env = .ok st' ∧ Inv n st' := by
  have hinv := h.central_of_pc ht
  have hok := (h.threads t ht).allocSpan m hpc
  have hidle := h.idleOk ht (by rw [hpc]; rfl)
  simp only [hpc, ThreadPc.objs, ThreadPc.spans, ThreadPc.frame, Option.elim_none,
    zero_add] at hinv
  obtain ⟨r, pc, hrun, hkeep, hnone, hsome⟩ := hinv.allocSpan env (requestPages m)
  have hblocks : ∀ b ∈ st.live, BlockOk { st.central with pageCache := pc } b :=
    blocks_mono h.blocks fun j hj => hkeep.spans j (Or.inl (Multiset.mem_add.mpr (Or.inl hj)))
  have hrest := hkeep.mono fun j hj => Multiset.mem_add.mpr (Or.inr hj)
  simp only [Allocator.threadStep, hpc, hrun, bind, Except.bind]
  cases r with
  | none =>
    refine ⟨_, rfl, h.actPc ht ?_ hrest (hidle _) hblocks⟩
    simpa [ThreadPc.objs, ThreadPc.spans, ThreadPc.frame] using hnone rfl
  | some i =>
    obtain ⟨hinv', s, hs, hnum, hclean⟩ := hsome i rfl
    simp only [PageCache.deref, hs]
    have hstep : Inv n ({ st with
        central := { st.central with pageCache := pc }
        live := { ptr := s.getPageBaseAddr, request := m, span := some i } :: st.live }.setPc t
          .idle) := by
      refine h.actPc ht ?_ hrest (hidle _) fun b hb => ?_
      · simpa [ThreadPc.objs, ThreadPc.spans, ThreadPc.frame, liveObjs, liveSpans, Block.objs,
          Block.spans] using hinv'
      · rcases List.mem_cons.mp hb with rfl | hb
        · refine ⟨by simp, ?_⟩
          rintro _ ⟨rfl⟩
          exact ⟨hok.1, hok.2, s, hs, hclean, hnum, rfl⟩
        · exact hblocks b hb
    exact ⟨_, rfl, hstep⟩

/-- `ReleaseSpan` of a large block. -/
lemma Inv.releaseSpanStep (h : Inv n st) (hardened : Bool) (ht : t < n) {i : ℕ}
    (hpc : (st.threads t).pc = .releaseSpan i) (env : PageEnv) :
    ∃ st', st.threadStep hardened t env = .ok st' ∧ Inv n st' := by
  have hinv := h.central_of_pc ht
  have hidle := h.idleOk ht (by rw [hpc]; rfl)
  simp only [hpc, ThreadPc.objs, ThreadPc.spans, ThreadPc.frame, Option.elim_none, zero_add,
    Multiset.singleton_add] at hinv
  obtain ⟨pc, hrun, hinv', hkeep⟩ := hinv.releaseSpan env
  simp only [Allocator.threadStep, hpc, hrun, bind, Except.bind]
  refine ⟨_, rfl, h.actPc ht ?_ (hkeep.mono fun j hj => Multiset.mem_add.mpr (Or.inr hj))
    (hidle _) (blocks_mono h.blocks fun j hj =>
      hkeep.spans j (Or.inl (Multiset.mem_add.mpr (Or.inl hj))))⟩
  simpa [ThreadPc.objs, ThreadPc.spans, ThreadPc.frame] using hinv'

/-- **A lock section of a call into the CentralCache.** -/
lemma Inv.sectionStep (h : Inv n st) (hardened : Bool) (ht : t < n) {f : CentralFrame}
    (hf : (st.threads t).pc.frame = some f) (env : PageEnv) :
    ∃ central f', st.central.step hardened env f = .ok (central, f') ∧
      st.central.StepPost st.scav.chain f
        ((st.threads t).cached + (liveObjs st.live + restObjs n t st))
        (liveSpans st.live + restSpans n t st) central f' ∧
      ∀ pc, pc.frame = some f' → ThreadOk central { st.threads t with pc := pc } →
        Inv n ({ st with central := central }.setPc t pc) := by
  have hinv := h.central_of_pc ht
  obtain ⟨hobjs, hspans⟩ := held_of_frame hf
  rw [hobjs, hspans] at hinv
  obtain ⟨central, f', hrun, hpost⟩ :=
    CentralCache.step_spec hardened env ((h.threads t ht).frame f hf) hinv
  refine ⟨central, f', hrun, hpost, fun pc hpc hth => ?_⟩
  have hinv' := hpost.inv
  obtain ⟨hobjs', hspans'⟩ := held_of_frame hpc
  rw [← hobjs', ← hspans'] at hinv'
  exact h.actPc ht hinv' (hpost.keep.mono fun j hj => Multiset.mem_add.mpr (Or.inr hj)) hth
    (blocks_mono h.blocks fun j hj =>
      hpost.keep.spans j (Or.inl (Multiset.mem_add.mpr (Or.inl hj))))

/-- A call into the CentralCache from outside the ThreadCache. -/
lemma Inv.centralStep (h : Inv n st) (hardened : Bool) (ht : t < n) {f : CentralFrame}
    (hpc : (st.threads t).pc = .central f) (env : PageEnv) :
    ∃ st', st.threadStep hardened t env = .ok st' ∧ Inv n st' := by
  have hok := h.threads t ht
  have hnot := hok.central f hpc
  simp only [Allocator.threadStep, hpc]
  split_ifs with hret
  · -- a call that returns keeps nothing
    have hobjs : f.objs = [] := by
      cases f with
      | fetch g => exact absurd rfl (hnot g)
      | release idx mode rpc =>
        simp only [CentralFrame.returned, decide_eq_true_eq] at hret
        simp [CentralFrame.objs, hret, ReleasePc.objs]
      | drain g =>
        simp only [CentralFrame.returned, decide_eq_true_eq] at hret
        simp [CentralFrame.objs, DrainFrame.objs, hret]
    have hspans := CentralCache.spans_of_returned hret
    refine ⟨_, rfl, h.setPc ht ?_ ?_ (h.idleOk ht (by rw [hpc]; rfl) _) h.blocks⟩
    · simp [hpc, ThreadPc.objs, ThreadPc.frame, hobjs]
    · simp [hpc, ThreadPc.spans, ThreadPc.frame, hspans]
  · obtain ⟨central, f', hrun, hpost, hstep⟩ :=
      h.sectionStep hardened ht (f := f) (by rw [hpc]; rfl) env
    simp only [hrun, bind, Except.bind]
    refine ⟨_, rfl, hstep _ rfl ⟨fun tc htc => ?_, ?_, by simp, by simp, ?_, by simp⟩⟩
    · have := hok.tc tc htc
      rwa [hpc] at this
    · rintro g ⟨rfl⟩
      exact hpost.ok
    · rintro g ⟨rfl⟩ k rfl
      cases f with
      | fetch g => exact absurd rfl (hnot g)
      | release idx mode rpc =>
        obtain ⟨rpc', he⟩ := hpost.release idx mode rpc rfl
        cases he
      | drain g =>
        obtain ⟨g', he⟩ := hpost.drain g rfl
        cases he

/-- An operation of the ThreadCache. -/
lemma Inv.cacheStep (h : Inv n st) (hardened : Bool) (ht : t < n) {caller : TcCaller} {pc : TcPc}
    {call : Option CentralFrame} (hpc : (st.threads t).pc = .cache caller pc call) (env : PageEnv) :
    ∃ st', st.threadStep hardened t env = .ok st' ∧ Inv n st' := by
  have hok := h.threads t ht
  have hcache := hok.cache caller pc call hpc
  obtain ⟨tc, hptls⟩ := Option.ne_none_iff_exists'.mp hcache.ptls
  have htc : tc.PcInv 1 pc := by
    have := hok.tc tc hptls
    rwa [hpc] at this
  have hcached : (st.threads t).cached = tc.objs := by simp [Thread.cached, hptls]
  have hinv := h.central_of_pc ht
  rw [hcached, hpc] at hinv
  have hwaits := hcache.waitsFor
  simp only [Allocator.threadStep, hpc, hptls]
  cases call with
  | none =>
    -- the operation goes on by itself
    have hrun := hwaits.not_waits
    have hstep : tc.StepOk 1 st.stat _ := ThreadCache.step_spec le_rfl htc st.trimRequest
    refine ⟨_, rfl, h.commit ht ?_ h.blocks
      (ThreadCache.step_moves htc.ok hrun st.trimRequest) hstep hcache.target hcache.small
      fun he => (hcache.emptying he tc hptls).step htc.ok hrun st.trimRequest⟩
    simpa [ThreadPc.objs, ThreadPc.spans, ThreadPc.frame] using hinv
  | some f =>
    have hwait := hwaits.waits
    simp only
    split_ifs with hret
    · -- the call has returned
      have hstep : tc.StepOk 1 st.stat (tc.resume st.stat f.batch pc) :=
        ThreadCache.resume_spec le_rfl htc
          (fun idx m he => hwaits.length_batch_le (hok.frame f (by rw [hpc]; rfl)) he)
          (by simp)
      refine ⟨_, rfl, h.commit ht ?_ h.blocks
        (ThreadCache.resume_moves htc.ok hwait f.batch) hstep hcache.target hcache.small
        fun he => Or.inl ((hcache.emptying he tc hptls).resume htc.ok hwait f.batch)⟩
      have hframe : (ThreadPc.cache caller pc (some f)).frame = some f := rfl
      obtain ⟨hobjs, hspans⟩ := held_of_frame hframe
      rw [hobjs, hspans, CentralCache.spans_of_returned hret, hwaits.received hret,
        ← add_assoc, add_comm (pc.received f.batch)] at hinv
      simpa using hinv
    · obtain ⟨central, f', hrun, hpost, hstep⟩ :=
        h.sectionStep hardened ht (f := f) (by rw [hpc]; rfl) env
      simp only [hrun, bind, Except.bind]
      refine ⟨_, rfl, hstep _ rfl ⟨fun tc' htc' => ?_, ?_, ?_, by simp, by simp, by simp⟩⟩
      · have := hok.tc tc' htc'
        rwa [hpc] at this
      · rintro g ⟨rfl⟩
        exact hpost.ok
      · rintro _ _ _ ⟨rfl, rfl, rfl⟩
        exact ⟨hcache.ptls, hcache.target, hcache.small, hwaits.step hpost, hcache.emptying⟩

/-- `am_thread_cache_trim`, `am_thread_cache_purge` and the destructor of `tc_cleaner` begin an
operation of the ThreadCache. -/
lemma Inv.operate (h : Inv n st) (ht : t < n) {tc : ThreadCache}
    (htcPc : (st.threads t).pc.tcPc = .idle) (hobjs : (st.threads t).pc.objs = 0)
    (hspans : (st.threads t).pc.spans = 0) (hptls : (st.threads t).ptls = some tc)
    {caller : TcCaller}
    (hcaller : caller.request = none) {out : TcOut} (hmoves : tc.Moves .idle 0 out)
    (hstep : tc.PcInv 1 .idle → tc.StepOk 1 st.stat out)
    (hempty : caller.empties = true → out.tc.Emptying out.pc) : Inv n (st.commit t caller out) := by
  have hinv := h.central_of_pc ht
  have htc : tc.PcInv 1 .idle := by
    have := (h.threads t ht).tc tc hptls
    rwa [htcPc] at this
  have hcached : (st.threads t).cached = tc.objs := by simp [Thread.cached, hptls]
  rw [hobjs, hspans, hcached, zero_add, zero_add, ← add_zero tc.objs] at hinv
  exact h.commit ht hinv h.blocks hmoves (hstep htc) (by rw [hcaller]; rfl) (by simp [hcaller])
    fun he => Or.inl (hempty he)

/-- A trim may begin in a cache without an operation. -/
lemma trim_stepOk {tc : ThreadCache} (htc : tc.PcInv 1 .idle) (stat : ℕ) (mode : TrimMode)
    (targetBytes : ℕ) : tc.StepOk 1 stat (tc.trim stat mode targetBytes none .ret) :=
  ThreadCache.trim_spec le_rfl htc.handle_of_idle mode targetBytes none

/-- The statistic is nobody's business. -/
lemma Inv.withStat (h : Inv n st) (stat : ℕ) : Inv n { st with stat := stat } :=
  ⟨h.central, h.scav, h.threads, h.blocks, h.fault⟩

/-- The end of a thread's ThreadCache, which is empty by then. -/
lemma Inv.releaseThreadCache (h : Inv n st) (ht : t < n) (hpc : (st.threads t).pc = .destroy)
    (tc : ThreadCache) : Inv n (st.releaseThreadCache t tc) := by
  have hinv := h.central_of_pc ht
  have hzero := (h.threads t ht).destroy hpc
  simp only [hpc, hzero, ThreadPc.objs, ThreadPc.spans, ThreadPc.frame, Option.elim_none,
    zero_add] at hinv
  set th : Thread := { st.threads t with ptls := none, pc := .idle } with hth
  have hobjs : th.objs = 0 := by
    simp [hth, Thread.objs, Thread.cached, ThreadPc.objs, ThreadPc.frame]
  have hspans : th.pc.spans = 0 := by simp [hth, ThreadPc.spans, ThreadPc.frame]
  have hpc' : th.pc = TcCaller.free.after := rfl
  have hgone : Inv n (st.setThread t th) := by
    refine h.act ht rfl rfl rfl ?_ (CentralCache.Keeps.of_eq rfl)
      (threadOk_return hpc' (by simp [hth]) (by simp [TcCaller.empties])) h.blocks
    rw [hobjs, hspans, zero_add, zero_add]
    exact hinv
  exact hgone.withStat (subU64 st.stat tc.reservedQuotaBytes)

/-- **Every step of every call** keeps the invariant, and no check fails. -/
lemma Inv.threadStep (h : Inv n st) (hardened : Bool) (ht : t < n) (env : PageEnv) :
    ∃ st', st.threadStep hardened t env = .ok st' ∧ Inv n st' := by
  cases hpc : (st.threads t).pc with
  | idle => exact ⟨st, by simp [Allocator.threadStep, hpc], h⟩
  | cache caller pc call => exact h.cacheStep hardened ht hpc env
  | allocSpan m => exact h.allocSpanStep hardened ht hpc env
  | releaseSpan i => exact h.releaseSpanStep hardened ht hpc env
  | central f => exact h.centralStep hardened ht hpc env
  | trim =>
    simp only [Allocator.threadStep, hpc]
    cases hptls : (st.threads t).ptls with
    | none => exact ⟨st, rfl, h⟩
    | some tc =>
      refine ⟨_, rfl, h.operate ht (by rw [hpc]; rfl) (by rw [hpc]; rfl) (by rw [hpc]; rfl) hptls
        rfl (ThreadCache.trim_moves _ _ _) (fun htc => trim_stepOk htc _ _ _)
        (by simp [TcCaller.empties])⟩
  | destroy =>
    simp only [Allocator.threadStep, hpc]
    cases hptls : (st.threads t).ptls with
    | none => exact ⟨st, rfl, h⟩
    | some tc => exact ⟨_, rfl, h.releaseThreadCache ht hpc tc⟩

/-! ## Runs -/

/-- The flag of a thread is nobody's business. -/
lemma Inv.setDestructed (h : Inv n st) (ht : t < n) :
    Inv n (st.setThread t { st.threads t with threadCacheAlreadyDestructed := true }) := by
  have hok := h.threads t ht
  exact h.act ht rfl rfl rfl (h.central_of ht) (CentralCache.Keeps.of_eq rfl)
    ⟨hok.tc, hok.frame, fun caller pc call hpc =>
      let hc := hok.cache caller pc call hpc
      ⟨hc.ptls, hc.target, hc.small, hc.waitsFor, hc.emptying⟩,
      hok.allocSpan, hok.central, hok.destroy⟩ h.blocks

/-- **The end of a thread** begins. -/
lemma Inv.threadCacheCleaner (h : Inv n st) (ht : t < n) (hidle : (st.threads t).pc = .idle) :
    Inv n (st.threadCacheCleaner t) := by
  have h' := h.setDestructed ht
  unfold Allocator.threadCacheCleaner
  dsimp only
  set st' := st.setThread t { st.threads t with threadCacheAlreadyDestructed := true } with hst'
  have hpc : (st'.threads t).pc = .idle := by simp [hst', setThread, hidle]
  cases hptls : (st'.threads t).ptls with
  | none => exact h'
  | some tc =>
    exact h'.operate ht (by rw [hpc]; rfl) (by rw [hpc]; rfl) (by rw [hpc]; rfl) hptls rfl
      ThreadCache.releaseAll_moves (fun htc => ThreadCache.releaseAll_spec htc)
      fun _ => .all (by simp)

/-- **`am_thread_cache_trim`** begins. -/
lemma Inv.amThreadCacheTrim (h : Inv n st) (ht : t < n) (hidle : (st.threads t).pc = .idle) :
    Inv n (st.amThreadCacheTrim t) := by
  unfold Allocator.amThreadCacheTrim
  cases hptls : (st.threads t).ptls with
  | none => exact h
  | some tc₀ =>
    refine h.setPc ht ?_ ?_ ⟨fun tc htc => ?_, ?_, ?_, by simp, by simp, by simp⟩ h.blocks
    · simp [hidle, ThreadPc.objs, ThreadPc.frame]
    · simp [hidle, ThreadPc.spans, ThreadPc.frame]
    · exact (h.pcInv_of_idle ht hidle htc).handle_of_idle
    · simp [ThreadPc.frame]
    · rintro _ _ _ ⟨rfl, rfl, rfl⟩
      exact ⟨by simp [hptls], rfl, by simp [TcCaller.request], .nothing rfl,
        by simp [TcCaller.empties]⟩

/-- A thread begins a drain. -/
lemma Inv.drain (h : Inv n st) (ht : t < n) (hidle : (st.threads t).pc = .idle) (maxBytes : ℕ) :
    Inv n (st.setPc t (.central (.drain (.start maxBytes)))) := by
  refine h.setPc ht ?_ ?_ ⟨fun tc htc => h.pcInv_of_idle ht hidle htc, ?_, by simp, by simp, ?_,
    by simp⟩ h.blocks
  · simp [hidle, ThreadPc.objs, ThreadPc.frame, CentralFrame.objs, DrainFrame.objs,
      DrainFrame.start]
  · simp [hidle, ThreadPc.spans, ThreadPc.frame, CentralFrame.spans, DrainFrame.spans,
      DrainFrame.start]
  · rintro f ⟨rfl⟩
    simp only [CentralCache.FrameOk, CentralCache.DrainOk, DrainFrame.start]
    split_ifs <;> simp
  · rintro f ⟨rfl⟩
    simp

/-- **Every action keeps the invariant.** -/
theorem next_inv (hardened : Bool) (h : Inv n st) (a : AllocAction) :
    Inv n (next n hardened st a) := by
  cases a with
  | malloc t m mapped =>
    simp only [next]
    split_ifs with hg
    · exact h.amMalloc hg.1 hg.2.1 m mapped
    · exact h
  | free t ptr mapped =>
    simp only [next]
    split_ifs with hg
    · obtain ⟨st', hrun, hinv⟩ := h.amFree hardened hg.1 hg.2.1 hg.2.2 mapped
      rw [hrun]
      exact hinv
    · exact h
  | trim t =>
    simp only [next]
    split_ifs with hg
    · exact h.amThreadCacheTrim hg.1 hg.2
    · exact h
  | purge t =>
    simp only [next, amThreadCachePurge]
    split_ifs with hg
    · obtain ⟨ht, hidle⟩ := hg
      cases hptls : (st.threads t).ptls with
      | none => exact h.drain ht hidle sizeMax
      | some tc =>
        exact h.operate ht (by rw [hidle]; rfl) (by rw [hidle]; rfl) (by rw [hidle]; rfl) hptls rfl
          (ThreadCache.trim_moves _ _ _) (fun htc => trim_stepOk htc _ _ _)
          fun _ => .trim rfl rfl rfl
    · exact h
  | requestPurge t =>
    simp only [next, amRequestThreadCachePurge]
    split_ifs with hg
    · exact h.drain hg.1 hg.2 _
    · exact h
  | exit t =>
    simp only [next]
    split_ifs with hg
    · exact h.threadCacheCleaner hg.1 hg.2
    · exact h
  | step t env =>
    simp only [next]
    split_ifs with ht
    · obtain ⟨st', hrun, hinv⟩ := h.threadStep hardened ht env
      rw [hrun]
      exact hinv
    · exact h
  | publishTrim word => exact ⟨h.central, h.scav, h.threads, h.blocks, h.fault⟩
  | scavenge env ok =>
    obtain ⟨scav, pc, hrun, hinv, hscav, hkeep⟩ := h.central.scavenge h.scav env ok
    simp only [next, hrun]
    refine ⟨hinv, hscav, fun t ht => (h.threads t ht).mono fun j hj => hkeep j ?_,
      blocks_mono h.blocks fun j hj => hkeep j ?_, h.fault⟩
    · refine Multiset.mem_add.mpr (Or.inl ?_)
      exact Multiset.mem_sum.mpr ⟨t, Finset.mem_range.mpr ht, hj⟩
    · exact Multiset.mem_add.mpr (Or.inr hj)

/-- The start. -/
lemma create_inv (n : ℕ) (backed : Bool) : Inv n (create backed) := by
  have hobjs : ∑ t ∈ Finset.range n, ((create backed).threads t).objs = 0 :=
    Finset.sum_eq_zero fun t _ => by
      simp [create, Thread.objs, Thread.cached, ThreadPc.objs, ThreadPc.frame]
  have hspans : ∑ t ∈ Finset.range n, ((create backed).threads t).pc.spans = 0 :=
    Finset.sum_eq_zero fun t _ => by simp [create, ThreadPc.spans, ThreadPc.frame]
  have hlive : liveObjs (create backed).live = 0 ∧ liveSpans (create backed).live = 0 := by
    simp [create, liveObjs, liveSpans]
  refine ⟨?_, ScavInv.empty, fun t _ => ?_, by simp [create], rfl⟩
  · rw [hobjs, hspans, hlive.1, hlive.2, add_zero, add_zero]
    exact CentralCache.create_inv backed
  · have hpc : ((create backed).threads t).pc = TcCaller.free.after := rfl
    exact threadOk_return hpc (by simp [create]) (by simp [TcCaller.empties])

/-- **The invariant holds along every run.** -/
theorem reachable_inv {hardened : Bool} (h : (machine n hardened).Reachable st) : Inv n st := by
  refine h.invariant (I := Inv n) ?_ fun st a hst => next_inv hardened hst a
  rintro st (rfl | rfl)
  · exact create_inv n true
  · exact create_inv n false

end Allocator

end Ammalloc
