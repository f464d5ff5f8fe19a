import Ammalloc.Allocator.Runs

set_option relaxedAutoImplicit false
set_option autoImplicit false

/-!
# The hardened `am_free` and interior pointers

With `AM_HCHECK` active, a thread that owns a ThreadCache rejects every pointer into a small-object
span that is not the start of a slot. A thread without one takes `am_free_slow_path`, which does not
look at the slot: it files the pointer in a new ThreadCache, or hands it to `ReleaseBatch`, which
stores it in the TransferCache while there is room. Only the bitmap behind a full TransferCache
rejects it. The call is studied alone, with no steps of other threads between its own.

## Main definitions

* `Ammalloc.Allocator.freeRun` — a call of `am_free`, step by step.
* `Ammalloc.Allocator.stored` — how often a pointer is in the lists of the thread and in the
  TransferCaches.
* `Ammalloc.Allocator.RejectsFree` — the call aborts and stores the pointer nowhere.

## Main results

* `Ammalloc.Allocator.rejectsFree_iff` — when a call with such a pointer is rejected.
-/

namespace Ammalloc

open SizeClass (kNumSizeClasses)

namespace Allocator

/-! ## A call of `am_free` -/

/-- The call `am_free(ptr)` of thread `t` after its first `k` steps, if it runs alone: no other
thread and not the scavenger takes a step in between, so the TransferCache is as full at the section
of `ReleaseBatch` as at the beginning of the call. `env k` is what the page layer answers to step
`k`. -/
def freeRun (st : Allocator) (t ptr : ℕ) (mapped : Bool) (env : ℕ → PageEnv) :
    ℕ → Except Fault Allocator
  | 0 => st.amFree true t ptr mapped
  | k + 1 => freeRun st t ptr mapped env k >>= fun st => st.threadStep true t (env k)

/-- How often `ptr` is in the FreeLists of thread `t` and in the TransferCaches. -/
def stored (st : Allocator) (t ptr : ℕ) : ℕ :=
  ((st.threads t).ptls.elim 0 fun tc =>
    ∑ idx ∈ Finset.range kNumSizeClasses, (tc.freeLists idx).objs.count ptr) +
  ∑ idx ∈ Finset.range kNumSizeClasses, (st.central.buckets idx).transferCache.contents.count ptr

/-- The call aborts, and up to then the pointer is inserted nowhere. -/
def RejectsFree (st : Allocator) (t ptr : ℕ) (mapped : Bool) (env : ℕ → PageEnv) : Prop :=
  (∃ k e, st.freeRun t ptr mapped env k = .error e) ∧
    ∀ k st', st.freeRun t ptr mapped env k = .ok st' → st'.stored t ptr = st.stored t ptr

/-- `CreateThreadCache` would succeed. -/
def Creatable (st : Allocator) (t : ℕ) (mapped : Bool) : Prop :=
  (st.threads t).threadCacheAlreadyDestructed = false ∧ mapped = true

/-- The checks of `am_free` that do not depend on the thread. -/
def SharedChecks (s : Span) (ptr : ℕ) : Prop :=
  s.Covers (ptr >>> pageShift) ∧ s.sizeClassIdx < kNumSizeClasses ∧
    SizeClass.size s.sizeClassIdx = s.alignedObjSize

variable {st : Allocator} {t ptr i : ℕ} {mapped : Bool} {env : ℕ → PageEnv} {s : Span}

/-- A call that aborts at once is rejected. -/
lemma rejectsFree_of_error {e : Fault} (h : st.amFree true t ptr mapped = .error e) :
    st.RejectsFree t ptr mapped env := by
  have hrun : ∀ k, st.freeRun t ptr mapped env k = .error e := by
    intro k
    induction k with
    | zero => exact h
    | succ k ih => simp only [freeRun, ih, bind, Except.bind]
  refine ⟨⟨0, e, hrun 0⟩, fun k st' hk => ?_⟩
  rw [hrun k] at hk
  exact absurd hk (by simp)

/-- A call that has returned does not abort any more. -/
lemma not_rejectsFree_of_idle {k : ℕ} {st' : Allocator}
    (hok : ∀ j ≤ k, ∃ st', st.freeRun t ptr mapped env j = .ok st')
    (hk : st.freeRun t ptr mapped env k = .ok st') (hidle : (st'.threads t).pc = .idle) :
    ¬ st.RejectsFree t ptr mapped env := by
  have hlater : ∀ j, st.freeRun t ptr mapped env (k + j) = .ok st' := by
    intro j
    induction j with
    | zero => exact hk
    | succ j ih =>
      rw [← Nat.add_assoc, freeRun, ih]
      simp only [bind, Except.bind, threadStep, hidle]
  rintro ⟨⟨j, e, he⟩, -⟩
  rcases Nat.le_total j k with hjk | hkj
  · obtain ⟨st'', hst''⟩ := hok j hjk
    rw [hst''] at he
    exact absurd he (by simp)
  · obtain ⟨d, rfl⟩ := Nat.exists_eq_add_of_le hkj
    rw [hlater d] at he
    exact absurd he (by simp)

/-- A failed shared check aborts the call. -/
lemma amFree_error_of_check (h₀ : ptr ≠ 0)
    (hget : st.central.pageCache.pageMap.getSpan (ptr >>> pageShift) = some i)
    (hs : st.central.pageCache.spans i = some s) (hused : s.used = true)
    (hsize : s.alignedObjSize ≠ 0) (hfail : ¬ SharedChecks s ptr) :
    ∃ e, st.amFree true t ptr mapped = .error e := by
  simp only [amFree, if_neg h₀, hget, PageCache.deref, hs, bind, Except.bind]
  rw [Span.hcheck_true hused]
  by_cases hcov : s.Covers (ptr >>> pageShift)
  · obtain ⟨h₁, h₂⟩ := hcov
    have hpage : ptr >>> pageShift ≥ s.startPageIdx ∧
        ptr >>> pageShift - s.startPageIdx < s.pageNum := ⟨h₁, by omega⟩
    have hclass : ¬ (s.alignedObjSize = 0 ∨ (s.sizeClassIdx < kNumSizeClasses ∧
        SizeClass.size s.sizeClassIdx = s.alignedObjSize)) := by
      rintro (hz | hc)
      · exact hsize hz
      · exact hfail ⟨⟨h₁, h₂⟩, hc⟩
    rw [Span.hcheck_true (by simpa using hpage)]
    simp only [hcheck, hclass, decide_false, Bool.not_false, Bool.and_true, if_true]
    exact ⟨_, rfl⟩
  · have hpage : ¬ (ptr >>> pageShift ≥ s.startPageIdx ∧
        ptr >>> pageShift - s.startPageIdx < s.pageNum) := by
      rintro ⟨h₁, h₂⟩
      exact hcov ⟨h₁, by omega⟩
    simp only [hcheck, hpage, decide_false, Bool.not_false, Bool.and_true, if_true]
    exact ⟨_, rfl⟩

section

variable (h₀ : ptr ≠ 0) (hget : st.central.pageCache.pageMap.getSpan (ptr >>> pageShift) = some i)
  (hs : st.central.pageCache.spans i = some s) (hused : s.used = true)
  (hsize : s.alignedObjSize ≠ 0) (hslot : s.objectSlotOf ptr = sizeMax)
  (hchecks : SharedChecks s ptr)

include h₀ hget hs hused hsize hslot hchecks

/-! ## With a ThreadCache -/

/-- The fast path looks at the slot. -/
lemma amFree_error_of_ptls (hptls : (st.threads t).ptls ≠ none) :
    ∃ e, st.amFree true t ptr mapped = .error e := by
  obtain ⟨tc, htc⟩ := Option.ne_none_iff_exists'.mp hptls
  rw [amFree_of_checks st h₀ hget hs hused hchecks.1 (Or.inr hchecks.2)]
  simp only [htc, if_neg hsize]
  exact ⟨_, by simp only [hcheck, hslot, ne_eq, not_true_eq_false, decide_false, Bool.not_false,
    Bool.and_true, if_true]; rfl⟩

/-! ## Without a ThreadCache -/

omit hslot in
/-- A new ThreadCache takes the pointer. -/
lemma not_rejectsFree_of_creatable (hptls : (st.threads t).ptls = none)
    (hcreate : st.Creatable t mapped) : ¬ st.RejectsFree t ptr mapped env := by
  rintro ⟨-, hstored⟩
  set r := ThreadCache.create ThreadCache.kDefaultCacheBudgetBytes st.trimRequest st.stat with hr
  have hrun : st.freeRun t ptr mapped env 0 =
      .ok (st.commit t .free (r.1.deallocate r.2 ptr s.sizeClassIdx)) := by
    rw [freeRun, amFree_of_checks st h₀ hget hs hused hchecks.1 (Or.inr hchecks.2)]
    simp only [hptls, amFreeSlowPath, if_neg hsize, createThreadCache, hcreate.1, hcreate.2,
      Bool.false_eq_true, if_false, if_true, ← hr, deallocate,
      Span.hcheck_true (decide_eq_true hchecks.2.1), bind, Except.bind]
    rfl
  have hcount := hstored 0 _ hrun
  have hmem : s.sizeClassIdx ∈ Finset.range kNumSizeClasses := Finset.mem_range.mpr hchecks.2.1
  have hpos : 0 < ∑ idx ∈ Finset.range kNumSizeClasses,
      ((r.1.deallocate r.2 ptr s.sizeClassIdx).tc.freeLists idx).objs.count ptr := by
    refine Finset.sum_pos' (fun _ _ => Nat.zero_le _) ⟨s.sizeClassIdx, hmem, ?_⟩
    simp [ThreadCache.deallocate, ThreadCache.setFreeList, FreeList.push]
  simp only [stored, commit, Function.update_self, Option.elim_some, hptls,
    Option.elim_none] at hcount
  omega

omit hslot in
/-- The state in which `ReleaseBatch` begins. -/
lemma freeRun_zero (hptls : (st.threads t).ptls = none) (hcreate : ¬ st.Creatable t mapped) :
    st.freeRun t ptr mapped env 0 =
      .ok (st.setPc t (.central (.release s.sizeClassIdx .kTransferCache (.chunk [ptr])))) := by
  have hnone : st.createThreadCache t mapped = none := by
    simp only [createThreadCache, hptls]
    split_ifs with h₁ h₂
    · rfl
    · exact absurd ⟨by simpa using h₁, h₂⟩ hcreate
    · rfl
  rw [freeRun, amFree_of_checks st h₀ hget hs hused hchecks.1 (Or.inr hchecks.2)]
  simp only [hptls, amFreeSlowPath, if_neg hsize, hnone]

end

/-- `ReleaseBatch` of one object, in its TransferCache section. -/
lemma releaseStep_single (c : CentralCache) (e : PageEnv) (idx ptr : ℕ) :
    let r := (c.buckets idx).transferCache
    c.releaseStep true e idx .kTransferCache (.chunk [ptr]) =
      if r.size < r.capacity then .ok (c.setRing idx (r.append [ptr]).1, .chunk [])
      else .ok (c, .bitmap [ptr] []) := by
  intro r
  have htake : [ptr].take SizeClass.kMaxBatchSize = [ptr] := rfl
  have hdrop : [ptr].drop SizeClass.kMaxBatchSize = [] := rfl
  have hsame : c.setRing idx r = c := by simp [CentralCache.setRing, r]
  simp only [CentralCache.releaseStep, htake, hdrop]
  by_cases hroom : r.size < r.capacity
  · rw [if_pos hroom]
    simp [RingBuffer.append_cons, r, hroom]
  · rw [if_neg hroom]
    simp only [RingBuffer.append_cons, r, hroom, if_false] at hsame ⊢
    rw [hsame]

/-- The next section of a call into the CentralCache. -/
lemma threadStep_central {f : CentralFrame} (hret : f.returned = false) (e : PageEnv) :
    (st.setPc t (.central f)).threadStep true t e =
      st.central.step true e f >>= fun r =>
        .ok ({ st with central := r.1 }.setPc t (.central r.2)) := by
  simp only [threadStep, setPc, setThread, Function.update_self, hret, Bool.false_eq_true, if_false]
  congr 1
  funext r
  simp only [Function.update_idem]
  rfl

section

variable {idx : ℕ} (hzero : st.freeRun t ptr mapped env 0 =
  .ok (st.setPc t (.central (.release idx .kTransferCache (.chunk [ptr])))))

include hzero

/-- The call after the TransferCache section. -/
lemma freeRun_one : let r := (st.central.buckets idx).transferCache
    st.freeRun t ptr mapped env 1 =
      if r.size < r.capacity then
        .ok ({ st with central := st.central.setRing idx (r.append [ptr]).1 }.setPc t
          (.central (.release idx .kTransferCache (.chunk []))))
      else .ok (st.setPc t (.central (.release idx .kTransferCache (.bitmap [ptr] [])))) := by
  intro r
  have hret : (CentralFrame.release idx .kTransferCache (.chunk [ptr])).returned = false := rfl
  rw [freeRun, hzero]
  show (st.setPc t _).threadStep true t _ = _
  rw [threadStep_central hret, CentralCache.step, releaseStep_single]
  split_ifs <;> rfl

/-- A TransferCache with room takes the pointer, and the call returns. -/
lemma not_rejectsFree_of_room
    (hroom : (st.central.buckets idx).transferCache.size <
      (st.central.buckets idx).transferCache.capacity) :
    ¬ st.RejectsFree t ptr mapped env := by
  have hone := freeRun_one hzero
  simp only [if_pos hroom] at hone
  set c₁ := st.central.setRing idx ((st.central.buckets idx).transferCache.append [ptr]).1
  set st₁ : Allocator := { st with central := c₁ }
  have htwo : st.freeRun t ptr mapped env 2 =
      .ok ((st₁.setPc t (.central (.release idx .kTransferCache (.chunk [])))).setPc t .idle) := by
    rw [freeRun, hone]
    simp [bind, Except.bind, threadStep, setPc, setThread, CentralFrame.returned]
  refine not_rejectsFree_of_idle (k := 2) (fun j hj => ?_) htwo (by simp [setPc, setThread])
  interval_cases j
  · exact ⟨_, hzero⟩
  · exact ⟨_, hone⟩
  · exact ⟨_, htwo⟩

/-- Behind a full TransferCache the bitmap rejects the pointer. -/
lemma rejectsFree_of_full
    (hget : st.central.pageCache.pageMap.getSpan (ptr >>> pageShift) = some i)
    (hs : st.central.pageCache.spans i = some s) (hslot : s.objectSlotOf ptr = sizeMax)
    (hidx : idx < kNumSizeClasses) (hsize : s.alignedObjSize = SizeClass.size idx)
    (hptr : ptr < 2 ^ 64)
    (hfull : ¬ (st.central.buckets idx).transferCache.size <
      (st.central.buckets idx).transferCache.capacity) :
    st.RejectsFree t ptr mapped env := by
  have hone := freeRun_one hzero
  simp only [if_neg hfull] at hone
  obtain ⟨m, hm⟩ := Span.freeObject_of_not_slot hidx hsize hptr hslot
  have hret : (CentralFrame.release idx .kTransferCache (.bitmap [ptr] [])).returned = false := rfl
  have htwo : ∀ k, st.freeRun t ptr mapped env (k + 2) = .error (.check m) := by
    intro k
    induction k with
    | zero =>
      rw [freeRun, hone]
      show (st.setPc t _).threadStep true t _ = _
      rw [threadStep_central hret]
      simp only [CentralCache.step, CentralCache.releaseStep, CentralCache.freeLoop, hget,
        PageCache.deref, hs, hm, bind, Except.bind]
    | succ k ih => rw [freeRun, ih]; rfl
  refine ⟨⟨2, _, htwo 0⟩, fun k st' hk => ?_⟩
  rcases k with _ | _ | k
  · rw [hzero] at hk
    obtain rfl := Except.ok.inj hk
    simp [stored, setPc, setThread]
  · rw [hone] at hk
    obtain rfl := Except.ok.inj hk
    simp [stored, setPc, setThread]
  · rw [htwo k] at hk
    exact absurd hk (by simp)

end

/-- **When the hardened `am_free` rejects a pointer that is not the start of a slot.** The page of
`ptr` belongs to a used span of small objects, and `ObjectSlotOf` answers `SIZE_MAX`. The call
aborts without storing the pointer exactly if one of the checks that all paths share fails, or the
thread owns a ThreadCache, or it cannot get one and the TransferCache of the class is full.

The condition is exact for a call that runs alone. Among other threads, what counts is whether the
TransferCache is full when the call comes to the section of `ReleaseBatch`. -/
theorem rejectsFree_iff {st : Allocator} {t ptr i : ℕ} {s : Span} (mapped : Bool)
    (env : ℕ → PageEnv) (hidle : (st.threads t).pc = .idle) (hptr : ptr < 2 ^ 64)
    (hget : st.central.pageCache.pageMap.getSpan (ptr >>> pageShift) = some i)
    (hs : st.central.pageCache.spans i = some s) (hused : s.used = true)
    (hsize : s.alignedObjSize ≠ 0) (hslot : s.objectSlotOf ptr = sizeMax) :
    st.RejectsFree t ptr mapped env ↔ ptr ≠ 0 ∧
      (¬ SharedChecks s ptr ∨ (st.threads t).ptls ≠ none ∨ ¬ st.Creatable t mapped ∧
        (st.central.buckets s.sizeClassIdx).transferCache.capacity ≤
          (st.central.buckets s.sizeClassIdx).transferCache.size) := by
  by_cases h₀ : ptr = 0
  · -- null is accepted before any lookup
    have hzero : st.freeRun t ptr mapped env 0 = .ok st := by simp [freeRun, amFree, h₀]
    refine iff_of_false (not_rejectsFree_of_idle (k := 0) (fun j hj => ?_) hzero hidle)
      fun h => h.1 h₀
    rw [Nat.le_zero.mp hj]
    exact ⟨st, hzero⟩
  by_cases hchecks : SharedChecks s ptr
  swap
  · have herror : ∃ e, st.amFree true t ptr mapped = .error e :=
      amFree_error_of_check h₀ hget hs hused hsize hchecks
    obtain ⟨e, he⟩ := herror
    exact iff_of_true (rejectsFree_of_error he) ⟨h₀, Or.inl hchecks⟩
  by_cases hptls : (st.threads t).ptls = none
  swap
  · have herror : ∃ e, st.amFree true t ptr mapped = .error e :=
      amFree_error_of_ptls h₀ hget hs hused hsize hslot hchecks hptls
    obtain ⟨e, he⟩ := herror
    exact iff_of_true (rejectsFree_of_error he) ⟨h₀, Or.inr (Or.inl hptls)⟩
  by_cases hcreate : st.Creatable t mapped
  · refine iff_of_false
      (not_rejectsFree_of_creatable h₀ hget hs hused hsize hchecks hptls hcreate) ?_
    rintro ⟨-, hfail | howner | ⟨hno, -⟩⟩
    · exact hfail hchecks
    · exact howner hptls
    · exact hno hcreate
  have hzero : st.freeRun t ptr mapped env 0 = _ :=
    freeRun_zero h₀ hget hs hused hsize hchecks hptls hcreate
  by_cases hroom : (st.central.buckets s.sizeClassIdx).transferCache.size <
      (st.central.buckets s.sizeClassIdx).transferCache.capacity
  · refine iff_of_false (not_rejectsFree_of_room hzero hroom) ?_
    rintro ⟨-, hfail | howner | ⟨-, hfull⟩⟩
    · exact hfail hchecks
    · exact howner hptls
    · exact absurd hroom (not_lt.mpr hfull)
  · exact iff_of_true
      (rejectsFree_of_full hzero hget hs hslot hchecks.2.1 hchecks.2.2.symm hptr hroom)
      ⟨h₀, Or.inr (Or.inr ⟨hcreate, not_lt.mp hroom⟩)⟩

/-! ## An interior pointer that is accepted -/

/-- Thread 0 allocates 32 KiB and gets the first slot of a span of 128 pages at page 1024. -/
def oneBlockRun : List AllocAction :=
  let env : PageEnv :=
    { sysAlloc := [some 1024], tryNew := [some 1], radixNode := [true, true, true] }
  [.malloc 0 32768 true, .step 0 {}, .step 0 {}, .step 0 {}, .step 0 env, .step 0 {}, .step 0 {},
    .step 0 {}, .step 0 {}]

/-- The address eight bytes into that block. -/
def interiorPtr : ℕ := 1024 * 4096 + 16 + 8

/-- The state after that run. -/
def oneBlock : Allocator := (machine 2 true).run (create true) oneBlockRun

/-- What `am_free` finds for the interior pointer. -/
lemma oneBlock_facts :
    oneBlock.central.pageCache.pageMap.getSpan (interiorPtr >>> pageShift) = some 1 ∧
      ((oneBlock.central.pageCache.spans 1).map fun s =>
        (s.used, s.alignedObjSize, s.objectSlotOf interiorPtr, s.startPageIdx, s.pageNum,
          s.sizeClassIdx)) = some (true, 32768, sizeMax, 1024, 128, 39) ∧
      (oneBlock.threads 0).pc = .idle ∧ (oneBlock.threads 0).ptls.isSome = true ∧
      (oneBlock.threads 1).ptls.isNone = true ∧
      (oneBlock.threads 1).threadCacheAlreadyDestructed = false := by
  refine ⟨?_, ?_, ?_, ?_, ?_, ?_⟩ <;> decide +kernel

/-- The span of the interior pointer. -/
lemma oneBlock_span : ∃ s, oneBlock.central.pageCache.spans 1 = some s ∧ s.used = true ∧
    s.alignedObjSize ≠ 0 ∧ s.objectSlotOf interiorPtr = sizeMax ∧ SharedChecks s interiorPtr := by
  obtain ⟨-, hspan, -⟩ := oneBlock_facts
  obtain ⟨s, hs, heq⟩ := Option.map_eq_some_iff.mp hspan
  simp only [Prod.mk.injEq] at heq
  obtain ⟨hused, hsize, hslot, hstart, hnum, hidx⟩ := heq
  refine ⟨s, hs, hused, by rw [hsize]; decide, hslot, ?_, ?_, ?_⟩
  · rw [Span.Covers, hstart, hnum]
    decide
  · rw [hidx]
    decide
  · rw [hidx, hsize]
    decide

/-- **Thread 1, which has no ThreadCache yet, frees the interior pointer** of the block of thread 0:
the call does not abort, and the pointer goes into its new FreeList. -/
theorem not_rejectsFree_interiorPtr :
    (∃ s, oneBlock.central.pageCache.pageMap.getSpan (interiorPtr >>> pageShift) = some 1 ∧
      oneBlock.central.pageCache.spans 1 = some s ∧ s.used = true ∧ s.alignedObjSize ≠ 0 ∧
      s.objectSlotOf interiorPtr = sizeMax) ∧
    ¬ oneBlock.RejectsFree 1 interiorPtr true fun _ => {} := by
  obtain ⟨hget, -, -, -, hptls, hflag⟩ := oneBlock_facts
  obtain ⟨s, hs, hused, hsize, hslot, hchecks⟩ := oneBlock_span
  refine ⟨⟨s, hget, hs, hused, hsize, hslot⟩, ?_⟩
  have hnone := Option.isNone_iff_eq_none.mp hptls
  exact not_rejectsFree_of_creatable (by decide) hget hs hused hsize hchecks hnone ⟨hflag, rfl⟩

/-- Thread 0, which owns a ThreadCache, is rejected with the same pointer. -/
theorem rejectsFree_interiorPtr_of_owner :
    oneBlock.RejectsFree 0 interiorPtr true fun _ => {} := by
  obtain ⟨hget, -, hidle, hptls, -⟩ := oneBlock_facts
  obtain ⟨s, hs, hused, hsize, hslot, -⟩ := oneBlock_span
  have hlt : interiorPtr < 2 ^ 64 := by norm_num [interiorPtr]
  refine (rejectsFree_iff true _ hidle hlt hget hs hused hsize hslot).mpr
    ⟨by decide, Or.inr (Or.inl ?_)⟩
  rw [Option.ne_none_iff_isSome]
  exact hptls

end Allocator

end Ammalloc
