import Ammalloc.Allocator.Frame
import Ammalloc.Allocator.Runs
import Ammalloc.CentralCache.DrainBudget
import Ammalloc.CentralCache.FetchProgress

set_option relaxedAutoImplicit false
set_option autoImplicit false

/-!
# Every call returns

A call of the API is in a loop of `Trim`, `ReleaseAll`, `FetchBatch`, `ReleaseBatch` or
`DrainTransferCaches` for most of its steps, and other threads fill and empty the caches in between.
None of them can keep it there: a drain takes no more than its snapshots, a fetch extracts an object
after every `GetOneSpan` before it lets go of the lock, and the lists that a trim visits are bounded
by their quotas. So there is one number of own steps after which every call of every thread has
returned, whatever the others do.

A step is a lock section or the local work up to the next one; waiting for a lock is not counted.

## Main definitions

* `Ammalloc.CentralFrame.work`, `Ammalloc.TcPc.work`, `Ammalloc.ThreadPc.work` — bounds on the
  remaining steps of a call.
* `Ammalloc.Allocator.maxCallSteps` — the bound for all calls.

## Main results

* `Ammalloc.Allocator.Inv.threadStep_work` — a step of a call.
* `Ammalloc.Allocator.calls_return` — every call, in every interleaving.
-/

namespace Ammalloc

open SizeClass (kNumSizeClasses kMaxBatchSize)
open CentralCache (maxRing)

/-! ## Calls into the CentralCache -/

/-- A bound on the steps of a drain for one class. -/
def drainClassSteps : ℕ := 5 * maxRing + 2

/-- A bound on the remaining steps of a drain, whatever happens to the TransferCaches. -/
def DrainFrame.work (f : DrainFrame) : ℕ :=
  match f.pc with
  | .next i => i * drainClassSteps
  | .detach idx remaining => 5 * remaining + 1 + idx * drainClassSteps
  | .release idx remaining detached pc =>
    pc.steps + 5 * (remaining - detached) + 1 + idx * drainClassSteps

namespace CentralFrame

/-- A bound on the remaining steps of a call. -/
def work : CentralFrame → ℕ
  | .fetch f => CentralCache.fetchFuel f
  | .release _ _ pc => pc.steps
  | .drain f => f.work

/-- The bound at the beginning of a `FetchBatch`. -/
lemma work_start (idx m : ℕ) : (fetch (.start idx m)).work ≤ 10 * m + 5 := by
  by_cases hm : m = 0
  · simp [work, CentralCache.fetchFuel, FetchFrame.start, hm]
  · simp [work, CentralCache.fetchFuel, FetchFrame.start, hm]

/-- A `ReleaseBatch` inside another call has not returned yet. -/
def Unfinished : CentralFrame → Prop
  | .fetch f => ∀ pc, f.pc = .rollback pc → pc ≠ .chunk []
  | .release _ _ _ => True
  | .drain f => ∀ idx remaining detached pc, f.pc = .release idx remaining detached pc →
      pc ≠ .chunk []

end CentralFrame

namespace CentralCache

variable {c c' : CentralCache} {det : List ℕ} {out : Multiset (ℕ × ℕ)} {spansOut : Multiset ℕ}
  {hardened : Bool} {env : PageEnv}

/-- **A step of a drain** brings its end nearer, even if the others refill what it has emptied. -/
lemma drainStep_work {f f' : DrainFrame} (hinv : c.Inv det out spansOut none) (hok : DrainOk f)
    (hu : (CentralFrame.drain f).Unfinished) (hpc : f.pc ≠ .next 0)
    (hstep : c.drainStep hardened env f = .ok (c', f')) :
    (CentralFrame.drain f').Unfinished ∧ f'.work < f.work := by
  cases drainStep_cases hstep with
  | returned hf => exact absurd hf hpc
  | @skip idx hf =>
    refine ⟨by simp [CentralFrame.Unfinished], ?_⟩
    simp only [DrainFrame.work, hf, Nat.succ_mul]
    unfold drainClassSteps
    omega
  | @snapshot idx hf =>
    have hidx : idx < kNumSizeClasses := by
      have hle := hok
      simp only [DrainOk, hf] at hle
      omega
    have hring := hinv.ring_size_le hidx
    have hcount : (if f.unbounded then (c.buckets idx).transferCache.size
        else min (c.buckets idx).transferCache.size (f.maxBytes / SizeClass.size idx)) ≤
          maxRing := by
      split
      · exact hring
      · exact (min_le_left _ _).trans hring
    refine ⟨by simp [CentralFrame.Unfinished], ?_⟩
    simp only [DrainFrame.work, hf, Nat.succ_mul]
    unfold drainClassSteps
    omega
  | @exhausted idx remaining hf =>
    refine ⟨by simp [CentralFrame.Unfinished], ?_⟩
    simp only [DrainFrame.work, hf]
    omega
  | @detach idx remaining detached hf hcount hpos =>
    have hlen : ((c.buckets idx).transferCache.detach detached).1.length = detached := by
      simp
    refine ⟨?_, ?_⟩
    · rintro _ _ _ _ ⟨rfl⟩ hnil
      rw [← hlen, List.reverse_eq_nil_iff.mp (ReleasePc.chunk.inj hnil)] at hpos
      exact absurd hpos (by simp)
    · simp only [DrainFrame.work, hf, ReleasePc.steps, List.length_reverse, hlen]
      omega
  | @releasing idx remaining detached pc pc' _ hf hrun hmore =>
    have hlt := releaseStep_steps_lt (hu _ _ _ _ hf) hrun
    refine ⟨?_, ?_⟩
    · rintro _ _ _ _ ⟨rfl⟩
      exact hmore
    · simp only [DrainFrame.work, hf]
      omega
  | @released idx remaining detached pc _ hf hrun =>
    have hpos := ReleasePc.steps_pos (hu _ _ _ _ hf)
    refine ⟨by simp [CentralFrame.Unfinished], ?_⟩
    simp only [DrainFrame.work, hf]
    omega

/-- **A step of a call** into the CentralCache brings its end nearer. -/
lemma step_work {f f' : CentralFrame} (hok : c.FrameOk f)
    (hinv : c.Inv det ((f.objs : Multiset (ℕ × ℕ)) + out) ((f.spans : Multiset ℕ) + spansOut) none)
    (hu : f.Unfinished) (hret : f.returned = false) (hok' : c'.FrameOk f')
    (hstep : c.step hardened env f = .ok (c', f')) : f'.Unfinished ∧ f'.work < f.work := by
  cases f with
  | fetch f =>
    obtain ⟨⟨c₁, g⟩, hrun, hg⟩ := exists_ok_of_bind hstep
    obtain ⟨rfl, rfl⟩ := Prod.mk.inj (Except.ok.inj hg)
    have hpc : f.pc ≠ .done := by simpa [CentralFrame.returned] using hret
    have hdelivery : Delivery True f := ⟨hu, fun _ => .inr trivial⟩
    obtain ⟨hdelivery', hlt⟩ := hdelivery.step hok hinv hpc (id : True → True) (fun _ _ => trivial)
      hok' hrun
    exact ⟨hdelivery'.unfinished, hlt⟩
  | release idx mode pc =>
    obtain ⟨⟨c₁, pc'⟩, hrun, hg⟩ := exists_ok_of_bind hstep
    obtain ⟨rfl, rfl⟩ := Prod.mk.inj (Except.ok.inj hg)
    have hpc : pc ≠ .chunk [] := by simpa [CentralFrame.returned] using hret
    exact ⟨trivial, releaseStep_steps_lt hpc hrun⟩
  | drain f =>
    obtain ⟨⟨c₁, g⟩, hrun, hg⟩ := exists_ok_of_bind hstep
    obtain ⟨rfl, rfl⟩ := Prod.mk.inj (Except.ok.inj hg)
    exact drainStep_work hinv hok hu (by simpa [CentralFrame.returned] using hret) hrun

end CentralCache

/-! ## Operations of the ThreadCache -/

/-- A bound on the length of a list of a ThreadCache. -/
def maxList : ℕ := QuotaPolicy.kMaxQuotaBatches * kMaxBatchSize + 2

/-- A bound on the steps of a `Trim` or `ReleaseAll` for one class. -/
def trimClassSteps : ℕ := 4 * maxList + 2

/-- A bound on the steps of what follows `HandleGlobalTrimRequest`. -/
def afterHandleSteps : ℕ := 10 * kMaxBatchSize + 6

/-- A bound on the remaining steps of an operation, without those of the call that it waits for. -/
def TcPc.work : TcPc → ℕ
  | .idle => 0
  | .handle _ => kNumSizeClasses * trimClassSteps + afterHandleSteps + 2
  | .trim i _ => i * trimClassSteps + afterHandleSteps + 1
  | .trimCall idx _ => idx * trimClassSteps + afterHandleSteps + 2
  | .fetchCall _ _ => 1
  | .overflowCall _ => 1
  | .all i => (kNumSizeClasses - i) * trimClassSteps + 1
  | .allCall i => (kNumSizeClasses - (i + 1)) * trimClassSteps + 2

/-- A bound on the steps of a call that is about to begin. -/
def CentralCall.work (call : Option CentralCall) : ℕ :=
  (call.map CentralCall.frame).elim 0 CentralFrame.work

namespace ThreadCache

variable {tc : ThreadCache} {pc : TcPc} {idx : ℕ}

/-- The lists are bounded by their quotas, up to what is about to be evicted. -/
lemma PcInv.length_le (h : tc.PcInv 1 pc) (hidx : idx < kNumSizeClasses) :
    (tc.freeLists idx).objs.length ≤ maxList := by
  have hr := h.resident idx hidx
  have hover := pc.over_le_one idx
  have hquota := (h.inv.quota idx hidx).le
  have hbatch := (batchNum_bounds hidx).2
  have hcap : (if (tc.freeLists idx).overages = 0 then 1 else 0) ≤ 1 := by split <;> omega
  have hmul : QuotaPolicy.kMaxQuotaBatches * batchNum idx ≤
      QuotaPolicy.kMaxQuotaBatches * kMaxBatchSize := Nat.mul_le_mul_left _ hbatch
  simp only [FreeList.size] at hr
  unfold maxList
  omega

/-- What follows `HandleGlobalTrimRequest`. -/
lemma afterHandle_work (stat : ℕ) (after : TcAfter) (hok : tc.AfterOk after) :
    (tc.afterHandle stat after).pc.work + CentralCall.work (tc.afterHandle stat after).call ≤
      afterHandleSteps := by
  cases after with
  | ret => simp [afterHandle, TcPc.work, CentralCall.work]
  | fetch idx =>
    have hbatch := (batchNum_bounds hok.1).2
    have hstart := CentralFrame.work_start idx (min (batchNum idx) (tc.freeLists idx).maxSize)
    have hmin := min_le_left (batchNum idx) (tc.freeLists idx).maxSize
    simp only [afterHandle, TcPc.work, CentralCall.work, Option.map_some, Option.elim_some,
      CentralCall.frame]
    unfold afterHandleSteps kMaxBatchSize
    omega
  | overflow idx =>
    have hbatch := (batchNum_bounds (show idx < kNumSizeClasses from hok)).2
    unfold afterHandle
    dsimp only
    split
    · simp [TcPc.work, CentralCall.work]
    · split
      · simp [overflowEnd, TcPc.work, CentralCall.work]
      · rename_i batch list _ hpop
        have hlen := (tc.freeLists idx).length_popBatchTail (batchNum idx)
        rw [hpop] at hlen
        change batch.length = _ at hlen
        have hmin := min_le_left (batchNum idx) (tc.freeLists idx).size
        simp only [TcPc.work, CentralCall.work, Option.map_some, Option.elim_some,
          CentralCall.frame, CentralFrame.work, ReleasePc.steps]
        unfold afterHandleSteps kMaxBatchSize
        omega

/-- **A step of an operation** that does not wait brings its end nearer, and pays for the call that
it makes. -/
lemma step_work (tc : ThreadCache) (stat : ℕ) (h : tc.PcInv 1 pc) (hw : pc.waits = false)
    (hpc : pc ≠ .idle) (req : ℕ) :
    (tc.step stat req pc).pc.work + CentralCall.work (tc.step stat req pc).call < pc.work := by
  cases pc with
  | idle => exact absurd rfl hpc
  | handle after =>
    have hafter := tc.afterHandle_work stat after h.ok
    change (tc.handle stat req after).pc.work + CentralCall.work (tc.handle stat req after).call <
      kNumSizeClasses * trimClassSteps + afterHandleSteps + 2
    unfold handle
    dsimp only
    split
    · omega
    · simp [trim, TcPc.work, CentralCall.work]
  | trim i f =>
    have hok : tc.TrimOk i f := h.ok
    cases i with
    | zero =>
      -- the end of the loop: only what follows the safepoint is left
      change _ < 0 * trimClassSteps + afterHandleSteps + 1
      simp only [step, trimStep]
      refine Nat.lt_of_le_of_lt (afterHandle_work stat f.after (hok.after.congr fun j hj => ?_))
        (by omega)
      cases f.epoch <;> exact hj
    | succ idx =>
      have hlen := h.length_le (show idx < kNumSizeClasses from hok.le)
      change _ < (idx + 1) * trimClassSteps + afterHandleSteps + 1
      have hclass : (idx + 1) * trimClassSteps = idx * trimClassSteps + (4 * maxList + 2) :=
        Nat.succ_mul idx trimClassSteps
      simp only [step, trimStep]
      split
      · have hbatch := (tc.freeLists idx).length_popBatchTail (tc.trimEvictCount idx f)
        have hmin := min_le_right (tc.trimEvictCount idx f) (tc.freeLists idx).size
        simp only [FreeList.size] at hbatch hmin
        simp only [TcPc.work, CentralCall.work, Option.map_some, Option.elim_some,
          CentralCall.frame, CentralFrame.work, ReleasePc.steps]
        omega
      · simp only [trimNext, TcPc.work, CentralCall.work, Option.map_none, Option.elim_none]
        omega
  | all i =>
    change _ < (kNumSizeClasses - i) * trimClassSteps + 1
    simp only [step, allStep]
    split
    · simp [TcPc.work, CentralCall.work]
    · rename_i hi
      have hlen := h.length_le (show i < kNumSizeClasses by omega)
      have hclass : (kNumSizeClasses - i) * trimClassSteps =
          (kNumSizeClasses - (i + 1)) * trimClassSteps + (4 * maxList + 2) := by
        rw [show kNumSizeClasses - i = kNumSizeClasses - (i + 1) + 1 by omega]
        exact Nat.succ_mul _ trimClassSteps
      split
      · simp only [allNext, TcPc.work, CentralCall.work, Option.map_none, Option.elim_none]
        omega
      · simp only [FreeList.popBatch, TcPc.work, CentralCall.work, Option.map_some,
          Option.elim_some, CentralCall.frame, CentralFrame.work, ReleasePc.steps, List.length_take,
          min_self]
        omega
  | trimCall idx f => exact absurd hw (by simp [TcPc.waits])
  | fetchCall idx m => exact absurd hw (by simp [TcPc.waits])
  | overflowCall idx => exact absurd hw (by simp [TcPc.waits])
  | allCall i => exact absurd hw (by simp [TcPc.waits])

/-- **The step after a call** has returned brings the end nearer, and makes no other call. -/
lemma resume_work (tc : ThreadCache) (stat : ℕ) (hw : pc.waits = true) (batch : List ℕ) :
    (tc.resume stat batch pc).pc.work < pc.work ∧ (tc.resume stat batch pc).call = none := by
  cases pc with
  | trimCall idx f => exact ⟨Nat.lt_succ_self _, rfl⟩
  | fetchCall idx m =>
    cases batch with
    | nil => exact ⟨Nat.zero_lt_one, rfl⟩
    | cons obj objs => exact ⟨Nat.zero_lt_one, rfl⟩
  | overflowCall idx => exact ⟨Nat.zero_lt_one, rfl⟩
  | allCall i => exact ⟨Nat.lt_succ_self _, rfl⟩
  | idle => exact absurd hw (by simp [TcPc.waits])
  | handle after => exact absurd hw (by simp [TcPc.waits])
  | trim i f => exact absurd hw (by simp [TcPc.waits])
  | all i => exact absurd hw (by simp [TcPc.waits])

end ThreadCache

/-! ## Threads -/

/-- A bound on the steps of `am_thread_cache_trim` from its own `Trim` on. -/
def trimSteps : ℕ := kNumSizeClasses * trimClassSteps + afterHandleSteps + 2

/-- A bound on the steps of a call from a `DrainTransferCaches` on. -/
def drainCallSteps : ℕ := kNumSizeClasses * drainClassSteps + 1

/-- A bound on the steps of a call once the operation of the ThreadCache has returned. -/
def TcCaller.work : TcCaller → ℕ
  | .trimRequest => trimSteps
  | .purge => drainCallSteps
  | .exit => 1
  | .malloc _ | .free | .trim => 0

/-- A bound on the remaining steps of a call. -/
def ThreadPc.work : ThreadPc → ℕ
  | .idle => 0
  | .cache caller pc call => call.elim 0 CentralFrame.work + pc.work + caller.work
  | .allocSpan _ | .releaseSpan _ | .destroy => 1
  | .central f => f.work + 1
  | .trim => trimSteps

/-- The bound at the beginning of a `DrainTransferCaches`. -/
lemma DrainFrame.work_start (maxBytes : ℕ) :
    (DrainFrame.start maxBytes).work ≤ kNumSizeClasses * drainClassSteps := by
  simp only [DrainFrame.start, DrainFrame.work]
  split
  · simp
  · exact le_rfl

/-- What is left of a call when the operation of the ThreadCache has returned. -/
lemma TcCaller.work_after (caller : TcCaller) : caller.after.work ≤ caller.work := by
  cases caller with
  | purge => exact Nat.succ_le_succ (DrainFrame.work_start sizeMax)
  | malloc m => exact le_rfl
  | free => exact le_rfl
  | trimRequest => exact le_rfl
  | trim => exact le_rfl
  | exit => exact le_rfl

/-- Where a thread stands after a step of its ThreadCache. -/
lemma ThreadPc.work_after (caller : TcCaller) (out : TcOut) :
    (ThreadPc.after caller out).work ≤ out.pc.work + CentralCall.work out.call + caller.work := by
  unfold ThreadPc.after
  split
  · exact caller.work_after.trans (Nat.le_add_left _ _)
  · simp only [ThreadPc.work, CentralCall.work]
    omega

namespace Allocator

variable {n t : ℕ} {st st' : Allocator} {hardened : Bool} {env : PageEnv}

/-- The bound for all calls: that of an `am_thread_cache_trim` which has to answer a request first,
and of a purge. -/
def maxCallSteps : ℕ := 2 * trimSteps + drainCallSteps

/-- A call in progress: it can go on, and it has at most `maxCallSteps` to go. -/
structure Underway (th : Thread) : Prop where
  frame : ∀ f, th.pc.frame = some f → f.Unfinished
  busy : ∀ caller pc call, th.pc = .cache caller pc call → pc ≠ .idle
  ptls : th.pc = .trim ∨ th.pc = .destroy → th.ptls ≠ none
  bound : th.pc.work ≤ maxCallSteps

/-- A call that is about to begin has not begun yet. -/
lemma unfinished_frame (call : CentralCall) : call.frame.Unfinished := by
  cases call with
  | release idx batch mode => trivial
  | fetch idx m =>
    intro pc hpc
    simp only [FetchFrame.start] at hpc
    split at hpc <;> exact absurd hpc (by simp)

/-- At the beginning of a drain no release is in progress. -/
lemma unfinished_start (maxBytes : ℕ) : (CentralFrame.drain (.start maxBytes)).Unfinished := by
  intro idx remaining detached pc hpc
  exact absurd hpc (by simp [DrainFrame.start])

/-- Where a thread stands after a step of its ThreadCache. -/
lemma after_cases (caller : TcCaller) (out : TcOut) :
    (∀ f, (ThreadPc.after caller out).frame = some f → f.Unfinished) ∧
      ∀ caller' pc call, ThreadPc.after caller out = .cache caller' pc call → pc ≠ .idle := by
  unfold ThreadPc.after
  split
  · refine ⟨fun f hf => ?_, fun caller' pc call hpc => ?_⟩
    · cases caller with
      | purge =>
        obtain rfl := Option.some.inj hf
        exact unfinished_start sizeMax
      | _ => exact absurd hf (by simp [TcCaller.after, ThreadPc.frame])
    · cases caller <;> exact absurd hpc (by simp [TcCaller.after])
  · rename_i hne
    refine ⟨fun f hf => ?_, fun caller' pc call hpc => ?_⟩
    · obtain ⟨call, -, rfl⟩ := Option.map_eq_some_iff.mp hf
      exact unfinished_frame call
    · obtain ⟨-, rfl, -⟩ := ThreadPc.cache.inj hpc
      exact hne

/-- A local step of the ThreadCache of a thread. -/
lemma underway_commit {caller : TcCaller} {out : TcOut}
    (hle : (ThreadPc.after caller out).work ≤ maxCallSteps) :
    Underway ((st.commit t caller out).threads t) := by
  have hth : (st.commit t caller out).threads t =
      { st.threads t with ptls := some out.tc, pc := ThreadPc.after caller out } :=
    Function.update_self ..
  rw [hth]
  exact ⟨(after_cases caller out).1, (after_cases caller out).2, by simp, hle⟩

@[simp] lemma setPc_pc (st : Allocator) (t : ℕ) (pc : ThreadPc) :
    (st.setPc t pc).threads t = { st.threads t with pc := pc } := Function.update_self ..

/-- A call that has not returned has a step to go. -/
lemma Underway.work_pos {th : Thread} (h : Underway th) (hpc : th.pc ≠ .idle) : 0 < th.pc.work := by
  cases hth : th.pc with
  | idle => exact absurd hth hpc
  | cache caller pc call =>
    have hbusy := h.busy caller pc call hth
    have hpos : 0 < pc.work := by
      cases pc with
      | idle => exact absurd rfl hbusy
      | _ => exact Nat.succ_pos _
    simp only [ThreadPc.work]
    omega
  | _ => exact Nat.succ_pos _

/-- A thread between its calls is under way. -/
lemma underway_of_idle {th : Thread} (h : th.pc = .idle) : Underway th :=
  ⟨by simp [h, ThreadPc.frame], by simp [h], by simp [h], by simp [h, ThreadPc.work]⟩

/-- A thread that returns. -/
lemma returns_of_idle (hpos : 0 < (st.threads t).pc.work) (h : (st'.threads t).pc = .idle) :
    Underway (st'.threads t) ∧ (st'.threads t).pc.work < (st.threads t).pc.work := by
  refine ⟨underway_of_idle h, ?_⟩
  rw [h]
  exact hpos

/-- **A lock section** of a call into the CentralCache. -/
lemma Inv.section_work (h : Inv n st) (ht : t < n) (hu : Underway (st.threads t))
    {f f' : CentralFrame}
    {c' : CentralCache} (hf : (st.threads t).pc.frame = some f) (hret : f.returned = false)
    (hstep : st.central.step hardened env f = .ok (c', f')) : f'.Unfinished ∧ f'.work < f.work := by
  have hinv := h.central_of_pc ht
  obtain ⟨hobjs, hspans⟩ := held_of_frame hf
  rw [hobjs, hspans] at hinv
  obtain ⟨c₁, f₁, hrun, hpost, -⟩ := h.sectionStep hardened ht hf env
  obtain ⟨rfl, rfl⟩ := Prod.mk.inj (Except.ok.inj (hstep.symm.trans hrun))
  exact CentralCache.step_work ((h.threads t ht).frame f hf) hinv (hu.frame f hf) hret hpost.ok
    hstep

/-- A step of an operation of the ThreadCache. -/
lemma Inv.cacheStep_work (h : Inv n st) (ht : t < n) (hu : Underway (st.threads t))
    {caller : TcCaller} {pc : TcPc} {call : Option CentralFrame}
    (hpc : (st.threads t).pc = .cache caller pc call)
    (hstep : st.threadStep hardened t env = .ok st') :
    Underway (st'.threads t) ∧ (st'.threads t).pc.work < (st.threads t).pc.work := by
  have hok := h.threads t ht
  have hcache := hok.cache caller pc call hpc
  obtain ⟨tc, hptls⟩ := Option.ne_none_iff_exists'.mp hcache.ptls
  have htc : tc.PcInv 1 pc := by
    have := hok.tc tc hptls
    rwa [hpc] at this
  have hbound := hu.bound
  -- a local step is enough if it lowers the bound
  have hcommit : ∀ out : TcOut,
      out.pc.work + CentralCall.work out.call < call.elim 0 CentralFrame.work + pc.work →
      Underway ((st.commit t caller out).threads t) ∧
        ((st.commit t caller out).threads t).pc.work < (st.threads t).pc.work := by
    intro out hlt
    have hafter := ThreadPc.work_after caller out
    have hwork : (st.threads t).pc.work =
        call.elim 0 CentralFrame.work + pc.work + caller.work := by
      rw [hpc]
      rfl
    refine ⟨underway_commit (by omega), ?_⟩
    have hth : ((st.commit t caller out).threads t).pc = ThreadPc.after caller out := by
      simp [Allocator.commit]
    rw [hth]
    omega
  simp only [Allocator.threadStep, hpc, hptls] at hstep
  cases call with
  | none =>
    obtain rfl := Except.ok.inj hstep
    refine hcommit _ ?_
    have hlt :=
      tc.step_work st.stat htc hcache.waitsFor.not_waits (hu.busy _ _ _ hpc) st.trimRequest
    simpa using hlt
  | some f =>
    simp only at hstep
    split_ifs at hstep with hret
    · obtain rfl := Except.ok.inj hstep
      refine hcommit _ ?_
      obtain ⟨hlt, hnone⟩ := tc.resume_work st.stat hcache.waitsFor.waits f.batch
      rw [hnone]
      simp only [CentralCall.work, Option.map_none, Option.elim_none, Option.elim_some]
      omega
    · obtain ⟨⟨c', f'⟩, hrun, hst⟩ := exists_ok_of_bind hstep
      obtain rfl := Except.ok.inj hst
      obtain ⟨hun, hlt⟩ :=
        h.section_work ht hu (f := f) (by rw [hpc]; rfl) (by simpa using hret) hrun
      rw [setPc_pc, hpc]
      rw [hpc] at hbound
      simp only [ThreadPc.work, Option.elim_some] at hbound ⊢
      refine ⟨⟨?_, ?_, by simp, ?_⟩, by omega⟩
      · rintro g ⟨rfl⟩
        exact hun
      · rintro _ _ _ ⟨rfl, rfl, rfl⟩
        exact hu.busy _ _ _ hpc
      · simp only [ThreadPc.work, Option.elim_some]
        omega

/-- **A step of a call** brings its end nearer. -/
lemma Inv.threadStep_work (h : Inv n st) (ht : t < n) (hu : Underway (st.threads t))
    (hpc : (st.threads t).pc ≠ .idle) (hstep : st.threadStep hardened t env = .ok st') :
    Underway (st'.threads t) ∧ (st'.threads t).pc.work < (st.threads t).pc.work := by
  cases hpc' : (st.threads t).pc with
  | idle => exact absurd hpc' hpc
  | cache caller pc call =>
    rw [← hpc']
    exact h.cacheStep_work ht hu hpc' hstep
  | allocSpan m =>
    rw [← hpc']
    refine returns_of_idle (by rw [hpc']; exact Nat.zero_lt_one) ?_
    simp only [Allocator.threadStep, hpc'] at hstep
    obtain ⟨⟨span, pc⟩, -, hstep⟩ := exists_ok_of_bind hstep
    cases span with
    | none =>
      obtain rfl := Except.ok.inj hstep
      simp
    | some i =>
      obtain ⟨s, -, hstep⟩ := exists_ok_of_bind hstep
      obtain rfl := Except.ok.inj hstep
      simp [Allocator.setPc, setThread]
  | releaseSpan i =>
    rw [← hpc']
    refine returns_of_idle (by rw [hpc']; exact Nat.zero_lt_one) ?_
    simp only [Allocator.threadStep, hpc'] at hstep
    obtain ⟨pc, -, hstep⟩ := exists_ok_of_bind hstep
    obtain rfl := Except.ok.inj hstep
    simp
  | central f =>
    have hbound := hu.bound
    rw [hpc'] at hbound
    simp only [Allocator.threadStep, hpc'] at hstep
    split_ifs at hstep with hret
    · obtain rfl := Except.ok.inj hstep
      rw [← hpc']
      exact returns_of_idle (by rw [hpc']; exact Nat.succ_pos _) (by simp)
    · obtain ⟨⟨c', f'⟩, hrun, hst⟩ := exists_ok_of_bind hstep
      obtain rfl := Except.ok.inj hst
      obtain ⟨hun, hlt⟩ :=
        h.section_work ht hu (f := f) (by rw [hpc']; rfl) (by simpa using hret) hrun
      rw [setPc_pc]
      simp only [ThreadPc.work] at hbound ⊢
      refine ⟨⟨?_, by simp, by simp, ?_⟩, by omega⟩
      · rintro g ⟨rfl⟩
        exact hun
      · simp only [ThreadPc.work]
        omega
  | trim =>
    obtain ⟨tc, hptls⟩ := Option.ne_none_iff_exists'.mp (hu.ptls (.inl hpc'))
    simp only [Allocator.threadStep, hpc', hptls] at hstep
    obtain rfl := Except.ok.inj hstep
    -- its own `Trim` has neither a request to answer nor a call to make yet
    have hafter : ∀ mode target stat, ThreadPc.after .trim (tc.trim stat mode target none .ret) =
        .cache .trim (tc.trim stat mode target none .ret).pc none := fun _ _ _ => rfl
    have hlt : ∀ mode target stat,
        (ThreadPc.after .trim (tc.trim stat mode target none .ret)).work < trimSteps := by
      intro mode target stat
      rw [hafter]
      simp only [ThreadCache.trim, ThreadPc.work, TcPc.work, TcCaller.work, Option.elim_none]
      unfold trimSteps
      omega
    refine ⟨underway_commit ((hlt _ _ _).le.trans ?_), ?_⟩
    · unfold maxCallSteps
      omega
    · simp only [Allocator.commit, Function.update_self]
      exact hlt _ _ _
  | destroy =>
    obtain ⟨tc, hptls⟩ := Option.ne_none_iff_exists'.mp (hu.ptls (.inr hpc'))
    simp only [Allocator.threadStep, hpc', hptls] at hstep
    obtain rfl := Except.ok.inj hstep
    rw [← hpc']
    refine returns_of_idle (by rw [hpc']; exact Nat.zero_lt_one) ?_
    simp [Allocator.releaseThreadCache, setThread]

/-! ## The beginnings -/

/-- An operation of the ThreadCache begins. -/
lemma begins_commit {caller : TcCaller} {out : TcOut} (hcall : out.call = none)
    (hle : out.pc.work ≤ trimSteps) : Underway ((st.commit t caller out).threads t) := by
  refine underway_commit ((ThreadPc.work_after caller out).trans ?_)
  have hcaller : caller.work ≤ trimSteps + drainCallSteps := by
    cases caller with
    | trimRequest => exact Nat.le_add_right _ _
    | purge => exact Nat.le_add_left _ _
    | exit => exact (show 1 ≤ drainCallSteps from Nat.le_add_left _ _).trans (Nat.le_add_left _ _)
    | malloc m => exact Nat.zero_le _
    | free => exact Nat.zero_le _
    | trim => exact Nat.zero_le _
  rw [hcall]
  simp only [CentralCall.work, Option.map_none, Option.elim_none]
  unfold maxCallSteps
  omega

/-- A call begins in the page layer or in the CentralCache. -/
lemma begins_setPc {pc : ThreadPc} (hframe : ∀ f, pc.frame = some f → f.Unfinished)
    (hcache : ∀ caller tcPc call, pc ≠ .cache caller tcPc call) (htrim : pc ≠ .trim)
    (hdestroy : pc ≠ .destroy) (hle : pc.work ≤ drainCallSteps) :
    Underway ((st.setPc t pc).threads t) := by
  rw [setPc_pc]
  refine ⟨hframe, fun caller tcPc call hpc => absurd hpc (hcache caller tcPc call), fun hpc => ?_,
    hle.trans (Nat.le_add_left _ _)⟩
  exact absurd hpc (not_or.mpr ⟨htrim, hdestroy⟩)

/-- A drain is not the shortest call. -/
lemma one_le_drainCallSteps : 1 ≤ drainCallSteps := Nat.le_add_left _ _

/-- `DrainTransferCaches` begins. -/
lemma begins_drain (maxBytes : ℕ) :
    Underway ((st.setPc t (.central (.drain (.start maxBytes)))).threads t) := by
  refine begins_setPc ?_ (by simp) (by simp) (by simp)
    (Nat.succ_le_succ (DrainFrame.work_start maxBytes))
  rintro f ⟨rfl⟩
  exact unfinished_start maxBytes

/-- `Allocate` begins. -/
lemma begins_allocate (tc : ThreadCache) (stat m idx : ℕ) :
    Underway ((st.commit t (.malloc m) (tc.allocate stat idx)).threads t) := by
  unfold ThreadCache.allocate
  split
  · exact begins_commit rfl (Nat.zero_le _)
  · exact begins_commit rfl le_rfl

/-- `am_malloc` begins. -/
lemma begins_amMalloc (hu : Underway (st.threads t)) (m : ℕ) (mapped : Bool) :
    Underway ((st.amMalloc t m mapped).threads t) := by
  have hslow : Underway ((st.amMallocSlowPath t m mapped).threads t) := by
    unfold amMallocSlowPath
    split_ifs
    · exact hu
    · exact begins_setPc (by simp [ThreadPc.frame]) (by simp) (by simp) (by simp)
        one_le_drainCallSteps
    · cases st.createThreadCache t mapped with
      | none => exact hu
      | some r => exact begins_allocate r.1 r.2 m _
  unfold amMalloc
  cases (st.threads t).ptls with
  | none => exact hslow
  | some tc =>
    simp only
    split_ifs
    · exact hslow
    · exact begins_allocate tc st.stat m _

/-- `Deallocate` begins. -/
lemma begins_deallocate {tc : ThreadCache} {stat ptr idx : ℕ}
    (h : st.deallocate hardened t tc stat ptr idx = .ok st') : Underway (st'.threads t) := by
  obtain ⟨-, -, hst⟩ := exists_ok_of_bind h
  obtain rfl := Except.ok.inj hst
  refine begins_commit rfl ?_
  simp only [ThreadCache.deallocate]
  split
  · exact le_rfl
  · exact Nat.zero_le _

/-- `am_free_slow_path` begins. -/
lemma begins_amFreeSlowPath {ptr span alignedSize idx : ℕ} {s : Span} {mapped : Bool}
    (h : st.amFreeSlowPath hardened t ptr span s alignedSize idx mapped = .ok st') :
    Underway (st'.threads t) := by
  unfold amFreeSlowPath at h
  split_ifs at h
  · obtain ⟨-, -, hst⟩ := exists_ok_of_bind h
    obtain rfl := Except.ok.inj hst
    exact begins_setPc (by simp [ThreadPc.frame]) (by simp) (by simp) (by simp)
      one_le_drainCallSteps
  · cases hcreate : st.createThreadCache t mapped with
    | none =>
      rw [hcreate] at h
      obtain rfl := Except.ok.inj h
      refine begins_setPc ?_ (by simp) (by simp) (by simp) ?_
      · rintro f ⟨rfl⟩
        trivial
      · simp only [ThreadPc.work, CentralFrame.work, ReleasePc.steps, List.length_singleton]
        decide
    | some r =>
      rw [hcreate] at h
      exact begins_deallocate h

/-- `am_free` begins. -/
lemma begins_amFree (hu : Underway (st.threads t)) {ptr : ℕ} {mapped : Bool}
    (h : st.amFree hardened t ptr mapped = .ok st') : Underway (st'.threads t) := by
  unfold amFree at h
  split_ifs at h
  · obtain rfl := Except.ok.inj h
    exact hu
  · split at h
    · obtain rfl := Except.ok.inj h
      exact hu
    · -- the checks of the hardened build come first
      obtain ⟨s, -, h⟩ := exists_ok_of_bind h
      obtain ⟨-, -, h⟩ := exists_ok_of_bind h
      obtain ⟨-, -, h⟩ := exists_ok_of_bind h
      obtain ⟨-, -, h⟩ := exists_ok_of_bind h
      split at h
      · exact begins_amFreeSlowPath h
      · split_ifs at h
        · exact begins_amFreeSlowPath h
        · obtain ⟨-, -, h⟩ := exists_ok_of_bind h
          exact begins_deallocate h

/-! ## Runs -/

/-- A call of thread `t` begins, or nothing happens. -/
def Calls (t : ℕ) (st st' : Allocator) : Prop :=
  (st.threads t).pc = .idle ∧ Underway (st'.threads t) ∨ st' = st

/-- `am_malloc`. -/
lemma calls_malloc (m : ℕ) (mapped : Bool) :
    Calls t st (next n hardened st (.malloc t m mapped)) := by
  simp only [next]
  split_ifs with hg
  · exact .inl ⟨hg.2.1, begins_amMalloc (underway_of_idle hg.2.1) m mapped⟩
  · exact .inr rfl

/-- `am_free`. -/
lemma Inv.calls_free (h : Inv n st) (ptr : ℕ) (mapped : Bool) :
    Calls t st (next n hardened st (.free t ptr mapped)) := by
  simp only [next]
  split_ifs with hg
  · obtain ⟨st', hrun, -⟩ := h.amFree hardened hg.1 hg.2.1 hg.2.2 mapped
    have hidle : Underway ({ st with live := st.live.eraseP fun b => b.ptr = ptr }.threads t) :=
      underway_of_idle hg.2.1
    rw [hrun]
    exact .inl ⟨hg.2.1, begins_amFree hidle hrun⟩
  · exact .inr rfl

/-- `am_thread_cache_trim`. -/
lemma calls_trim : Calls t st (next n hardened st (.trim t)) := by
  simp only [next, amThreadCacheTrim]
  split_ifs with hg
  · cases (st.threads t).ptls with
    | none => exact .inr rfl
    | some tc =>
      refine .inl ⟨hg.2, ?_⟩
      rw [setPc_pc]
      refine ⟨by simp [ThreadPc.frame], ?_, by simp, ?_⟩
      · rintro _ _ _ ⟨rfl, rfl, rfl⟩
        simp
      · simp only [ThreadPc.work, TcPc.work, TcCaller.work, Option.elim_none, maxCallSteps]
        unfold trimSteps
        omega
  · exact .inr rfl

/-- `am_thread_cache_purge`. -/
lemma calls_purge : Calls t st (next n hardened st (.purge t)) := by
  simp only [next, amThreadCachePurge]
  split_ifs with hg
  · cases (st.threads t).ptls with
    | none => exact .inl ⟨hg.2, begins_drain sizeMax⟩
    | some tc => exact .inl ⟨hg.2, begins_commit rfl (Nat.le_succ _)⟩
  · exact .inr rfl

/-- `am_request_thread_cache_purge`. -/
lemma calls_requestPurge : Calls t st (next n hardened st (.requestPurge t)) := by
  simp only [next, amRequestThreadCachePurge]
  split_ifs with hg
  · exact .inl ⟨hg.2, begins_drain _⟩
  · exact .inr rfl

/-- The end of a thread. -/
lemma calls_exit : Calls t st (next n hardened st (.exit t)) := by
  simp only [next]
  split_ifs with hg
  · refine .inl ⟨hg.2, ?_⟩
    unfold threadCacheCleaner
    dsimp only
    set st' := st.setThread t { st.threads t with threadCacheAlreadyDestructed := true } with hst'
    cases (st'.threads t).ptls with
    | none => exact underway_of_idle (by simp [hst', setThread, hg.2])
    | some tc =>
      refine begins_commit rfl ?_
      simp only [ThreadCache.releaseAll, TcPc.work, Nat.sub_zero]
      unfold trimSteps
      omega
  · exact .inr rfl

/-- Every call in progress is under way. -/
structure AllUnderway (n : ℕ) (st : Allocator) : Prop where
  inv : Inv n st
  underway : ∀ t < n, Underway (st.threads t)

/-- What an action `a` does to the calls in progress: they stay under way, and a thread in a call
does not move unless the action is a step of its own. -/
structure Advances (n : ℕ) (a : AllocAction) (st st' : Allocator) : Prop where
  underway : ∀ t < n, Underway (st'.threads t)
  others : ∀ t, (st.threads t).pc ≠ .idle → (∀ env, a ≠ .step t env) →
    st'.threads t = st.threads t

/-- The beginning of a call. -/
lemma AllUnderway.advances_of_calls {a : AllocAction} {u : ℕ} (h : AllUnderway n st)
    (ha : a.thread = some u) (hc : Calls u st (Allocator.next n hardened st a)) :
    Advances n a st (Allocator.next n hardened st a) := by
  have honly : OnlyMoves u st (Allocator.next n hardened st a) := onlyMoves_next ha
  rcases hc with ⟨hidle, hown⟩ | hsame
  · refine ⟨fun t ht => ?_, fun t hpc _ => honly.threads t ?_⟩
    · by_cases htu : t = u
      · subst htu
        exact hown
      · rw [honly.threads t htu]
        exact h.underway t ht
    · -- the caller has no other call in progress
      rintro rfl
      exact hpc hidle
  · rw [hsame]
    exact ⟨h.underway, fun _ _ _ => rfl⟩

/-- An action that moves no thread. -/
lemma AllUnderway.advances_of_threads {a : AllocAction} (h : AllUnderway n st)
    (hs : st'.threads = st.threads) : Advances n a st st' :=
  ⟨fun t ht => hs ▸ h.underway t ht, fun t _ _ => congrFun hs t⟩

/-- A step of a thread does not abort. -/
lemma AllUnderway.next_step (h : AllUnderway n st) (hardened : Bool) (ht : t < n) (env : PageEnv) :
    ∃ st', st.threadStep hardened t env = .ok st' ∧
      Allocator.next n hardened st (.step t env) = st' := by
  obtain ⟨st', hrun, -⟩ := h.inv.threadStep hardened ht env
  exact ⟨st', hrun, by simp only [Allocator.next, if_pos ht, hrun, settle]⟩

/-- **Every action** keeps the calls under way, and moves only the thread that acts. -/
lemma AllUnderway.next (h : AllUnderway n st) (a : AllocAction) :
    Advances n a st (next n hardened st a) := by
  cases a with
  | malloc u m mapped => exact h.advances_of_calls rfl (calls_malloc m mapped)
  | free u ptr mapped => exact h.advances_of_calls rfl (h.inv.calls_free ptr mapped)
  | trim u => exact h.advances_of_calls rfl calls_trim
  | purge u => exact h.advances_of_calls rfl calls_purge
  | requestPurge u => exact h.advances_of_calls rfl calls_requestPurge
  | exit u => exact h.advances_of_calls rfl calls_exit
  | publishTrim word => exact h.advances_of_threads rfl
  | scavenge env ok =>
    obtain ⟨scav, pc, hrun, -⟩ := h.inv.central.scavenge h.inv.scav env ok
    refine h.advances_of_threads ?_
    simp only [Allocator.next, hrun]
    rfl
  | step u env =>
    by_cases hu : u < n
    · obtain ⟨st', hrun, hst⟩ := h.next_step hardened hu env
      rw [hst]
      refine ⟨fun t ht => ?_, fun t _ hne => ?_⟩
      · by_cases htu : t = u
        · subst htu
          by_cases hidle : (st.threads t).pc = .idle
          · simp only [threadStep, hidle] at hrun
            obtain rfl := Except.ok.inj hrun
            exact h.underway t ht
          · exact (h.inv.threadStep_work ht (h.underway t ht) hidle hrun).1
        · rw [(onlyMoves_threadStep hrun).threads t htu]
          exact h.underway t ht
      · refine (onlyMoves_threadStep hrun).threads t ?_
        rintro rfl
        exact hne env rfl
    · exact h.advances_of_threads (by simp only [Allocator.next, if_neg hu])

/-- **The invariant of all calls.** -/
lemma allUnderway_run (n : ℕ) (hardened backed : Bool) (as : List AllocAction) :
    AllUnderway n ((machine n hardened).run (create backed) as) := by
  refine Machine.run_invariant (M := machine n hardened) (I := AllUnderway n)
    (fun st a hst => ⟨next_inv hardened hst.inv a, (hst.next a).underway⟩)
    ⟨create_inv n backed, fun t _ => underway_of_idle rfl⟩ as

/-- A step of thread `t`. -/
def ownStep (t : ℕ) : AllocAction → Bool
  | .step u _ => u = t
  | _ => false

/-- **Every call returns.** In every reachable state, let anything happen afterwards in which thread
`t` takes `maxCallSteps` steps. Then it has returned from the call it was in at some moment,
whatever call that was and whatever the other threads, the scavenger and the page source did.

**Proof sketch.** The steps of the thread lower `ThreadPc.work`, nobody else changes it, and it is
at most `maxCallSteps` at all times. -/
theorem calls_return (n : ℕ) (hardened backed : Bool) (as bs : List AllocAction) {t : ℕ}
    (ht : t < n) (hsteps : maxCallSteps ≤ bs.countP (ownStep t)) :
    ∃ cs, cs <+: bs ∧
      (((machine n hardened).run (create backed) (as ++ cs)).threads t).pc = .idle := by
  have hdone : ∃ cs, cs <+: bs ∧ (((machine n hardened).run
      ((machine n hardened).run (create backed) as) cs).threads t).pc = .idle := by
    have hst := allUnderway_run n hardened backed as
    refine Machine.exists_prefix_done (M := machine n hardened) (I := AllUnderway n)
      (fun st => (st.threads t).pc = .idle) (ownStep t) (fun st => (st.threads t).pc.work)
      ?_ ?_ ?_ ?_ hst ((hst.underway t ht).bound.trans hsteps)
    · exact fun st a h => ⟨next_inv hardened h.inv a, (h.next a).underway⟩
    · exact fun st h hpc => (h.underway t ht).work_pos hpc
    · intro st a h hpc ha
      have hne : ∀ env, a ≠ .step t env := by
        rintro env rfl
        simp [ownStep] at ha
      exact (congrArg (fun th : Thread => th.pc.work) ((h.next a).others t hpc hne)).le
    · intro st a h hpc ha
      obtain ⟨env, rfl⟩ : ∃ env, a = .step t env := by
        cases a <;> simp_all [ownStep]
      obtain ⟨st', hrun, hnext⟩ := h.next_step hardened ht env
      change (((Allocator.next n hardened st (.step t env)).threads t).pc).work < _
      rw [hnext]
      exact (h.inv.threadStep_work ht (h.underway t ht) hpc hrun).2
  obtain ⟨cs, hcs, hidle⟩ := hdone
  exact ⟨cs, hcs, by rw [Machine.run_append]; exact hidle⟩

/-- A thread that asks for memory gets an answer. -/
theorem calls_return_malloc : ∃ cs, cs <+: List.replicate maxCallSteps (.step 0 {}) ∧
    (((machine 1 true).run (create true) ([.malloc 0 16 true] ++ cs)).threads 0).pc = .idle :=
  calls_return 1 true true [.malloc 0 16 true] (List.replicate maxCallSteps (.step 0 {}))
    Nat.zero_lt_one (by rw [List.countP_replicate]; simp [ownStep])

end Allocator

end Ammalloc
