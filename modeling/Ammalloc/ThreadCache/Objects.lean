import Ammalloc.CentralCache.Invariant
import Ammalloc.ThreadCache.Invariant

set_option relaxedAutoImplicit false
set_option autoImplicit false

/-!
# The objects of a thread cache

A local step of a ThreadCache creates and forgets no object: what was in its lists, together with
what it has received, is in its lists afterwards, in the batch that it is about to release, or is
the result of the `Allocate` that ends there.

## Main definitions

* `Ammalloc.ThreadCache.objs` — the objects in the lists.
* `Ammalloc.TcPc.target` — the class an `Allocate` in progress serves.
* `Ammalloc.TcPc.Asks` — what an operation asks the CentralCache for.
* `Ammalloc.ThreadCache.Moves` — what a local step does with objects.
* `Ammalloc.ThreadCache.Emptying` — an operation that empties the cache.

## Main results

* `Ammalloc.ThreadCache.allocate_moves`, `deallocate_moves`, `trim_moves`, `releaseAll_moves`,
  `step_moves`, `resume_moves`.
* `Ammalloc.ThreadCache.Emptying.step`, `Ammalloc.ThreadCache.Emptying.resume` — a `Trim` to zero
  and a `ReleaseAll` leave the cache empty.
-/

namespace Ammalloc

open SizeClass (kNumSizeClasses)

/-! ## What an operation is about -/

/-- The class that the rest of `FetchFromCentralCache` serves. -/
def TcAfter.target : TcAfter → Option ℕ
  | .fetch idx => some idx
  | _ => none

/-- The class that an `Allocate` in progress serves. -/
def TcPc.target : TcPc → Option ℕ
  | .handle after => after.target
  | .trim _ f => f.after.target
  | .trimCall _ f => f.after.target
  | .fetchCall idx _ => some idx
  | _ => none

/-- The class of the release that an operation waits for. -/
def TcPc.releases : TcPc → Option ℕ
  | .trimCall idx _ => some idx
  | .overflowCall idx => some idx
  | .allCall idx => some idx
  | _ => none

/-- The call that an operation makes when it comes to a point. -/
inductive TcPc.Asks : TcPc → Option CentralCall → Prop
  | nothing {pc : TcPc} (h : pc.waits = false) : Asks pc none
  | fetch (idx fetchNum : ℕ) : Asks (.fetchCall idx fetchNum) (some (.fetch idx fetchNum))
  | release {pc : TcPc} {idx : ℕ} (h : pc.releases = some idx) (batch : List ℕ)
      (mode : CentralReleaseMode) : Asks pc (some (.release idx batch mode))

/-- The objects that go with a call. -/
def CentralCall.objs : CentralCall → Multiset (ℕ × ℕ)
  | .fetch _ _ => 0
  | .release idx batch _ => tag idx batch

/-- The objects that come with the return of a call. -/
def TcPc.received : TcPc → List ℕ → Multiset (ℕ × ℕ)
  | .fetchCall idx _, batch => tag idx batch
  | _, _ => 0

/-- The object that an `Allocate` for class `target` returns. -/
def retObjs (target : Option ℕ) (ret : Option (Option ℕ)) : Multiset (ℕ × ℕ) :=
  match target, ret with
  | some idx, some (some ptr) => {(idx, ptr)}
  | _, _ => 0

@[simp] lemma retObjs_none (target : Option ℕ) : retObjs target none = 0 := by
  cases target <;> rfl

namespace ThreadCache

/-- The objects in the lists. -/
def objs (tc : ThreadCache) : Multiset (ℕ × ℕ) :=
  ∑ idx ∈ Finset.range kNumSizeClasses, tag idx (tc.freeLists idx).objs

/-- **What a local step does with objects.** -/
structure Moves (tc : ThreadCache) (pc : TcPc) (received : Multiset (ℕ × ℕ)) (out : TcOut) :
    Prop where
  objs : tc.objs + received =
    out.tc.objs + out.call.elim 0 CentralCall.objs + retObjs pc.target out.ret
  asks : out.pc.Asks out.call
  target : out.ret = none → out.pc.target = pc.target
  returns : out.ret ≠ none → out.pc = .idle ∧ pc.target ≠ none

variable {tc tc' : ThreadCache} {pc : TcPc} {stat idx : ℕ}

/-! ## Updates of one list -/

/-- The objects of a cache are a matter of its lists. -/
lemma objs_congr (h : ∀ i, (tc'.freeLists i).objs = (tc.freeLists i).objs) : tc'.objs = tc.objs :=
  Finset.sum_congr rfl fun i _ => by rw [h i]

/-- The objects of a cache when one list is replaced. -/
lemma objs_setFreeList (tc : ThreadCache) (hidx : idx < kNumSizeClasses) (l : FreeList) :
    (tc.setFreeList idx l).objs + tag idx (tc.freeLists idx).objs = tc.objs + tag idx l.objs :=
  FamilySum.sum_update_add _ tc.freeLists (fun i (l : FreeList) => tag i l.objs)
    (Finset.mem_range.mpr hidx) l

/-- A list gives objects away. -/
lemma objs_give (hidx : idx < kNumSizeClasses) {l : FreeList} {given : List ℕ}
    (hl : tag idx (tc.freeLists idx).objs = tag idx l.objs + tag idx given) :
    tc.objs = (tc.setFreeList idx l).objs + tag idx given := by
  have hsum := objs_setFreeList tc hidx l
  rw [hl] at hsum
  refine add_right_cancel (b := tag idx l.objs) ?_
  rw [← hsum]
  abel

/-- A list takes objects in. -/
lemma objs_take (hidx : idx < kNumSizeClasses) {l : FreeList} {taken : List ℕ}
    (hl : tag idx l.objs = tag idx taken + tag idx (tc.freeLists idx).objs) :
    (tc.setFreeList idx l).objs = tc.objs + tag idx taken := by
  have hsum := objs_setFreeList tc hidx l
  rw [hl, ← add_assoc] at hsum
  exact add_right_cancel hsum

/-- A change of a quota leaves the lists alone. -/
lemma setQuota_lists (tc : ThreadCache) (stat idx n i : ℕ) :
    ((tc.setQuota stat idx n).1.freeLists i).objs = (tc.freeLists i).objs := by
  unfold setQuota
  by_cases hi : i = idx
  · subst hi
    dsimp only
    split_ifs <;> simp [setFreeList, FreeList.setMaxSize]
  · dsimp only
    split_ifs <;> simp [setFreeList, hi]

/-- So does a change of the overages. -/
lemma setOverages_lists (tc : ThreadCache) (idx n i : ℕ) :
    ((tc.setOverages idx n).freeLists i).objs = (tc.freeLists i).objs := by
  by_cases hi : i = idx
  · subst hi
    simp [setOverages, setFreeList, FreeList.setOverages]
  · simp [setOverages, setFreeList, hi]

/-- The contraction of one class in a trim leaves the lists alone. -/
lemma trimNext_lists (tc : ThreadCache) (stat idx : ℕ) (f : TrimFrame) (i : ℕ) :
    ((tc.trimNext stat idx f).tc.freeLists i).objs = (tc.freeLists i).objs := by
  unfold trimNext trimQuota
  cases f.mode with
  | kRelease => simp only [setOverages_lists, setQuota_lists]
  | kReuse =>
    dsimp only
    split_ifs
    · simp only [setOverages_lists, setQuota_lists]
    · rfl

/-! ## The beginnings of the operations -/

/-- `Allocate` by class. -/
lemma allocate_moves (hidx : idx < kNumSizeClasses) :
    Moves tc (.handle (.fetch idx)) 0 (tc.allocate stat idx) := by
  unfold allocate FreeList.pop
  cases hl : (tc.freeLists idx).objs with
  | nil => exact ⟨by simp, .nothing rfl, fun _ => rfl, by simp⟩
  | cons ptr rest =>
    refine ⟨?_, .nothing rfl, by simp, fun _ => ⟨rfl, by simp [TcPc.target, TcAfter.target]⟩⟩
    have hgive : tag idx (tc.freeLists idx).objs = tag idx rest + tag idx [ptr] := by
      rw [hl, tag_cons, tag_cons, tag_nil, Multiset.add_cons, add_zero]
    simpa [TcPc.target, TcAfter.target, retObjs] using
      objs_give (l := { tc.freeLists idx with objs := rest }) hidx hgive

/-- `Deallocate`. -/
lemma deallocate_moves (hidx : idx < kNumSizeClasses) (ptr : ℕ) :
    Moves tc .idle {(idx, ptr)} (tc.deallocate stat ptr idx) := by
  have htake : (tc.setFreeList idx ((tc.freeLists idx).push ptr)).objs = tc.objs + tag idx [ptr] :=
    objs_take hidx (by simp [FreeList.push])
  refine ⟨?_, ?_, fun _ => ?_, fun h => absurd rfl h⟩
  · simpa [deallocate] using htake.symm
  · simp only [deallocate]
    split_ifs <;> exact .nothing rfl
  · simp only [deallocate]
    split_ifs <;> rfl

/-! ## Local steps -/

/-- A step that changes quotas only. -/
lemma Moves.of_lists {out : TcOut} (h : ∀ i, (out.tc.freeLists i).objs = (tc.freeLists i).objs)
    (hcall : out.call = none) (hret : out.ret = none) (hwaits : out.pc.waits = false)
    (htarget : out.pc.target = pc.target) : Moves tc pc 0 out := by
  refine ⟨?_, by rw [hcall]; exact .nothing hwaits, fun _ => htarget, fun hr => absurd hret hr⟩
  rw [hcall, hret, objs_congr h]
  simp

/-- A step that takes a batch out of a list for a release. -/
lemma Moves.of_release {out : TcOut} (hidx : idx < kNumSizeClasses) {l : FreeList}
    {batch : List ℕ} {mode : CentralReleaseMode}
    (hl : tag idx (tc.freeLists idx).objs = tag idx l.objs + tag idx batch)
    (htc : out.tc = tc.setFreeList idx l) (hcall : out.call = some (.release idx batch mode))
    (hret : out.ret = none) (hreleases : out.pc.releases = some idx)
    (htarget : out.pc.target = pc.target) : Moves tc pc 0 out := by
  refine ⟨?_, by rw [hcall]; exact .release hreleases batch mode, fun _ => htarget,
    fun hr => absurd hret hr⟩
  rw [hcall, hret, htc, retObjs_none, add_zero, add_zero]
  exact objs_give hidx hl

/-- The end of an overflow. -/
lemma overflowEnd_moves (htarget : pc.target = none) :
    Moves tc pc 0 (tc.overflowEnd stat idx) := by
  refine .of_lists (fun i => ?_) rfl rfl rfl htarget.symm
  simp only [overflowEnd, setOverages_lists, setQuota_lists]

/-- What follows the safepoint. -/
lemma afterHandle_moves {after : TcAfter} (hok : tc.AfterOk after)
    (htarget : pc.target = after.target) :
    Moves tc pc 0 (tc.afterHandle stat after) := by
  cases after with
  | ret => exact .of_lists (fun _ => rfl) rfl rfl rfl htarget.symm
  | fetch idx =>
    exact ⟨by simp [afterHandle, CentralCall.objs], .fetch _ _, fun _ => htarget.symm,
      fun h => absurd rfl h⟩
  | overflow idx =>
    unfold afterHandle
    dsimp only
    split_ifs with hfits
    · exact .of_lists (fun _ => rfl) rfl rfl rfl htarget.symm
    · split
      · exact overflowEnd_moves htarget
      · rename_i batch list hpop
        have hcut := FreeList.popBatchTail_append (tc.freeLists idx) (batchNum idx)
        rw [hpop] at hcut
        refine .of_release hok ?_ rfl rfl rfl rfl htarget.symm
        rw [← tag_append, hcut]

/-- The contraction of one class in a trim. -/
lemma trimNext_moves {f : TrimFrame} (htarget : pc.target = f.after.target) :
    Moves tc pc 0 (tc.trimNext stat idx f) :=
  .of_lists (fun i => trimNext_lists tc stat idx f i) rfl rfl rfl htarget.symm

/-- One class of a trim. -/
lemma trimStep_moves {i : ℕ} {f : TrimFrame} (hok : tc.TrimOk i f) :
    Moves tc (.trim i f) 0 (tc.trimStep stat f i) := by
  cases i with
  | zero =>
    have hsame : ∀ tc' : ThreadCache, tc'.freeLists = tc.freeLists →
        Moves tc (.trim 0 f) 0 (tc'.afterHandle stat f.after) := by
      intro tc' hlists
      have hok' : tc'.AfterOk f.after := hok.after.congr fun i hi => by rwa [hlists]
      have hm : Moves tc' (.trim 0 f) 0 (tc'.afterHandle stat f.after) := afterHandle_moves hok' rfl
      have hobjs : tc'.objs = tc.objs := objs_congr fun i => by rw [hlists]
      exact ⟨hobjs ▸ hm.objs, hm.asks, hm.target, hm.returns⟩
    unfold trimStep
    cases f.epoch with
    | none => exact hsame tc rfl
    | some epoch => exact hsame { tc with observedTrimEpoch := epoch } rfl
  | succ idx =>
    have hidx : idx < kNumSizeClasses := hok.le
    unfold trimStep
    dsimp only
    split_ifs with hpos
    · have hcut := FreeList.popBatchTail_append (tc.freeLists idx) (tc.trimEvictCount idx f)
      refine .of_release hidx ?_ rfl rfl rfl rfl rfl
      rw [← tag_append, hcut]
    · exact trimNext_moves rfl

/-- The end of one class in `ReleaseAll`. -/
lemma allNext_moves (htarget : pc.target = none) : Moves tc pc 0 (tc.allNext stat idx) := by
  refine .of_lists (fun i => ?_) rfl rfl rfl htarget.symm
  simp only [allNext, setOverages_lists, setQuota_lists]

/-- **A local step** of an operation that does not wait. -/
theorem step_moves (hok : tc.PcOk pc) (hrun : pc.waits = false) (trimRequest : ℕ) :
    Moves tc pc 0 (tc.step stat trimRequest pc) := by
  cases pc with
  | idle => exact .of_lists (fun _ => rfl) rfl rfl rfl rfl
  | handle after =>
    simp only [step, handle]
    split_ifs
    · exact afterHandle_moves hok rfl
    · exact .of_lists (fun _ => rfl) rfl rfl rfl rfl
  | trim i f => exact trimStep_moves hok
  | all i =>
    simp only [step, allStep]
    split_ifs with hi
    · exact .of_lists (fun _ => rfl) rfl rfl rfl rfl
    · split
      · exact allNext_moves rfl
      · refine .of_release (l := { tc.freeLists i with
            objs := (tc.freeLists i).objs.drop (tc.freeLists i).objs.length })
          (by omega) ?_ rfl rfl rfl rfl rfl
        simp [FreeList.popBatch]
  | trimCall idx f => exact absurd hrun (by simp [TcPc.waits])
  | fetchCall idx n => exact absurd hrun (by simp [TcPc.waits])
  | overflowCall idx => exact absurd hrun (by simp [TcPc.waits])
  | allCall i => exact absurd hrun (by simp [TcPc.waits])

/-- The rest of `FetchFromCentralCache`. -/
lemma fetchEnd_moves (hidx : idx < kNumSizeClasses) {fetchNum : ℕ} (batch : List ℕ) :
    Moves tc (.fetchCall idx fetchNum) (tag idx batch) (tc.fetchEnd stat idx fetchNum batch) := by
  cases batch with
  | nil => exact ⟨by simp [fetchEnd, retObjs, TcPc.target], .nothing rfl, by simp [fetchEnd],
      fun _ => ⟨rfl, by simp [TcPc.target]⟩⟩
  | cons ptr rest =>
    set tc₁ := tc.setFreeList idx ((tc.freeLists idx).pushBatch (ptr :: rest)) with htc₁
    have htake : tc₁.objs = tc.objs + tag idx (ptr :: rest) :=
      objs_take hidx (by simp [FreeList.pushBatch])
    have hfront : (tc₁.freeLists idx).objs = ptr :: (rest ++ (tc.freeLists idx).objs) := by
      simp [htc₁, setFreeList, FreeList.pushBatch]
    -- the quota changes no list, and the pop takes the first object
    have hpop : ∀ (tc₂ : ThreadCache) (stat' : ℕ),
        (∀ i, (tc₂.freeLists i).objs = (tc₁.freeLists i).objs) →
        Moves tc (.fetchCall idx fetchNum) (tag idx (ptr :: rest))
          { tc := tc₂.setFreeList idx (tc₂.freeLists idx).pop.2, stat := stat', pc := .idle
            ret := some (tc₂.freeLists idx).pop.1 } := by
      intro tc₂ stat' hlists
      have hobjs : (tc₂.freeLists idx).objs = ptr :: (rest ++ (tc.freeLists idx).objs) := by
        rw [hlists, hfront]
      have hgive : tag idx (tc₂.freeLists idx).objs =
          tag idx (rest ++ (tc.freeLists idx).objs) + tag idx [ptr] := by
        rw [hobjs, tag_cons, tag_cons, tag_nil, Multiset.add_cons, add_zero]
      refine ⟨?_, .nothing rfl, by simp, fun _ => ⟨rfl, by simp [TcPc.target]⟩⟩
      rw [← htake, ← objs_congr hlists]
      simpa [FreeList.pop, hobjs, TcPc.target, retObjs] using objs_give
        (l := { tc₂.freeLists idx with objs := rest ++ (tc.freeLists idx).objs }) hidx hgive
    unfold fetchEnd
    dsimp only
    rw [← htc₁]
    split_ifs
    · exact hpop _ _ fun _ => rfl
    · exact hpop _ _ fun i => by simp only [setOverages_lists, setQuota_lists]
    · exact hpop _ _ fun i => by simp only [setOverages_lists]

/-- **The step after a call** of an operation. -/
theorem resume_moves (hok : tc.PcOk pc) (hwait : pc.waits = true) (batch : List ℕ) :
    Moves tc pc (pc.received batch) (tc.resume stat batch pc) := by
  cases pc with
  | fetchCall idx n => exact fetchEnd_moves hok.1 batch
  | trimCall idx f => exact trimNext_moves rfl
  | overflowCall idx => exact overflowEnd_moves rfl
  | allCall i => exact allNext_moves rfl
  | idle => exact absurd hwait (by simp [TcPc.waits])
  | handle after => exact absurd hwait (by simp [TcPc.waits])
  | trim i f => exact absurd hwait (by simp [TcPc.waits])
  | all i => exact absurd hwait (by simp [TcPc.waits])

/-! ## Operations that empty the cache -/

/-- A `Trim` to zero on its way, or a `ReleaseAll` with the classes below `i` behind it. -/
inductive Emptying (tc : ThreadCache) : TcPc → Prop
  | trim {i : ℕ} {f : TrimFrame} (hmode : f.mode = .kRelease) (htarget : f.targetBytes = 0)
      (hafter : f.after = .ret) : Emptying tc (.trim i f)
  | trimCall {i : ℕ} {f : TrimFrame} (hmode : f.mode = .kRelease) (htarget : f.targetBytes = 0)
      (hafter : f.after = .ret) : Emptying tc (.trimCall i f)
  | all {i : ℕ} (h : ∀ j < i, (tc.freeLists j).objs = []) : Emptying tc (.all i)
  | allCall {i : ℕ} (h : ∀ j < i, (tc.freeLists j).objs = []) : Emptying tc (.allCall i)

/-- A cache with nothing in any class has no objects. -/
lemma objs_eq_zero (h : ∀ j < kNumSizeClasses, (tc.freeLists j).objs = []) : tc.objs = 0 :=
  Finset.sum_eq_zero fun j hj => by rw [h j (Finset.mem_range.mp hj), tag_nil]

/-- The end of one class in `ReleaseAll`, which is empty by now. -/
lemma Emptying.allNext (h : ∀ j < idx, (tc.freeLists j).objs = [])
    (hidx : (tc.freeLists idx).objs = []) :
    (tc.allNext stat idx).tc.Emptying (tc.allNext stat idx).pc := by
  refine .all fun j hj => ?_
  simp only [ThreadCache.allNext, setOverages_lists, setQuota_lists]
  rcases Nat.lt_succ_iff_lt_or_eq.mp hj with hj | rfl
  · exact h j hj
  · exact hidx

/-- **A local step of such an operation** goes on with it, or ends it with the cache empty. -/
lemma Emptying.step (h : tc.Emptying pc) (hok : tc.PcOk pc) (hrun : pc.waits = false)
    (trimRequest : ℕ) :
    (tc.step stat trimRequest pc).tc.Emptying (tc.step stat trimRequest pc).pc ∨
      (tc.step stat trimRequest pc).pc = .idle ∧ (tc.step stat trimRequest pc).tc.objs = 0 := by
  cases h with
  | @trim i f hmode htarget hafter =>
    have hok : tc.TrimOk i f := hok
    cases i with
    | zero =>
      have hzero : tc.objs = 0 :=
        objs_eq_zero fun j hj => hok.emptied hmode htarget j (Nat.zero_le _) hj
      right
      simp only [ThreadCache.step, trimStep, hafter]
      cases f.epoch with
      | none => exact ⟨rfl, hzero⟩
      | some epoch => exact ⟨rfl, hzero⟩
    | succ idx =>
      left
      simp only [ThreadCache.step, trimStep]
      split_ifs
      · exact .trimCall hmode htarget hafter
      · exact .trim hmode htarget hafter
  | @all i hempty =>
    simp only [ThreadCache.step, allStep]
    split_ifs with hi
    · exact Or.inr ⟨rfl, objs_eq_zero fun j hj => hempty j (by omega)⟩
    · left
      split
      · rename_i hnil
        exact .allNext hempty hnil
      · refine .allCall fun j hj => ?_
        simpa [setFreeList, Function.update_of_ne hj.ne] using hempty j hj
  | trimCall => exact absurd hrun (by simp [TcPc.waits])
  | allCall => exact absurd hrun (by simp [TcPc.waits])

/-- The same after a call. -/
lemma Emptying.resume (h : tc.Emptying pc) (hok : tc.PcOk pc) (hwait : pc.waits = true)
    (batch : List ℕ) : (tc.resume stat batch pc).tc.Emptying (tc.resume stat batch pc).pc := by
  cases h with
  | trimCall hmode htarget hafter => exact .trim hmode htarget hafter
  | allCall hempty => exact .allNext hempty hok.2
  | trim => exact absurd hwait (by simp [TcPc.waits])
  | all => exact absurd hwait (by simp [TcPc.waits])

/-- The beginning of a `Trim`. -/
lemma trim_moves (mode : TrimMode) (targetBytes : ℕ) (epoch : Option ℕ) :
    Moves tc .idle 0 (tc.trim stat mode targetBytes epoch .ret) :=
  .of_lists (fun _ => rfl) rfl rfl rfl rfl

/-- The beginning of `ReleaseAll`. -/
lemma releaseAll_moves : Moves tc .idle 0 (tc.releaseAll stat) :=
  .of_lists (fun _ => rfl) rfl rfl rfl rfl

end ThreadCache

end Ammalloc
