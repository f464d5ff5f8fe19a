import Ammalloc.ThreadCache
import Ammalloc.Lib.FamilySum

set_option relaxedAutoImplicit false
set_option autoImplicit false

/-!
# Quota accounting and residency of one thread cache

What every local step of a ThreadCache operation keeps: the quota of each class stays in its
range, the reservation is the sum of the quotas, and no class holds more objects than its quota
by more than the operation in progress explains.

## Main definitions

* `Ammalloc.ThreadCache.Inv` — the quota invariant.
* `Ammalloc.ThreadCache.PcInv` — residency and the local variables of the operation. Its
  parameter is the number of objects a class may hold above its quota while its overage
  counter is zero.
* `Ammalloc.ThreadCache.Accounts` — the statistic moves with the reservation.

## Main results

* `Ammalloc.ThreadCache.setQuota_spec` — no subtraction wraps.
* `Ammalloc.ThreadCache.step_spec`, `Ammalloc.ThreadCache.resume_spec` — the steps keep it all.
-/

namespace Ammalloc

open SizeClass (kNumSizeClasses)

namespace ThreadCache

/-! ## The quota invariant -/

/-- `Σ max_size * class_size`. -/
def quotaBytes (freeLists : ℕ → FreeList) : ℕ :=
  ∑ i ∈ Finset.range kNumSizeClasses, (freeLists i).maxSize * SizeClass.size i

/-- `Σ size * class_size`. -/
def residentBytes (freeLists : ℕ → FreeList) : ℕ :=
  ∑ i ∈ Finset.range kNumSizeClasses, (freeLists i).size * SizeClass.size i

/-- The quota of a class is in its range. -/
structure QuotaOk (idx : ℕ) (l : FreeList) : Prop where
  pos : 1 ≤ l.maxSize
  le : l.maxSize ≤ QuotaPolicy.kMaxQuotaBatches * batchNum idx
  overages : l.overages < QuotaPolicy.kMaxOverages

/-- **The quota invariant** of a ThreadCache. -/
structure Inv (tc : ThreadCache) : Prop where
  quota : ∀ idx < kNumSizeClasses, QuotaOk idx (tc.freeLists idx)
  reserved : tc.reservedQuotaBytes = quotaBytes tc.freeLists
  le_budget : tc.reservedQuotaBytes ≤ tc.cacheBudgetBytes
  budget_lt : tc.cacheBudgetBytes < 2 ^ 64

/-- Batches hold at least two objects. -/
lemma batchNum_bounds {idx : ℕ} (h : idx < kNumSizeClasses) :
    2 ≤ batchNum idx ∧ batchNum idx ≤ 512 := SizeClass.calculateBatchSize_bounds h

/-- A full class reserves at most 512 KiB. -/
lemma batchNum_mul_size_le : ∀ idx < kNumSizeClasses,
    QuotaPolicy.kMaxQuotaBatches * batchNum idx * SizeClass.size idx ≤ 2 ^ 19 := by
  decide

variable {tc : ThreadCache}

/-- One reservation unit is less than a word, whatever the quotas in range. -/
lemma quota_mul_size_le {idx n : ℕ} (h : idx < kNumSizeClasses)
    (hn : n ≤ QuotaPolicy.kMaxQuotaBatches * batchNum idx) : n * SizeClass.size idx ≤ 2 ^ 19 :=
  (Nat.mul_le_mul_right _ hn).trans (batchNum_mul_size_le idx h)

/-- A cache reserves at least one object in every class. -/
lemma Inv.initial_le (h : tc.Inv) : initialReservedQuotaBytes ≤ tc.reservedQuotaBytes := by
  rw [h.reserved]
  refine Finset.sum_le_sum fun i hi => ?_
  exact Nat.le_mul_of_pos_left _ (h.quota i (Finset.mem_range.mp hi)).pos

/-- A cache reserves at most 40 full classes. -/
lemma Inv.reserved_le (h : tc.Inv) : tc.reservedQuotaBytes ≤ 40 * 2 ^ 19 := by
  rw [h.reserved]
  calc quotaBytes tc.freeLists
      ≤ ∑ _i ∈ Finset.range kNumSizeClasses, 2 ^ 19 :=
        Finset.sum_le_sum fun i hi =>
          quota_mul_size_le (Finset.mem_range.mp hi) (h.quota i (Finset.mem_range.mp hi)).le
    _ = 40 * 2 ^ 19 := by rw [Finset.sum_const, Finset.card_range, smul_eq_mul]; rfl

/-- The quota of one class is part of the total. -/
lemma quota_le_quotaBytes (freeLists : ℕ → FreeList) {idx : ℕ} (h : idx < kNumSizeClasses) :
    (freeLists idx).maxSize * SizeClass.size idx ≤ quotaBytes freeLists :=
  Finset.single_le_sum (f := fun i => (freeLists i).maxSize * SizeClass.size i)
    (fun _ _ => Nat.zero_le _) (Finset.mem_range.mpr h)

/-- Changing one list changes the total by the difference. -/
lemma quotaBytes_update (freeLists : ℕ → FreeList) {idx : ℕ} (h : idx < kNumSizeClasses)
    (l : FreeList) :
    quotaBytes (Function.update freeLists idx l) + (freeLists idx).maxSize * SizeClass.size idx =
      quotaBytes freeLists + l.maxSize * SizeClass.size idx :=
  FamilySum.sum_update_add _ freeLists (fun i (l : FreeList) => l.maxSize * SizeClass.size i)
    (Finset.mem_range.mpr h) l

/-- The cached bytes when one list is replaced. -/
lemma residentBytes_update (freeLists : ℕ → FreeList) {idx : ℕ} (h : idx < kNumSizeClasses)
    (l : FreeList) :
    residentBytes (Function.update freeLists idx l) + (freeLists idx).size * SizeClass.size idx =
      residentBytes freeLists + l.size * SizeClass.size idx :=
  FamilySum.sum_update_add _ freeLists (fun i (l : FreeList) => l.size * SizeClass.size i)
    (Finset.mem_range.mpr h) l

/-- A change of one list that keeps its quota keeps the invariant. -/
lemma Inv.setFreeList (h : tc.Inv) {idx : ℕ} {l : FreeList}
    (hmax : l.maxSize = (tc.freeLists idx).maxSize)
    (ho : l.overages < QuotaPolicy.kMaxOverages) : (tc.setFreeList idx l).Inv := by
  refine ⟨fun i hi => ?_, ?_, h.le_budget, h.budget_lt⟩
  · by_cases hidx : i = idx
    · subst hidx
      have := h.quota i hi
      simp only [ThreadCache.setFreeList, Function.update_self]
      exact ⟨hmax ▸ this.pos, hmax ▸ this.le, ho⟩
    · simp only [ThreadCache.setFreeList, Function.update_of_ne hidx]
      exact h.quota i hi
  · simp only [ThreadCache.setFreeList]
    rw [h.reserved]
    by_cases hidx : idx < kNumSizeClasses
    · have := quotaBytes_update tc.freeLists hidx l
      rw [hmax] at this
      omega
    · exact (FamilySum.sum_update_of_notMem _ tc.freeLists
        (fun i (l : FreeList) => l.maxSize * SizeClass.size i) (by simpa using hidx) l).symm

/-! ## The statistic -/

/-- From `(tc, stat)` to `(tc', stat')` the statistic moves with the reservation. -/
structure Accounts (tc : ThreadCache) (stat : ℕ) (tc' : ThreadCache) (stat' : ℕ) : Prop where
  modEq : (stat' + tc.reservedQuotaBytes) % 2 ^ 64 = (stat + tc'.reservedQuotaBytes) % 2 ^ 64
  lt : stat < 2 ^ 64 → stat' < 2 ^ 64

/-- The statistic stays with the reservation when nothing happens. -/
lemma Accounts.refl (tc : ThreadCache) (stat : ℕ) : Accounts tc stat tc stat := ⟨rfl, id⟩

/-- A step that leaves the reservation alone. -/
lemma Accounts.of_eq {tc tc' : ThreadCache} (stat : ℕ)
    (h : tc'.reservedQuotaBytes = tc.reservedQuotaBytes) : Accounts tc stat tc' stat :=
  ⟨by rw [h], id⟩

/-- The statistic moves with the reservation in two steps as it does in each. -/
lemma Accounts.trans {tc tc' tc'' : ThreadCache} {stat stat' stat'' : ℕ}
    (h : Accounts tc stat tc' stat') (h' : Accounts tc' stat' tc'' stat'') :
    Accounts tc stat tc'' stat'' := by
  refine ⟨?_, fun hs => h'.lt (h.lt hs)⟩
  have h₁ := h.modEq
  have h₂ := h'.modEq
  omega

/-- **`SetQuota`** to an admissible quota: the new quota is in force, the reservation is still
the sum of the quotas and within the budget, and the statistic moves with it. The additions and
subtractions of the source do not wrap. -/
lemma setQuota_spec (h : tc.Inv) (stat : ℕ) {idx n : ℕ} (hidx : idx < kNumSizeClasses)
    (hpos : 1 ≤ n) (hle : n ≤ QuotaPolicy.kMaxQuotaBatches * batchNum idx)
    (hok : tc.canSetQuota idx n = true) :
    (tc.setQuota stat idx n).1.Inv ∧
      Accounts tc stat (tc.setQuota stat idx n).1 (tc.setQuota stat idx n).2 ∧
      (tc.setQuota stat idx n).1.freeLists =
        Function.update tc.freeLists idx { tc.freeLists idx with maxSize := n } := by
  have hq := h.quota idx hidx
  have hcur := quota_mul_size_le hidx hq.le
  have hnew := quota_mul_size_le hidx hle
  set l : FreeList := { tc.freeLists idx with maxSize := n } with hl
  have hmax : l.maxSize = n := rfl
  have hset : (tc.freeLists idx).setMaxSize n = l := by
    rw [FreeList.setMaxSize, max_eq_left hpos]
  have htotal := quotaBytes_update tc.freeLists hidx l
  rw [hmax] at htotal
  have hpart := quota_le_quotaBytes tc.freeLists hidx
  have hbudget := h.le_budget
  have hres := h.reserved
  have hlt := h.budget_lt
  have hquota : ∀ i < kNumSizeClasses, QuotaOk i (Function.update tc.freeLists idx l i) := by
    intro i hi
    by_cases hii : i = idx
    · subst hii
      rw [Function.update_self]
      exact ⟨hpos, hle, hq.overages⟩
    · rw [Function.update_of_ne hii]
      exact h.quota i hi
  unfold setQuota
  simp only [hset]
  by_cases heq : (tc.freeLists idx).maxSize = n
  · rw [if_pos heq]
    refine ⟨h, .refl _ _, ?_⟩
    rw [hl, ← heq]
    exact (Function.update_eq_self idx tc.freeLists).symm
  rw [if_neg heq]
  by_cases hgt : n > (tc.freeLists idx).maxSize
  · -- growth: the gate has compared the difference with the headroom
    have hdelta : (n - (tc.freeLists idx).maxSize) * SizeClass.size idx =
        n * SizeClass.size idx - (tc.freeLists idx).maxSize * SizeClass.size idx :=
      Nat.sub_mul _ _ _
    have hmono : (tc.freeLists idx).maxSize * SizeClass.size idx ≤ n * SizeClass.size idx :=
      Nat.mul_le_mul_right _ hgt.le
    rw [canSetQuota] at hok
    simp only [if_neg (not_le.mpr hgt), decide_eq_true_eq] at hok
    rw [subU64_of_le hlt hbudget] at hok
    rw [if_pos hgt]
    rw [hdelta, Nat.mod_eq_of_lt (by omega)] at hok ⊢
    have hsum : addU64 tc.reservedQuotaBytes (n * SizeClass.size idx -
        (tc.freeLists idx).maxSize * SizeClass.size idx) =
        quotaBytes (Function.update tc.freeLists idx l) := by
      rw [addU64_of_lt (by omega)]
      omega
    refine ⟨⟨hquota, hsum, ?_, hlt⟩, ⟨?_, fun _ => Nat.mod_lt _ (by norm_num)⟩, rfl⟩
    · show addU64 _ _ ≤ tc.cacheBudgetBytes
      rw [hsum]
      omega
    · show (addU64 _ _ + _) % 2 ^ 64 = (_ + addU64 _ _) % 2 ^ 64
      unfold addU64
      omega
  · have hlt' : n ≤ (tc.freeLists idx).maxSize := not_lt.mp hgt
    have hdelta : ((tc.freeLists idx).maxSize - n) * SizeClass.size idx =
        (tc.freeLists idx).maxSize * SizeClass.size idx - n * SizeClass.size idx :=
      Nat.sub_mul _ _ _
    have hmono : n * SizeClass.size idx ≤ (tc.freeLists idx).maxSize * SizeClass.size idx :=
      Nat.mul_le_mul_right _ hlt'
    rw [if_neg hgt]
    rw [hdelta, Nat.mod_eq_of_lt (by omega)]
    have hsum : subU64 tc.reservedQuotaBytes ((tc.freeLists idx).maxSize * SizeClass.size idx -
        n * SizeClass.size idx) =
        quotaBytes (Function.update tc.freeLists idx l) := by
      rw [subU64_of_le (by omega) (by omega)]
      omega
    refine ⟨⟨hquota, hsum, ?_, hlt⟩, ⟨?_, fun _ => Nat.mod_lt _ (by norm_num)⟩, rfl⟩
    · show subU64 _ _ ≤ tc.cacheBudgetBytes
      rw [hsum]
      omega
    · show (subU64 _ _ + _) % 2 ^ 64 = (_ + subU64 _ _) % 2 ^ 64
      rw [hsum]
      unfold subU64
      omega

/-- A shrinking quota is always admissible. -/
lemma canSetQuota_of_le {idx n : ℕ} (h : n ≤ (tc.freeLists idx).maxSize) :
    tc.canSetQuota idx n = true := by
  simp [canSetQuota, h]

end ThreadCache

/-! ## Residency -/

/-- The objects above its quota that class `i` may hold because its overflow is being
handled. -/
def TcAfter.over : TcAfter → ℕ → ℕ
  | .overflow idx, i => if i = idx then 1 else 0
  | _, _ => 0

/-- The objects above its quota that class `i` may hold in an operation. -/
def TcPc.over : TcPc → ℕ → ℕ
  | .handle after, i => after.over i
  | .trim _ f, i => f.after.over i
  | .trimCall _ f, i => f.after.over i
  | .overflowCall idx, i => if i = idx then 1 else 0
  | _, _ => 0

/-- What follows an operation holds at most one object above a quota. -/
lemma TcAfter.over_le_one (after : TcAfter) (i : ℕ) : after.over i ≤ 1 := by
  cases after with
  | overflow idx => simp only [TcAfter.over]; split_ifs <;> omega
  | fetch idx => exact Nat.zero_le _
  | ret => exact Nat.zero_le _

/-- An operation holds at most one object above a quota. -/
lemma TcPc.over_le_one (pc : TcPc) (i : ℕ) : pc.over i ≤ 1 := by
  cases pc with
  | handle after => exact after.over_le_one i
  | trim _ f => exact f.after.over_le_one i
  | trimCall _ f => exact f.after.over_le_one i
  | overflowCall idx => simp only [TcPc.over]; split_ifs <;> omega
  | _ => exact Nat.zero_le _

/-- The objects of class `i` that an overflow has evicted while its quota is not yet
adjusted. -/
def TcPc.evicted : TcPc → ℕ → ℕ
  | .overflowCall idx, i => if i = idx then ThreadCache.batchNum idx else 0
  | _, _ => 0

namespace ThreadCache

/-- **Residency**: a class holds at most its quota, the object whose overflow is being handled,
and up to `b` more while its overage counter is zero. -/
def Resident (b : ℕ) (tc : ThreadCache) (pc : TcPc) : Prop :=
  ∀ i < kNumSizeClasses, (tc.freeLists i).size ≤ (tc.freeLists i).maxSize + pc.over i +
    (if (tc.freeLists i).overages = 0 then b else 0) - pc.evicted i

/-- What `FetchFromCentralCache` and `DeallocateSlowPath` rely on after the safepoint. -/
def AfterOk (tc : ThreadCache) : TcAfter → Prop
  | .fetch idx => idx < kNumSizeClasses ∧ (tc.freeLists idx).objs = []
  | .overflow idx => idx < kNumSizeClasses
  | .ret => True

/-- The local variables of a `Trim` that has classes `i, …` behind it. A trim to zero has
emptied them. -/
structure TrimOk (tc : ThreadCache) (i : ℕ) (f : TrimFrame) : Prop where
  le : i ≤ kNumSizeClasses
  after : tc.AfterOk f.after
  cached : f.cachedBytes = residentBytes tc.freeLists
  emptied : f.mode = .kRelease → f.targetBytes = 0 →
    ∀ j, i ≤ j → j < kNumSizeClasses → (tc.freeLists j).objs = []

/-- The local variables of the operation in progress. -/
def PcOk (tc : ThreadCache) : TcPc → Prop
  | .idle => True
  | .handle after => tc.AfterOk after
  | .trim i f => tc.TrimOk i f
  | .trimCall idx f => idx < kNumSizeClasses ∧ tc.TrimOk idx f
  | .fetchCall idx fetchNum => idx < kNumSizeClasses ∧ (tc.freeLists idx).objs = [] ∧
      fetchNum ≤ (tc.freeLists idx).maxSize
  | .overflowCall idx => idx < kNumSizeClasses ∧
      (tc.freeLists idx).maxSize < (tc.freeLists idx).size + batchNum idx
  | .all i => i ≤ kNumSizeClasses
  | .allCall i => i < kNumSizeClasses ∧ (tc.freeLists i).objs = []

/-- The invariant of a ThreadCache with an operation in progress. -/
structure PcInv (b : ℕ) (tc : ThreadCache) (pc : TcPc) : Prop where
  inv : tc.Inv
  resident : tc.Resident b pc
  ok : tc.PcOk pc

/-- What a local step guarantees. -/
structure StepOk (b : ℕ) (tc : ThreadCache) (stat : ℕ) (out : TcOut) : Prop where
  inv : PcInv b out.tc out.pc
  accounts : Accounts tc stat out.tc out.stat

variable {b : ℕ} {pc pc' : TcPc} {tc tc' : ThreadCache} {stat : ℕ}

/-- An explicit safepoint, or a trim, begins with no object in excess. -/
lemma PcInv.handle_of_idle (h : PcInv b tc .idle) : PcInv b tc (.handle .ret) :=
  ⟨h.inv, h.resident, trivial⟩

/-- Residency after a change of one list. -/
lemma Resident.of_update (h : tc.Resident b pc) {idx : ℕ} {l : FreeList}
    (hl : tc'.freeLists = Function.update tc.freeLists idx l)
    (hother : ∀ j, j ≠ idx → pc.over j = pc'.over j ∧ pc'.evicted j = pc.evicted j)
    (hidx : l.size ≤
      l.maxSize + pc'.over idx + (if l.overages = 0 then b else 0) - pc'.evicted idx) :
    tc'.Resident b pc' := by
  intro j hj
  rw [hl]
  by_cases hji : j = idx
  · subst hji
    rw [Function.update_self]
    exact hidx
  · rw [Function.update_of_ne hji, ← (hother j hji).1, (hother j hji).2]
    exact h j hj

/-- No cache holds a word's worth of bytes. -/
lemma PcInv.residentBytes_lt (h : PcInv b tc pc) (hb : b ≤ 1) :
    residentBytes tc.freeLists < 2 ^ 64 := by
  have hone : ∀ i ∈ Finset.range kNumSizeClasses,
      (tc.freeLists i).size * SizeClass.size i ≤ 2 ^ 20 := by
    intro i hi
    have hi' := Finset.mem_range.mp hi
    have h₁ := h.resident i hi'
    have h₂ := pc.over_le_one i
    have h₃ : (if (tc.freeLists i).overages = 0 then b else 0) ≤ 1 := by split_ifs <;> omega
    have hsize := SizeClass.size_bounds i hi'
    have hq := quota_mul_size_le hi' (h.inv.quota i hi').le
    calc (tc.freeLists i).size * SizeClass.size i
        ≤ ((tc.freeLists i).maxSize + 2) * SizeClass.size i := Nat.mul_le_mul_right _ (by omega)
      _ = (tc.freeLists i).maxSize * SizeClass.size i + 2 * SizeClass.size i := by ring
      _ ≤ 2 ^ 20 := by have := hsize.2.1; unfold maxTcSize at this; omega
  calc residentBytes tc.freeLists ≤ ∑ _i ∈ Finset.range kNumSizeClasses, 2 ^ 20 :=
        Finset.sum_le_sum hone
    _ < 2 ^ 64 := by rw [Finset.sum_const, Finset.card_range, smul_eq_mul]; decide

/-- The snapshot loop computes the sum modulo `2 ^ 64`. -/
lemma cachedBytesSnapshot_eq_mod (tc : ThreadCache) :
    tc.cachedBytesSnapshot = residentBytes tc.freeLists % 2 ^ 64 := by
  unfold cachedBytesSnapshot residentBytes
  induction kNumSizeClasses with
  | zero => rfl
  | succ n ih =>
    rw [List.range_succ, List.foldl_append, ih, Finset.sum_range_succ]
    simp only [List.foldl_cons, List.foldl_nil, addU64]
    omega

/-- `CachedBytesSnapshot` is the number of cached bytes: it does not wrap. -/
lemma PcInv.cachedBytesSnapshot (h : PcInv b tc pc) (hb : b ≤ 1) :
    tc.cachedBytesSnapshot = residentBytes tc.freeLists := by
  rw [cachedBytesSnapshot_eq_mod, Nat.mod_eq_of_lt (h.residentBytes_lt hb)]

/-! ## The beginnings of the operations -/

/-- `Allocate`. -/
lemma allocate_spec (h : PcInv b tc .idle) {idx : ℕ} (hidx : idx < kNumSizeClasses) :
    StepOk b tc stat (tc.allocate stat idx) := by
  have hr := h.resident idx hidx
  unfold allocate FreeList.pop
  cases hobjs : (tc.freeLists idx).objs with
  | nil => exact ⟨⟨h.inv, h.resident, hidx, hobjs⟩, .refl _ _⟩
  | cons ptr rest =>
    refine ⟨⟨h.inv.setFreeList rfl (h.inv.quota idx hidx).overages,
      h.resident.of_update rfl (fun _ _ => ⟨rfl, rfl⟩) ?_, trivial⟩, .of_eq _ rfl⟩
    simp only [FreeList.size, hobjs, List.length_cons, TcPc.over, TcPc.evicted] at hr ⊢
    omega

/-- `Deallocate`: the new object may exceed the quota, and the slow path is entered exactly
then. -/
lemma deallocate_spec (h : PcInv b tc .idle) {idx : ℕ} (hidx : idx < kNumSizeClasses) (ptr : ℕ) :
    StepOk b tc stat (tc.deallocate stat ptr idx) := by
  have hr := h.resident idx hidx
  simp only [TcPc.over, TcPc.evicted] at hr
  have hinv : (tc.setFreeList idx ((tc.freeLists idx).push ptr)).Inv :=
    h.inv.setFreeList rfl (h.inv.quota idx hidx).overages
  have hsize : ((tc.freeLists idx).push ptr).size = (tc.freeLists idx).size + 1 := rfl
  unfold deallocate
  dsimp only
  split
  · refine ⟨⟨hinv, h.resident.of_update rfl (fun j hj => ?_) ?_, hidx⟩, .of_eq _ rfl⟩
    · simp [TcPc.over, TcPc.evicted, TcAfter.over, hj]
    · show ((tc.freeLists idx).push ptr).size ≤ (tc.freeLists idx).maxSize +
        (if idx = idx then 1 else 0) + (if (tc.freeLists idx).overages = 0 then b else 0) - 0
      rw [if_pos rfl]
      omega
  · rename_i hle
    refine ⟨⟨hinv, h.resident.of_update rfl (fun _ _ => ⟨rfl, rfl⟩) ?_, trivial⟩, .of_eq _ rfl⟩
    show ((tc.freeLists idx).push ptr).size ≤ ((tc.freeLists idx).push ptr).maxSize + 0 +
      (if (tc.freeLists idx).overages = 0 then b else 0) - 0
    omega

/-- The beginning of `Trim`. -/
lemma trim_spec (hb : b ≤ 1) {after : TcAfter} (h : PcInv b tc (.handle after)) (mode : TrimMode)
    (targetBytes : ℕ) (epoch : Option ℕ) :
    StepOk b tc stat (tc.trim stat mode targetBytes epoch after) := by
  refine ⟨⟨h.inv, h.resident, le_rfl, h.ok, h.cachedBytesSnapshot hb, fun _ _ j h₁ h₂ => ?_⟩,
    .refl _ _⟩
  omega

/-- The beginning of `ReleaseAll`. -/
lemma releaseAll_spec (h : PcInv b tc .idle) : StepOk b tc stat (tc.releaseAll stat) :=
  ⟨⟨h.inv, h.resident, Nat.zero_le _⟩, .refl _ _⟩

/-! ## Quota changes -/

/-- A quota change that does not grow, followed by `set_overages`. -/
lemma setQuota_setOverages_spec (h : tc.Inv) (stat : ℕ) {idx n o : ℕ} (hidx : idx < kNumSizeClasses)
    (hpos : 1 ≤ n) (hle : n ≤ QuotaPolicy.kMaxQuotaBatches * batchNum idx)
    (hok : tc.canSetQuota idx n = true) (ho : o < QuotaPolicy.kMaxOverages) :
    ((tc.setQuota stat idx n).1.setOverages idx o).Inv ∧
      Accounts tc stat ((tc.setQuota stat idx n).1.setOverages idx o)
        (tc.setQuota stat idx n).2 ∧
      ((tc.setQuota stat idx n).1.setOverages idx o).freeLists =
        Function.update tc.freeLists idx
          { tc.freeLists idx with maxSize := n, overages := o } := by
  obtain ⟨hinv, hacc, hlists⟩ := setQuota_spec h stat hidx hpos hle hok
  refine ⟨hinv.setFreeList rfl ho, hacc.trans (.of_eq _ rfl), ?_⟩
  simp only [setOverages, ThreadCache.setFreeList, FreeList.setOverages, hlists,
    Function.update_self, Function.update_idem]

/-- The contraction of a trim: a class that fits its quota still fits, and the quota of a class
that does not stays. No quota grows. -/
lemma trimQuota_spec (h : tc.Inv) (stat : ℕ) {idx : ℕ} (hidx : idx < kNumSizeClasses)
    (mode : TrimMode) :
    (tc.trimQuota stat idx mode).1.Inv ∧
      Accounts tc stat (tc.trimQuota stat idx mode).1 (tc.trimQuota stat idx mode).2 ∧
      ∃ l, (tc.trimQuota stat idx mode).1.freeLists = Function.update tc.freeLists idx l ∧
        l.objs = (tc.freeLists idx).objs ∧
        (l.size ≤ l.maxSize ∨ l.maxSize = (tc.freeLists idx).maxSize) ∧
        (l.overages = 0 ∨ l.overages = (tc.freeLists idx).overages) ∧
        l.maxSize ≤ (tc.freeLists idx).maxSize := by
  have hq := h.quota idx hidx
  have hb := (batchNum_bounds hidx).1
  have hpos := hq.pos
  have hle := hq.le
  cases mode with
  | kRelease =>
    obtain ⟨hinv, hacc, hlists⟩ := setQuota_setOverages_spec h stat (o := 0) hidx
      (n := min (tc.freeLists idx).maxSize (max 1 (tc.freeLists idx).size)) (by omega) (by omega)
      (canSetQuota_of_le (min_le_left _ _)) (by decide)
    refine ⟨hinv, hacc, _, hlists, rfl, ?_, Or.inl rfl, min_le_left _ _⟩
    simp only [FreeList.size]
    omega
  | kReuse =>
    unfold trimQuota
    dsimp only
    split
    · obtain ⟨hinv, hacc, hlists⟩ := setQuota_setOverages_spec h stat (o := 0) hidx
        (n := min (tc.freeLists idx).maxSize (max (batchNum idx) (tc.freeLists idx).size))
        (by omega) (by omega) (canSetQuota_of_le (min_le_left _ _)) (by decide)
      refine ⟨hinv, hacc, _, hlists, rfl, ?_, Or.inl rfl, min_le_left _ _⟩
      simp only [FreeList.size]
      omega
    · refine ⟨h, .refl _ _, tc.freeLists idx, ?_, rfl, Or.inr rfl, Or.inr rfl, le_rfl⟩
      exact (Function.update_eq_self idx tc.freeLists).symm

/-- A change of the quota fields of one class changes no contents. -/
lemma residentBytes_congr {f g : ℕ → FreeList} {idx : ℕ} {l : FreeList}
    (hg : g = Function.update f idx l) (hobjs : l.objs = (f idx).objs) :
    residentBytes g = residentBytes f ∧ ∀ j, (g j).objs = (f j).objs := by
  have hall : ∀ j, (g j).objs = (f j).objs := by
    intro j
    rw [hg]
    by_cases hj : j = idx
    · subst hj
      rw [Function.update_self, hobjs]
    · rw [Function.update_of_ne hj]
  refine ⟨Finset.sum_congr rfl fun i _ => ?_, hall⟩
  rw [FreeList.size, FreeList.size, hall i]

/-- A list that is empty stays empty during the trim of a safepoint. -/
lemma AfterOk.congr {after : TcAfter} (h : tc.AfterOk after)
    (hobjs : ∀ j, (tc.freeLists j).objs = [] → (tc'.freeLists j).objs = []) :
    tc'.AfterOk after := by
  cases after with
  | fetch idx => exact ⟨h.1, hobjs idx h.2⟩
  | overflow idx => exact h
  | ret => trivial

@[simp] lemma trimNext_pc (tc : ThreadCache) (stat idx : ℕ) (f : TrimFrame) :
    (tc.trimNext stat idx f).pc = .trim idx f := rfl

@[simp] lemma overflowEnd_pc (tc : ThreadCache) (stat idx : ℕ) :
    (tc.overflowEnd stat idx).pc = .idle := rfl

@[simp] lemma allNext_pc (tc : ThreadCache) (stat i : ℕ) :
    (tc.allNext stat i).pc = .all (i + 1) := rfl

/-- The contraction of class `idx` and the way to the next class. -/
lemma trimNext_spec {idx : ℕ} {f : TrimFrame} (h : PcInv b tc (.trimCall idx f)) :
    StepOk b tc stat (tc.trimNext stat idx f) := by
  obtain ⟨hidx, hok⟩ := h.ok
  obtain ⟨hinv, hacc, l, hlists, hobjs, hfit, ho, -⟩ :=
    trimQuota_spec h.inv stat hidx f.mode
  obtain ⟨hbytes, hall⟩ := residentBytes_congr hlists hobjs
  refine ⟨⟨hinv, h.resident.of_update hlists (fun _ _ => ⟨rfl, rfl⟩) ?_, hok.le,
    hok.after.congr fun j hj => (hall j).trans hj, by rw [hok.cached]; exact hbytes.symm,
    fun hm ht j h₁ h₂ => (hall j).trans (hok.emptied hm ht j h₁ h₂)⟩, hacc⟩
  -- the class fits its new quota, or its quota is the old one
  have hr := h.resident idx hidx
  have hsize : l.size = (tc.freeLists idx).size := by rw [FreeList.size, FreeList.size, hobjs]
  simp only [TcPc.over, TcPc.evicted] at hr
  show l.size ≤ l.maxSize + f.after.over idx + (if l.overages = 0 then b else 0) - 0
  rcases hfit with hfit | hfit
  · omega
  · rw [hfit, hsize]
    rcases ho with ho | ho
    · rw [ho, if_pos rfl]
      split_ifs at hr <;> omega
    · rw [ho]
      exact hr

/-- The end of `DeallocateSlowPath`. With `b = 0` it must not take a whole batch off a quota of
two batches or more. -/
lemma overflowEnd_spec {idx : ℕ} (h : PcInv b tc (.overflowCall idx)) (hb : b ≤ 1)
    (hguard : b = 0 → ¬ (QuotaPolicy.kMaxOverages ≤ (tc.freeLists idx).overages + 1 ∧
      2 * batchNum idx ≤ (tc.freeLists idx).maxSize)) :
    StepOk b tc stat (tc.overflowEnd stat idx) := by
  have hidx : idx < kNumSizeClasses := h.ok.1
  have hq := h.inv.quota idx hidx
  have hbatch := (batchNum_bounds hidx).1
  obtain ⟨h₁, h₂, h₃⟩ := QuotaPolicy.nextAfterOverflow_bounds (batchNum idx)
    (by omega) hq.pos hq.overages
  obtain ⟨hinv, hacc, hlists⟩ := setQuota_setOverages_spec h.inv stat hidx h₁
    (h₂.trans hq.le) (canSetQuota_of_le h₂) h₃
  refine ⟨⟨hinv, h.resident.of_update hlists (fun j hj => ?_) ?_, trivial⟩, hacc⟩
  · simp [TcPc.over, TcPc.evicted, hj]
  · have hr := h.resident idx hidx
    have ho := hq.overages
    simp only [overflowEnd_pc, TcPc.over, TcPc.evicted, if_true, FreeList.size] at hr ⊢
    unfold QuotaPolicy.kMaxOverages at ho hguard
    unfold QuotaPolicy.nextAfterOverflow QuotaPolicy.kMaxOverages
    by_cases hfloor : (tc.freeLists idx).maxSize ≤ batchNum idx
    · simp only [if_pos hfloor, if_true]
      split_ifs at hr <;> omega
    by_cases hdecay : (tc.freeLists idx).overages + 1 ≥ 3
    · -- the third overflow in a row: the counter has not been zero
      simp only [if_neg hfloor, if_pos hdecay, if_true]
      rw [if_neg (by omega)] at hr
      rcases Nat.lt_or_ge 0 b with hb' | hb'
      · omega
      · have := hguard (by omega)
        omega
    · simp only [if_neg hfloor, if_neg hdecay]
      split_ifs at hr <;> omega

/-- What follows the safepoint. -/
lemma afterHandle_spec {after : TcAfter} (h : PcInv b tc (.handle after)) :
    StepOk b tc stat (tc.afterHandle stat after) := by
  cases after with
  | ret => exact ⟨⟨h.inv, h.resident, trivial⟩, .refl _ _⟩
  | fetch idx =>
    exact ⟨⟨h.inv, h.resident, h.ok.1, h.ok.2, min_le_right _ _⟩, .refl _ _⟩
  | overflow idx =>
    have hidx : idx < kNumSizeClasses := h.ok
    have hr := h.resident idx hidx
    have hbatch := (batchNum_bounds hidx).1
    have hpos := (h.inv.quota idx hidx).pos
    simp only [TcPc.over, TcPc.evicted, TcAfter.over, if_true] at hr
    unfold afterHandle
    dsimp only
    split
    · -- the trim has made the overflow moot
      rename_i hle
      refine ⟨⟨h.inv, fun j hj => ?_, trivial⟩, .refl _ _⟩
      have hrj := h.resident j hj
      by_cases hji : j = idx
      · subst hji
        simp only [TcPc.over, TcPc.evicted]
        omega
      · simpa [TcPc.over, TcPc.evicted, TcAfter.over, hji] using hrj
    · rename_i hgt
      have hlen := (tc.freeLists idx).length_popBatchTail (batchNum idx)
      have hsize := (tc.freeLists idx).size_popBatchTail (batchNum idx)
      split
      · rename_i heq
        rw [heq] at hlen
        simp only [List.length_nil] at hlen
        omega
      · rename_i batch list hne heq
        rw [heq] at hlen hsize
        simp only at hlen hsize
        have hfields : list.maxSize = (tc.freeLists idx).maxSize ∧
            list.overages = (tc.freeLists idx).overages := by
          have : list = ((tc.freeLists idx).popBatchTail (batchNum idx)).2 := by rw [heq]
          rw [this]
          exact ⟨rfl, rfl⟩
        refine ⟨⟨h.inv.setFreeList hfields.1 (hfields.2 ▸ (h.inv.quota idx hidx).overages),
          h.resident.of_update rfl (fun j hj => ?_) ?_, hidx, ?_⟩, .of_eq _ rfl⟩
        · simp [TcPc.over, TcPc.evicted, TcAfter.over, hj]
        · simp only [TcPc.over, TcPc.evicted, if_true]
          rw [hfields.1, hfields.2]
          omega
        · simp only [ThreadCache.setFreeList, Function.update_self]
          omega

/-! ## The loop of `Trim` -/

/-- A trim evicts no more than there is. -/
lemma trimEvictCount_le (tc : ThreadCache) (idx : ℕ) (f : TrimFrame) :
    tc.trimEvictCount idx f ≤ (tc.freeLists idx).size := by
  unfold trimEvictCount
  cases f.mode <;> dsimp only <;> split_ifs <;> omega

/-- A hard trim to zero evicts all there is. -/
lemma trimEvictCount_release {idx : ℕ} {f : TrimFrame} (hidx : idx < kNumSizeClasses)
    (hmode : f.mode = .kRelease) (htarget : f.targetBytes = 0)
    (hcached : f.cachedBytes = residentBytes tc.freeLists) :
    tc.trimEvictCount idx f = (tc.freeLists idx).size := by
  have hsize := (SizeClass.size_bounds idx hidx).1
  have hpart : (tc.freeLists idx).size * SizeClass.size idx ≤ f.cachedBytes := by
    rw [hcached]
    exact Finset.single_le_sum (f := fun i => (tc.freeLists i).size * SizeClass.size i)
      (fun _ _ => Nat.zero_le _) (Finset.mem_range.mpr hidx)
  have hreq : (tc.freeLists idx).size ≤
      (f.cachedBytes - 0 + SizeClass.size idx - 1) / SizeClass.size idx := by
    rw [Nat.le_div_iff_mul_le (by omega)]
    omega
  unfold trimEvictCount
  simp only [hmode, htarget]
  split_ifs with h
  · exact min_eq_left hreq
  · rcases Nat.eq_zero_or_pos (tc.freeLists idx).size with h₀ | hpos
    · exact h₀.symm
    · have : 1 * 1 ≤ (tc.freeLists idx).size * SizeClass.size idx :=
        Nat.mul_le_mul hpos (by omega)
      omega


/-- A tail pop of one class during a trim: the count of cached bytes follows. -/
lemma subU64_evicted {idx n : ℕ} {cached : ℕ} (hidx : idx < kNumSizeClasses)
    (hn : n ≤ (tc.freeLists idx).size) (hcached : cached = residentBytes tc.freeLists)
    (hlt : residentBytes tc.freeLists < 2 ^ 64) :
    subU64 cached (((tc.freeLists idx).popBatchTail n).1.length * SizeClass.size idx % 2 ^ 64) =
      residentBytes (Function.update tc.freeLists idx ((tc.freeLists idx).popBatchTail n).2) := by
  have hupd := residentBytes_update tc.freeLists hidx ((tc.freeLists idx).popBatchTail n).2
  rw [FreeList.size_popBatchTail, min_eq_left hn, Nat.sub_mul] at hupd
  rw [FreeList.length_popBatchTail, min_eq_left hn, hcached]
  have hmono : n * SizeClass.size idx ≤ (tc.freeLists idx).size * SizeClass.size idx :=
    Nat.mul_le_mul_right _ hn
  have hpart : (tc.freeLists idx).size * SizeClass.size idx ≤ residentBytes tc.freeLists :=
    Finset.single_le_sum (f := fun i => (tc.freeLists i).size * SizeClass.size i)
      (fun _ _ => Nat.zero_le _) (Finset.mem_range.mpr hidx)
  rw [Nat.mod_eq_of_lt (by omega), subU64_of_le hlt (by omega)]
  omega

/-- The eviction from class `idx`. -/
lemma trimStep_evict_spec (hb : b ≤ 1) {idx : ℕ} {f : TrimFrame}
    (h : PcInv b tc (.trim (idx + 1) f)) (hpos : 0 < tc.trimEvictCount idx f) :
    StepOk b tc stat (tc.trimStep stat f (idx + 1)) := by
  have hok : tc.TrimOk (idx + 1) f := h.ok
  have hidx : idx < kNumSizeClasses := hok.le
  have hle := tc.trimEvictCount_le idx f
  have hsize := (tc.freeLists idx).size_popBatchTail (tc.trimEvictCount idx f)
  have hr := h.resident idx hidx
  simp only [TcPc.over, TcPc.evicted] at hr
  simp only [trimStep, if_pos hpos]
  refine ⟨⟨h.inv.setFreeList rfl (h.inv.quota idx hidx).overages,
    h.resident.of_update rfl (fun _ _ => ⟨rfl, rfl⟩) ?_, hidx, hidx.le,
    hok.after.congr fun j hj => ?_, subU64_evicted hidx hle hok.cached (h.residentBytes_lt hb),
    fun hm ht j h₁ h₂ => ?_⟩, .of_eq _ rfl⟩
  · show ((tc.freeLists idx).popBatchTail _).2.size ≤ (tc.freeLists idx).maxSize +
      f.after.over idx + (if (tc.freeLists idx).overages = 0 then b else 0) - 0
    omega
  · by_cases hji : j = idx
    · subst hji
      simp [ThreadCache.setFreeList, FreeList.popBatchTail, hj]
    · simpa [ThreadCache.setFreeList, Function.update_of_ne hji] using hj
  · by_cases hji : j = idx
    · subst hji
      have hall := trimEvictCount_release (f := f) h₂ hm ht hok.cached
      rw [hall, min_self, Nat.sub_self] at hsize
      simp only [ThreadCache.setFreeList, Function.update_self]
      rw [hall]
      exact List.length_eq_zero_iff.mp hsize
    · simp only [ThreadCache.setFreeList, Function.update_of_ne hji]
      exact hok.emptied hm ht j (by omega) h₂

/-- **One class of the loop of `Trim`**, or its end. -/
lemma trimStep_spec (hb : b ≤ 1) {i : ℕ} {f : TrimFrame} (h : PcInv b tc (.trim i f)) :
    StepOk b tc stat (tc.trimStep stat f i) := by
  have hok : tc.TrimOk i f := h.ok
  cases i with
  | zero =>
    cases hepoch : f.epoch with
    | none =>
      simp only [trimStep, hepoch]
      exact afterHandle_spec ⟨h.inv, h.resident, hok.after⟩
    | some epoch =>
      simp only [trimStep, hepoch]
      have hafter : ({ tc with observedTrimEpoch := epoch } : ThreadCache).AfterOk f.after :=
        hok.after.congr fun _ hj => hj
      have hpc : PcInv b { tc with observedTrimEpoch := epoch } (.handle f.after) :=
        ⟨⟨h.inv.quota, h.inv.reserved, h.inv.le_budget, h.inv.budget_lt⟩, h.resident, hafter⟩
      have hstep : StepOk b _ stat _ := afterHandle_spec hpc
      exact ⟨hstep.inv, hstep.accounts.modEq, hstep.accounts.lt⟩
  | succ idx =>
    by_cases hpos : 0 < tc.trimEvictCount idx f
    · exact trimStep_evict_spec hb h hpos
    · -- nothing is evicted: a trim to zero finds the class empty
      have hidx : idx < kNumSizeClasses := hok.le
      simp only [trimStep, if_neg hpos]
      refine trimNext_spec ⟨h.inv, h.resident, hidx, hidx.le, hok.after, hok.cached,
        fun hm ht j h₁ h₂ => ?_⟩
      by_cases hji : j = idx
      · subst hji
        have hall := trimEvictCount_release h₂ hm ht hok.cached
        exact List.length_eq_zero_iff.mp (show (tc.freeLists j).size = 0 by omega)
      · exact hok.emptied hm ht j (by omega) h₂

/-- `HandleGlobalTrimRequest`, up to the beginning of its trim. -/
lemma handle_spec (hb : b ≤ 1) {after : TcAfter} (h : PcInv b tc (.handle after))
    (trimRequest : ℕ) : StepOk b tc stat (tc.handle stat trimRequest after) := by
  unfold handle
  dsimp only
  split
  · exact afterHandle_spec h
  · exact trim_spec hb h _ _ _

/-! ## The loop of `ReleaseAll` -/

/-- The quota of an emptied class goes back to one object. -/
lemma allNext_spec {i : ℕ} (h : PcInv b tc (.allCall i)) :
    StepOk b tc stat (tc.allNext stat i) := by
  obtain ⟨hi, hempty⟩ := h.ok
  have hq := h.inv.quota i hi
  obtain ⟨hinv, hacc, hlists⟩ := setQuota_setOverages_spec h.inv stat (o := 0) (n := 1)
    hi le_rfl (hq.pos.trans hq.le) (canSetQuota_of_le hq.pos) (by decide)
  refine ⟨⟨hinv, h.resident.of_update hlists (fun _ _ => ⟨rfl, rfl⟩) ?_, hi⟩, hacc⟩
  simp [FreeList.size, hempty]

/-- One class of the loop of `ReleaseAll`, or its end. -/
lemma allStep_spec {i : ℕ} (h : PcInv b tc (.all i)) : StepOk b tc stat (tc.allStep stat i) := by
  unfold allStep
  split_ifs with hi
  · exact ⟨⟨h.inv, h.resident, trivial⟩, .refl _ _⟩
  · have hi' : i < kNumSizeClasses := not_le.mp hi
    split
    · rename_i hempty
      exact allNext_spec ⟨h.inv, h.resident, hi', hempty⟩
    · refine ⟨⟨h.inv.setFreeList rfl (h.inv.quota i hi').overages,
        h.resident.of_update rfl (fun _ _ => ⟨rfl, rfl⟩) ?_, hi', ?_⟩, .of_eq _ rfl⟩
      · simp [FreeList.size]
      · simp [ThreadCache.setFreeList, FreeList.popBatch]

/-- **The local steps** keep the invariant and move the statistic with the reservation. -/
theorem step_spec (hb : b ≤ 1) (h : PcInv b tc pc) (trimRequest : ℕ) :
    StepOk b tc stat (tc.step stat trimRequest pc) := by
  cases pc with
  | handle after => exact handle_spec hb h trimRequest
  | trim i f => exact trimStep_spec hb h
  | all i => exact allStep_spec h
  | _ => exact ⟨h, .refl _ _⟩

/-- A new cache satisfies the invariant. -/
lemma create_spec (b : ℕ) {budget : ℕ} (hbudget : budget < 2 ^ 64) (request stat : ℕ) :
    PcInv b (create budget request stat).1 .idle := by
  have hinit : initialReservedQuotaBytes < 2 ^ 64 := by
    unfold initialReservedQuotaBytes
    decide
  refine ⟨⟨fun idx hidx => ⟨le_rfl, ?_, Nat.zero_lt_succ 2⟩, ?_, le_max_right _ _, ?_⟩,
    fun i _ => Nat.zero_le _, trivial⟩
  · have := (batchNum_bounds hidx).1
    show 1 ≤ QuotaPolicy.kMaxQuotaBatches * batchNum idx
    unfold QuotaPolicy.kMaxQuotaBatches
    omega
  · show ∑ i ∈ Finset.range kNumSizeClasses, SizeClass.size i =
      ∑ i ∈ Finset.range kNumSizeClasses, 1 * SizeClass.size i
    exact Finset.sum_congr rfl fun i _ => (Nat.one_mul _).symm
  · exact max_lt hbudget hinit

/-! ## The return of a call -/

/-- The quota after a full refill: a growth that the budget admits, or none. -/
lemma refillQuota_spec (h : tc.Inv) (stat : ℕ) {idx : ℕ} (hidx : idx < kNumSizeClasses) :
    let next := QuotaPolicy.nextAfterRefill (tc.freeLists idx).maxSize (batchNum idx)
    let r := if tc.canSetQuota idx next then tc.setQuota stat idx next else (tc, stat)
    (r.1.setOverages idx 0).Inv ∧ Accounts tc stat (r.1.setOverages idx 0) r.2 ∧
      ∃ n, (tc.freeLists idx).maxSize ≤ n ∧ (r.1.setOverages idx 0).freeLists =
        Function.update tc.freeLists idx { tc.freeLists idx with maxSize := n, overages := 0 } := by
  intro next r
  have hq := h.quota idx hidx
  obtain ⟨hge, hle⟩ := QuotaPolicy.nextAfterRefill_bounds (batchNum idx)
    (by have := (batchNum_bounds hidx).1; omega) hq.le
  by_cases hok : tc.canSetQuota idx next = true
  · obtain ⟨hinv, hacc, hlists⟩ := setQuota_setOverages_spec h stat (o := 0) hidx
      (hq.pos.trans hge) hle hok (by decide)
    simp only [r, if_pos hok]
    exact ⟨hinv, hacc, next, hge, hlists⟩
  · simp only [r, if_neg hok]
    exact ⟨h.setFreeList rfl (by simp [QuotaPolicy.kMaxOverages, FreeList.setOverages]),
      .of_eq _ rfl, _, le_rfl, rfl⟩

/-- The `Pop` at the end of a refill. -/
lemma fetchPop_spec (h : PcInv b tc pc) {idx stat' : ℕ} (hidx : idx < kNumSizeClasses)
    (hpc : ∀ j, j ≠ idx → pc.over j = 0 ∧ pc.evicted j = 0) {l : FreeList} (hinv : tc'.Inv)
    (hacc : Accounts tc stat tc' stat')
    (hlists : tc'.freeLists = Function.update tc.freeLists idx l)
    {ptr : ℕ} {rest : List ℕ} (hobjs : l.objs = ptr :: rest) (hlen : rest.length ≤ l.maxSize) :
    StepOk b tc stat
      { tc := tc'.setFreeList idx (tc'.freeLists idx).pop.2, stat := stat', pc := .idle
        ret := some (tc'.freeLists idx).pop.1 } := by
  have hcur : tc'.freeLists idx = l := by rw [hlists, Function.update_self]
  have ho := (hinv.quota idx hidx).overages
  rw [hcur] at ho
  simp only [hcur, FreeList.pop, hobjs]
  refine ⟨⟨hinv.setFreeList (by rw [hcur]) ho, ?_, trivial⟩, hacc.trans (.of_eq _ rfl)⟩
  have hpop : (tc'.setFreeList idx { l with objs := rest }).freeLists =
      Function.update tc.freeLists idx { l with objs := rest } := by
    simp only [ThreadCache.setFreeList, hlists, Function.update_idem]
  refine h.resident.of_update hpop (fun j hj => ⟨(hpc j hj).1, (hpc j hj).2.symm⟩) ?_
  simp only [FreeList.size, TcPc.over, TcPc.evicted]
  omega

/-- The rest of `FetchFromCentralCache`: whatever the CentralCache delivers, up to what was
asked for, fits the quota. -/
lemma fetchEnd_spec {idx fetchNum : ℕ} (h : PcInv b tc (.fetchCall idx fetchNum))
    {batch : List ℕ} (hlen : batch.length ≤ fetchNum) :
    StepOk b tc stat (tc.fetchEnd stat idx fetchNum batch) := by
  obtain ⟨hidx, hempty, hnum⟩ := h.ok
  cases batch with
  | nil => exact ⟨⟨h.inv, h.resident, trivial⟩, .refl _ _⟩
  | cons ptr rest =>
    set l : FreeList := (tc.freeLists idx).pushBatch (ptr :: rest) with hl
    have hobjs : l.objs = ptr :: rest := by simp [hl, FreeList.pushBatch, hempty]
    have hmax : l.maxSize = (tc.freeLists idx).maxSize := rfl
    have hinv : (tc.setFreeList idx l).Inv :=
      h.inv.setFreeList rfl (h.inv.quota idx hidx).overages
    have hpush : Accounts tc stat (tc.setFreeList idx l) stat := .of_eq _ rfl
    have hself : (tc.setFreeList idx l).freeLists idx = l := Function.update_self ..
    simp only [List.length_cons] at hlen
    unfold fetchEnd
    simp only [← hl]
    by_cases hpart : (ptr :: rest).length < fetchNum
    · simp only [if_pos hpart]
      exact fetchPop_spec h hidx (fun _ _ => ⟨rfl, rfl⟩) hinv hpush rfl hobjs (by omega)
    · simp only [if_neg hpart]
      obtain ⟨hinv', hacc, n, hn, hlists⟩ := refillQuota_spec hinv stat hidx
      rw [hself] at hn
      refine fetchPop_spec h hidx (fun _ _ => ⟨rfl, rfl⟩) hinv'
        (hpush.trans hacc)
        (l := { l with maxSize := n, overages := 0 }) ?_ hobjs (by simp only; omega)
      rw [hlists, hself]
      exact Function.update_idem ..

/-- The contraction that leaves a class above its quota: the third overflow in a row, at a quota
of two batches or more. -/
def Decays (tc : ThreadCache) (idx : ℕ) : Prop :=
  QuotaPolicy.kMaxOverages ≤ (tc.freeLists idx).overages + 1 ∧
    2 * batchNum idx ≤ (tc.freeLists idx).maxSize

/-- **The steps after a call** keep the invariant and move the statistic with the reservation.
The batch of a fetch is no longer than asked for. -/
theorem resume_spec (hb : b ≤ 1) (h : PcInv b tc pc) {batch : List ℕ}
    (hlen : ∀ idx n, pc = .fetchCall idx n → batch.length ≤ n)
    (hguard : b = 0 → ∀ idx, pc = .overflowCall idx → ¬ tc.Decays idx) :
    StepOk b tc stat (tc.resume stat batch pc) := by
  cases pc with
  | fetchCall idx fetchNum => exact fetchEnd_spec h (hlen idx fetchNum rfl)
  | trimCall idx f => exact trimNext_spec h
  | overflowCall idx => exact overflowEnd_spec h hb fun h₀ => hguard h₀ idx rfl
  | allCall i => exact allNext_spec h
  | _ => exact ⟨h, .refl _ _⟩

/-- The decay in question does leave the class above its quota. -/
lemma overflowEnd_exceeds {idx : ℕ} (h : PcInv b tc (.overflowCall idx)) (hdecay : tc.Decays idx) :
    ((tc.overflowEnd stat idx).tc.freeLists idx).maxSize <
      ((tc.overflowEnd stat idx).tc.freeLists idx).size := by
  obtain ⟨hidx, hbig⟩ := h.ok
  have hq := h.inv.quota idx hidx
  have hbatch := (batchNum_bounds hidx).1
  obtain ⟨h₁, h₂, h₃⟩ := QuotaPolicy.nextAfterOverflow_bounds (batchNum idx)
    (by omega) hq.pos hq.overages
  obtain ⟨-, -, hlists⟩ := setQuota_setOverages_spec h.inv stat hidx h₁
    (h₂.trans hq.le) (canSetQuota_of_le h₂) h₃
  have hcur := congrFun hlists idx
  rw [Function.update_self] at hcur
  obtain ⟨ho, hmax⟩ := hdecay
  have hnext : QuotaPolicy.nextAfterOverflow (tc.freeLists idx).maxSize (batchNum idx)
      (tc.freeLists idx).overages =
        (max ((tc.freeLists idx).maxSize - batchNum idx) (batchNum idx), 0) := by
    rw [QuotaPolicy.nextAfterOverflow, if_neg (by omega), if_pos ho]
  unfold overflowEnd
  simp only [hcur, FreeList.size]
  rw [hnext]
  simp only [FreeList.size] at hbig ⊢
  omega

end ThreadCache

end Ammalloc
