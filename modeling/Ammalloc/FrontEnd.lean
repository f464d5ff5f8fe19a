import Ammalloc.Lib.Machine
import Ammalloc.ThreadCache.Invariant

set_option relaxedAutoImplicit false
set_option autoImplicit false

/-!
# All thread caches of a process

Any number of ThreadCaches with their owners, the shared trim word `trim_request_`, the
statistic `reserved_quota_bytes`, and any number of controllers that publish trim requests. One
action is one local step of an owner, or the load or the compare-exchange of a controller. The
CentralCache is an environment here: a fetch delivers any list of at most as many objects as
asked for.

## Main definitions

* `Ammalloc.FrontEnd`, `Ammalloc.FrontEnd.next`, `Ammalloc.FrontEnd.machine`.
* `Ammalloc.HandleRecord` — what an execution of `HandleGlobalTrimRequest` did, with the requests
  published since the owner's previous observation.

## Main results

* `Ammalloc.FrontEnd.quota_accounting` — the quota accounting of every cache, and the statistic.
* `Ammalloc.FrontEnd.residency_iff` — when no class ever exceeds its quota.
-/

namespace Ammalloc

open SizeClass (kNumSizeClasses)

/-! ## The model -/

/-- A ThreadCache with its owner. The last two fields are history: the requests published since
the last load of the trim word (newest first), and those the last load has observed. -/
structure Owner where
  tc : ThreadCache
  pc : TcPc := .idle
  pending : List TrimMode := []
  loaded : List TrimMode := []

/-- A completed execution of `HandleGlobalTrimRequest`: the requests that had been published
since the owner's previous observation, the trim it performed, and whether all free lists were
empty at its end. -/
structure HandleRecord where
  owner : ℕ
  pending : List TrimMode
  performed : Option (TrimMode × ℕ)
  empty : Bool
  deriving DecidableEq, Repr

/-- The front end of the allocator. -/
structure FrontEnd where
  /-- `trim_request_`. -/
  trimRequest : ℕ := 0
  /-- `g_thread_cache_stats.reserved_quota_bytes`. -/
  stat : ℕ := 0
  owners : ℕ → Option Owner := fun _ => none
  /-- The owners there are. -/
  live : Finset ℕ := ∅
  /-- The controllers inside `RequestGlobalTrim`: the observed word and the mode. -/
  controllers : ℕ → Option (ℕ × TrimMode) := fun _ => none
  /-- History of `HandleGlobalTrimRequest`, newest first. -/
  handled : List HandleRecord := []

/-- The actions of the front end. -/
inductive FrontAction where
  | create (t cacheBudgetBytes : ℕ)
  | destroy (t : ℕ)
  | allocate (t originalSize : ℕ)
  | deallocate (t ptr idx : ℕ)
  | trim (t : ℕ) (mode : TrimMode) (targetBytes : ℕ)
  | handleGlobalTrimRequest (t : ℕ)
  | releaseAll (t : ℕ)
  /-- The next local step of the operation of `t`; `batch` is what a fetch has delivered. -/
  | step (t : ℕ) (batch : List ℕ)
  /-- The load of `RequestGlobalTrim`. -/
  | load (c : ℕ) (mode : TrimMode)
  /-- The compare-exchange of `RequestGlobalTrim`, which may fail spuriously. -/
  | compareExchange (c : ℕ) (spurious : Bool)
  deriving DecidableEq, Repr

/-- What a call returns: a fetch at most `fetch_num` objects, a release nothing. -/
def TcPc.fetched : TcPc → List ℕ → List ℕ
  | .fetchCall _ fetchNum, batch => batch.take fetchNum
  | _, _ => []

/-- Every free list is empty. -/
def ThreadCache.isEmpty (tc : ThreadCache) : Bool :=
  (List.range kNumSizeClasses).all fun i => (tc.freeLists i).objs.isEmpty

namespace FrontEnd

/-- The state after a local step of owner `t`. -/
def commit (st : FrontEnd) (t : ℕ) (o : Owner) (out : TcOut) : FrontEnd :=
  { st with
    owners := Function.update st.owners t (some { o with tc := out.tc, pc := out.pc })
    stat := out.stat }

/-- Owner `t` begins an operation, if it is in none. -/
def operate (st : FrontEnd) (t : ℕ) (begin : ThreadCache → ℕ → TcOut) : FrontEnd :=
  match st.owners t with
  | some o => if o.pc = .idle then st.commit t o (begin o.tc st.stat) else st
  | none => st

/-- The local step of an owner, or its return from a call. -/
def ownerStep (o : Owner) (stat trimRequest : ℕ) (batch : List ℕ) : TcOut :=
  if o.pc.waits then o.tc.resume stat (o.pc.fetched batch) o.pc
  else o.tc.step stat trimRequest o.pc

/-- The execution of `HandleGlobalTrimRequest` that the next step of `o` completes, if any. -/
def completes (t : ℕ) (o : Owner) (trimRequest : ℕ) : Option HandleRecord :=
  match o.pc with
  | .handle _ =>
    if trimRequest >>> 1 = o.tc.observedTrimEpoch then
      some { owner := t, pending := o.pending, performed := none, empty := o.tc.isEmpty }
    else none
  | .trim 0 f =>
    f.epoch.map fun _ =>
      { owner := t, pending := o.loaded, performed := some (f.mode, f.targetBytes)
        empty := o.tc.isEmpty }
  | _ => none

/-- History: a load of the trim word observes the pending requests. -/
def observe (o : Owner) : Owner :=
  match o.pc with
  | .handle _ => { o with pending := [], loaded := o.pending }
  | _ => o

/-- `((observed >> 1) + 1) << 1 | mode`, on 64-bit words. -/
def nextRequest (observed : ℕ) (mode : TrimMode) : ℕ :=
  (((observed >>> 1) + 1) <<< 1) % 2 ^ 64 ||| mode.toNat

/-- The transition function. -/
def next (st : FrontEnd) : FrontAction → FrontEnd
  | .create t cacheBudgetBytes =>
    if st.owners t = none then
      let (tc, stat) := ThreadCache.create (cacheBudgetBytes % 2 ^ 64) st.trimRequest st.stat
      { st with
        owners := Function.update st.owners t (some { tc := tc })
        live := insert t st.live
        stat := stat }
    else st
  | .destroy t =>
    match st.owners t with
    | some o =>
      if o.pc = .idle then
        { st with
          owners := Function.update st.owners t none
          live := st.live.erase t
          stat := subU64 st.stat o.tc.reservedQuotaBytes }
      else st
    | none => st
  | .allocate t originalSize =>
    if originalSize ≤ maxTcSize then
      st.operate t fun tc stat => tc.allocate stat (SizeClass.index originalSize)
    else st
  | .deallocate t ptr idx =>
    if idx < kNumSizeClasses then st.operate t fun tc stat => tc.deallocate stat ptr idx else st
  | .trim t mode targetBytes =>
    st.operate t fun tc stat => tc.trim stat mode (targetBytes % 2 ^ 64) none .ret
  | .handleGlobalTrimRequest t =>
    st.operate t fun tc stat => { tc := tc, stat := stat, pc := .handle .ret }
  | .releaseAll t => st.operate t fun tc stat => tc.releaseAll stat
  | .step t batch =>
    match st.owners t with
    | some o =>
      { st.commit t (observe o) (ownerStep o st.stat st.trimRequest batch) with
        handled := (completes t o st.trimRequest).toList ++ st.handled }
    | none => st
  | .load c mode =>
    if st.controllers c = none then
      { st with controllers := Function.update st.controllers c (some (st.trimRequest, mode)) }
    else st
  | .compareExchange c spurious =>
    match st.controllers c with
    | some (observed, mode) =>
      if st.trimRequest = observed ∧ spurious = false then
        { st with
          trimRequest := nextRequest observed mode
          owners := fun t => (st.owners t).map fun o => { o with pending := mode :: o.pending }
          controllers := Function.update st.controllers c none }
      else
        { st with
          controllers := Function.update st.controllers c (some (st.trimRequest, mode)) }
    | none => st

/-- The front end as a machine. -/
def machine : Machine FrontEnd FrontAction where
  init := {{}}
  next := next

/-! ## What one action can do -/

/-- The thread cache of `t` and its position, without the history. -/
def cacheOf (st : FrontEnd) (t : ℕ) : Option (ThreadCache × TcPc) :=
  (st.owners t).map fun o => (o.tc, o.pc)

/-- The action does not end an overflow that leaves a class above its quota: the third overflow
in a row, at a quota of two batches or more. -/
def KeepsQuota (st : FrontEnd) (a : FrontAction) : Prop :=
  ∀ t batch tc idx, a = .step t batch → st.cacheOf t = some (tc, .overflowCall idx) →
    ¬ tc.Decays idx

/-- **What an action can do** to the caches and the statistic: nothing, construct a cache,
destroy one, or take one of the steps of an operation. -/
inductive Effect (st : FrontEnd) (a : FrontAction) (st' : FrontEnd) : Prop
  | keep (hcache : st'.cacheOf = st.cacheOf) (hlive : st'.live = st.live)
      (hstat : st'.stat = st.stat)
  | create (t budget request : ℕ) (hnone : st.cacheOf t = none) (hbudget : budget < 2 ^ 64)
      (hcache : st'.cacheOf = Function.update st.cacheOf t
        (some ((ThreadCache.create budget request st.stat).1, .idle)))
      (hlive : st'.live = insert t st.live)
      (hstat : st'.stat = (ThreadCache.create budget request st.stat).2)
  | destroy (t : ℕ) (tc : ThreadCache) (hsome : st.cacheOf t = some (tc, .idle))
      (hcache : st'.cacheOf = Function.update st.cacheOf t none)
      (hlive : st'.live = st.live.erase t)
      (hstat : st'.stat = subU64 st.stat tc.reservedQuotaBytes)
  | operate (t : ℕ) (tc : ThreadCache) (pc : TcPc) (out : TcOut)
      (hsome : st.cacheOf t = some (tc, pc))
      (hcache : st'.cacheOf = Function.update st.cacheOf t (some (out.tc, out.pc)))
      (hlive : st'.live = st.live) (hstat : st'.stat = out.stat)
      (hstep : ∀ b ≤ 1, ThreadCache.PcInv b tc pc → (b = 0 → st.KeepsQuota a) →
        ThreadCache.StepOk b tc st.stat out)

variable {st st' : FrontEnd} {a : FrontAction} {b t : ℕ}

/-- The cache of a thread that is an owner. -/
lemma cacheOf_eq_some {o : Owner} (h : st.owners t = some o) :
    st.cacheOf t = some (o.tc, o.pc) := by
  simp [cacheOf, h]

/-- A local step changes the cache of its owner only. -/
lemma cacheOf_commit (st : FrontEnd) (t : ℕ) (o : Owner) (out : TcOut) :
    (st.commit t o out).cacheOf = Function.update st.cacheOf t (some (out.tc, out.pc)) := by
  funext u
  by_cases hu : u = t
  · subst hu
    simp [cacheOf, commit]
  · simp [cacheOf, commit, hu]

/-- The beginning of an operation. -/
lemma operate_effect (begin : ThreadCache → ℕ → TcOut)
    (h : ∀ b ≤ 1, ∀ tc stat, ThreadCache.PcInv b tc .idle →
      ThreadCache.StepOk b tc stat (begin tc stat)) :
    Effect st a (st.operate t begin) := by
  unfold operate
  split
  · rename_i o ho
    split_ifs with hidle
    · refine .operate t o.tc o.pc (begin o.tc st.stat) (cacheOf_eq_some ho)
        (cacheOf_commit ..) rfl rfl fun b hb hpc _ => h b hb _ _ (hidle ▸ hpc)
    · exact .keep rfl rfl rfl
  · exact .keep rfl rfl rfl

/-- The step of an owner keeps its invariant, unless it ends a decaying overflow. -/
lemma ownerStep_spec (hb : b ≤ 1) {o : Owner} (h : ThreadCache.PcInv b o.tc o.pc)
    (hguard : b = 0 → ∀ idx, o.pc = .overflowCall idx → ¬ o.tc.Decays idx)
    (stat trimRequest : ℕ) (batch : List ℕ) :
    ThreadCache.StepOk b o.tc stat (ownerStep o stat trimRequest batch) := by
  unfold ownerStep
  split_ifs with hw
  · refine ThreadCache.resume_spec hb h (fun idx n hpc => ?_) hguard
    rw [hpc]
    exact List.length_take_le ..
  · exact ThreadCache.step_spec hb h trimRequest

/-- **Every action has one of the effects.** -/
lemma next_effect (st : FrontEnd) (a : FrontAction) : Effect st a (st.next a) := by
  cases a with
  | create t budget =>
    by_cases hnone : st.owners t = none
    · simp only [next, if_pos hnone]
      refine .create t (budget % 2 ^ 64) st.trimRequest (by simp [cacheOf, hnone])
        (Nat.mod_lt _ (by norm_num)) ?_ rfl rfl
      funext u
      by_cases hu : u = t
      · subst hu
        simp [cacheOf]
      · simp [cacheOf, hu]
    · simp only [next, if_neg hnone]
      exact .keep rfl rfl rfl
  | destroy t =>
    unfold next
    dsimp only
    split
    · rename_i o ho
      split_ifs with hidle
      · refine .destroy t o.tc (by rw [cacheOf_eq_some ho, hidle]) ?_ rfl rfl
        funext u
        by_cases hu : u = t
        · subst hu
          simp [cacheOf]
        · simp [cacheOf, hu]
      · exact .keep rfl rfl rfl
    · exact .keep rfl rfl rfl
  | allocate t size =>
    unfold next
    dsimp only
    split_ifs with hsize
    · exact operate_effect _ fun b _ tc stat h =>
        ThreadCache.allocate_spec h (SizeClass.index_lt hsize)
    · exact .keep rfl rfl rfl
  | deallocate t ptr idx =>
    unfold next
    dsimp only
    split_ifs with hidx
    · exact operate_effect _ fun b _ tc stat h => ThreadCache.deallocate_spec h hidx ptr
    · exact .keep rfl rfl rfl
  | trim t mode target =>
    exact operate_effect _ fun b hb tc stat h =>
      ThreadCache.trim_spec hb h.handle_of_idle mode _ none
  | handleGlobalTrimRequest t =>
    exact operate_effect (fun tc stat => { tc := tc, stat := stat, pc := .handle .ret })
      fun b _ tc stat h => ⟨h.handle_of_idle, .refl _ _⟩
  | releaseAll t => exact operate_effect _ fun b _ tc stat h => ThreadCache.releaseAll_spec h
  | step t batch =>
    unfold next
    dsimp only
    split
    · rename_i o ho
      refine .operate t o.tc o.pc (ownerStep o st.stat st.trimRequest batch) (cacheOf_eq_some ho)
        (cacheOf_commit st t (observe o) _) rfl rfl fun b hb hpc hguard => ?_
      refine ownerStep_spec hb hpc (fun h₀ idx hidx => ?_) _ _ _
      exact hguard h₀ t batch o.tc idx rfl (by rw [cacheOf_eq_some ho, hidx])
    · exact .keep rfl rfl rfl
  | load c mode =>
    unfold next
    dsimp only
    split_ifs <;> exact .keep rfl rfl rfl
  | compareExchange c spurious =>
    unfold next
    dsimp only
    split
    · split_ifs
      · refine .keep (funext fun u => ?_) rfl rfl
        simp only [cacheOf, Option.map_map]
        rfl
      · exact .keep rfl rfl rfl
    · exact .keep rfl rfl rfl

/-! ## Quota accounting -/

/-- `reserved_quota_bytes_` of a cache that exists. -/
def reservedOf : Option (ThreadCache × TcPc) → ℕ
  | some (tc, _) => tc.reservedQuotaBytes
  | none => 0

/-- The reservation of a cache that exists. -/
lemma reservedOf_some (tc : ThreadCache) (pc : TcPc) :
    reservedOf (some (tc, pc)) = tc.reservedQuotaBytes := rfl

/-- **The invariant of the front end.** -/
structure Inv (b : ℕ) (st : FrontEnd) : Prop where
  cache : ∀ t tc pc, st.cacheOf t = some (tc, pc) → ThreadCache.PcInv b tc pc
  live : ∀ t, t ∈ st.live ↔ st.cacheOf t ≠ none
  stat : st.stat = (∑ t ∈ st.live, reservedOf (st.cacheOf t)) % 2 ^ 64

/-- The invariant holds at the start, where there is no cache. -/
lemma init_inv (b : ℕ) : Inv b {} where
  cache t tc pc h := by simp [cacheOf] at h
  live t := by simp [cacheOf]
  stat := rfl

/-- **Every effect keeps the invariant.**

**Proof sketch.** The sum over the live caches changes by the difference at the one cache that
changes, and the statistic by the same amount modulo `2 ^ 64`. -/
lemma Effect.inv (h : Inv b st) (hb : b ≤ 1) (hguard : b = 0 → st.KeepsQuota a)
    (he : Effect st a st') : Inv b st' := by
  cases he with
  | keep hcache hlive hstat =>
    exact ⟨hcache ▸ h.cache, hcache ▸ hlive ▸ h.live, by rw [hstat, hlive, hcache]; exact h.stat⟩
  | create t budget request hnone hbudget hcache hlive hstat =>
    have hnot : t ∉ st.live := by simp [h.live t, hnone]
    refine ⟨fun u tc pc hu => ?_, fun u => ?_, ?_⟩
    · rw [hcache] at hu
      by_cases hut : u = t
      · subst hut
        rw [Function.update_self] at hu
        obtain ⟨rfl, rfl⟩ := Prod.mk.inj (Option.some.inj hu)
        exact ThreadCache.create_spec b hbudget request st.stat
      · rw [Function.update_of_ne hut] at hu
        exact h.cache u tc pc hu
    · rw [hcache, hlive, Finset.mem_insert, h.live u]
      by_cases hut : u = t
      · subst hut
        simp
      · simp [hut]
    · have hrest : ∑ u ∈ st.live, reservedOf (Function.update st.cacheOf t
          (some ((ThreadCache.create budget request st.stat).1, TcPc.idle)) u) =
            ∑ u ∈ st.live, reservedOf (st.cacheOf u) :=
        FamilySum.sum_update_of_notMem _ st.cacheOf (fun _ c => reservedOf c) hnot _
      rw [hstat, hlive, hcache, Finset.sum_insert hnot, hrest, Function.update_self]
      simp only [ThreadCache.create, reservedOf_some, addU64]
      have := h.stat
      omega
  | destroy t tc hsome hcache hlive hstat =>
    have hmem : t ∈ st.live := by simp [h.live t, hsome]
    refine ⟨fun u tc' pc hu => ?_, fun u => ?_, ?_⟩
    · rw [hcache] at hu
      by_cases hut : u = t
      · subst hut
        simp at hu
      · rw [Function.update_of_ne hut] at hu
        exact h.cache u tc' pc hu
    · rw [hcache, hlive, Finset.mem_erase, h.live u]
      by_cases hut : u = t
      · subst hut
        simp
      · simp [hut]
    · have hrest : ∑ u ∈ st.live.erase t, reservedOf (Function.update st.cacheOf t none u) =
          ∑ u ∈ st.live.erase t, reservedOf (st.cacheOf u) :=
        FamilySum.sum_update_of_notMem _ st.cacheOf (fun _ c => reservedOf c)
          (Finset.notMem_erase t st.live) _
      have hsum := Finset.add_sum_erase st.live (fun u => reservedOf (st.cacheOf u)) hmem
      simp only [hsome, reservedOf_some] at hsum
      rw [hstat, hlive, hcache, hrest]
      have := h.stat
      have hle := (h.cache t tc .idle hsome).inv.reserved_le
      unfold subU64
      omega
  | operate t tc pc out hsome hcache hlive hstat hstep =>
    have hmem : t ∈ st.live := by simp [h.live t, hsome]
    have hok := hstep b hb (h.cache t tc pc hsome) hguard
    refine ⟨fun u tc' pc' hu => ?_, fun u => ?_, ?_⟩
    · rw [hcache] at hu
      by_cases hut : u = t
      · subst hut
        rw [Function.update_self] at hu
        obtain ⟨rfl, rfl⟩ := Prod.mk.inj (Option.some.inj hu)
        exact hok.inv
      · rw [Function.update_of_ne hut] at hu
        exact h.cache u tc' pc' hu
    · rw [hcache, hlive, h.live u]
      by_cases hut : u = t
      · subst hut
        simp [hsome]
      · simp [hut]
    · have hsum := FamilySum.sum_update_add st.live st.cacheOf (fun _ c => reservedOf c) hmem
        (some (out.tc, out.pc))
      simp only [hsome, reservedOf_some] at hsum
      have hacc := hok.accounts.modEq
      have hlt := hok.accounts.lt (by rw [h.stat]; exact Nat.mod_lt _ (by norm_num))
      have := h.stat
      rw [hstat, hlive, hcache]
      omega

/-- Every run keeps the invariant, with one object of slack. -/
lemma run_inv (as : List FrontAction) : Inv 1 (machine.run {} as) := by
  have hstep : ∀ st a, Inv 1 st → Inv 1 (machine.next st a) := fun st a h =>
    (next_effect st a).inv h le_rfl (by simp)
  exact ((Machine.Reachable.init (M := machine) (Set.mem_singleton _)).run as).invariant
    (fun s hs => Set.mem_singleton_iff.mp hs ▸ init_inv 1) hstep

/-- **Quota accounting.** In every state of every run, every ThreadCache has its quotas and
overage counters in range; its reservation is the sum of its quotas, at least the initial
reservation and at most the budget, so that neither the headroom of `CanSetQuota` nor the
reservation in `SetQuota` wraps below zero; and the statistic is the sum of the reservations of
the live caches. It is a 64-bit counter, which holds the sum of up to `2 ^ 39` caches. -/
theorem quota_accounting (as : List FrontAction) :
    (∀ t o, (machine.run {} as).owners t = some o →
      (∀ idx < kNumSizeClasses, 1 ≤ (o.tc.freeLists idx).maxSize ∧
        (o.tc.freeLists idx).maxSize ≤ QuotaPolicy.kMaxQuotaBatches * ThreadCache.batchNum idx ∧
        (o.tc.freeLists idx).overages < QuotaPolicy.kMaxOverages) ∧
      o.tc.reservedQuotaBytes = ∑ idx ∈ Finset.range kNumSizeClasses,
        (o.tc.freeLists idx).maxSize * SizeClass.size idx ∧
      ThreadCache.initialReservedQuotaBytes ≤ o.tc.reservedQuotaBytes ∧
      o.tc.reservedQuotaBytes ≤ o.tc.cacheBudgetBytes ∧
      subU64 o.tc.cacheBudgetBytes o.tc.reservedQuotaBytes =
        o.tc.cacheBudgetBytes - o.tc.reservedQuotaBytes ∧
      ∀ idx < kNumSizeClasses, ∀ n,
        ((o.tc.freeLists idx).maxSize - n) * SizeClass.size idx ≤ o.tc.reservedQuotaBytes) ∧
    (∀ t, t ∈ (machine.run {} as).live ↔ (machine.run {} as).owners t ≠ none) ∧
    (machine.run {} as).stat =
      (∑ t ∈ (machine.run {} as).live, reservedOf ((machine.run {} as).cacheOf t)) % 2 ^ 64 ∧
    ((machine.run {} as).live.card ≤ 2 ^ 39 → (machine.run {} as).stat =
      ∑ t ∈ (machine.run {} as).live, reservedOf ((machine.run {} as).cacheOf t)) := by
  have h := run_inv as
  refine ⟨fun t o ho => ?_, fun t => ?_, h.stat, fun hcard => ?_⟩
  · have hi := (h.cache t o.tc o.pc (cacheOf_eq_some ho)).inv
    refine ⟨fun idx hidx => ?_, hi.reserved, hi.initial_le, hi.le_budget,
      subU64_of_le hi.budget_lt hi.le_budget, fun idx hidx n => ?_⟩
    · exact ⟨(hi.quota idx hidx).pos, (hi.quota idx hidx).le, (hi.quota idx hidx).overages⟩
    · rw [hi.reserved]
      exact (Nat.mul_le_mul_right _ (Nat.sub_le _ _)).trans
        (ThreadCache.quota_le_quotaBytes _ hidx)
  · rw [h.live t]
    simp [cacheOf]
  · have hle : ∑ t ∈ (machine.run {} as).live, reservedOf ((machine.run {} as).cacheOf t) ≤
        (machine.run {} as).live.card * (40 * 2 ^ 19) := by
      refine Finset.sum_le_card_nsmul _ _ _ fun t ht => ?_
      obtain ⟨⟨tc, pc⟩, htc⟩ := Option.ne_none_iff_exists'.mp ((h.live t).mp ht)
      rw [htc]
      exact (h.cache t tc pc htc).inv.reserved_le
    have hstat := h.stat
    rwa [Nat.mod_eq_of_lt (by omega)] at hstat

/-! ## Residency -/

/-- **The residency bound**: a class holds at most its quota while its owner is in no operation,
and at most one object more at any time. -/
def ResidencyBound (st : FrontEnd) : Prop :=
  ∀ t o, st.owners t = some o → ∀ idx < kNumSizeClasses,
    (o.tc.freeLists idx).size ≤ (o.tc.freeLists idx).maxSize + 1 ∧
      (o.pc = .idle → (o.tc.freeLists idx).size ≤ (o.tc.freeLists idx).maxSize)

/-- With no object in excess, every class is within its quota. -/
lemma Inv.residencyBound (h : Inv 0 st) : st.ResidencyBound := by
  intro t o ho idx hidx
  have hr := (h.cache t o.tc o.pc (cacheOf_eq_some ho)).resident idx hidx
  have hover := o.pc.over_le_one idx
  rw [ite_self] at hr
  refine ⟨by omega, fun hidle => ?_⟩
  rw [hidle] at hr
  exact hr

/-- An overflow that decays a quota of two batches leaves the class above its quota. -/
lemma not_residencyBound_of_decay (h : Inv b st) (hg : ¬ st.KeepsQuota a) :
    ¬ (st.next a).ResidencyBound := by
  intro hbound
  refine hg fun t batch tc idx ha hc hdecay => ?_
  subst ha
  obtain ⟨o, ho, heq⟩ := Option.map_eq_some_iff.mp hc
  obtain ⟨htc, hpc⟩ := Prod.mk.inj heq
  have hinv := h.cache t tc _ hc
  -- the step is the end of the overflow
  have hstep : ownerStep o st.stat st.trimRequest batch = tc.overflowEnd st.stat idx := by
    rw [ownerStep, hpc, htc]
    rfl
  have hnext : (st.next (.step t batch)).owners t = some { observe o with
      tc := (tc.overflowEnd st.stat idx).tc, pc := .idle } := by
    simp only [next, ho, commit, hstep, Function.update_self]
    rfl
  have hle := (hbound t _ hnext idx hinv.ok.1).2 rfl
  exact absurd hle (not_le.mpr (ThreadCache.overflowEnd_exceeds hinv hdecay))

/-- **When the residency bound holds.** It holds in every state of a run exactly if no step of
the run ends an overflow that decays a quota of two batches or more.

**Proof sketch.** With the object that overflows, a class holds one more than its quota. Evicting
one batch and lowering the quota by one batch leaves it so; every other step of every operation
brings the class back to its quota. -/
theorem residency_iff (as : List FrontAction) :
    (∀ bs, bs <+: as → (machine.run {} bs).ResidencyBound) ↔
      machine.Guarded KeepsQuota {} as :=
  Machine.forall_prefix_iff_guarded (I := Inv 0) (fun _ h => h.residencyBound)
    (fun st a h hg => (next_effect st a).inv h (Nat.zero_le 1) fun _ => hg)
    (fun _ _ h hg => not_residencyBound_of_decay h hg) (init_inv 0) as

/-- One refill of the class of 32 KiB by owner 0. -/
def refill (batch : List ℕ) : List FrontAction :=
  [.allocate 0 maxTcSize, .step 0 [], .step 0 batch]

/-- An owner whose quota for 32 KiB grows to four objects by refills and that then frees eight
objects of that class. -/
def decayRun : List FrontAction :=
  .create 0 ThreadCache.kDefaultCacheBudgetBytes ::
    (refill [1] ++ refill [2, 3] ++ [.allocate 0 maxTcSize] ++ refill [4, 5] ++
      ([1, 2, 3, 4].map (.deallocate 0 · 39) ++ [.step 0 [], .step 0 []]) ++
      ([6, 7].map (.deallocate 0 · 39) ++ [.step 0 [], .step 0 []]) ++
      ([8, 9].map (.deallocate 0 · 39) ++ [.step 0 [], .step 0 []]))

/-- After the third overflow the idle owner holds three objects at a quota of two. -/
theorem not_residencyBound_decayRun : ¬ (machine.run {} decayRun).ResidencyBound := by
  have hrun : ((machine.run {} decayRun).owners 0).map (fun o => ((o.tc.freeLists 39).size,
      (o.tc.freeLists 39).maxSize, o.pc)) = some (3, 2, .idle) := by
    decide +kernel
  intro h
  obtain ⟨o, ho, heq⟩ := Option.map_eq_some_iff.mp hrun
  simp only [Prod.mk.injEq] at heq
  obtain ⟨hsize, hmax, hpc⟩ := heq
  have := (h 0 o ho 39 (by decide)).2 hpc
  omega

end FrontEnd

end Ammalloc
