import Ammalloc.FrontEnd

set_option relaxedAutoImplicit false
set_option autoImplicit false

/-!
# The contract of `Trim`

`ThreadCache::Trim` scans the size classes from the largest down, evicts the oldest objects of a
class as long as the cache is above its target, and contracts the quotas on the way. The owner waits
for the release of each evicted batch; nobody else touches the cache meanwhile, so the trim is the
sequence of the owner's own steps.

## Main definitions

* `Ammalloc.TcOut.trimRun` — the steps of a trim, with the calls it makes.
* `Ammalloc.ThreadCache.TrimContract` — what a trim does to the cache.
* `Ammalloc.ThreadCache.TrimLoop` — what it has done when some classes are behind it.

## Main results

* `Ammalloc.ThreadCache.trimEvictCount_facts` — the number of evicted objects of one class.
* `Ammalloc.ThreadCache.TrimLoop.evict`, `Ammalloc.ThreadCache.TrimLoop.contract` — one class.
* `Ammalloc.ThreadCache.TrimLoop.run` — the whole scan.
* `Ammalloc.FrontEnd.trim_contract` — the contract, in every reachable state.
-/

namespace Ammalloc

open SizeClass (kNumSizeClasses)

/-! ## The run of a trim -/

/-- The next step of an owner; a release returns nothing to it. -/
def TcOut.advance (trimRequest : ℕ) (out : TcOut) : TcOut :=
  FrontEnd.ownerStep { tc := out.tc, pc := out.pc } out.stat trimRequest []

/-- Up to `n` steps of a trim, until no class is left: the calls into the CentralCache, and where
the owner stands. -/
def TcOut.trimRun (trimRequest : ℕ) : ℕ → TcOut → List CentralCall × TcOut
  | 0, out => ([], out)
  | n + 1, out =>
    match out.pc with
    | .trim 0 _ => ([], out)
    | _ =>
      let next := out.advance trimRequest
      let (calls, last) := trimRun trimRequest n next
      (next.call.toList ++ calls, last)

namespace TcOut

variable {trimRequest idx : ℕ} {out : TcOut} {f : TrimFrame}

/-- A class of the scan. -/
lemma advance_trim {i : ℕ} (h : out.pc = .trim i f) :
    out.advance trimRequest = out.tc.trimStep out.stat f i := by
  simp only [advance, FrontEnd.ownerStep, h, TcPc.waits, Bool.false_eq_true, if_false,
    ThreadCache.step]

/-- The return of a release. -/
lemma advance_trimCall (h : out.pc = .trimCall idx f) :
    out.advance trimRequest = out.tc.trimNext out.stat idx f := by
  simp only [advance, FrontEnd.ownerStep, h, TcPc.waits, if_true, ThreadCache.resume]

/-- A trim with no class left has ended. -/
lemma trimRun_end (h : out.pc = .trim 0 f) (n : ℕ) : out.trimRun trimRequest n = ([], out) := by
  cases n with
  | zero => rfl
  | succ n => simp only [trimRun, h]

/-- The first step of a trim, and the others. -/
lemma trimRun_succ (h : ∀ f, out.pc ≠ .trim 0 f) (n : ℕ) :
    out.trimRun trimRequest (n + 1) =
      ((out.advance trimRequest).call.toList ++
          ((out.advance trimRequest).trimRun trimRequest n).1,
        ((out.advance trimRequest).trimRun trimRequest n).2) := by
  rw [trimRun]
  split
  · exact absurd ‹_› (h _)
  · rfl

end TcOut

namespace ThreadCache

/-- The objects of class `idx` that `tc` has and `tc'` does not, if `tc'` keeps the newest. -/
def evicted (tc tc' : ThreadCache) (idx : ℕ) : List ℕ :=
  (tc.freeLists idx).objs.drop (tc'.freeLists idx).size

/-- Their release. -/
def evictionCall (tc tc' : ThreadCache) (mode : TrimMode) (idx : ℕ) : Option CentralCall :=
  if evicted tc tc' idx = [] then none
  else some (.release idx (evicted tc tc' idx) mode.releaseMode)

/-- **What a trim does**, from `tc` to `tc'` with the calls `calls`. -/
structure TrimContract (tc : ThreadCache) (mode : TrimMode) (targetBytes : ℕ) (tc' : ThreadCache)
    (calls : List CentralCall) : Prop where
  /-- Every list keeps a front segment. -/
  front : ∀ idx < kNumSizeClasses,
    (tc.freeLists idx).objs = (tc'.freeLists idx).objs ++ evicted tc tc' idx
  /-- The rest of every list is released once, under its class. -/
  delivered : calls = (List.range kNumSizeClasses).reverse.filterMap (evictionCall tc tc' mode)
  /-- A cache that is not above the target keeps everything. -/
  untouched : residentBytes tc.freeLists ≤ targetBytes →
    ∀ idx < kNumSizeClasses, evicted tc tc' idx = []
  /-- A hard trim reaches the target. -/
  hard : mode = .kRelease → residentBytes tc'.freeLists ≤ targetBytes
  /-- A soft trim keeps one batch of every class that has one. -/
  warm : mode = .kReuse → ∀ idx < kNumSizeClasses,
    min (tc.freeLists idx).size (batchNum idx) ≤ (tc'.freeLists idx).size
  /-- A soft trim reaches the target, or leaves no class with more than one batch. -/
  soft : mode = .kReuse → residentBytes tc'.freeLists ≤ targetBytes ∨
    ∀ idx < kNumSizeClasses, (tc'.freeLists idx).size ≤ batchNum idx
  /-- At most one object of the smallest evicted class is evicted too many. -/
  tight : ∀ idx < kNumSizeClasses, evicted tc tc' idx ≠ [] → (∀ j < idx, evicted tc tc' j = []) →
    targetBytes < residentBytes tc'.freeLists + SizeClass.size idx
  /-- No quota grows. -/
  quota : ∀ idx < kNumSizeClasses, (tc'.freeLists idx).maxSize ≤ (tc.freeLists idx).maxSize

variable {tc tc₀ : ThreadCache} {idx : ℕ} {f : TrimFrame}

/-! ## One class -/

/-- What a trim leaves of a class at least, if the class has it. -/
def trimFloor : TrimMode → ℕ → ℕ
  | .kReuse, idx => batchNum idx
  | .kRelease, _ => 0

/-- **The number of evicted objects of a class**: the floor stays; nothing is evicted below the
target; at most one object too many; and the target is reached or the floor is. -/
lemma trimEvictCount_facts (tc : ThreadCache) (f : TrimFrame) (hidx : idx < kNumSizeClasses) :
    let n := tc.trimEvictCount idx f
    let size := (tc.freeLists idx).size
    n ≤ size - min size (trimFloor f.mode idx) ∧
      (f.cachedBytes ≤ f.targetBytes → n = 0) ∧
      (0 < n → f.targetBytes + n * SizeClass.size idx < f.cachedBytes + SizeClass.size idx) ∧
      (f.cachedBytes ≤ f.targetBytes + n * SizeClass.size idx ∨
        n = size - min size (trimFloor f.mode idx)) := by
  intro n size
  have hpos := (SizeClass.size_bounds idx hidx).1
  have hn : n = if f.cachedBytes > f.targetBytes ∧ size - min size (trimFloor f.mode idx) > 0 then
      min (size - min size (trimFloor f.mode idx))
        ((f.cachedBytes - f.targetBytes + SizeClass.size idx - 1) / SizeClass.size idx) else 0 := by
    simp only [n, trimEvictCount, size]
    cases f.mode with
    | kReuse => rfl
    | kRelease => simp [trimFloor]
  set evictable := size - min size (trimFloor f.mode idx)
  set requested := (f.cachedBytes - f.targetBytes + SizeClass.size idx - 1) / SizeClass.size idx
    with hreq
  -- the ceiling of the excess
  have hceil : f.cachedBytes - f.targetBytes ≤ requested * SizeClass.size idx ∧
      requested * SizeClass.size idx ≤ f.cachedBytes - f.targetBytes + SizeClass.size idx - 1 := by
    have hmul := Nat.div_mul_le_self (f.cachedBytes - f.targetBytes + SizeClass.size idx - 1)
      (SizeClass.size idx)
    have hmod := Nat.div_add_mod (f.cachedBytes - f.targetBytes + SizeClass.size idx - 1)
      (SizeClass.size idx)
    have hlt := Nat.mod_lt (f.cachedBytes - f.targetBytes + SizeClass.size idx - 1) hpos
    rw [← hreq] at hmul hmod
    rw [Nat.mul_comm] at hmod
    omega
  rw [hn]
  split_ifs with hgo
  · have hmin : min evictable requested * SizeClass.size idx ≤ requested * SizeClass.size idx :=
      Nat.mul_le_mul_right _ (Nat.min_le_right _ _)
    refine ⟨Nat.min_le_left _ _, fun hle => by omega, fun _ => by omega, ?_⟩
    rcases le_total evictable requested with hle | hle
    · exact Or.inr (min_eq_left hle)
    · rw [min_eq_right hle]
      exact Or.inl (by omega)
  · refine ⟨Nat.zero_le _, fun _ => rfl, fun h => absurd h (Nat.lt_irrefl 0), ?_⟩
    rw [Nat.zero_mul]
    omega

/-! ## The loop -/

/-- What a trim of `tc₀` has done when it stands at `tc`, with the classes from `i` on behind it. -/
structure TrimLoop (tc₀ : ThreadCache) (mode : TrimMode) (targetBytes i : ℕ) (tc : ThreadCache)
    (f : TrimFrame) (calls : List CentralCall) : Prop where
  mode_eq : f.mode = mode
  target_eq : f.targetBytes = targetBytes
  cached : f.cachedBytes = residentBytes tc.freeLists
  ahead : ∀ j < i, tc.freeLists j = tc₀.freeLists j
  front : ∀ j < kNumSizeClasses,
    (tc₀.freeLists j).objs = (tc.freeLists j).objs ++ evicted tc₀ tc j
  delivered : calls = (List.range kNumSizeClasses).reverse.filterMap (evictionCall tc₀ tc mode)
  untouched : residentBytes tc₀.freeLists ≤ targetBytes →
    ∀ j < kNumSizeClasses, evicted tc₀ tc j = []
  warm : ∀ j < kNumSizeClasses,
    min (tc₀.freeLists j).size (trimFloor mode j) ≤ (tc.freeLists j).size
  done : residentBytes tc.freeLists ≤ targetBytes ∨
    ∀ j, i ≤ j → j < kNumSizeClasses → (tc.freeLists j).size ≤ trimFloor mode j
  tight : ∀ k < kNumSizeClasses, evicted tc₀ tc k ≠ [] → (∀ j < k, evicted tc₀ tc j = []) →
    targetBytes < residentBytes tc.freeLists + SizeClass.size k
  quota : ∀ j < kNumSizeClasses, (tc.freeLists j).maxSize ≤ (tc₀.freeLists j).maxSize

/-- A list that is as before has lost nothing. -/
lemma evicted_eq_nil_of_eq (h : tc.freeLists idx = tc₀.freeLists idx) :
    evicted tc₀ tc idx = [] := by
  rw [evicted, h, FreeList.size, List.drop_length]

/-- A trim begins with nothing done. -/
lemma TrimLoop.start (tc : ThreadCache) (hf : f.cachedBytes = residentBytes tc.freeLists) :
    TrimLoop tc f.mode f.targetBytes kNumSizeClasses tc f [] := by
  have hnone : ∀ j, evicted tc tc j = [] := fun j => evicted_eq_nil_of_eq rfl
  refine ⟨rfl, rfl, hf, fun _ _ => rfl, fun j _ => ?_, ?_, fun _ j _ => hnone j, fun j _ => ?_,
    Or.inr fun j h₁ h₂ => ?_, fun k _ hk => absurd (hnone k) hk, fun _ _ => le_rfl⟩
  · rw [hnone, List.append_nil]
  · refine (List.filterMap_eq_nil_iff.mpr fun j _ => ?_).symm
    rw [evictionCall, if_pos (hnone j)]
  · exact Nat.min_le_left _ _
  · omega

/-- A scan from the top down: an entry below all others so far comes last. -/
lemma filterMap_reverse_range {β : Type} {g g' : ℕ → Option β} {n : ℕ} (hidx : idx < n)
    (hother : ∀ j, j ≠ idx → g' j = g j) (hbelow : ∀ j ≤ idx, g j = none) :
    (List.range n).reverse.filterMap g' =
      (List.range n).reverse.filterMap g ++ (g' idx).toList := by
  -- nothing from `idx` down counts for `g`
  have hnone : ∀ m, m ≤ idx → (List.range m).reverse.filterMap g' = [] ∧
      (List.range m).reverse.filterMap g = [] := by
    intro m hm
    constructor
    · refine List.filterMap_eq_nil_iff.mpr fun j hj => ?_
      have hlt : j < m := List.mem_range.mp (List.mem_reverse.mp hj)
      rw [hother j (by omega), hbelow j (by omega)]
    · refine List.filterMap_eq_nil_iff.mpr fun j hj => ?_
      have hlt : j < m := List.mem_range.mp (List.mem_reverse.mp hj)
      exact hbelow j (by omega)
  induction n with
  | zero => exact absurd hidx (Nat.not_lt_zero _)
  | succ n ih =>
    rw [List.range_succ, List.reverse_append, List.reverse_singleton, List.singleton_append]
    rcases Nat.eq_or_lt_of_le (Nat.le_of_lt_succ hidx) with rfl | hlt
    · obtain ⟨h₁, h₂⟩ := hnone idx le_rfl
      rw [List.filterMap_cons_none (hbelow idx le_rfl), h₂]
      cases hg : g' idx with
      | none => rw [List.filterMap_cons_none hg, h₁]; rfl
      | some b => rw [List.filterMap_cons_some hg, h₁]; rfl
    · cases hg : g n with
      | none =>
        rw [List.filterMap_cons_none hg, List.filterMap_cons_none ((hother n hlt.ne').trans hg),
          ih hlt]
      | some b =>
        rw [List.filterMap_cons_some hg, List.filterMap_cons_some ((hother n hlt.ne').trans hg),
          ih hlt, List.cons_append]

/-- The bytes of a cache that has lost nothing. -/
lemma TrimLoop.residentBytes_eq {mode : TrimMode} {target i : ℕ} {calls : List CentralCall}
    (h : TrimLoop tc₀ mode target i tc f calls)
    (hnone : ∀ j < kNumSizeClasses, evicted tc₀ tc j = []) :
    residentBytes tc.freeLists = residentBytes tc₀.freeLists := by
  refine Finset.sum_congr rfl fun j hj => ?_
  have hj' := Finset.mem_range.mp hj
  have hfront := h.front j hj'
  rw [hnone j hj', List.append_nil] at hfront
  rw [FreeList.size, FreeList.size, hfront]

/-- **What the eviction of `n` objects from class `idx` does** to the lists and to the bytes. -/
lemma evict_lists {n : ℕ} (hidx : idx < kNumSizeClasses) (hn : n ≤ (tc.freeLists idx).size)
    {tc₁ : ThreadCache}
    (htc₁ : tc₁ = tc.setFreeList idx ((tc.freeLists idx).popBatchTail n).2) :
    (∀ j, j ≠ idx → tc₁.freeLists j = tc.freeLists j) ∧
      (tc₁.freeLists idx).size = (tc.freeLists idx).size - n ∧
      (tc₁.freeLists idx).maxSize = (tc.freeLists idx).maxSize ∧
      evicted tc tc₁ idx = ((tc.freeLists idx).popBatchTail n).1 ∧
      (tc.freeLists idx).objs = (tc₁.freeLists idx).objs ++ evicted tc tc₁ idx ∧
      residentBytes tc₁.freeLists + n * SizeClass.size idx = residentBytes tc.freeLists := by
  have hcut := FreeList.popBatchTail_append (tc.freeLists idx) n
  have hsize := FreeList.size_popBatchTail (tc.freeLists idx) n
  rw [min_eq_left hn] at hsize
  have hlists : tc₁.freeLists =
      Function.update tc.freeLists idx ((tc.freeLists idx).popBatchTail n).2 := by
    rw [htc₁]
    rfl
  have hself : tc₁.freeLists idx = ((tc.freeLists idx).popBatchTail n).2 := by
    rw [hlists, Function.update_self]
  have hevicted : evicted tc tc₁ idx = ((tc.freeLists idx).popBatchTail n).1 := by
    rw [evicted, hself, ← hcut, FreeList.size, List.drop_left]
  refine ⟨fun j hj => ?_, ?_, ?_, hevicted, ?_, ?_⟩
  · rw [hlists, Function.update_of_ne hj]
  · rw [hself, hsize]
  · rw [hself]
    rfl
  · rw [hevicted, hself, hcut]
  · have hupd := residentBytes_update tc.freeLists hidx ((tc.freeLists idx).popBatchTail n).2
    have hmul : n * SizeClass.size idx ≤ (tc.freeLists idx).size * SizeClass.size idx :=
      Nat.mul_le_mul_right _ hn
    rw [← hlists, hsize, Nat.sub_mul] at hupd
    omega

/-- **The eviction from class `idx`.** -/
lemma TrimLoop.evict {mode : TrimMode} {target : ℕ} {calls : List CentralCall}
    (h : TrimLoop tc₀ mode target (idx + 1) tc f calls) (hidx : idx < kNumSizeClasses)
    {tc₁ : ThreadCache} {f₁ : TrimFrame}
    (htc₁ : tc₁ = tc.setFreeList idx
      ((tc.freeLists idx).popBatchTail (tc.trimEvictCount idx f)).2)
    (hmode : f₁.mode = f.mode) (htarget : f₁.targetBytes = f.targetBytes)
    (hcached : f₁.cachedBytes = residentBytes tc₁.freeLists) :
    evicted tc₀ tc₁ idx = ((tc.freeLists idx).popBatchTail (tc.trimEvictCount idx f)).1 ∧
      TrimLoop tc₀ mode target idx tc₁ f₁
        (calls ++ (evictionCall tc₀ tc₁ mode idx).toList) := by
  obtain ⟨hfloor, hbelow, hone, hreach⟩ := trimEvictCount_facts tc f hidx
  obtain ⟨hother, hsize, hmax, hout, hfront, hbytes⟩ := evict_lists hidx (by omega) htc₁
  have hold : tc.freeLists idx = tc₀.freeLists idx := h.ahead idx (Nat.lt_succ_self idx)
  rw [h.mode_eq] at hfloor hreach
  rw [h.target_eq] at hbelow hone hreach
  rw [h.cached] at hbelow hone hreach
  have hevicted : evicted tc₀ tc₁ idx = evicted tc tc₁ idx := by
    rw [evicted, evicted, hold]
  have hsame : ∀ j, j ≠ idx → evicted tc₀ tc₁ j = evicted tc₀ tc j := by
    intro j hj
    rw [evicted, evicted, hother j hj]
  generalize tc.trimEvictCount idx f = n at *
  have hlen : (evicted tc₀ tc₁ idx).length = n := by
    have := congrArg List.length hfront
    rw [List.length_append, ← hevicted] at this
    have hs : (tc₁.freeLists idx).objs.length = (tc₁.freeLists idx).size := rfl
    have hs' : (tc.freeLists idx).objs.length = (tc.freeLists idx).size := rfl
    omega
  refine ⟨hevicted.trans hout, hmode.trans h.mode_eq, htarget.trans h.target_eq, hcached,
    fun j hj => ?_, fun j hj => ?_, ?_, fun hle j hj => ?_, fun j hj => ?_, ?_,
    fun k hk hne hmin => ?_, fun j hj => ?_⟩
  · rw [hother j hj.ne, h.ahead j (by omega)]
  · by_cases hji : j = idx
    · subst hji
      rw [hevicted, ← hold]
      exact hfront
    · rw [hsame j hji, hother j hji]
      exact h.front j hj
  · rw [h.delivered]
    refine (filterMap_reverse_range hidx (fun j hj => ?_) fun j hj => ?_).symm
    · rw [evictionCall, evictionCall, hsame j hj]
    · rw [evictionCall, if_pos (evicted_eq_nil_of_eq (h.ahead j (by omega)))]
  · by_cases hji : j = idx
    · subst hji
      have hzero := hbelow (by rw [h.residentBytes_eq (h.untouched hle)]; exact hle)
      exact List.length_eq_zero_iff.mp (hlen.trans hzero)
    · rw [hsame j hji]
      exact h.untouched hle j hj
  · by_cases hji : j = idx
    · subst hji
      rw [hsize, ← hold]
      omega
    · rw [hother j hji]
      exact h.warm j hj
  · rcases h.done with hdone | hdone
    · exact Or.inl (by omega)
    · rcases hreach with hr | hr
      · exact Or.inl (by omega)
      · refine Or.inr fun j hij hj => ?_
        by_cases hji : j = idx
        · subst hji
          rw [hsize]
          omega
        · rw [hother j hji]
          exact hdone j (by omega) hj
  · by_cases hki : k = idx
    · subst hki
      have hpos : 0 < n := by
        rw [← hlen]
        exact List.length_pos_iff.mpr hne
      have := hone hpos
      omega
    · rw [hsame k hki] at hne
      -- a class below `idx` has lost nothing yet, so `idx` is below `k` and loses nothing
      have hlt : idx < k := by
        by_contra hge
        exact hne (evicted_eq_nil_of_eq (h.ahead k (by omega)))
      have hzero : n = 0 := by rw [← hlen, hmin idx hlt, List.length_nil]
      rw [hzero, Nat.zero_mul, Nat.add_zero] at hbytes
      rw [hbytes]
      refine h.tight k hk hne fun j hj => ?_
      by_cases hji : j = idx
      · subst hji
        exact evicted_eq_nil_of_eq hold
      · rw [← hsame j hji]
        exact hmin j hj
  · by_cases hji : j = idx
    · subst hji
      rw [hmax]
      exact h.quota j hj
    · rw [hother j hji]
      exact h.quota j hj

/-- **The contraction of class `idx`** changes no contents. -/
lemma TrimLoop.contract {mode : TrimMode} {target : ℕ} {calls : List CentralCall}
    (h : TrimLoop tc₀ mode target idx tc f calls) {tc₁ : ThreadCache} {l : FreeList}
    (hl : tc₁.freeLists = Function.update tc.freeLists idx l)
    (hobjs : l.objs = (tc.freeLists idx).objs) (hmax : l.maxSize ≤ (tc.freeLists idx).maxSize) :
    TrimLoop tc₀ mode target idx tc₁ f calls := by
  obtain ⟨hbytes, hall⟩ := residentBytes_congr hl hobjs
  have hsize : ∀ j, (tc₁.freeLists j).size = (tc.freeLists j).size := fun j => by
    rw [FreeList.size, FreeList.size, hall j]
  have hevicted : ∀ j, evicted tc₀ tc₁ j = evicted tc₀ tc j := fun j => by
    rw [evicted, evicted, hsize j]
  have hcall : evictionCall tc₀ tc₁ mode = evictionCall tc₀ tc mode := by
    funext j
    rw [evictionCall, evictionCall, hevicted j]
  refine ⟨h.mode_eq, h.target_eq, h.cached.trans hbytes.symm, fun j hj => ?_, fun j hj => ?_, ?_,
    fun hle j hj => ?_, fun j hj => ?_, ?_, fun k hk hne hmin => ?_, fun j hj => ?_⟩
  · rw [hl, Function.update_of_ne hj.ne]
    exact h.ahead j hj
  · rw [hall j, hevicted j]
    exact h.front j hj
  · rw [hcall]
    exact h.delivered
  · rw [hevicted j]
    exact h.untouched hle j hj
  · rw [hsize j]
    exact h.warm j hj
  · rw [hbytes]
    exact h.done.imp_right fun hdone j hij hj => (hsize j).trans_le (hdone j hij hj)
  · rw [hbytes]
    exact h.tight k hk (hevicted k ▸ hne) fun j hj => (hevicted j).symm.trans (hmin j hj)
  · refine le_trans ?_ (h.quota j hj)
    rw [hl]
    by_cases hji : j = idx
    · subst hji
      rw [Function.update_self]
      exact hmax
    · rw [Function.update_of_ne hji]

/-- The end of one class: its contraction. -/
lemma TrimLoop.trimNext {mode : TrimMode} {target stat : ℕ} {calls : List CentralCall}
    (h : TrimLoop tc₀ mode target idx tc f calls) (hinv : tc.Inv) (hidx : idx < kNumSizeClasses) :
    TrimLoop tc₀ mode target idx (tc.trimNext stat idx f).tc f calls := by
  obtain ⟨-, -, l, hlists, hobjs, -, -, hmax⟩ := trimQuota_spec hinv stat hidx f.mode
  exact h.contract hlists hobjs hmax

/-- A class from which nothing is evicted. -/
lemma TrimLoop.keep {mode : TrimMode} {target : ℕ} {calls : List CentralCall}
    (h : TrimLoop tc₀ mode target (idx + 1) tc f calls) (hidx : idx < kNumSizeClasses)
    (hzero : tc.trimEvictCount idx f = 0) : TrimLoop tc₀ mode target idx tc f calls := by
  have hpop : (tc.freeLists idx).popBatchTail 0 = ([], tc.freeLists idx) := by
    simp [FreeList.popBatchTail, FreeList.size]
  have htc : tc = tc.setFreeList idx
      ((tc.freeLists idx).popBatchTail (tc.trimEvictCount idx f)).2 := by
    rw [hzero, hpop, setFreeList, Function.update_eq_self]
  obtain ⟨hout, hloop⟩ := h.evict hidx htc rfl rfl h.cached
  rw [hzero, hpop] at hout
  rw [evictionCall, if_pos hout, Option.toList_none, List.append_nil] at hloop
  exact hloop

/-- **The whole scan**: two steps a class at most, and the loop invariant at its end. -/
theorem TrimLoop.run (trimRequest : ℕ) {mode : TrimMode} {target : ℕ} {i : ℕ} {out : TcOut}
    {calls : List CentralCall} (hpc : out.pc = .trim i f)
    (h : TrimLoop tc₀ mode target i out.tc f calls) (hinv : PcInv 1 out.tc out.pc) {n : ℕ}
    (hn : 2 * i ≤ n) :
    ∃ f', (out.trimRun trimRequest n).2.pc = .trim 0 f' ∧
      TrimLoop tc₀ mode target 0 (out.trimRun trimRequest n).2.tc f'
        (calls ++ (out.trimRun trimRequest n).1) := by
  induction i generalizing out f calls n with
  | zero =>
    rw [TcOut.trimRun_end hpc, List.append_nil]
    exact ⟨f, hpc, h⟩
  | succ idx ih =>
    obtain ⟨m, rfl⟩ : ∃ m, n = m + 2 := ⟨n - 2, by omega⟩
    rw [TcOut.trimRun_succ (by simp [hpc]), TcOut.advance_trim hpc]
    rw [hpc] at hinv
    have hok : out.tc.TrimOk (idx + 1) f := hinv.ok
    have hidx : idx < kNumSizeClasses := hok.le
    have hstep : StepOk 1 out.tc out.stat (out.tc.trimStep out.stat f (idx + 1)) :=
      trimStep_spec le_rfl hinv
    by_cases hpos : 0 < out.tc.trimEvictCount idx f
    · -- the class takes two steps: the eviction, and the contraction after the release
      have hle := out.tc.trimEvictCount_le idx f
      set n := out.tc.trimEvictCount idx f with hcount
      set pop := (out.tc.freeLists idx).popBatchTail n with hpop
      set tc₁ := out.tc.setFreeList idx pop.2 with htc₁
      set f₁ : TrimFrame :=
        { f with cachedBytes := subU64 f.cachedBytes (pop.1.length * SizeClass.size idx % 2 ^ 64) }
        with hf₁
      have hevict : out.tc.trimStep out.stat f (idx + 1) =
          { tc := tc₁, stat := out.stat, pc := .trimCall idx f₁,
            call := some (.release idx pop.1 f.mode.releaseMode) } := by
        simp only [trimStep, ← hcount, if_pos hpos, ← hpop, ← htc₁, ← hf₁]
      rw [hevict] at hstep ⊢
      have hcached : f₁.cachedBytes = residentBytes tc₁.freeLists :=
        subU64_evicted hidx hle hok.cached (hinv.residentBytes_lt le_rfl)
      have hloop : evicted tc₀ tc₁ idx = pop.1 ∧ TrimLoop tc₀ mode target idx tc₁ f₁
          (calls ++ (evictionCall tc₀ tc₁ mode idx).toList) := h.evict hidx rfl rfl rfl hcached
      have hcall : evictionCall tc₀ tc₁ mode idx =
          some (.release idx pop.1 f.mode.releaseMode) := by
        have hlen : pop.1.length = n := (FreeList.length_popBatchTail _ _).trans (min_eq_left hle)
        have hne : pop.1 ≠ [] := List.length_pos_iff.mp (by omega)
        rw [evictionCall, hloop.1, if_neg hne, h.mode_eq]
      rw [hcall] at hloop
      rw [TcOut.trimRun_succ (by simp), TcOut.advance_trimCall rfl]
      have hnext : TrimLoop tc₀ mode target idx (tc₁.trimNext out.stat idx f₁).tc f₁ _ :=
        hloop.2.trimNext hstep.inv.inv hidx
      have hinv' : StepOk 1 tc₁ out.stat (tc₁.trimNext out.stat idx f₁) := trimNext_spec hstep.inv
      obtain ⟨f', hend, hdone⟩ := ih rfl hnext hinv'.inv (show 2 * idx ≤ m by omega)
      refine ⟨f', hend, ?_⟩
      rw [List.append_assoc] at hdone
      exact hdone
    · -- nothing is evicted: the class takes one step
      have hkeep : out.tc.trimStep out.stat f (idx + 1) = out.tc.trimNext out.stat idx f := by
        simp only [trimStep, if_neg hpos]
      rw [hkeep] at hstep ⊢
      have hnext : TrimLoop tc₀ mode target idx (out.tc.trimNext out.stat idx f).tc f calls :=
        (h.keep hidx (by omega)).trimNext hinv.inv hidx
      exact ih rfl hnext hstep.inv (by omega)

/-- The loop invariant at the end of the scan is the contract. -/
lemma TrimLoop.finish {mode : TrimMode} {target : ℕ} {calls : List CentralCall}
    (h : TrimLoop tc₀ mode target 0 tc f calls) : TrimContract tc₀ mode target tc calls := by
  refine ⟨h.front, h.delivered, h.untouched, ?_, ?_, ?_, h.tight, h.quota⟩
  · rintro rfl
    rcases h.done with hdone | hdone
    · exact hdone
    · have hzero : residentBytes tc.freeLists = 0 := by
        refine Finset.sum_eq_zero fun j hj => ?_
        have hsize : (tc.freeLists j).size ≤ 0 := hdone j (Nat.zero_le _) (Finset.mem_range.mp hj)
        rw [Nat.le_zero.mp hsize, Nat.zero_mul]
      omega
  · rintro rfl
    exact h.warm
  · rintro rfl
    exact h.done.imp_right fun hdone j hj => hdone j (Nat.zero_le _) hj

/-- The steps of an owner keep its invariant. -/
lemma PcInv.advance {out : TcOut} (h : PcInv 1 out.tc out.pc) (trimRequest : ℕ) :
    PcInv 1 (out.advance trimRequest).tc (out.advance trimRequest).pc := by
  have hstep : StepOk 1 out.tc out.stat (out.advance trimRequest) :=
    FrontEnd.ownerStep_spec (o := { tc := out.tc, pc := out.pc }) le_rfl h (by simp) out.stat
      trimRequest []
  exact hstep.inv

/-- The steps of a trim keep the invariant. -/
lemma PcInv.trimRun {out : TcOut} (h : PcInv 1 out.tc out.pc) (trimRequest n : ℕ) :
    PcInv 1 (out.trimRun trimRequest n).2.tc (out.trimRun trimRequest n).2.pc := by
  induction n generalizing out with
  | zero => exact h
  | succ n ih =>
    by_cases hend : ∃ f, out.pc = .trim 0 f
    · obtain ⟨f, hend⟩ := hend
      rw [TcOut.trimRun_end hend]
      exact h
    · push Not at hend
      rw [TcOut.trimRun_succ hend]
      exact ih (h.advance trimRequest)

end ThreadCache

namespace FrontEnd

open ThreadCache

/-- **The contract of `Trim`.** In every reachable state, let the owner of a ThreadCache call
`Trim`, by itself or from a safepoint, where a list may be above its quota. The trim ends within two
steps a class. Every list keeps a front segment and every evicted object is passed to `ReleaseBatch`
once, under its class; a cache that is not above the target keeps everything; a hard trim reaches
the target; a soft trim keeps one batch of every class, and reaches the target or leaves no class
with more; at most one object of the smallest evicted class is evicted too many; no quota grows. All
the way the running counter is the sum of the cached bytes, which is a 64-bit number. -/
theorem trim_contract (as : List FrontAction) {t : ℕ} {o : Owner}
    (ho : (machine.run {} as).owners t = some o) {after : TcAfter}
    (hpc : (o.pc = .idle ∧ after = .ret) ∨ o.pc = .handle after) (mode : TrimMode)
    (targetBytes : ℕ) (epoch : Option ℕ) (stat trimRequest : ℕ) :
    let start := o.tc.trim stat mode targetBytes epoch after
    let run := start.trimRun trimRequest (2 * kNumSizeClasses)
    (∃ f, run.2.pc = .trim 0 f ∧ TrimContract o.tc mode targetBytes run.2.tc run.1) ∧
      ∀ n i f, ((start.trimRun trimRequest n).2.pc = .trim i f ∨
          (start.trimRun trimRequest n).2.pc = .trimCall i f) →
        f.cachedBytes = residentBytes (start.trimRun trimRequest n).2.tc.freeLists ∧
          f.cachedBytes < 2 ^ 64 := by
  intro start run
  have hcache : PcInv 1 o.tc (.handle after) := by
    have h := (run_inv as).cache t o.tc o.pc (cacheOf_eq_some ho)
    rcases hpc with ⟨hidle, rfl⟩ | hhandle
    · exact (hidle ▸ h : PcInv 1 o.tc .idle).handle_of_idle
    · exact hhandle ▸ h
  have hstart : StepOk 1 o.tc stat start := trim_spec le_rfl hcache mode targetBytes epoch
  refine ⟨?_, fun n i f hat => ?_⟩
  · obtain ⟨f, hend, hloop⟩ := TrimLoop.run trimRequest (show start.pc = _ from rfl)
      (TrimLoop.start o.tc (hcache.cachedBytesSnapshot le_rfl)) hstart.inv (le_refl (2 * _))
    exact ⟨f, hend, hloop.finish⟩
  · have hinv := hstart.inv.trimRun trimRequest n
    have hlt := hinv.residentBytes_lt le_rfl
    have hcached : f.cachedBytes =
        residentBytes (start.trimRun trimRequest n).2.tc.freeLists := by
      have hok := hinv.ok
      rcases hat with hat | hat
      · rw [hat] at hok
        exact TrimOk.cached hok
      · rw [hat] at hok
        exact hok.2.cached
    exact ⟨hcached, hcached ▸ hlt⟩

/-- An owner puts three objects of 64 bytes and three of 96 bytes into its cache. -/
def twoClasses : List FrontAction :=
  [.create 0 (1 <<< 20),
    .allocate 0 64, .step 0 [], .step 0 [4096], .allocate 0 64, .step 0 [], .step 0 [4160, 4224],
    .deallocate 0 4096 3, .deallocate 0 4160 3,
    .allocate 0 96, .step 0 [], .step 0 [8192], .allocate 0 96, .step 0 [], .step 0 [8288, 8384],
    .deallocate 0 8192 5, .deallocate 0 8288 5]

/-- A hard trim of 480 cached bytes to 150: the larger class is emptied, and the oldest object of
the smaller class is enough. -/
theorem trim_contract_twoClasses : ∃ o, (machine.run {} twoClasses).owners 0 = some o ∧
    (o.tc.freeLists 3).objs = [4160, 4096, 4224] ∧
    (o.tc.freeLists 5).objs = [8288, 8192, 8384] ∧
    residentBytes o.tc.freeLists = 480 ∧
    let run := (o.tc.trim 0 .kRelease 150 none .ret).trimRun 0 (2 * kNumSizeClasses)
    run.1 = [.release 5 [8288, 8192, 8384] .kSpanBitmap, .release 3 [4224] .kSpanBitmap] ∧
      TrimContract o.tc .kRelease 150 run.2.tc run.1 ∧
      residentBytes run.2.tc.freeLists = 128 := by
  have hrun : ((machine.run {} twoClasses).owners 0).map
      (fun o => (o.pc, (o.tc.freeLists 3).objs, (o.tc.freeLists 5).objs,
        residentBytes o.tc.freeLists)) =
      some (.idle, [4160, 4096, 4224], [8288, 8192, 8384], 480) := by
    decide +kernel
  have htrim : ((machine.run {} twoClasses).owners 0).map
      (fun o =>
        let run := (o.tc.trim 0 .kRelease 150 none .ret).trimRun 0 (2 * kNumSizeClasses)
        (run.1, residentBytes run.2.tc.freeLists)) =
      some ([.release 5 [8288, 8192, 8384] .kSpanBitmap, .release 3 [4224] .kSpanBitmap], 128) := by
    decide +kernel
  obtain ⟨o, ho, heq⟩ := Option.map_eq_some_iff.mp hrun
  rw [ho, Option.map_some] at htrim
  obtain ⟨hidle, h₃, h₅, hbytes⟩ : o.pc = .idle ∧ (o.tc.freeLists 3).objs = [4160, 4096, 4224] ∧
      (o.tc.freeLists 5).objs = [8288, 8192, 8384] ∧ residentBytes o.tc.freeLists = 480 := by
    simpa only [Prod.mk.injEq] using heq
  obtain ⟨hcalls, hleft⟩ := Prod.mk.inj (Option.some.inj htrim)
  obtain ⟨⟨f, -, hcontract⟩, -⟩ :=
    trim_contract _ ho (Or.inl ⟨hidle, rfl⟩) .kRelease 150 none 0 0
  exact ⟨o, ho, h₃, h₅, hbytes, hcalls, hcontract, hleft⟩

end FrontEnd

end Ammalloc
