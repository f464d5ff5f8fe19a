import Ammalloc.Allocator.Frame
import Ammalloc.Allocator.Runs
import Ammalloc.CentralCache.Progress

set_option relaxedAutoImplicit false
set_option autoImplicit false

/-!
# Complete reclamation

When no block is live and nothing is in flight, every object outside the bitmaps is in a
ThreadCache or in a TransferCache. `am_thread_cache_purge` empties the ThreadCache of the caller
straight into the bitmaps and then drains the TransferCaches. Once every owner has called it, the
books are empty, so no span can be on a list of the CentralCache, and all mapped pages are in the
buckets of the PageCache.

## Main definitions

* `Ammalloc.Allocator.Quiescent` — nothing is in flight.
* `Ammalloc.Allocator.Reclaimed` — all memory is back in the PageCache.
* `Ammalloc.Allocator.Purging` — a purge with nothing else running, and how many steps it has left.

## Main results

* `Ammalloc.Allocator.Purging.step`, `Ammalloc.Allocator.Purging.run` — a purge returns, with its
  caller's cache and the TransferCaches empty.
* `Ammalloc.Allocator.purge_reclaims` — the purges of all owners reclaim everything.
-/

namespace Ammalloc

open SizeClass (kNumSizeClasses)
open PageCache (ScavPc)

/-! ## The trim of a purge -/

namespace ThreadCache

variable {tc : ThreadCache} {stat idx : ℕ} {f : TrimFrame}

/-- A bound on the steps of a trim for the classes below `i`, with its releases to the bitmaps. -/
def trimBelow (tc : ThreadCache) (i : ℕ) : ℕ :=
  ∑ j ∈ Finset.range i, (4 * (tc.freeLists j).objs.length + 2)

/-- The bound depends on the lengths of the lists only. -/
lemma trimBelow_congr {tc' : ThreadCache} {i : ℕ}
    (h : ∀ j < i, (tc'.freeLists j).objs = (tc.freeLists j).objs) :
    tc'.trimBelow i = tc.trimBelow i :=
  Finset.sum_congr rfl fun j hj => by rw [h j (Finset.mem_range.mp hj)]

/-- The bound with one class more. -/
lemma trimBelow_succ (tc : ThreadCache) (i : ℕ) :
    tc.trimBelow (i + 1) = tc.trimBelow i + (4 * (tc.freeLists i).objs.length + 2) :=
  Finset.sum_range_succ _ i

/-- All the steps of a trim, in terms of the objects of the cache. -/
lemma trimBelow_eq_card (tc : ThreadCache) :
    tc.trimBelow kNumSizeClasses = 4 * Multiset.card tc.objs + 2 * kNumSizeClasses := by
  have hcard : ∀ j, Multiset.card (tag j (tc.freeLists j).objs) = (tc.freeLists j).objs.length :=
    fun j => by simp [tag]
  rw [trimBelow, Finset.sum_add_distrib, ← Finset.mul_sum, objs, Multiset.card_sum]
  simp [hcard, mul_comm]

/-- The contraction of a class leaves the bound alone. -/
lemma trimNext_trimBelow (i : ℕ) : (tc.trimNext stat idx f).tc.trimBelow i = tc.trimBelow i :=
  trimBelow_congr fun j _ => trimNext_lists tc stat idx f j

/-- One class of a trim to the bitmaps: it is passed over, or its objects go into a release. -/
lemma trimStep_progress (hmode : f.mode = .kRelease) :
    ((tc.trimStep stat f (idx + 1)).pc = .trim idx f ∧ (tc.trimStep stat f (idx + 1)).call = none ∧
      (tc.trimStep stat f (idx + 1)).tc.trimBelow idx = tc.trimBelow idx) ∨
    ∃ f' batch, f'.mode = .kRelease ∧ (tc.trimStep stat f (idx + 1)).pc = .trimCall idx f' ∧
      (tc.trimStep stat f (idx + 1)).call = some (.release idx batch .kSpanBitmap) ∧
      batch.length ≤ (tc.freeLists idx).objs.length ∧
      (tc.trimStep stat f (idx + 1)).tc.trimBelow idx = tc.trimBelow idx := by
  unfold trimStep
  dsimp only
  split_ifs with hpos
  · right
    have hcut := FreeList.popBatchTail_append (tc.freeLists idx) (tc.trimEvictCount idx f)
    have hlen := congrArg List.length hcut
    rw [List.length_append] at hlen
    refine ⟨_, ((tc.freeLists idx).popBatchTail (tc.trimEvictCount idx f)).1, ?_, rfl, ?_, by omega,
      trimBelow_congr fun j hj => ?_⟩
    · exact hmode
    · rw [hmode]
      rfl
    · simp [setFreeList, Function.update_of_ne hj.ne]
  · exact Or.inl ⟨rfl, rfl, trimNext_trimBelow idx⟩

end ThreadCache

namespace Allocator

variable {n t k : ℕ} {st st' : Allocator}

/-! ## A purge with nothing else running -/

/-- Thread `t` is in `am_thread_cache_purge`, with at most the given number of steps to go: in its
trim, in a release of the trim, in the drain, or back again. -/
inductive Purging (st : Allocator) (t : ℕ) : ℕ → Prop
  | trim {i : ℕ} {f : TrimFrame} {tc : ThreadCache}
      (hpc : (st.threads t).pc = .cache .purge (.trim i f) none)
      (hptls : (st.threads t).ptls = some tc) (hmode : f.mode = .kRelease) :
      Purging st t (tc.trimBelow i + st.central.drainBelow kNumSizeClasses + 2)
  | release {idx : ℕ} {f : TrimFrame} {rpc : ReleasePc} {tc : ThreadCache}
      (hpc : (st.threads t).pc =
        .cache .purge (.trimCall idx f) (some (.release idx .kSpanBitmap rpc)))
      (hptls : (st.threads t).ptls = some tc) (hmode : f.mode = .kRelease) :
      Purging st t
        (tc.trimBelow idx + rpc.steps + 1 + st.central.drainBelow kNumSizeClasses + 2)
  | drain {f : DrainFrame} (hpc : (st.threads t).pc = .central (.drain f))
      (hempty : (st.threads t).cached = 0) (hunbounded : f.unbounded = true)
      (hdrained : st.central.Drained f) : Purging st t (st.central.drainSteps f + 1)
  | done (hpc : (st.threads t).pc = .idle) (hempty : (st.threads t).cached = 0)
      (hrings : st.central.EmptyFrom 0) : Purging st t 0

/-- Nobody but thread `t` has moved, and no block has come or gone. -/
structure Alone (t : ℕ) (st st' : Allocator) : Prop extends OnlyMoves t st st' where
  live : st'.live = st.live

/-- Nothing happens. -/
lemma Alone.refl (t : ℕ) (st : Allocator) : Alone t st st := ⟨.refl t st, rfl⟩

/-- The thread moves on. -/
lemma Alone.trans {st'' : Allocator} (h : Alone t st st') (h' : Alone t st' st'') :
    Alone t st st'' :=
  ⟨h.toOnlyMoves.trans h'.toOnlyMoves, h'.live.trans h.live⟩

@[simp] lemma setPc_central (pc : ThreadPc) : (st.setPc t pc).central = st.central := by
  simp only [Allocator.setPc, setThread]

@[simp] lemma commit_central (caller : TcCaller) (out : TcOut) :
    (st.commit t caller out).central = st.central := by
  simp only [Allocator.commit]

@[simp] lemma commit_ptls (st : Allocator) (t : ℕ) (caller : TcCaller) (out : TcOut) :
    ((st.commit t caller out).threads t).ptls = some out.tc := by
  simp [Allocator.commit]

@[simp] lemma commit_pc (st : Allocator) (t : ℕ) (caller : TcCaller) (out : TcOut) :
    ((st.commit t caller out).threads t).pc = ThreadPc.after caller out := by
  simp [Allocator.commit]

/-- A local step of a purge returns no block. -/
lemma live_commit_purge (out : TcOut) : (st.commit t .purge out).live = st.live := by
  simp [Allocator.commit, TcCaller.request, newBlock]

/-- The drain of a purge begins with all classes before it. -/
lemma drained_start (c : CentralCache) : c.Drained (.start sizeMax) :=
  fun _ hle hlt => absurd hlt (not_lt.mpr hle)

/-- At the beginning of the drain of a purge all classes are ahead. -/
lemma drainSteps_start (c : CentralCache) :
    c.drainSteps (.start sizeMax) = c.drainBelow kNumSizeClasses := rfl

/-- The trim of a purge takes its next class. -/
lemma Purging.trimStep (h : Inv n st) (hardened : Bool) (ht : t < n) {i : ℕ} {f : TrimFrame}
    {tc : ThreadCache} (hpc : (st.threads t).pc = .cache .purge (.trim i f) none)
    (hptls : (st.threads t).ptls = some tc) (hmode : f.mode = .kRelease) (env : PageEnv) :
    ∃ st', st.threadStep hardened t env = .ok st' ∧ st'.live = st.live ∧
      ∃ k' < tc.trimBelow i + st.central.drainBelow kNumSizeClasses + 2, Purging st' t k' := by
  have hok := h.threads t ht
  have htc : tc.PcInv 1 (.trim i f) := by
    have := hok.tc tc hptls
    rwa [hpc] at this
  have hempty := (hok.cache _ _ _ hpc).emptying rfl tc hptls
  set out := tc.step st.stat st.trimRequest (.trim i f) with hout
  have hrun : st.threadStep hardened t env = .ok (st.commit t .purge out) := by
    simp only [threadStep, hpc, hptls, hout]
  refine ⟨_, hrun, live_commit_purge out, ?_⟩
  have hptls' := commit_ptls st t .purge out
  have hpc' := commit_pc st t .purge out
  cases i with
  | zero =>
    -- the end of the trim: the drain begins
    have hafter : f.after = .ret := by
      cases hempty with
      | trim _ _ hafter => exact hafter
    have hidle : out.pc = .idle := by
      simp only [hout, ThreadCache.step, ThreadCache.trimStep, hafter, ThreadCache.afterHandle]
    have hzero : out.tc.objs = 0 := by
      rcases hempty.step htc.ok rfl st.trimRequest with hrun | hend
      · rw [← hout, hidle] at hrun
        cases hrun
      · exact hend.2
    have hpcNext : ((st.commit t .purge out).threads t).pc =
        .central (.drain (.start sizeMax)) := by
      rw [hpc', ThreadPc.after, if_pos hidle, TcCaller.after]
    have hcached : ((st.commit t .purge out).threads t).cached = 0 := by
      simpa only [Thread.cached, hptls', Option.elim_some] using hzero
    refine ⟨_, ?_, .drain hpcNext hcached rfl (drained_start _)⟩
    rw [drainSteps_start, commit_central]
    omega
  | succ idx =>
    rw [ThreadCache.trimBelow_succ]
    have hstep : out = tc.trimStep st.stat f (idx + 1) := hout
    rcases ThreadCache.trimStep_progress hmode with ⟨hnext, hcall, hbelow⟩ |
      ⟨f', batch, hmode', hnext, hcall, hlen, hbelow⟩
    · rw [← hstep] at hnext hcall hbelow
      have hpcNext : ((st.commit t .purge out).threads t).pc =
          .cache .purge (.trim idx f) none := by
        rw [hpc', ThreadPc.after, if_neg (by simp [hnext]), hnext, hcall, Option.map_none]
      refine ⟨_, ?_, .trim hpcNext hptls' hmode⟩
      rw [hbelow, commit_central]
      omega
    · rw [← hstep] at hnext hcall hbelow
      have hpcNext : ((st.commit t .purge out).threads t).pc =
          .cache .purge (.trimCall idx f') (some (.release idx .kSpanBitmap (.chunk batch))) := by
        rw [hpc', ThreadPc.after, if_neg (by simp [hnext]), hnext, hcall, Option.map_some,
          CentralCall.frame]
      refine ⟨_, ?_, .release hpcNext hptls' hmode'⟩
      rw [hbelow, commit_central, ReleasePc.steps]
      omega

/-- A release of the trim takes its next section, or returns. -/
lemma Purging.releaseStep (h : Inv n st) (hardened : Bool) (ht : t < n) {idx : ℕ} {f : TrimFrame}
    {rpc : ReleasePc} {tc : ThreadCache}
    (hpc : (st.threads t).pc =
      .cache .purge (.trimCall idx f) (some (.release idx .kSpanBitmap rpc)))
    (hptls : (st.threads t).ptls = some tc) (hmode : f.mode = .kRelease) (env : PageEnv) :
    ∃ st', st.threadStep hardened t env = .ok st' ∧ st'.live = st.live ∧
      ∃ k' < tc.trimBelow idx + rpc.steps + 1 + st.central.drainBelow kNumSizeClasses + 2,
        Purging st' t k' := by
  by_cases hend : rpc = .chunk []
  · -- the release has returned
    subst hend
    have hret : (CentralFrame.release idx .kSpanBitmap (.chunk [])).returned = true := rfl
    set out := tc.trimNext st.stat idx f with hout
    refine ⟨st.commit t .purge out, ?_, live_commit_purge out, ?_⟩
    · simp only [threadStep, hpc, hptls, hret, if_true, ThreadCache.resume, hout]
    · have hpcNext : ((st.commit t .purge out).threads t).pc =
          .cache .purge (.trim idx f) none := by
        rw [commit_pc]
        simp [ThreadPc.after, hout, ThreadCache.trimNext]
      refine ⟨_, ?_, .trim hpcNext (commit_ptls _ _ _ _) hmode⟩
      rw [hout, ThreadCache.trimNext_trimBelow, commit_central]
      omega
  · have hret : (CentralFrame.release idx .kSpanBitmap rpc).returned = false := by
      simp [CentralFrame.returned, hend]
    obtain ⟨central, f', hrun, hpost, -⟩ :=
      h.sectionStep hardened ht (f := .release idx .kSpanBitmap rpc) (by rw [hpc]; rfl) env
    obtain ⟨rpc', rfl⟩ := hpost.release idx .kSpanBitmap rpc rfl
    have hrelease : st.central.releaseStep hardened env idx .kSpanBitmap rpc =
        .ok (central, rpc') := by
      cases hr : st.central.releaseStep hardened env idx .kSpanBitmap rpc with
      | error e => simp [CentralCache.step, hr, bind, Except.bind] at hrun
      | ok r =>
        simp only [CentralCache.step, hr, bind, Except.bind] at hrun
        cases hrun
        rfl
    obtain ⟨hrings, hsteps⟩ := CentralCache.releaseStep_progress hend hrelease
    set st' := { st with central := central }.setPc t
      (.cache .purge (.trimCall idx f) (some (.release idx .kSpanBitmap rpc'))) with hst'
    refine ⟨st', ?_, rfl, ?_⟩
    · simp only [threadStep, hpc, hptls, hret, Bool.false_eq_true, if_false, hrun, bind,
        Except.bind]
      rfl
    · have hpcNext : (st'.threads t).pc =
          .cache .purge (.trimCall idx f) (some (.release idx .kSpanBitmap rpc')) := by
        simp [hst', Allocator.setPc, setThread]
      have hptls' : (st'.threads t).ptls = some tc := by
        simp [hst', Allocator.setPc, setThread, hptls]
      have hbelow : st'.central.drainBelow kNumSizeClasses =
          st.central.drainBelow kNumSizeClasses :=
        CentralCache.drainBelow_congr fun j _ => by rw [hst', setPc_central, hrings j]
      refine ⟨_, ?_, .release hpcNext hptls' hmode⟩
      rw [hbelow]
      omega

/-- The drain takes its next step, or returns. -/
lemma Purging.drainStep (h : Inv n st) (hardened : Bool) (ht : t < n) {f : DrainFrame}
    (hpc : (st.threads t).pc = .central (.drain f)) (hempty : (st.threads t).cached = 0)
    (hunbounded : f.unbounded = true) (hdrained : st.central.Drained f) (env : PageEnv) :
    ∃ st', st.threadStep hardened t env = .ok st' ∧ st'.live = st.live ∧
      ∃ k' < st.central.drainSteps f + 1, Purging st' t k' := by
  by_cases hend : f.pc = .next 0
  · refine ⟨st.setPc t .idle, ?_, rfl, 0, Nat.succ_pos _, .done ?_ ?_ ?_⟩
    · simp [threadStep, hpc, CentralFrame.returned, hend]
    · simp [Allocator.setPc, setThread]
    · simpa [Allocator.setPc, setThread, Thread.cached] using hempty
    · rw [setPc_central]
      simpa only [CentralCache.Drained, hend] using hdrained
  · have hret : (CentralFrame.drain f).returned = false := by simp [CentralFrame.returned, hend]
    obtain ⟨central, f', hrun, hpost, -⟩ :=
      h.sectionStep hardened ht (f := .drain f) (by rw [hpc]; rfl) env
    obtain ⟨g, rfl⟩ := hpost.drain f rfl
    have hdrain : st.central.drainStep hardened env f = .ok (central, g) := by
      cases hr : st.central.drainStep hardened env f with
      | error e => simp [CentralCache.step, hr, bind, Except.bind] at hrun
      | ok r =>
        simp only [CentralCache.step, hr, bind, Except.bind] at hrun
        cases hrun
        rfl
    obtain ⟨hunbounded', hdrained', hsteps⟩ :=
      CentralCache.drainStep_progress hunbounded hend hdrained hdrain
    refine ⟨{ st with central := central }.setPc t (.central (.drain g)), ?_, rfl, _, ?_,
      .drain (f := g) ?_ ?_ hunbounded' hdrained'⟩
    · simp only [threadStep, hpc, hret, Bool.false_eq_true, if_false, hrun, bind, Except.bind]
      rfl
    · exact Nat.succ_lt_succ hsteps
    · simp [Allocator.setPc, setThread]
    · simpa [Allocator.setPc, setThread, Thread.cached] using hempty

/-- **Every step of a purge** brings its end nearer. -/
theorem Purging.step (h : Inv n st) (hardened : Bool) (ht : t < n) (hp : Purging st t (k + 1))
    (env : PageEnv) :
    ∃ st', st.threadStep hardened t env = .ok st' ∧ Inv n st' ∧ Alone t st st' ∧
      ∃ k' ≤ k, Purging st' t k' := by
  have hstep : ∃ st', st.threadStep hardened t env = .ok st' ∧ st'.live = st.live ∧
      ∃ k' < k + 1, Purging st' t k' := by
    generalize hk : k + 1 = m at hp
    cases hp with
    | trim hpc hptls hmode => exact Purging.trimStep h hardened ht hpc hptls hmode env
    | release hpc hptls hmode => exact Purging.releaseStep h hardened ht hpc hptls hmode env
    | drain hpc hempty hunbounded hdrained =>
      exact Purging.drainStep h hardened ht hpc hempty hunbounded hdrained env
    | done => omega
  obtain ⟨st', hrun, hlive, k', hk', hp'⟩ := hstep
  obtain ⟨st'', hrun', hinv⟩ := h.threadStep hardened ht env
  rw [hrun] at hrun'
  obtain rfl := Except.ok.inj hrun'
  exact ⟨st', hrun, hinv, ⟨onlyMoves_threadStep hrun, hlive⟩, k', by omega, hp'⟩

/-- **A purge returns**: after enough steps its caller is idle, with its ThreadCache and the
TransferCaches empty. -/
theorem Purging.run (h : Inv n st) (hardened : Bool) (ht : t < n) (hp : Purging st t k)
    {env : List PageEnv} (hlen : k ≤ env.length) :
    let st' := (machine n hardened).run st (env.map (AllocAction.step t))
    Inv n st' ∧ Alone t st st' ∧ Purging st' t 0 := by
  induction env generalizing st k with
  | nil =>
    obtain rfl := Nat.le_zero.mp hlen
    exact ⟨h, .refl t st, hp⟩
  | cons e env ih =>
    rw [List.map_cons, Machine.run_cons]
    have hnext : (machine n hardened).next st (.step t e) =
        st.settle (st.threadStep hardened t e) := by
      simp only [machine, next, if_pos ht]
    rw [hnext]
    cases k with
    | zero =>
      -- the caller is back, and its further steps do nothing
      have hrun : st.threadStep hardened t e = .ok st := by
        generalize hk : 0 = m at hp
        cases hp with
        | done hpc => simp only [threadStep, hpc]
        | trim | release | drain => omega
      rw [hrun]
      exact ih h hp (Nat.zero_le _)
    | succ k =>
      obtain ⟨st', hrun, hinv, halone, k', hk', hp'⟩ := hp.step h hardened ht e
      rw [hrun]
      obtain ⟨hinv', halone', hdone⟩ := ih hinv hp' (by simp only [List.length_cons] at hlen; omega)
      exact ⟨hinv', halone.trans halone', hdone⟩

/-! ## The purges of all owners -/

/-- No operation is in flight. -/
def Quiescent (n : ℕ) (st : Allocator) : Prop :=
  (∀ t < n, (st.threads t).pc = .idle) ∧ st.scav = .idle

/-- All memory is back: the ThreadCaches, the TransferCaches and the span lists of the CentralCache
are empty, and every page mapped for spans is in exactly one free span of a bucket of the
PageCache. -/
structure Reclaimed (n : ℕ) (st : Allocator) : Prop where
  quiescent : Quiescent n st
  freeLists : ∀ t < n, ∀ tc, (st.threads t).ptls = some tc →
    ∀ idx < kNumSizeClasses, (tc.freeLists idx).objs = []
  transferCaches : ∀ idx < kNumSizeClasses, (st.central.buckets idx).transferCache.size = 0
  spanLists : ∀ idx < kNumSizeClasses, (st.central.buckets idx).spanList = []
  pages : ∀ q, (∃ e ∈ st.central.pageCache.mapped, e.Contains q) →
    ∃! i, (∃ m, i ∈ st.central.pageCache.spanLists 0 m) ∧
      ∃ s, st.central.pageCache.spans i = some s ∧ s.used = false ∧ s.Covers q

/-- A bound on the steps of any purge in a quiescent state. -/
def purgeSteps (n : ℕ) (st : Allocator) : ℕ :=
  ∑ t ∈ Finset.range n, (4 * Multiset.card (st.threads t).cached + 2 * kNumSizeClasses) +
    st.central.drainBelow kNumSizeClasses + 2

/-- A purge begins. -/
lemma purging_start (h : Inv n st) (hardened : Bool) (ht : t < n)
    (hidle : (st.threads t).pc = .idle) :
    let st' := (machine n hardened).next st (.purge t)
    Inv n st' ∧ Alone t st st' ∧ ∃ k ≤ purgeSteps n st, Purging st' t k := by
  have hinv : Inv n (next n hardened st (.purge t)) := next_inv hardened h (.purge t)
  have hnext : next n hardened st (.purge t) = st.amThreadCachePurge t := by
    simp only [next, if_pos (And.intro ht hidle)]
  have hpart : 4 * Multiset.card (st.threads t).cached + 2 * kNumSizeClasses ≤
      ∑ u ∈ Finset.range n, (4 * Multiset.card (st.threads u).cached + 2 * kNumSizeClasses) :=
    Finset.single_le_sum
      (f := fun u => 4 * Multiset.card (st.threads u).cached + 2 * kNumSizeClasses)
      (fun _ _ => Nat.zero_le _) (Finset.mem_range.mpr ht)
  have honly : OnlyMoves t st (next n hardened st (.purge t)) := onlyMoves_next rfl
  simp only [machine]
  rw [hnext] at hinv honly ⊢
  unfold amThreadCachePurge at *
  cases hptls : (st.threads t).ptls with
  | none =>
    simp only [hptls] at hinv honly
    refine ⟨hinv, ⟨honly, rfl⟩, _, ?_, .drain (f := .start sizeMax) ?_ ?_ rfl (drained_start _)⟩
    · rw [drainSteps_start, setPc_central, purgeSteps]
      omega
    · simp [setPc, setThread, TcCaller.after]
    · simp [setPc, setThread, Thread.cached, hptls]
  | some tc =>
    set out := tc.trim st.stat .kRelease 0 none .ret with hout
    have hpcNext : ∃ f, f.mode = .kRelease ∧ ((st.commit t .purge out).threads t).pc =
        .cache .purge (.trim kNumSizeClasses f) none := by
      rw [commit_pc]
      exact ⟨_, rfl, rfl⟩
    obtain ⟨f, hmode, hpcNext⟩ := hpcNext
    simp only [hptls, ← hout] at hinv honly
    refine ⟨hinv, ⟨honly, live_commit_purge out⟩, _, ?_,
      .trim hpcNext (commit_ptls _ _ _ _) hmode⟩
    have htc : out.tc = tc := rfl
    have hcached : (st.threads t).cached = tc.objs := by simp [Thread.cached, hptls]
    rw [commit_central, htc, ThreadCache.trimBelow_eq_card, ← hcached, purgeSteps]
    omega

/-- What holds between the purges: nothing is in flight, no block is live, and a purge takes no
more than `b` steps. -/
structure Quiet (n b : ℕ) (st : Allocator) : Prop where
  inv : Inv n st
  quiescent : Quiescent n st
  live : st.live = []
  steps : purgeSteps n st ≤ b

/-- The caches of threads in `done` are empty, and so are the TransferCaches if there are any. -/
def Emptied (done : List ℕ) (st : Allocator) : Prop :=
  (∀ t ∈ done, (st.threads t).cached = 0) ∧ (done ≠ [] → st.central.EmptyFrom 0)

/-- **One purge** between quiet states. -/
lemma Quiet.purge {b : ℕ} (h : Quiet n b st) (hardened : Bool) (ht : t < n) {done : List ℕ}
    (hdone : Emptied done st) {env : List PageEnv} (hlen : b ≤ env.length) :
    let st' := (machine n hardened).run st (.purge t :: env.map (AllocAction.step t))
    Quiet n b st' ∧ Emptied (t :: done) st' ∧ ∀ u, u ≠ t → st'.threads u = st.threads u := by
  intro st'
  obtain ⟨hinv₁, halone₁, k, hk, hp⟩ := purging_start h.inv hardened ht (h.quiescent.1 t ht)
  obtain ⟨hinv, halone₂, hend⟩ := hp.run hinv₁ hardened ht (hk.trans (h.steps.trans hlen))
  have halone : Alone t st st' := halone₁.trans halone₂
  obtain ⟨hpc, hcached, hrings⟩ : (st'.threads t).pc = .idle ∧ (st'.threads t).cached = 0 ∧
      st'.central.EmptyFrom 0 := by
    generalize hz : 0 = m at hend
    cases hend with
    | done hpc hempty hrings => exact ⟨hpc, hempty, hrings⟩
    | trim | release | drain => omega
  have hempty : ∀ u, (st.threads u).cached = 0 → (st'.threads u).cached = 0 := by
    intro u hu
    by_cases hut : u = t
    · rw [hut, hcached]
    · rw [halone.threads u hut, hu]
  refine ⟨⟨hinv, ⟨fun u hu => ?_, ?_⟩, halone.live.trans h.live, ?_⟩, ⟨?_, fun _ => hrings⟩,
    halone.threads⟩
  · by_cases hut : u = t
    · rw [hut, hpc]
    · rw [halone.threads u hut, h.quiescent.1 u hu]
  · rw [halone.scav, h.quiescent.2]
  · -- nothing has grown
    refine le_trans ?_ h.steps
    have hthreads : ∑ u ∈ Finset.range n,
          (4 * Multiset.card (st'.threads u).cached + 2 * kNumSizeClasses) ≤
        ∑ u ∈ Finset.range n, (4 * Multiset.card (st.threads u).cached + 2 * kNumSizeClasses) := by
      refine Finset.sum_le_sum fun u _ => ?_
      by_cases hut : u = t
      · rw [hut, hcached]
        simp
      · rw [halone.threads u hut]
    have hbelow : st'.central.drainBelow kNumSizeClasses ≤
        st.central.drainBelow kNumSizeClasses := by
      refine Finset.sum_le_sum fun j hj => ?_
      rw [hrings j (Nat.zero_le _) (Finset.mem_range.mp hj)]
      omega
    unfold purgeSteps
    omega
  · intro u hu
    rcases List.mem_cons.mp hu with rfl | hu
    · exact hcached
    · exact hempty u (hdone.1 u hu)

/-- The calls of the given threads, one after another, with what the page layer answers. -/
def purgeRun (calls : List (ℕ × List PageEnv)) : List AllocAction :=
  calls.flatMap fun c => .purge c.1 :: c.2.map (AllocAction.step c.1)

/-- **Any number of purges**, one after another. -/
lemma Quiet.purges {b : ℕ} (h : Quiet n b st) (hardened : Bool) {done : List ℕ}
    (hdone : Emptied done st) {calls : List (ℕ × List PageEnv)}
    (hcalls : ∀ c ∈ calls, c.1 < n ∧ b ≤ c.2.length) :
    let st' := (machine n hardened).run st (purgeRun calls)
    Quiet n b st' ∧ Emptied ((calls.map Prod.fst).reverse ++ done) st' ∧
      ∀ u, u ∉ calls.map Prod.fst → st'.threads u = st.threads u := by
  induction calls generalizing st done with
  | nil => exact ⟨h, hdone, fun _ _ => rfl⟩
  | cons c calls ih =>
    obtain ⟨ht, hlen⟩ := hcalls c List.mem_cons_self
    obtain ⟨h₁, hdone₁, hother₁⟩ := h.purge hardened ht hdone hlen
    obtain ⟨h₂, hdone₂, hother₂⟩ :=
      ih h₁ hdone₁ fun c' hc' => hcalls c' (List.mem_cons_of_mem c hc')
    have hcons : purgeRun (c :: calls) =
        (.purge c.1 :: c.2.map (AllocAction.step c.1)) ++ purgeRun calls := List.flatMap_cons
    rw [hcons, Machine.run_append]
    refine ⟨h₂, by simpa using hdone₂, fun u hu => ?_⟩
    simp only [List.map_cons, List.mem_cons, not_or] at hu
    exact (hother₂ u hu.2).trans (hother₁ u hu.1)

/-- **Empty books leave nothing behind.** -/
lemma Quiet.reclaimed {b : ℕ} (h : Quiet n b st) (hcached : ∀ t < n, (st.threads t).cached = 0)
    (hrings : st.central.EmptyFrom 0) : Reclaimed n st := by
  have hinv := h.inv.central
  have hobjs : ∑ t ∈ Finset.range n, (st.threads t).objs = 0 :=
    Finset.sum_eq_zero fun t ht => by
      have ht' := Finset.mem_range.mp ht
      simp [Thread.objs, ThreadPc.objs, ThreadPc.frame, h.quiescent.1 t ht', hcached t ht']
  have hspans : ∑ t ∈ Finset.range n, (st.threads t).pc.spans = 0 :=
    Finset.sum_eq_zero fun t ht => by
      simp [ThreadPc.spans, ThreadPc.frame, h.quiescent.1 t (Finset.mem_range.mp ht)]
  have hlive : liveObjs st.live = 0 ∧ liveSpans st.live = 0 := by
    simp [h.live, liveObjs, liveSpans]
  have hringObjs : st.central.ringObjs = 0 :=
    Finset.sum_eq_zero fun idx hidx => by
      simp [RingBuffer.contents, hrings idx (Nat.zero_le _) (Finset.mem_range.mp hidx)]
  rw [hobjs, hspans, hlive.1, hlive.2, add_zero, add_zero] at hinv
  have hnone : ∀ p, ¬ st.central.Allocated p := by
    intro p hp
    have := (hinv.allocated p).mpr hp
    rw [hringObjs] at this
    simp at this
  -- a listed span has a used slot
  have hlists : ∀ idx < kNumSizeClasses, (st.central.buckets idx).spanList = [] := by
    intro idx hidx
    refine List.eq_nil_iff_forall_not_mem.mpr fun i hi => ?_
    obtain ⟨s, hs, hcs, hpos⟩ := hinv.listed idx hidx i hi
    obtain ⟨k, hk, hused⟩ := hcs.exists_used_slot (hpos.resolve_right (by simp))
    exact hnone (idx, s.slotAddr k) ⟨hidx, i, hi, s, hs.spans, k, hk, hused, rfl⟩
  refine ⟨h.quiescent, fun t ht tc htc idx hidx => ?_,
    fun idx hidx => hrings idx (Nat.zero_le _) hidx, hlists, fun q hq => ?_⟩
  · have hzero : tc.objs = 0 := by
      have := hcached t ht
      simpa only [Thread.cached, htc, Option.elim_some] using this
    have hle : tag idx (tc.freeLists idx).objs ≤ tc.objs :=
      Finset.single_le_sum (f := fun j => tag j (tc.freeLists j).objs)
        (fun _ _ => Multiset.zero_le _) (Finset.mem_range.mpr hidx)
    rw [hzero, Multiset.le_zero, tag, Multiset.coe_eq_zero, List.map_eq_nil_iff] at hle
    exact hle
  · -- no span is borrowed, so every span is free
    obtain ⟨i, hi⟩ := (hinv.pages.mapped q).mp hq
    obtain ⟨s, hs, hcov⟩ := (hinv.pages.getSpan_iff q i).mp hi
    have hlisted : st.central.listedSpans = 0 :=
      Finset.sum_eq_zero fun idx hidx => by simp [hlists idx (Finset.mem_range.mp hidx)]
    have hdet : st.scav.chain = [] := by rw [h.quiescent.2]; rfl
    have hfree : s.used = false := by
      by_contra hused
      have hmem := hinv.complete i s ⟨hs, by simpa using hused, by simp [hdet]⟩
      rw [hlisted] at hmem
      simp at hmem
    have hmem := (hinv.pages.lists.mem s.pageNum i).mpr ⟨s, hs, hfree, rfl⟩
    refine ⟨i, ⟨⟨s.pageNum, hmem⟩, s, hs, hfree, hcov⟩, ?_⟩
    rintro j ⟨-, t, ht, -, hcov'⟩
    by_contra hne
    exact hinv.pages.disjoint hne ht hs hcov' hcov

/-- **Complete reclamation.** From every reachable state in which no block is live and nothing is in
flight, there is a number `K` of steps such that the following holds. Let threads call
`am_thread_cache_purge` one after another, at least one of them and every owner of a ThreadCache
among them, with nothing else running and each call given `K` steps or more, whatever the page layer
answers. Then all calls have returned and all memory is reclaimed. -/
theorem purge_reclaims {n : ℕ} {hardened : Bool} {st : Allocator}
    (hreach : (machine n hardened).Reachable st) (hquiet : Quiescent n st) (hlive : st.live = []) :
    ∃ K, ∀ calls : List (ℕ × List PageEnv), calls ≠ [] →
      (∀ c ∈ calls, c.1 < n ∧ K ≤ c.2.length) →
      (∀ t < n, (st.threads t).ptls ≠ none → t ∈ calls.map Prod.fst) →
      Reclaimed n ((machine n hardened).run st (purgeRun calls)) := by
  refine ⟨purgeSteps n st, fun calls hne hcalls howners => ?_⟩
  have h : Quiet n (purgeSteps n st) st := ⟨reachable_inv hreach, hquiet, hlive, le_rfl⟩
  have hnothing : Emptied [] st := ⟨by simp, fun h => absurd rfl h⟩
  obtain ⟨hquiet', hempty, hother⟩ := h.purges hardened hnothing hcalls
  rw [List.append_nil] at hempty
  refine hquiet'.reclaimed (fun t ht => ?_) (hempty.2 (by simpa using hne))
  by_cases hcalled : t ∈ calls.map Prod.fst
  · exact hempty.1 t (List.mem_reverse.mpr hcalled)
  · have hnone : (st.threads t).ptls = none := by
      by_contra howner
      exact hcalled (howners t ht howner)
    rw [hother t hcalled, Thread.cached, hnone]
    rfl

/-- Thread 0 allocates 32768 bytes and frees them: its cache then holds the object, and the
CentralCache its span. -/
def freedRun : List AllocAction :=
  let env : PageEnv :=
    { sysAlloc := [some 1024], tryNew := [some 1], radixNode := [true, true, true] }
  [.malloc 0 32768 true, .step 0 {}, .step 0 {}, .step 0 {}, .step 0 env, .step 0 {}, .step 0 {},
    .step 0 {}, .step 0 {}, .free 0 (1024 * 4096 + 16) true]

/-- The state after that run. -/
def freedBlock : Allocator := (machine 2 true).run (create true) freedRun

/-- The span is still borrowed, and nothing is live or in flight. -/
lemma freedBlock_facts :
    ((freedBlock.central.buckets 39).spanList = [1] ∧ freedBlock.live = []) ∧
      ((freedBlock.threads 0).pc = .idle ∧ (freedBlock.threads 1).pc = .idle) ∧
      freedBlock.scav = .idle ∧ (freedBlock.threads 1).ptls.isNone = true := by
  refine ⟨⟨?_, ?_⟩, ⟨?_, ?_⟩, ?_, ?_⟩ <;> decide +kernel

/-- A purge by thread 0, whatever the page layer answers it, gives the span back. -/
theorem purge_reclaims_freedBlock : (freedBlock.central.buckets 39).spanList = [1] ∧
    ∃ K, ∀ env : List PageEnv, K ≤ env.length →
      Reclaimed 2 ((machine 2 true).run freedBlock (purgeRun [(0, env)])) := by
  obtain ⟨⟨hspans, hlive⟩, ⟨h0, h1⟩, hscav, hptls⟩ := freedBlock_facts
  have hreach : (machine 2 true).Reachable freedBlock :=
    (Machine.Reachable.init (by simp [machine])).run freedRun
  have hquiet : Quiescent 2 freedBlock := by
    refine ⟨fun t ht => ?_, hscav⟩
    interval_cases t
    · exact h0
    · exact h1
  obtain ⟨K, hK⟩ := purge_reclaims hreach hquiet hlive
  refine ⟨hspans, K, fun env hlen => hK [(0, env)] (by simp) (by simpa using hlen) ?_⟩
  intro t ht howner
  interval_cases t
  · simp
  · exact absurd (Option.isNone_iff_eq_none.mp hptls) howner

end Allocator

end Ammalloc
