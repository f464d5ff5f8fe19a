import Ammalloc.Allocator
import Ammalloc.CentralCache.Calls
import Ammalloc.ThreadCache.Objects

set_option relaxedAutoImplicit false
set_option autoImplicit false

/-!
# The invariant of the allocator

The objects outside the TransferCaches are those in the lists of the thread caches, in the buffers
of the calls in progress, and with the users; the spans outside the lists are those of the calls
in progress and of the large objects. The invariant of the CentralCache is kept relative to them.

## Main definitions

* `Ammalloc.Thread.objs`, `Ammalloc.Block.objs` — what a thread and a user hold.
* `Ammalloc.Allocator.ThreadOk`, `Ammalloc.Allocator.BlockOk`, `Ammalloc.Allocator.Inv`.

## Main results

* `Ammalloc.Allocator.Inv.act` — the frame rule for one thread.
* `Ammalloc.Allocator.Inv.commit` — the local steps of a ThreadCache.
-/

namespace Ammalloc

open SizeClass (kNumSizeClasses)
open PageCache (ScavPc ScavInv)

/-! ## A ThreadCache and its calls -/

/-- The call that an operation waits for. -/
inductive TcPc.WaitsFor : TcPc → Option CentralFrame → Prop
  | nothing {pc : TcPc} (h : pc.waits = false) : WaitsFor pc none
  | fetch (f : FetchFrame) : WaitsFor (.fetchCall f.idx f.fetchNum) (some (.fetch f))
  | release {pc : TcPc} {idx : ℕ} (h : pc.releases = some idx) (mode : CentralReleaseMode)
      (rpc : ReleasePc) : WaitsFor pc (some (.release idx mode rpc))

/-- A call carries its objects and no span. -/
lemma CentralCall.frame_objs (call : CentralCall) :
    (call.frame.objs : Multiset (ℕ × ℕ)) = call.objs ∧ call.frame.spans = [] := by
  cases call with
  | fetch idx m =>
    obtain ⟨hobjs, hspans⟩ := CentralCache.start_objs idx m
    exact ⟨by simp [CentralCall.frame, CentralFrame.objs, CentralCall.objs, hobjs], hspans⟩
  | release idx batch mode => exact ⟨rfl, rfl⟩

namespace TcPc

variable {pc : TcPc} {call : Option CentralCall} {f : CentralFrame}

/-- An operation in the middle of a release waits for the CentralCache. -/
lemma waits_of_releases {idx : ℕ} (h : pc.releases = some idx) : pc.waits = true := by
  cases pc <;> first | rfl | exact absurd h (by simp [releases])

/-- The return of a release brings nothing. -/
lemma received_of_releases {idx : ℕ} (h : pc.releases = some idx) (batch : List ℕ) :
    pc.received batch = 0 := by
  cases pc <;> first | rfl | exact absurd h (by simp [releases])

/-- What an operation releases belongs to a size class. -/
lemma idx_lt_of_releases {idx : ℕ} {tc : ThreadCache} (hok : tc.PcOk pc)
    (h : pc.releases = some idx) : idx < kNumSizeClasses := by
  cases pc with
  | trimCall j _ => rw [← Option.some.inj h]; exact hok.1
  | overflowCall j => rw [← Option.some.inj h]; exact hok.1
  | allCall j => rw [← Option.some.inj h]; exact hok.1
  | _ => exact absurd h (by simp [releases])

/-- An operation waits for the call that it has asked for. -/
lemma Asks.waitsFor (h : pc.Asks call) : pc.WaitsFor (call.map CentralCall.frame) := by
  cases h with
  | nothing h => exact .nothing h
  | fetch idx n => exact .fetch (.start idx n)
  | release h batch mode => exact .release h mode (.chunk batch)

/-- An operation without a call can take its next local step. -/
lemma WaitsFor.not_waits (h : pc.WaitsFor none) : pc.waits = false := by
  cases h with
  | nothing h => exact h

/-- An operation with a call does not move before the call returns. -/
lemma WaitsFor.waits (h : pc.WaitsFor (some f)) : pc.waits = true := by
  cases h with
  | fetch f => rfl
  | release h mode rpc => exact waits_of_releases h

/-- A step of the call is a step of the same call. -/
lemma WaitsFor.step (h : pc.WaitsFor (some f)) {c c' : CentralCache} {det : List ℕ}
    {out : Multiset (ℕ × ℕ)} {spansOut : Multiset ℕ} {f' : CentralFrame}
    (hpost : c.StepPost det f out spansOut c' f') : pc.WaitsFor (some f') := by
  cases h with
  | fetch f =>
    obtain ⟨g, rfl, hidx, hnum, -⟩ := hpost.fetch f rfl
    rw [← hidx, ← hnum]
    exact .fetch g
  | release h mode rpc =>
    obtain ⟨rpc', rfl⟩ := hpost.release _ mode rpc rfl
    exact .release h mode rpc'

/-- What a call that has returned holds is what the operation receives. -/
lemma WaitsFor.received (h : pc.WaitsFor (some f)) (hret : f.returned = true) :
    (f.objs : Multiset (ℕ × ℕ)) = pc.received f.batch := by
  cases h with
  | fetch f =>
    simp only [CentralFrame.returned, decide_eq_true_eq] at hret
    simp [CentralFrame.objs, FetchFrame.objs, hret, TcPc.received, CentralFrame.batch, tag]
  | release h mode rpc =>
    simp only [CentralFrame.returned, decide_eq_true_eq] at hret
    rw [received_of_releases h]
    simp [CentralFrame.objs, hret, ReleasePc.objs]

/-- The batch of a fetch is no longer than asked for. -/
lemma WaitsFor.length_batch_le (h : pc.WaitsFor (some f)) {c : CentralCache} (hok : c.FrameOk f)
    {idx n : ℕ} (hpc : pc = .fetchCall idx n) : f.batch.length ≤ n := by
  cases h with
  | fetch f =>
    obtain ⟨-, rfl⟩ := TcPc.fetchCall.inj hpc
    exact CentralCache.FetchOk.chain_length_le hok
  | release h mode rpc => exact Nat.zero_le _

/-- The local variables of a call at its beginning. -/
lemma Asks.frameOk (h : pc.Asks call) {tc : ThreadCache} (hok : tc.PcOk pc) (c : CentralCache)
    (hf : call.map CentralCall.frame = some f) : c.FrameOk f := by
  cases h with
  | nothing h => exact absurd hf (by simp)
  | fetch idx n =>
    obtain rfl := Option.some.inj hf
    exact CentralCache.start_ok c hok.1 n
  | release h batch mode =>
    obtain rfl := Option.some.inj hf
    exact idx_lt_of_releases hok h

end TcPc

/-! ## What threads and users hold -/

namespace ThreadPc

/-- The call into the CentralCache in progress. -/
def frame : ThreadPc → Option CentralFrame
  | .cache _ _ call => call
  | .central f => some f
  | _ => none

/-- The objects in the buffers of that call. -/
def objs (pc : ThreadPc) : Multiset (ℕ × ℕ) := pc.frame.elim 0 fun f => f.objs

/-- The spans a thread holds outside the lists. -/
def spans : ThreadPc → Multiset ℕ
  | .releaseSpan i => {i}
  | pc => pc.frame.elim 0 fun f => f.spans

/-- Where the ThreadCache of a thread stands. -/
def tcPc : ThreadPc → TcPc
  | .cache _ pc _ => pc
  | _ => .idle

end ThreadPc

/-- The objects in the ThreadCache of a thread. -/
def Thread.cached (th : Thread) : Multiset (ℕ × ℕ) := th.ptls.elim 0 ThreadCache.objs

/-- The objects of a thread: those in its call into the CentralCache and those in its
ThreadCache. -/
def Thread.objs (th : Thread) : Multiset (ℕ × ℕ) :=
  th.pc.objs + th.cached

/-- The object of a small block. -/
def Block.objs (b : Block) : Multiset (ℕ × ℕ) :=
  b.span.elim {(SizeClass.index b.request, b.ptr)} fun _ => 0

/-- The span of a large block. -/
def Block.spans (b : Block) : Multiset ℕ := b.span.elim 0 fun i => {i}

/-- The functions whose operation leaves the ThreadCache empty. -/
def TcCaller.empties : TcCaller → Bool
  | .purge | .exit => true
  | _ => false

namespace Allocator

/-- The objects of the small blocks. -/
def liveObjs (live : List Block) : Multiset (ℕ × ℕ) := (live.map Block.objs).sum

/-- The spans of the large blocks. -/
def liveSpans (live : List Block) : Multiset ℕ := (live.map Block.spans).sum

/-- A thread in an operation of its ThreadCache. -/
structure CacheOk (th : Thread) (caller : TcCaller) (pc : TcPc) (call : Option CentralFrame) :
    Prop where
  ptls : th.ptls ≠ none
  target : pc.target = caller.request.map SizeClass.index
  small : ∀ m, caller.request = some m → m ≤ maxTcSize
  waitsFor : pc.WaitsFor call
  emptying : caller.empties = true → ∀ tc, th.ptls = some tc → tc.Emptying pc

/-- The local variables of a thread. -/
structure ThreadOk (c : CentralCache) (th : Thread) : Prop where
  tc : ∀ tc, th.ptls = some tc → tc.PcInv 1 th.pc.tcPc
  frame : ∀ f, th.pc.frame = some f → c.FrameOk f
  cache : ∀ caller pc call, th.pc = .cache caller pc call → CacheOk th caller pc call
  allocSpan : ∀ m, th.pc = .allocSpan m → maxTcSize < m ∧ m ≤ kMaxRequestBytes
  central : ∀ f, th.pc = .central f → ∀ g, f ≠ .fetch g
  destroy : th.pc = .destroy → th.cached = 0

/-- What a live block is. -/
structure BlockOk (c : CentralCache) (b : Block) : Prop where
  small : b.span = none → b.request ≤ maxTcSize
  large : ∀ i, b.span = some i → maxTcSize < b.request ∧ b.request ≤ kMaxRequestBytes ∧
    ∃ s, c.pageCache.spans i = some s ∧ PageCache.Clean s ∧
      s.pageNum = requestPages b.request ∧ s.getPageBaseAddr = b.ptr

/-- The objects of the threads other than `t`. -/
def restObjs (n t : ℕ) (st : Allocator) : Multiset (ℕ × ℕ) :=
  ∑ u ∈ (Finset.range n).erase t, (st.threads u).objs

/-- The spans of the threads other than `t`. -/
def restSpans (n t : ℕ) (st : Allocator) : Multiset ℕ :=
  ∑ u ∈ (Finset.range n).erase t, (st.threads u).pc.spans

/-- **The invariant of the allocator.** -/
structure Inv (n : ℕ) (st : Allocator) : Prop where
  central : st.central.Inv st.scav.chain
    (∑ t ∈ Finset.range n, (st.threads t).objs + liveObjs st.live)
    (∑ t ∈ Finset.range n, (st.threads t).pc.spans + liveSpans st.live) none
  scav : ScavInv st.central.pageCache st.scav
  threads : ∀ t < n, ThreadOk st.central (st.threads t)
  blocks : ∀ b ∈ st.live, BlockOk st.central b
  fault : st.fault = none

variable {n t : ℕ} {st st' : Allocator} {c c' : CentralCache}

/-- What goes with a call into the CentralCache. -/
lemma held_of_frame {pc : ThreadPc} {f : CentralFrame} (hf : pc.frame = some f) :
    pc.objs = f.objs ∧ pc.spans = f.spans := by
  cases pc with
  | cache caller tpc call =>
    obtain rfl : call = some f := hf
    exact ⟨rfl, rfl⟩
  | central g =>
    obtain rfl := Option.some.inj hf
    exact ⟨rfl, rfl⟩
  | _ => exact absurd hf (by simp [ThreadPc.frame])

/-- `ThreadOk` stays true as long as nobody touches the spans that the thread holds. -/
lemma ThreadOk.mono {th : Thread} (h : ThreadOk c th)
    (hkeep : ∀ j ∈ th.pc.spans, c'.pageCache.spans j = c.pageCache.spans j) : ThreadOk c' th := by
  refine ⟨h.tc, fun f hf => (h.frame f hf).mono fun j hj => hkeep j ?_, h.cache, h.allocSpan,
    h.central, h.destroy⟩
  rw [(held_of_frame hf).2]
  exact hj

/-- `BlockOk` stays true as long as nobody touches the span of the block. -/
lemma BlockOk.mono {b : Block} (h : BlockOk c b)
    (hkeep : ∀ j ∈ b.spans, c'.pageCache.spans j = c.pageCache.spans j) : BlockOk c' b := by
  refine ⟨h.small, fun i hi => ?_⟩
  rw [hkeep i (by simp [Block.spans, hi])]
  exact h.large i hi

/-- The span of a live block is among those of all live blocks. -/
lemma spans_le_liveSpans {live : List Block} {b : Block} (hb : b ∈ live) :
    b.spans ≤ liveSpans live :=
  List.single_le_sum (fun _ _ => Multiset.zero_le _) _ (List.mem_map_of_mem hb)

/-- The blocks survive a step that leaves their spans alone. -/
lemma blocks_mono {live : List Block} (h : ∀ b ∈ live, BlockOk c b)
    (hkeep : ∀ j ∈ liveSpans live, c'.pageCache.spans j = c.pageCache.spans j) :
    ∀ b ∈ live, BlockOk c' b := fun b hb =>
  (h b hb).mono fun j hj => hkeep j (Multiset.mem_of_le (spans_le_liveSpans hb) hj)

/-- The invariant of the CentralCache, seen from thread `t`. -/
lemma Inv.central_of (h : Inv n st) (ht : t < n) : st.central.Inv st.scav.chain
    ((st.threads t).objs + (liveObjs st.live + restObjs n t st))
    ((st.threads t).pc.spans + (liveSpans st.live + restSpans n t st)) none := by
  have hcentral := h.central
  rw [← Finset.add_sum_erase _ _ (Finset.mem_range.mpr ht),
    ← Finset.add_sum_erase _ (fun t => (st.threads t).pc.spans) (Finset.mem_range.mpr ht),
    add_assoc, add_comm _ (liveObjs st.live), add_assoc, add_comm _ (liveSpans st.live)] at hcentral
  exact hcentral

/-- **The frame rule**: thread `t` moves, and everybody else is as before. -/
lemma Inv.act (h : Inv n st) (ht : t < n) {th : Thread}
    (hthreads : st'.threads = Function.update st.threads t th) (hscav : st'.scav = st.scav)
    (hfault : st'.fault = st.fault)
    (hinv : st'.central.Inv st.scav.chain (th.objs + (liveObjs st'.live + restObjs n t st))
      (th.pc.spans + (liveSpans st'.live + restSpans n t st)) none)
    (hkeep : st.central.Keeps st'.central st.scav.chain (restSpans n t st))
    (hth : ThreadOk st'.central th) (hblocks : ∀ b ∈ st'.live, BlockOk st'.central b) :
    Inv n st' := by
  have hmem := Finset.mem_range.mpr ht
  refine ⟨?_, ?_, fun u hu => ?_, hblocks, by rw [hfault, h.fault]⟩
  · rw [hthreads, hscav, FamilySum.sum_update_erase _ st.threads Thread.objs hmem,
      FamilySum.sum_update_erase _ st.threads (fun th => th.pc.spans) hmem, add_assoc,
      add_comm _ (liveObjs st'.live), add_assoc, add_comm _ (liveSpans st'.live)]
    exact hinv
  · rw [hscav]
    exact hkeep.scavInv h.scav hinv.pages
  · rw [hthreads]
    by_cases hut : u = t
    · subst hut
      rwa [Function.update_self]
    · rw [Function.update_of_ne hut]
      refine (h.threads u hu).mono fun j hj => hkeep.spans j (Or.inl ?_)
      have hsub : (st.threads u).pc.spans ≤ restSpans n t st :=
        Finset.single_le_sum (f := fun u => (st.threads u).pc.spans)
          (fun _ _ => Multiset.zero_le _) (Finset.mem_erase.mpr ⟨hut, Finset.mem_range.mpr hu⟩)
      exact Multiset.mem_of_le hsub hj

/-! ## Local steps of a ThreadCache -/

/-- Where a thread stands after a local step, and what goes with its call. -/
lemma after_held (caller : TcCaller) {out : TcOut} (h : out.pc.Asks out.call) :
    (ThreadPc.after caller out).objs = out.call.elim 0 CentralCall.objs ∧
      (ThreadPc.after caller out).spans = 0 := by
  unfold ThreadPc.after
  split_ifs with hidle
  · rw [hidle] at h
    have hcall : out.call = none := by
      cases hc : out.call with
      | none => rfl
      | some call =>
        rw [hc] at h
        cases h with
        | release h => exact absurd h (by simp [TcPc.releases])
    rw [hcall]
    cases caller <;>
      simp [TcCaller.after, ThreadPc.objs, ThreadPc.spans, ThreadPc.frame, CentralFrame.objs,
        CentralFrame.spans, DrainFrame.objs, DrainFrame.spans, DrainFrame.start]
  · cases hc : out.call with
    | none => simp [ThreadPc.objs, ThreadPc.spans, ThreadPc.frame]
    | some call =>
      obtain ⟨hobjs, hspans⟩ := call.frame_objs
      simp [ThreadPc.objs, ThreadPc.spans, ThreadPc.frame, hobjs, hspans]

/-- The block that an operation returns. -/
lemma liveObjs_newBlock {pc : TcPc} {request : Option ℕ}
    (htarget : pc.target = request.map SizeClass.index) (ret : Option (Option ℕ))
    (live : List Block) :
    liveObjs (newBlock request ret ++ live) = retObjs pc.target ret + liveObjs live := by
  rw [htarget]
  rcases request with _ | m <;> rcases ret with _ | _ | ptr <;>
    simp [newBlock, retObjs, liveObjs, Block.objs]

/-- The block that an operation of a ThreadCache returns has no span of its own. -/
lemma liveSpans_newBlock (request : Option ℕ) (ret : Option (Option ℕ)) (live : List Block) :
    liveSpans (newBlock request ret ++ live) = liveSpans live := by
  rcases request with _ | m <;> rcases ret with _ | _ | ptr <;>
    simp [newBlock, liveSpans, Block.spans]

/-- The block that an operation of a ThreadCache returns is a small one. -/
lemma blockOk_of_mem_newBlock {request : Option ℕ} (hsmall : ∀ m, request = some m → m ≤ maxTcSize)
    {ret : Option (Option ℕ)} {b : Block} (hb : b ∈ newBlock request ret) : BlockOk c b := by
  rcases request with _ | m <;> rcases ret with _ | _ | ptr <;>
    simp only [newBlock, List.not_mem_nil, List.mem_singleton] at hb
  subst hb
  exact ⟨fun _ => hsmall m rfl, by simp⟩

/-- The local variables of a thread whose operation has returned. -/
lemma threadOk_return {th : Thread} {caller : TcCaller} (hpc : th.pc = caller.after)
    (htc : ∀ tc, th.ptls = some tc → tc.PcInv 1 .idle)
    (hempty : caller.empties = true → th.cached = 0) : ThreadOk c th := by
  have htcPc : caller.after.tcPc = .idle := by cases caller <;> rfl
  refine ⟨by rwa [hpc, htcPc], fun f hf => ?_, ?_, ?_, ?_, fun hd => ?_⟩
  · rw [hpc] at hf
    cases caller <;> simp only [TcCaller.after, ThreadPc.frame, reduceCtorEq,
      Option.some.injEq] at hf
    subst hf
    exact le_rfl
  · rw [hpc]
    cases caller <;> simp [TcCaller.after]
  · rw [hpc]
    cases caller <;> simp [TcCaller.after]
  · rw [hpc]
    cases caller <;> simp [TcCaller.after]
  · rw [hpc] at hd
    cases caller <;> simp [TcCaller.after] at hd
    exact hempty rfl

/-- The local variables of a thread after a local step. -/
lemma threadOk_after {th : Thread} {tc : ThreadCache} {pc : TcPc} {caller : TcCaller}
    {received : Multiset (ℕ × ℕ)} {out : TcOut} (hptls : th.ptls = some out.tc)
    (hpc : th.pc = ThreadPc.after caller out) (hinv : out.tc.PcInv 1 out.pc)
    (hmoves : tc.Moves pc received out) (htarget : pc.target = caller.request.map SizeClass.index)
    (hsmall : ∀ m, caller.request = some m → m ≤ maxTcSize)
    (hempty : caller.empties = true → out.tc.Emptying out.pc ∨ out.pc = .idle ∧ out.tc.objs = 0) :
    ThreadOk c th := by
  have hsome : ∀ tc', th.ptls = some tc' → out.tc = tc' := fun tc' htc =>
    Option.some.inj (hptls.symm.trans htc)
  unfold ThreadPc.after at hpc
  split_ifs at hpc with hidle
  · rw [hidle] at hinv
    refine threadOk_return hpc (fun tc' htc => hsome tc' htc ▸ hinv) fun he => ?_
    rcases hempty he with hrun | ⟨-, hzero⟩
    · rw [hidle] at hrun
      cases hrun
    · simpa [Thread.cached, hptls] using hzero
  · refine ⟨fun tc' htc => ?_, fun f hf => ?_, fun caller' pc' call he => ?_, ?_, ?_, ?_⟩
    · rw [hpc, ← hsome tc' htc]
      exact hinv
    · rw [hpc] at hf
      exact hmoves.asks.frameOk hinv.ok c hf
    · rw [hpc] at he
      obtain ⟨rfl, rfl, rfl⟩ := ThreadPc.cache.inj he
      -- an operation that goes on has returned nothing
      have hret : out.ret = none := by
        by_contra hr
        exact hidle (hmoves.returns hr).1
      refine ⟨by simp [hptls], ?_, hsmall, hmoves.asks.waitsFor, fun hc tc' htc => ?_⟩
      · rw [hmoves.target hret, htarget]
      · rw [← hsome tc' htc]
        exact (hempty hc).resolve_right fun h => hidle h.1
    all_goals simp [hpc]

/-- **A local step of the ThreadCache of thread `t`**, with the blocks `live` beside it. -/
lemma Inv.commit (h : Inv n st) (ht : t < n) {live : List Block} {tc : ThreadCache} {pc : TcPc}
    {received : Multiset (ℕ × ℕ)} {out : TcOut} {caller : TcCaller} {stat : ℕ}
    (hinv : st.central.Inv st.scav.chain
      (tc.objs + received + (liveObjs live + restObjs n t st)) (liveSpans live + restSpans n t st)
      none)
    (hblocks : ∀ b ∈ live, BlockOk st.central b) (hmoves : tc.Moves pc received out)
    (hstep : tc.StepOk 1 stat out) (htarget : pc.target = caller.request.map SizeClass.index)
    (hsmall : ∀ m, caller.request = some m → m ≤ maxTcSize)
    (hempty : caller.empties = true → out.tc.Emptying out.pc ∨ out.pc = .idle ∧ out.tc.objs = 0) :
    Inv n ({ st with live := live }.commit t caller out) := by
  obtain ⟨hobjs, hspans⟩ := after_held caller hmoves.asks
  refine h.act ht rfl rfl rfl ?_ (CentralCache.Keeps.of_eq rfl) ?_ fun b hb => ?_
  · simp only [Thread.objs, Thread.cached, Allocator.commit, Option.elim_some, hobjs, hspans,
      liveSpans_newBlock, liveObjs_newBlock htarget, zero_add]
    rw [hmoves.objs] at hinv
    convert hinv using 1
    abel
  · exact threadOk_after rfl rfl hstep.inv hmoves htarget hsmall hempty
  · rcases List.mem_append.mp hb with hb | hb
    · exact blockOk_of_mem_newBlock hsmall hb
    · exact hblocks b hb

end Allocator

end Ammalloc
