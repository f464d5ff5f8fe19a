import Ammalloc.CentralCache.Fetch
import Ammalloc.Scavenger

set_option relaxedAutoImplicit false
set_option autoImplicit false

/-!
# Every call into the central cache keeps the books

`DrainTransferCaches`, and the three calls together: how they begin and end, what every step of
them does, and that the scavenger below moves no span that they hold.

## Main definitions

* `Ammalloc.CentralCache.FrameOk` — the local variables of a call.
* `Ammalloc.CentralCache.StepPost` — what a step of a call does.

## Main results

* `Ammalloc.CentralCache.drainStep_spec` — every step of `DrainTransferCaches`.
* `Ammalloc.CentralCache.step_spec` — every step of every call.
* `Ammalloc.CentralCache.Inv.scavenge` — a step of the scavenger.
-/

namespace Ammalloc

open SizeClass (kNumSizeClasses)
open PageCache (ScavPc ScavInv)

namespace CentralCache

variable {c c' : CentralCache} {det : List ℕ} {out : Multiset (ℕ × ℕ)} {spansOut : Multiset ℕ}
  {scav : ScavPc}

/-! ## `DrainTransferCaches` -/

/-- The local variables of a `DrainTransferCaches`. -/
def DrainOk (f : DrainFrame) : Prop :=
  match f.pc with
  | .next i => i ≤ kNumSizeClasses
  | .detach idx _ => idx < kNumSizeClasses
  | .release idx _ _ _ => idx < kNumSizeClasses

/-- The objects of a `DrainTransferCaches`, as a multiset. -/
lemma drain_objs_release {f : DrainFrame} {idx remaining detached : ℕ} {pc : ReleasePc}
    (hpc : f.pc = .release idx remaining detached pc) :
    (f.objs : Multiset (ℕ × ℕ)) = tag idx pc.objs := by
  simp [DrainFrame.objs, hpc, tag]

/-- **Every step of `DrainTransferCaches`** keeps the books, whatever is outside. -/
theorem drainStep_spec (hardened : Bool) (env : PageEnv) {f : DrainFrame} (hok : DrainOk f)
    (h : c.Inv det ((f.objs : Multiset (ℕ × ℕ)) + out) ((f.spans : Multiset ℕ) + spansOut) none) :
    ∃ c' f', c.drainStep hardened env f = .ok (c', f') ∧
      c'.Inv det ((f'.objs : Multiset (ℕ × ℕ)) + out) ((f'.spans : Multiset ℕ) + spansOut) none ∧
      Keeps c c' det spansOut ∧ DrainOk f' := by
  cases hpc : f.pc with
  | next i =>
    have hobjs : f.objs = [] := by simp [DrainFrame.objs, hpc]
    have hspan : f.spans = [] := by simp [DrainFrame.spans, hpc]
    rw [hobjs, hspan] at h
    simp only [DrainOk, hpc] at hok
    cases i with
    | zero =>
      refine ⟨c, f, by simp [drainStep, hpc], ?_, Keeps.of_eq rfl, by simp [DrainOk, hpc]⟩
      rwa [hobjs, hspan]
    | succ idx =>
      simp only [drainStep, hpc]
      split_ifs
      · exact ⟨_, _, rfl, h, Keeps.of_eq rfl, by simp only [DrainOk]; omega⟩
      · exact ⟨_, _, rfl, h, Keeps.of_eq rfl, by simp only [DrainOk]; omega⟩
      · exact ⟨_, _, rfl, h, Keeps.of_eq rfl, by simp only [DrainOk]; omega⟩
  | detach idx remaining =>
    have hobjs : f.objs = [] := by simp [DrainFrame.objs, hpc]
    have hspan : f.spans = [] := by simp [DrainFrame.spans, hpc]
    rw [hobjs, hspan] at h
    have hidx : idx < kNumSizeClasses := by simpa only [DrainOk, hpc] using hok
    simp only [drainStep, hpc]
    split_ifs with h₀
    · exact ⟨_, _, rfl, h, Keeps.of_eq rfl, hidx.le⟩
    · set r := (c.buckets idx).transferCache with hr
      set n := min (min SizeClass.kMaxBatchSize remaining) r.size
      have hle : n ≤ r.size := min_le_right _ _
      have hwf := h.ring idx hidx
      rw [← hr] at hwf
      have hcontents := congrArg (tag idx) (RingBuffer.contents_detach hwf hle)
      rw [tag_append] at hcontents
      rw [Multiset.coe_nil, zero_add, Multiset.coe_nil, zero_add] at h
      have hinv : (c.setRing idx (r.detach n).2).Inv det (tag idx (r.detach n).1 + out) spansOut
          none := by
        refine h.setRing hidx (hwf.detach hle) (RingBuffer.capacity_detach _ _) ?_
        rw [← hr, hcontents]
        abel
      refine ⟨_, _, rfl, ?_, Keeps.of_eq rfl, hidx⟩
      rw [drain_objs_release rfl]
      simpa [ReleasePc.objs, DrainFrame.spans, ReleasePc.spans] using hinv
  | release idx remaining detached pc =>
    have hspan : f.spans = pc.spans := by simp [DrainFrame.spans, hpc]
    rw [drain_objs_release hpc, hspan] at h
    have hidx : idx < kNumSizeClasses := by simpa only [DrainOk, hpc] using hok
    obtain ⟨c', pc', hrun, hinv, hkeep⟩ := releaseStep_spec hardened env hidx .kSpanBitmap h
    simp only [drainStep, hpc, hrun, bind, Except.bind]
    by_cases hend : pc' = .chunk []
    · subst hend
      simp only [if_true]
      exact ⟨_, _, rfl, hinv, hkeep, hidx⟩
    · simp only [if_neg hend]
      refine ⟨_, _, rfl, ?_, hkeep, hidx⟩
      rw [drain_objs_release rfl]
      exact hinv

/-! ## Every call -/

/-- The local variables of a call. -/
def FrameOk (c : CentralCache) : CentralFrame → Prop
  | .fetch f => FetchOk c f
  | .release idx _ _ => idx < kNumSizeClasses
  | .drain f => DrainOk f

/-- `FrameOk` stays true as long as nobody touches the spans that the call holds. -/
lemma FrameOk.mono {f : CentralFrame} (h : c.FrameOk f)
    (hkeep : ∀ j ∈ f.spans, c'.pageCache.spans j = c.pageCache.spans j) : c'.FrameOk f := by
  cases f with
  | fetch f => exact FetchOk.mono h hkeep
  | release idx mode pc => exact h
  | drain f => exact h

/-- How a step of a call may end. -/
structure StepPost (c : CentralCache) (det : List ℕ) (f : CentralFrame) (out : Multiset (ℕ × ℕ))
    (spansOut : Multiset ℕ) (c' : CentralCache) (f' : CentralFrame) : Prop where
  inv : c'.Inv det ((f'.objs : Multiset (ℕ × ℕ)) + out) ((f'.spans : Multiset ℕ) + spansOut) none
  keep : Keeps c c' det spansOut
  ok : c'.FrameOk f'
  /-- A `FetchBatch` serves the same request afterwards, and enters `GetOneSpan` only when every
  listed span is full. -/
  fetch : ∀ g, f = .fetch g → ∃ g', f' = .fetch g' ∧ g'.idx = g.idx ∧ g'.fetchNum = g.fetchNum ∧
    (g'.pc = .allocSpan → ∀ j ∈ (c'.buckets g.idx).spanList, c'.FullSpan j)
  release : ∀ idx mode pc, f = .release idx mode pc → ∃ pc', f' = .release idx mode pc'
  drain : ∀ g, f = .drain g → ∃ g', f' = .drain g'

/-- **Every step of every call** into the CentralCache keeps the books, and no check fails. -/
theorem step_spec (hardened : Bool) (env : PageEnv) {f : CentralFrame} (hok : c.FrameOk f)
    (h : c.Inv det ((f.objs : Multiset (ℕ × ℕ)) + out) ((f.spans : Multiset ℕ) + spansOut) none) :
    ∃ c' f', c.step hardened env f = .ok (c', f') ∧ StepPost c det f out spansOut c' f' := by
  cases f with
  | fetch f =>
    obtain ⟨c', f', hrun, hpost⟩ := fetchStep_spec hardened env hok h
    refine ⟨c', .fetch f', by simp only [step, hrun, bind, Except.bind]; rfl, hpost.inv, hpost.keep,
      hpost.ok, ?_, by simp, by simp⟩
    rintro g ⟨rfl⟩
    exact ⟨f', rfl, hpost.idx, hpost.fetchNum, hpost.allFull⟩
  | release idx mode pc =>
    obtain ⟨c', pc', hrun, hinv, hkeep⟩ := releaseStep_spec hardened env hok mode h
    refine ⟨c', .release idx mode pc', by simp only [step, hrun, bind, Except.bind]; rfl, hinv,
      hkeep, hok, by simp, ?_, by simp⟩
    rintro idx' mode' pc₀ ⟨rfl⟩
    exact ⟨pc', rfl⟩
  | drain f =>
    obtain ⟨c', f', hrun, hinv, hkeep, hok'⟩ := drainStep_spec hardened env hok h
    refine ⟨c', .drain f', by simp only [step, hrun, bind, Except.bind]; rfl, hinv, hkeep, hok',
      by simp, by simp, ?_⟩
    rintro g ⟨rfl⟩
    exact ⟨f', rfl⟩

/-! ## How calls begin and end -/

/-- A call that has returned holds no span. -/
lemma spans_of_returned {f : CentralFrame} (h : f.returned = true) : f.spans = [] := by
  cases f with
  | fetch f =>
    simp only [CentralFrame.returned, decide_eq_true_eq] at h
    simp [CentralFrame.spans, FetchFrame.spans, h]
  | release idx mode pc =>
    simp only [CentralFrame.returned, decide_eq_true_eq] at h
    simp [CentralFrame.spans, ReleasePc.spans, h]
  | drain f =>
    simp only [CentralFrame.returned, decide_eq_true_eq] at h
    simp [CentralFrame.spans, DrainFrame.spans, h]

/-- A `FetchBatch` starts with empty buffers. -/
lemma start_objs (idx m : ℕ) : (FetchFrame.start idx m).objs = [] ∧
    (FetchFrame.start idx m).spans = [] := by
  by_cases hm : m = 0 <;>
    simp [FetchFrame.start, FetchFrame.objs, FetchFrame.spans, FetchFrame.chain, hm]

/-- The local variables of a `FetchBatch` at its start. -/
lemma start_ok (c : CentralCache) {idx : ℕ} (hidx : idx < kNumSizeClasses) (m : ℕ) :
    c.FetchOk (.start idx m) := by
  by_cases hm : m = 0
  · refine ⟨hidx, by simp [FetchFrame.start], by simp [FetchFrame.start], ?_, ?_, ?_, ?_⟩ <;>
      simp [FetchFrame.start, hm]
  · refine ⟨hidx, by simp [FetchFrame.start], by simp [FetchFrame.start], ?_, ?_, ?_, ?_⟩ <;>
      simp [FetchFrame.start, hm]

/-- The constructor. -/
lemma create_inv (backed : Bool) : (create backed).Inv [] 0 0 none := by
  have hring : (create backed).ringObjs = 0 :=
    Finset.sum_eq_zero fun idx _ => by simp [create, RingBuffer.contents]
  have hlisted : (create backed).listedSpans = 0 :=
    Finset.sum_eq_zero fun idx _ => by simp [create]
  refine ⟨ScavInv.empty.inv, fun idx _ => ?_, fun idx _ => ?_, by simp [create], by simp, ?_, ?_,
    ?_, fun p => ?_, by simp [create]⟩
  · refine ⟨Nat.zero_le _, ?_⟩
    simp only [create, true_and]
    exact (Nat.eq_zero_or_pos _).symm
  · cases backed <;> simp [create]
  · simp [hlisted]
  · rintro i s ⟨hs, -, -⟩
    simp [create] at hs
  · simp [hring]
  · rw [hring]
    simp [Allocated, create]

/-! ## The scavenger below the calls -/

/-- A step of the scavenger moves no borrowed span. -/
lemma Inv.scavenge (h : c.Inv scav.chain out spansOut none) (hscav : ScavInv c.pageCache scav)
    (env : PageEnv) (ok : Bool) :
    ∃ scav' pc, (c.pageCache.load env).scavengeStep scav ok = .ok (scav', 0, pc) ∧
      Inv { c with pageCache := pc } scav'.chain out spansOut none ∧ ScavInv pc scav' ∧
      ∀ j ∈ spansOut, pc.spans j = c.pageCache.spans j := by
  obtain ⟨scav', pc, hrun, hinv, heff⟩ := PageCache.scavengeStep_spec (hscav.load env) ok
  have hborrow : ∀ j s, Borrowed pc scav'.chain j s ↔ Borrowed c.pageCache scav.chain j s := by
    intro j s
    constructor
    · rintro ⟨hs, hu, hd⟩
      obtain ⟨hs', hd'⟩ := (heff.of_load.held_iff j s hu).mp ⟨hs, hd⟩
      exact ⟨hs', hu, hd'⟩
    · rintro ⟨hs, hu, hd⟩
      obtain ⟨hs', hd'⟩ := (heff.of_load.held_iff j s hu).mpr ⟨hs, hd⟩
      exact ⟨hs', hu, hd'⟩
  refine ⟨scav', pc, hrun, ?_, hinv, fun j hj => ?_⟩
  · refine h.of_pages hinv.inv (fun j s hs _ => (hborrow j s).mpr hs) (fun j hj => ?_) h.nodup
      fun j s hs => h.complete j s ((hborrow j s).mp hs)
    obtain ⟨s, hs, h₀⟩ := h.offList j hj
    exact ⟨s, (hborrow j s).mpr hs, h₀⟩
  · obtain ⟨s, hs, -⟩ := h.offList j hj
    rw [((hborrow j s).mpr hs).spans, hs.spans]

/-- A step of a call does not disturb the scavenger. -/
lemma Keeps.scavInv (h : Keeps c c' scav.chain spansOut) (hscav : ScavInv c.pageCache scav)
    (hinv : c'.pageCache.Inv scav.chain) : ScavInv c'.pageCache scav where
  inv := hinv
  nodup := hscav.nodup
  held now b chain rest hpc := by
    obtain ⟨hsuf, hb⟩ := hscav.held now b chain rest hpc
    refine ⟨hsuf, fun i hi => ?_⟩
    have hi' : i ∈ scav.chain := by rw [hpc]; exact hi
    rw [h.spans i (Or.inr hi')]
    exact hb i hi
  sampled now hpc := (hscav.sampled now hpc).trans h.clock_le

end CentralCache

end Ammalloc
