import Ammalloc.CentralCache.Calls
import Ammalloc.Lib.Machine

set_option relaxedAutoImplicit false
set_option autoImplicit false

/-!
# The central cache as a concurrent system

Any number of callers run `FetchBatch`, `ReleaseBatch` and `DrainTransferCaches`, one call each at
a time, while the scavenger runs below them. One action is one lock section of one call, so a run
is any interleaving of them. The page source and the pools answer each section as they like.

A caller possesses what `FetchBatch` returned to it; it may pass an object on to another caller,
and it releases only objects that it possesses.

## Main definitions

* `Ammalloc.CentralSystem`, `Ammalloc.CentralSystem.machine` — the system and its runs.
* `Ammalloc.CentralSystem.copies` — how often an object occurs outside its bitmap.
* `Ammalloc.CentralSystem.Inv` — the invariant.

## Main results

* `Ammalloc.CentralSystem.object_conservation` — every slot is in exactly one place.
* `Ammalloc.CentralSystem.span_list_order` — the order of the span lists, and when a `FetchBatch`
  gives up the lock for a new span.
-/

namespace Ammalloc

open SizeClass (kNumSizeClasses)
open PageCache (ScavPc ScavInv)

/-! ## The system -/

/-- A caller: its call in progress, and the objects in its possession. -/
structure Client where
  call : Option CentralFrame := none
  held : Multiset (ℕ × ℕ) := 0

namespace Client

/-- The objects in the local buffers of its call. -/
def inFlight (cl : Client) : Multiset (ℕ × ℕ) := cl.call.elim 0 fun f => f.objs

/-- The spans its call holds outside the lists. -/
def spans (cl : Client) : Multiset ℕ := cl.call.elim 0 fun f => f.spans

/-- All its objects. -/
def objs (cl : Client) : Multiset (ℕ × ℕ) := cl.inFlight + cl.held

end Client

/-- What callers and the scavenger do. -/
inductive CentralAction where
  /-- Caller `t` calls `FetchBatch(idx, preferredCount)`. -/
  | fetchBatch (t idx preferredCount : ℕ)
  /-- Caller `t` calls `ReleaseBatch` with objects it possesses. -/
  | releaseBatch (t idx : ℕ) (objs : List ℕ) (mode : CentralReleaseMode)
  /-- Caller `t` calls `DrainTransferCaches(maxBytes)`. -/
  | drainTransferCaches (t maxBytes : ℕ)
  /-- The call of `t` takes its next lock section, or returns. -/
  | step (t : ℕ) (env : PageEnv)
  /-- Caller `t` passes an object on to `u`. -/
  | handOver (t u : ℕ) (obj : ℕ × ℕ)
  /-- The next step of the scavenger; `ok` is the outcome of its `madvise`. -/
  | scavenge (env : PageEnv) (ok : Bool)

/-- The state of the system; `fault` says how the program died, if it did. -/
structure CentralSystem where
  central : CentralCache
  scav : ScavPc := .idle
  clients : ℕ → Client := fun _ => {}
  fault : Option Fault := none

namespace CentralSystem

/-- Replace a caller. -/
def setClient (st : CentralSystem) (t : ℕ) (cl : Client) : CentralSystem :=
  { st with clients := Function.update st.clients t cl }

/-- Caller `t` starts a call. -/
def startCall (st : CentralSystem) (t : ℕ) (f : CentralFrame) : CentralSystem :=
  st.setClient t { st.clients t with call := some f }

/-- Caller `t` passes an object on to `u`. -/
def handOver (st : CentralSystem) (t u : ℕ) (obj : ℕ × ℕ) : CentralSystem :=
  let st := st.setClient t { st.clients t with held := (st.clients t).held.erase obj }
  st.setClient u { st.clients u with held := obj ::ₘ (st.clients u).held }

/-- One action of a system with `n` callers. -/
def next (n : ℕ) (hardened : Bool) (st : CentralSystem) : CentralAction → CentralSystem
  | .fetchBatch t idx preferredCount =>
    if t < n ∧ (st.clients t).call = none ∧ idx < kNumSizeClasses ∧
        preferredCount ≤ SizeClass.kMaxBatchSize then
      st.startCall t (.fetch (.start idx preferredCount))
    else st
  | .releaseBatch t idx objs mode =>
    if t < n ∧ (st.clients t).call = none ∧ idx < kNumSizeClasses ∧
        tag idx objs ≤ (st.clients t).held then
      st.setClient t
        { call := some (.release idx mode (.chunk objs))
          held := (st.clients t).held - tag idx objs }
    else st
  | .drainTransferCaches t maxBytes =>
    if t < n ∧ (st.clients t).call = none then st.startCall t (.drain (.start maxBytes)) else st
  | .step t env =>
    if t < n then
      match (st.clients t).call with
      | none => st
      | some f =>
        if f.returned then
          -- what `FetchBatch` returns is the caller's from now on
          st.setClient t { held := (f.objs : Multiset (ℕ × ℕ)) + (st.clients t).held }
        else
          match st.central.step hardened env f with
          | .error e => { st with fault := some e }
          | .ok (central, f') => { st with central := central }.startCall t f'
    else st
  | .handOver t u obj =>
    if t < n ∧ u < n ∧ obj ∈ (st.clients t).held then st.handOver t u obj else st
  | .scavenge env ok =>
    match (st.central.pageCache.load env).scavengeStep st.scav ok with
    | .error e => { st with fault := some e }
    | .ok (scav, _, pc) => { st with scav := scav, central := { st.central with pageCache := pc } }

/-- The start, with or without a backing for the TransferCaches. -/
def create (backed : Bool) : CentralSystem := { central := .create backed }

/-- The system with `n` callers. -/
def machine (n : ℕ) (hardened : Bool) : Machine CentralSystem CentralAction where
  init := {create true, create false}
  next := next n hardened

/-- How often the object at address `p.2` of class `p.1` occurs outside its bitmap: in the
TransferCache of the class, in the buffers of calls, in the possession of callers. -/
def copies (n : ℕ) (st : CentralSystem) (p : ℕ × ℕ) : ℕ :=
  (st.central.buckets p.1).transferCache.contents.count p.2 +
    ∑ t ∈ Finset.range n, (st.clients t).inFlight.count p +
    ∑ t ∈ Finset.range n, (st.clients t).held.count p

/-! ## The invariant -/

/-- The objects outside the TransferCaches. -/
def outObjs (n : ℕ) (st : CentralSystem) : Multiset (ℕ × ℕ) :=
  ∑ t ∈ Finset.range n, (st.clients t).objs

/-- The spans outside the lists. -/
def outSpans (n : ℕ) (st : CentralSystem) : Multiset ℕ :=
  ∑ t ∈ Finset.range n, (st.clients t).spans

/-- The invariant of the system. -/
structure Inv (n : ℕ) (st : CentralSystem) : Prop where
  central : st.central.Inv st.scav.chain (outObjs n st) (outSpans n st) none
  scav : ScavInv st.central.pageCache st.scav
  calls : ∀ t < n, ∀ f, (st.clients t).call = some f → st.central.FrameOk f
  fault : st.fault = none

variable {n t : ℕ} {hardened : Bool} {st : CentralSystem}

/-- The objects of the callers other than `t`. -/
def restObjs (n t : ℕ) (st : CentralSystem) : Multiset (ℕ × ℕ) :=
  ∑ u ∈ (Finset.range n).erase t, (st.clients u).objs

/-- The spans of the callers other than `t`. -/
def restSpans (n t : ℕ) (st : CentralSystem) : Multiset ℕ :=
  ∑ u ∈ (Finset.range n).erase t, (st.clients u).spans

/-- The objects outside the TransferCaches are those of `t` and those of the others. -/
lemma outObjs_eq (ht : t < n) : outObjs n st = (st.clients t).objs + restObjs n t st :=
  (Finset.add_sum_erase _ _ (Finset.mem_range.mpr ht)).symm

/-- The spans outside the lists are those of `t` and those of the others. -/
lemma outSpans_eq (ht : t < n) : outSpans n st = (st.clients t).spans + restSpans n t st :=
  (Finset.add_sum_erase _ _ (Finset.mem_range.mpr ht)).symm

/-- The objects outside the TransferCaches when caller `t` is replaced. -/
lemma outObjs_setClient (ht : t < n) (cl : Client) :
    outObjs n (st.setClient t cl) = cl.objs + restObjs n t st :=
  FamilySum.sum_update_erase _ st.clients Client.objs (Finset.mem_range.mpr ht) cl

/-- The spans outside the lists when caller `t` is replaced. -/
lemma outSpans_setClient (ht : t < n) (cl : Client) :
    outSpans n (st.setClient t cl) = cl.spans + restSpans n t st :=
  FamilySum.sum_update_erase _ st.clients Client.spans (Finset.mem_range.mpr ht) cl

/-- **The frame rule**: caller `t` moves, and everybody else is as before. -/
lemma Inv.act (h : Inv n st) (ht : t < n) {central : CentralCache} {cl : Client}
    (hinv : central.Inv st.scav.chain (cl.objs + restObjs n t st)
      (cl.spans + restSpans n t st) none)
    (hkeep : st.central.Keeps central st.scav.chain (restSpans n t st))
    (hok : ∀ f, cl.call = some f → central.FrameOk f) :
    Inv n ({ st with central := central }.setClient t cl) := by
  refine ⟨?_, hkeep.scavInv h.scav hinv.pages, fun u hu f hf => ?_, h.fault⟩
  · rw [outObjs_setClient ht, outSpans_setClient ht]
    exact hinv
  · by_cases hut : u = t
    · subst hut
      simp only [setClient, Function.update_self] at hf
      exact hok f hf
    · simp only [setClient, Function.update_of_ne hut] at hf
      refine (h.calls u hu f hf).mono fun j hj => hkeep.spans j (Or.inl ?_)
      have hsub : (st.clients u).spans ≤ restSpans n t st :=
        Finset.single_le_sum (fun _ _ => Multiset.zero_le _)
          (Finset.mem_erase.mpr ⟨hut, Finset.mem_range.mpr hu⟩)
      refine Multiset.mem_of_le hsub ?_
      simpa [Client.spans, hf] using hj

/-- A move of caller `t` that does not touch the CentralCache. -/
lemma Inv.move (h : Inv n st) (ht : t < n) {cl : Client} (hobjs : cl.objs = (st.clients t).objs)
    (hspans : cl.spans = (st.clients t).spans)
    (hok : ∀ f, cl.call = some f → st.central.FrameOk f) : Inv n (st.setClient t cl) := by
  have hinv := h.central
  rw [outObjs_eq ht, outSpans_eq ht, ← hobjs, ← hspans] at hinv
  exact h.act ht hinv (CentralCache.Keeps.of_eq rfl) hok

/-- What a caller possesses does not matter to the calls. -/
lemma setClient_held_call (t v : ℕ) (held : Multiset (ℕ × ℕ)) :
    ((st.setClient t { st.clients t with held := held }).clients v).call = (st.clients v).call := by
  by_cases hv : v = t
  · subst hv
    simp [setClient]
  · simp [setClient, hv]

/-- Passing an object on touches no call. -/
lemma handOver_call (t u v : ℕ) (obj : ℕ × ℕ) :
    ((st.handOver t u obj).clients v).call = (st.clients v).call := by
  rw [handOver, setClient_held_call, setClient_held_call]

/-- The object leaves one possession and enters the other. -/
lemma outObjs_handOver (ht : t < n) {u : ℕ} (hu : u < n) {obj : ℕ × ℕ}
    (hmem : obj ∈ (st.clients t).held) : outObjs n (st.handOver t u obj) = outObjs n st := by
  set st' := st.setClient t { st.clients t with held := (st.clients t).held.erase obj } with hst'
  have htaken : obj ::ₘ outObjs n st' = outObjs n st := by
    rw [hst', outObjs_setClient ht, outObjs_eq ht, Client.objs, Client.objs, ← Multiset.cons_add,
      ← Multiset.add_cons, Multiset.cons_erase hmem]
    rfl
  rw [handOver, outObjs_setClient hu, ← htaken, outObjs_eq hu, Client.objs, Client.objs,
    Multiset.add_cons, Multiset.cons_add]
  rfl

/-- The invariant holds when an object passes from one caller to another. -/
lemma Inv.handOver (h : Inv n st) (ht : t < n) {u : ℕ} (hu : u < n) {obj : ℕ × ℕ}
    (hmem : obj ∈ (st.clients t).held) : Inv n (st.handOver t u obj) := by
  have hspans : outSpans n (st.handOver t u obj) = outSpans n st :=
    Finset.sum_congr rfl fun v _ => by rw [Client.spans, handOver_call]; rfl
  refine ⟨?_, h.scav, fun v hv f hf => ?_, h.fault⟩
  · rw [outObjs_handOver ht hu hmem, hspans]
    exact h.central
  · rw [handOver_call] at hf
    exact h.calls v hv f hf

/-- The books as the call of `t` sees them: its own buffers, and the rest. -/
lemma Inv.central_call (h : Inv n st) (ht : t < n) {f : CentralFrame}
    (hf : (st.clients t).call = some f) :
    st.central.Inv st.scav.chain
      ((f.objs : Multiset (ℕ × ℕ)) + ((st.clients t).held + restObjs n t st))
      ((f.spans : Multiset ℕ) + restSpans n t st) none := by
  have hinv := h.central
  have hobjs : (st.clients t).objs = f.objs + (st.clients t).held := by
    simp [Client.objs, Client.inFlight, hf]
  have hspans : (st.clients t).spans = f.spans := by simp [Client.spans, hf]
  rwa [outObjs_eq ht, outSpans_eq ht, hobjs, hspans, add_assoc] at hinv

/-- The step of a call. -/
lemma Inv.step (h : Inv n st) (hardened : Bool) (ht : t < n) {f : CentralFrame}
    (hf : (st.clients t).call = some f) (env : PageEnv) :
    ∃ central f', st.central.step hardened env f = .ok (central, f') ∧
      st.central.StepPost st.scav.chain f ((st.clients t).held + restObjs n t st)
        (restSpans n t st) central f' ∧
      Inv n ({ st with central := central }.startCall t f') := by
  obtain ⟨central, f', hrun, hpost⟩ :=
    CentralCache.step_spec hardened env (h.calls t ht f hf) (h.central_call ht hf)
  refine ⟨central, f', hrun, hpost, h.act ht ?_ hpost.keep ?_⟩
  · have := hpost.inv
    rw [← add_assoc] at this
    exact this
  · intro g hg
    rw [← Option.some.inj hg]
    exact hpost.ok

/-- **Every action keeps the invariant.** -/
theorem next_inv (h : Inv n st) (a : CentralAction) : Inv n (next n hardened st a) := by
  cases a with
  | fetchBatch t idx m =>
    simp only [next]
    split_ifs with hg
    · obtain ⟨ht, hidle, hidx, -⟩ := hg
      obtain ⟨hobjs, hspans⟩ := CentralCache.start_objs idx m
      refine h.move ht ?_ ?_ ?_
      · simp [Client.objs, Client.inFlight, hidle, CentralFrame.objs, hobjs]
      · simp [Client.spans, hidle, CentralFrame.spans, hspans]
      · rintro f ⟨rfl⟩
        exact CentralCache.start_ok st.central hidx m
    · exact h
  | releaseBatch t idx objs mode =>
    simp only [next]
    split_ifs with hg
    · obtain ⟨ht, hidle, hidx, hle⟩ := hg
      refine h.move ht ?_ ?_ ?_
      · have hin : ((CentralFrame.release idx mode (.chunk objs)).objs : Multiset (ℕ × ℕ)) =
            tag idx objs := rfl
        simp only [Client.objs, Client.inFlight, hidle, Option.elim_some, Option.elim_none, hin,
          zero_add]
        exact add_tsub_cancel_of_le hle
      · simp [Client.spans, hidle, CentralFrame.spans, ReleasePc.spans]
      · rintro f ⟨rfl⟩
        exact hidx
    · exact h
  | drainTransferCaches t maxBytes =>
    simp only [next]
    split_ifs with hg
    · obtain ⟨ht, hidle⟩ := hg
      refine h.move ht ?_ ?_ ?_
      · simp [Client.objs, Client.inFlight, hidle, CentralFrame.objs, DrainFrame.objs,
          DrainFrame.start]
      · simp [Client.spans, hidle, CentralFrame.spans, DrainFrame.spans, DrainFrame.start]
      · rintro f ⟨rfl⟩
        simp only [CentralCache.FrameOk, CentralCache.DrainOk, DrainFrame.start]
        split_ifs <;> simp
    · exact h
  | step t env =>
    simp only [next]
    split_ifs with ht
    · cases hcall : (st.clients t).call with
      | none => exact h
      | some f =>
        simp only
        split_ifs with hret
        · refine h.move ht ?_ ?_ (by simp)
          · simp [Client.objs, Client.inFlight, hcall]
          · simp [Client.spans, hcall, CentralCache.spans_of_returned hret]
        · obtain ⟨central, f', hrun, -, hinv⟩ := h.step hardened ht hcall env
          rw [hrun]
          exact hinv
    · exact h
  | handOver t u obj =>
    simp only [next]
    split_ifs with hg
    · obtain ⟨ht, hu, hmem⟩ := hg
      exact h.handOver ht hu hmem
    · exact h
  | scavenge env ok =>
    obtain ⟨scav, pc, hrun, hinv, hscav, hkeep⟩ := h.central.scavenge h.scav env ok
    simp only [next]
    rw [hrun]
    refine ⟨hinv, hscav, fun t ht f hf => ?_, h.fault⟩
    have hcall : (st.clients t).call = some f := hf
    refine (h.calls t ht f hcall).mono fun j hj => hkeep j ?_
    rw [outSpans_eq ht]
    refine Multiset.mem_add.mpr (Or.inl ?_)
    simpa [Client.spans, hcall] using hj

/-- The invariant holds at the start. -/
lemma create_inv (backed : Bool) : Inv n (create backed) := by
  have hobjs : outObjs n (create backed) = 0 :=
    Finset.sum_eq_zero fun t _ => by simp [create, Client.objs, Client.inFlight]
  have hspans : outSpans n (create backed) = 0 :=
    Finset.sum_eq_zero fun t _ => by simp [create, Client.spans]
  refine ⟨?_, PageCache.ScavInv.empty, by simp [create], rfl⟩
  rw [hobjs, hspans]
  exact CentralCache.create_inv backed

/-- Every run keeps the invariant. -/
lemma Inv.run (h : Inv n st) (hardened : Bool) (as : List CentralAction) :
    Inv n ((machine n hardened).run st as) :=
  Machine.run_invariant (M := machine n hardened) (I := Inv n) (fun _ a hs => next_inv hs a) h as

/-- **The invariant holds after every run.** -/
theorem run_inv (n : ℕ) (hardened backed : Bool) (as : List CentralAction) :
    Inv n ((machine n hardened).run (create backed) as) :=
  (create_inv backed).run hardened as

/-! ## Conservation -/

/-- The copies of an object are its occurrences in the books. -/
lemma copies_eq_count {p : ℕ × ℕ} (hp : p.1 < kNumSizeClasses) :
    copies n st p = (st.central.ringObjs + outObjs n st).count p := by
  have hring := CentralCache.count_ringObjs (c := st.central) hp
  have hout : (outObjs n st).count p = ∑ t ∈ Finset.range n, (st.clients t).inFlight.count p +
      ∑ t ∈ Finset.range n, (st.clients t).held.count p := by
    rw [outObjs, Multiset.count_sum', ← Finset.sum_add_distrib]
    exact Finset.sum_congr rfl fun t _ => Multiset.count_add p _ _
  rw [Multiset.count_add, hring, hout, copies, add_assoc]

/-- **Small-object conservation.** After every run, whatever fails on the way, no check has failed,
and every object slot of every span is free in the bitmap, or occurs exactly once among the
TransferCache of its class, the buffers of the calls in progress and the possessions of the
callers. Nothing else occurs there. -/
theorem object_conservation (n : ℕ) (hardened backed : Bool) (as : List CentralAction) :
    let st := (machine n hardened).run (create backed) as
    st.fault = none ∧
      (∀ i s, st.central.pageCache.spans i = some s → ∀ k < s.capacity,
        (if s.freeSlot k then 1 else 0) + copies n st (s.sizeClassIdx, s.slotAddr k) = 1) ∧
      ∀ p, p.1 < kNumSizeClasses → 0 < copies n st p → ∃ i ∈ (st.central.buckets p.1).spanList,
        ∃ s, st.central.pageCache.spans i = some s ∧
          ∃ k < s.capacity, s.freeSlot k = false ∧ s.slotAddr k = p.2 := by
  intro st
  have h : Inv n st := run_inv n hardened backed as
  refine ⟨h.fault, fun i s hs k hk => ?_, fun p hp hpos => ?_⟩
  · have hcs := h.central.carved_of_slot hs hk
    have hiff := h.central.allocated_slot_iff hs hk
    rw [← h.central.allocated] at hiff
    rw [copies_eq_count hcs.idx_lt]
    cases hfree : s.freeSlot k with
    | true =>
      have hnot := (not_congr hiff).mpr (by simp [hfree])
      rw [Multiset.count_eq_zero_of_notMem hnot, if_pos rfl]
    | false => rw [Multiset.count_eq_one_of_mem h.central.books (hiff.mpr hfree)]; rfl
  · rw [copies_eq_count hp, Multiset.count_pos, h.central.allocated] at hpos
    exact hpos.2

/-! ## The order of the span lists -/

/-- Span `i` has a free slot. -/
def HasFreeSlot (c : CentralCache) (i : ℕ) : Prop :=
  ∃ s, c.pageCache.spans i = some s ∧ ∃ k < s.capacity, s.freeSlot k = true

/-- A listed span is full exactly if it has no free slot. -/
lemma fullSpan_iff {det : List ℕ} {out : Multiset (ℕ × ℕ)} {spansOut : Multiset ℕ}
    {fresh : Option ℕ} {c : CentralCache} (h : c.Inv det out spansOut fresh) {idx i : ℕ}
    (hidx : idx < kNumSizeClasses) (hi : i ∈ (c.buckets idx).spanList) :
    c.FullSpan i ↔ ¬ HasFreeSlot c i := by
  obtain ⟨s, hs, hcs, -⟩ := h.listed idx hidx i hi
  constructor
  · rintro ⟨t, ht, hfull⟩ ⟨u, hu, k, hk, hfree⟩
    obtain rfl : s = t := Option.some.inj (hs.spans.symm.trans ht)
    obtain rfl : s = u := Option.some.inj (hs.spans.symm.trans hu)
    rw [hcs.isFull_iff.mp hfull k hk] at hfree
    exact absurd hfree (by simp)
  · intro hnone
    refine ⟨s, hs.spans, hcs.isFull_iff.mpr fun k hk => ?_⟩
    by_contra hfree
    exact hnone ⟨s, hs.spans, k, hk, by simpa using hfree⟩

/-- A `FetchBatch` comes to stand before `AllocSpan` only by a SpanList section of its own, which
leaves every listed span of its class full. -/
lemma allFull_of_enters (h : Inv n st) (a : CentralAction) {u : ℕ} {f : FetchFrame}
    (hcall : ((next n hardened st a).clients u).call = some (.fetch f)) (hpc : f.pc = .allocSpan)
    (hnew : (st.clients u).call ≠ some (.fetch f)) :
    f.idx < kNumSizeClasses ∧ ∀ i ∈ ((next n hardened st a).central.buckets f.idx).spanList,
      (next n hardened st a).central.FullSpan i := by
  -- a started call stands at its beginning
  have hstart : ∀ (t : ℕ) (cl : Client), cl.call ≠ some (.fetch f) →
      ((st.setClient t cl).clients u).call ≠ some (.fetch f) := by
    intro t cl hcl
    by_cases hu : u = t
    · subst hu
      simpa [setClient] using hcl
    · simpa [setClient, hu] using hnew
  cases a with
  | fetchBatch t idx m =>
    simp only [next] at hcall
    split_ifs at hcall with hg
    · refine absurd hcall (hstart t _ fun he => ?_)
      obtain rfl : FetchFrame.start idx m = f := by simpa using he
      simp only [FetchFrame.start] at hpc
      split_ifs at hpc
    · exact absurd hcall hnew
  | releaseBatch t idx objs mode =>
    simp only [next] at hcall
    split_ifs at hcall with hg
    · exact absurd hcall (hstart t _ (by simp))
    · exact absurd hcall hnew
  | drainTransferCaches t maxBytes =>
    simp only [next] at hcall
    split_ifs at hcall with hg
    · exact absurd hcall (hstart t _ (by simp))
    · exact absurd hcall hnew
  | handOver t v obj =>
    simp only [next] at hcall
    split_ifs at hcall with hg
    · rw [handOver_call] at hcall
      exact absurd hcall hnew
    · exact absurd hcall hnew
  | scavenge env ok =>
    obtain ⟨scav, pc, hrun, -⟩ := h.central.scavenge h.scav env ok
    simp only [next, hrun] at hcall
    exact absurd hcall hnew
  | step t env =>
    simp only [next] at hcall ⊢
    split_ifs at hcall ⊢ with ht
    · cases hc : (st.clients t).call with
      | none =>
        simp only [hc] at hcall
        exact absurd hcall hnew
      | some g =>
        simp only [hc] at hcall ⊢
        split_ifs at hcall ⊢ with hret
        · exact absurd hcall (hstart t _ (by simp))
        · obtain ⟨central, g', hrun, hpost, hinv⟩ := h.step hardened ht hc env
          simp only [hrun] at hcall ⊢
          by_cases hu : u = t
          · subst hu
            obtain rfl : g' = .fetch f := by simpa [startCall, setClient] using hcall
            cases g with
            | fetch g =>
              obtain ⟨f', hf', hidx, -, hall⟩ := hpost.fetch g rfl
              obtain rfl : f = f' := CentralFrame.fetch.inj hf'
              rw [hidx]
              exact ⟨(h.calls u ht _ hc).idx_lt, hall hpc⟩
            | release idx mode pc =>
              obtain ⟨pc', hpc'⟩ := hpost.release idx mode pc rfl
              exact absurd hpc' (by simp)
            | drain g =>
              obtain ⟨g', hg'⟩ := hpost.drain g rfl
              exact absurd hg' (by simp)
          · refine absurd hcall ?_
            simpa [startCall, setClient, hu] using hnew
    · exact absurd hcall hnew

/-- **The order of the span lists.** After every run: on every list the spans with a free slot come
before the full ones, and every listed span has between one and `capacity` objects handed out; a
span with an object outside its bitmap is exactly once on the list of its class and on no other;
and a `FetchBatch` gives up the lock to get a new span only at a moment when no listed span of its
class has a free slot. -/
theorem span_list_order (n : ℕ) (hardened backed : Bool) (as : List CentralAction) :
    let st := (machine n hardened).run (create backed) as
    (∀ idx < kNumSizeClasses,
      ((st.central.buckets idx).spanList.Pairwise fun i j =>
        HasFreeSlot st.central j → HasFreeSlot st.central i) ∧
      ∀ i ∈ (st.central.buckets idx).spanList, ∃ s, st.central.pageCache.spans i = some s ∧
        1 ≤ s.useCount ∧ s.useCount ≤ s.capacity) ∧
    (∀ i s, st.central.pageCache.spans i = some s → (∃ k < s.capacity, s.freeSlot k = false) →
      ∀ idx < kNumSizeClasses, (st.central.buckets idx).spanList.count i =
        if idx = s.sizeClassIdx then 1 else 0) ∧
    ∀ a t f, ((next n hardened st a).clients t).call = some (.fetch f) → f.pc = .allocSpan →
      (st.clients t).call ≠ some (.fetch f) →
      ∀ i ∈ ((next n hardened st a).central.buckets f.idx).spanList,
        ¬ HasFreeSlot (next n hardened st a).central i := by
  intro st
  have h : Inv n st := run_inv n hardened backed as
  refine ⟨fun idx hidx => ⟨?_, fun i hi => ?_⟩, fun i s hs ⟨k, hk, hfree⟩ idx hidx => ?_,
    fun a t f hcall hpc hnew i hi => ?_⟩
  · refine List.Pairwise.imp_of_mem (fun {i j} hi hj hij => ?_) (h.central.order idx hidx)
    rw [fullSpan_iff h.central hidx hi, fullSpan_iff h.central hidx hj] at hij
    exact not_imp_not.mp hij
  · obtain ⟨s, hs, hcs, hpos⟩ := h.central.listed idx hidx i hi
    exact ⟨s, hs.spans, hpos.resolve_right (by simp), hcs.useCount_le⟩
  · have hcs := h.central.carved_of_slot hs hk
    have hmem := h.central.listed_of_used_slot hs hk hfree
    split_ifs with he
    · rw [he]
      exact List.count_eq_one_of_mem (h.central.list_nodup hcs.idx_lt) hmem
    · exact List.count_eq_zero.mpr fun hi => he (h.central.list_unique hidx hcs.idx_lt hi hmem)
  · obtain ⟨hidx, hall⟩ := allFull_of_enters h a hcall hpc hnew
    exact (fullSpan_iff (next_inv h a).central hidx hi).mp (hall i hi)

/-- Whenever a `FetchBatch` stands before `AllocSpan`, no listed span of its class has a free
slot. -/
def AllocSpanOnlyWhenFull (n : ℕ) (st : CentralSystem) : Prop :=
  ∀ t < n, ∀ f, (st.clients t).call = some (.fetch f) → f.pc = .allocSpan →
    ∀ i ∈ (st.central.buckets f.idx).spanList, ¬ HasFreeSlot st.central i

/-- Caller 0 fetches one object of the largest class, from a span with 15 slots; caller 1 fetches
8, takes all that is left, and stands before `AllocSpan` without the lock; caller 0 releases its
object to the bitmap. -/
def releaseBeforeAllocRun : List CentralAction :=
  let env : PageEnv :=
    { sysAlloc := [some 1024], tryNew := [some 1], radixNode := [true, true, true] }
  [.fetchBatch 0 39 1, .step 0 {}, .step 0 {}, .step 0 env, .step 0 {}, .step 0 {}, .step 0 {},
    .step 0 {}, .fetchBatch 1 39 8, .step 1 {}, .step 1 {},
    .releaseBatch 0 39 [1024 * 4096 + 16] .kSpanBitmap, .step 0 {}, .step 0 {}]

/-- The span that `AllocSpan` is called for has a free slot by then. -/
theorem not_allocSpanOnlyWhenFull_releaseBeforeAllocRun : ¬ AllocSpanOnlyWhenFull 2
    ((machine 2 true).run (create true) releaseBeforeAllocRun) := by
  intro h
  obtain ⟨st, hst⟩ : ∃ st, (machine 2 true).run (create true) releaseBeforeAllocRun = st := ⟨_, rfl⟩
  rw [hst] at h
  have hcall : (st.clients 1).call = some (.fetch
      { idx := 39, fetchNum := 8, grabbed := [4227088],
        extracted := (List.range 13).map fun k => 4259856 + 32768 * k, pc := .allocSpan }) := by
    rw [← hst]
    decide +kernel
  have hlist : 1 ∈ (st.central.buckets 39).spanList := by
    rw [← hst]
    decide +kernel
  have hspan : ((st.central.pageCache.spans 1).map fun s => (s.capacity, s.freeSlot 0)) =
      some (15, true) := by
    rw [← hst]
    decide +kernel
  obtain ⟨s, hs, heq⟩ := Option.map_eq_some_iff.mp hspan
  obtain ⟨hcap, hfree⟩ := Prod.mk.inj heq
  exact h 1 (by decide) _ hcall rfl 1 hlist ⟨s, hs, 0, by omega, hfree⟩

end CentralSystem

end Ammalloc
