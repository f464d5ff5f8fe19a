import Ammalloc.CentralSystem.Links

set_option relaxedAutoImplicit false
set_option autoImplicit false

/-!
# What `FetchBatch` delivers

A `FetchBatch` among any number of other calls returns after a bounded number of its own steps. It
returns a canonical batch of distinct objects, as many as requested unless one of its own calls of
`AllocSpan` has returned null.

## Main definitions

* `Ammalloc.LinkedSystem.AllocSpanFailed` — `AllocSpan` has returned null to the call of a caller.
* `Ammalloc.LinkedSystem.Delivered` — the outcome of a `FetchBatch`.

## Main results

* `Ammalloc.LinkedSystem.fetch_delivers`.
-/

namespace Ammalloc

open SizeClass (kNumSizeClasses)
open Intrusive (Heap FreeChain ObjectBatch)

namespace LinkedSystem

variable {n t idx m : ℕ} {hardened : Bool} {s : LinkedSystem}

/-- The steps of caller `t`. -/
def own (t : ℕ) : LinkedAction → Bool
  | .act a => CentralSystem.own t a
  | .write _ _ _ => false

/-- What `FetchBatch` returns: the empty batch if nothing could be fetched. -/
def fetchResult (idx : ℕ) (chain : FreeChain) : ObjectBatch :=
  if chain.count = 0 then {} else ⟨chain.head, chain.tail, chain.count, idx⟩

/-- In the run `bs` from `s`, the call of `t` has got a null from `AllocSpan`. -/
def AllocSpanFailed (n : ℕ) (hardened : Bool) (t : ℕ) (s : LinkedSystem) (bs : List LinkedAction) :
    Prop :=
  ∃ bs₀ env f pages, bs₀ ++ [.act (.step t env)] <+: bs ∧
    (((machine n hardened).run s bs₀).sys.clients t).call = some (.fetch f) ∧ f.pc = .allocSpan ∧
    (((machine n hardened).run s bs₀).sys.central.pageCache.load env).allocSpan
      (SizeClass.getMovePageNum (SizeClass.size f.idx)) = .ok (none, pages)

/-- **The outcome of a `FetchBatch`** for `m` objects of class `idx`: the batch, and its nodes. -/
structure Delivered (idx m : ℕ) (failed : Prop) (heap : Heap) (batch : ObjectBatch)
    (nodes : List ℕ) : Prop where
  canonical : batch.isCanonical heap = true
  /-- The chain is terminated, has these nodes from head to tail and no others, and is tagged. -/
  holds : batch.descriptor.Holds heap ⟨nodes, if nodes = [] then kNumSizeClasses else idx⟩
  distinct : nodes.Nodup
  count_le : batch.count ≤ m
  full : batch.count < m → failed
  empty : batch.count = 0 → batch = {}

/-- What is known of the `FetchBatch` of `t` that was started in `s`, after the run `bs`. -/
def FetchInv (n : ℕ) (hardened : Bool) (t idx m : ℕ) (s : LinkedSystem) (bs : List LinkedAction)
    (cf : CentralFrame) : Prop :=
  ∃ f, cf = .fetch f ∧ f.idx = idx ∧ f.fetchNum = m ∧
    CentralCache.Delivery (AllocSpanFailed n hardened t s bs) f

/-- The steps a `FetchBatch` has left at most. -/
def frameFuel : CentralFrame → ℕ
  | .fetch f => CentralCache.fetchFuel f
  | _ => 0

/-- The bound on the steps of a `FetchBatch` for `m` objects. -/
def fetchBound (m : ℕ) : ℕ := 10 * m + 5

/-- A failure stays in the history. -/
lemma AllocSpanFailed.append {bs : List LinkedAction} (h : AllocSpanFailed n hardened t s bs)
    (cs : List LinkedAction) : AllocSpanFailed n hardened t s (bs ++ cs) := by
  obtain ⟨bs₀, env, f, pages, hpre, h⟩ := h
  exact ⟨bs₀, env, f, pages, hpre.trans (List.prefix_append bs cs), h⟩

/-- No one else touches the call. -/
lemma call_of_other {a : LinkedAction} (ha : own t a = false) {f : CentralFrame}
    (hf : (s.sys.clients t).call = some f) :
    ((next n hardened s a).sys.clients t).call = some f := by
  cases a with
  | act a =>
    rw [next_sys]
    exact CentralSystem.call_of_other ha hf
  | write u obj v =>
    simp only [next]
    split_ifs <;> exact hf

/-- One step of the `FetchBatch`. -/
lemma FetchInv.own (ht : t < n) {bs : List LinkedAction} (env : PageEnv) {cf : CentralFrame}
    (hinv : Inv n ((machine n hardened).run s bs))
    (hf : (((machine n hardened).run s bs).sys.clients t).call = some cf)
    (h : FetchInv n hardened t idx m s bs cf) (hret : cf.returned = false) :
    ∃ cf', (((machine n hardened).run s (bs ++ [.act (.step t env)])).sys.clients t).call =
        some cf' ∧
      FetchInv n hardened t idx m s (bs ++ [.act (.step t env)]) cf' ∧
      frameFuel cf' < frameFuel cf := by
  obtain ⟨f, rfl, hidx, hnum, hdelivery⟩ := h
  obtain ⟨central, cf', hrun, hpost, hinv'⟩ := hinv.sys.step hardened ht hf env
  obtain ⟨⟨c', f'⟩, hstep, hcf⟩ := exists_ok_of_bind hrun
  obtain ⟨rfl, rfl⟩ := Prod.mk.inj (Except.ok.inj hcf)
  obtain ⟨g, hg, hidx', hnum', -⟩ := hpost.fetch f rfl
  obtain rfl : f' = g := CentralFrame.fetch.inj hg
  have hpc : f.pc ≠ .done := by simpa [CentralFrame.returned] using hret
  have hlast : ((machine n hardened).run s (bs ++ [.act (.step t env)])).sys =
      { ((machine n hardened).run s bs).sys with central := c' }.startCall t (.fetch f') := by
    rw [Machine.run_append]
    show (next n hardened _ (.act (.step t env))).sys = _
    rw [next_sys]
    simp only [CentralSystem.next, if_pos ht, hf, hret, hrun, Bool.false_eq_true, if_false]
  obtain ⟨hdelivery', hlt⟩ := hdelivery.step (hinv.sys.calls t ht _ hf)
    (hinv.sys.central_call ht hf) hpc (fun hfail => hfail.append [.act (.step t env)])
    (fun hpc' hnull => ⟨bs, env, f, hnull.choose, List.prefix_rfl, hf, hpc', hnull.choose_spec⟩)
    hpost.ok hstep
  refine ⟨.fetch f', ?_, ⟨f', rfl, hidx'.trans hidx, hnum'.trans hnum, hdelivery'⟩, hlt⟩
  rw [hlast, (CentralSystem.startCall_client _ t t _).2, if_pos rfl]

/-- The progress of a `FetchBatch` that `t` has started in `s`. -/
lemma fetch_progress (h : Inv n s) (hardened : Bool) (ht : t < n) (hm : 1 ≤ m)
    (hf : (s.sys.clients t).call = some (.fetch (.start idx m))) (as : List LinkedAction) :
    (∃ bs f, bs <+: as ∧ (((machine n hardened).run s bs).sys.clients t).call = some (.fetch f) ∧
        f.pc = .done ∧ FetchInv n hardened t idx m s bs (.fetch f)) ∨
      ∃ f, (((machine n hardened).run s as).sys.clients t).call = some (.fetch f) ∧ f.pc ≠ .done ∧
        FetchInv n hardened t idx m s as (.fetch f) ∧ as.countP (own t) ≤ fetchBound m := by
  have hinv := h.run hardened
  have hgrab : (FetchFrame.start idx m).pc = .grab := if_neg (by omega)
  have hstart : FetchInv n hardened t idx m s [] (.fetch (.start idx m)) := by
    refine ⟨_, rfl, rfl, rfl, fun pc hpc => ?_, fun hg => ?_⟩
    · rw [hgrab] at hpc
      exact absurd hpc (by simp)
    · rw [hgrab] at hg
      exact absurd hg (by simp [FetchPc.Gathered])
  have hother : ∀ bs a cf, own t a = false →
      (((machine n hardened).run s bs).sys.clients t).call = some cf →
      FetchInv n hardened t idx m s bs cf →
      (((machine n hardened).run s (bs ++ [a])).sys.clients t).call = some cf ∧
        FetchInv n hardened t idx m s (bs ++ [a]) cf := by
    rintro bs a cf ha hcall ⟨f, hcf, hidx, hnum, hdelivery⟩
    refine ⟨?_, f, hcf, hidx, hnum, hdelivery.unfinished, fun hg => ?_⟩
    · rw [Machine.run_append]
      exact call_of_other ha hcall
    · exact (hdelivery.delivered hg).imp_right fun hfail => hfail.append [a]
  have hown : ∀ bs a cf, own t a = true →
      (((machine n hardened).run s bs).sys.clients t).call = some cf →
      FetchInv n hardened t idx m s bs cf → ¬ cf.returned = true →
      ∃ cf', (((machine n hardened).run s (bs ++ [a])).sys.clients t).call = some cf' ∧
        FetchInv n hardened t idx m s (bs ++ [a]) cf' ∧ frameFuel cf' < frameFuel cf := by
    intro bs a cf ha hcall hj hret
    obtain ⟨env, rfl⟩ : ∃ env, a = .act (.step t env) := by
      rcases a with a | ⟨u, obj, v⟩
      · cases a <;> simp_all [own, CentralSystem.own]
      · cases ha
    exact FetchInv.own ht env (hinv bs) hcall hj (by simpa using hret)
  rcases Machine.progress (fun s : LinkedSystem => (s.sys.clients t).call) (own t)
    (FetchInv n hardened t idx m s) (fun f => f.returned = true) frameFuel hf hstart hother hown
    as with ⟨bs, cf, hbs, hcall, hret, hj⟩ | ⟨cf, hcall, hret, hj, hle⟩
  · obtain ⟨f, rfl, -⟩ := id hj
    exact Or.inl ⟨bs, f, hbs, hcall, by simpa [CentralFrame.returned] using hret, hj⟩
  · obtain ⟨f, rfl, -⟩ := id hj
    have hfuel : frameFuel (.fetch (.start idx m)) = fetchBound m := by
      simp only [frameFuel, CentralCache.fetchFuel, hgrab]
      rfl
    rw [hfuel] at hle
    exact Or.inr ⟨f, hcall, by simpa [CentralFrame.returned] using hret, hj, by omega⟩

/-- The batch of a `FetchBatch` that returns. -/
lemma delivered {failed : Prop} {f : FetchFrame} (h : Inv n s) (ht : t < n)
    (hf : (s.sys.clients t).call = some (.fetch f)) (hpc : f.pc = .done)
    (hdelivery : CentralCache.Delivery failed f) :
    Delivered f.idx f.fetchNum failed s.heap (fetchResult f.idx (s.chains t)) f.chain := by
  have hok : s.sys.central.FetchOk f := h.sys.calls t ht _ hf
  have hholds := FreeChain.tag_holds (h.chains t ht f hf) hok.idx_lt
  change (fetchResult f.idx (s.chains t)).descriptor.Holds s.heap _ at hholds
  have hcount : (fetchResult f.idx (s.chains t)).count = f.chain.length := hholds.count
  refine ⟨ObjectBatch.isCanonical_of_holds hholds, hholds,
    FetchFrame.chain_nodup (h.sys.fetch_objs ht hf).1, ?_, fun hlt => ?_, fun hzero => ?_⟩
  · rw [hcount]
    exact hok.chain_length_le
  · refine (hdelivery.delivered (by simp [hpc, FetchPc.Gathered])).resolve_left ?_
    omega
  · exact ObjectBatch.eq_empty hholds (hholds.nodes_eq_nil hzero)

/-- **`FetchBatch` delivers in full unless `AllocSpan` fails.** In every reachable state, let `t`
call `FetchBatch(idx, m)`, with anything happening in between its steps.

The call has returned a canonical batch of distinct objects of the class, `m` of them unless an
`AllocSpan` of this call has returned null, and the empty batch if there is none; or it is in
progress and has taken at most `fetchBound m` steps. The scratch array holds at most
`kMaxBatchSize` pointers all along. -/
theorem fetch_delivers (n : ℕ) (hardened backed : Bool) (heap : Heap) (as₀ : List LinkedAction)
    {t idx m : ℕ} (ht : t < n) (hidx : idx < kNumSizeClasses) (hm : 1 ≤ m)
    (hmax : m ≤ SizeClass.kMaxBatchSize)
    (hidle : (((machine n hardened).run (create backed heap) as₀).sys.clients t).call = none) :
    let s := (machine n hardened).run (create backed heap) as₀
    let started := next n hardened s (.act (.fetchBatch t idx m))
    let run := (machine n hardened).run started
    ∀ as,
      (∃ bs f, bs <+: as ∧ ((run bs).sys.clients t).call = some (.fetch f) ∧ f.pc = .done ∧
        Delivered idx m (AllocSpanFailed n hardened t started bs) (run bs).heap
          (fetchResult idx ((run bs).chains t)) f.chain ∧
        f.grabbed.length ≤ SizeClass.kMaxBatchSize ∧
        f.prefetched.length ≤ SizeClass.kMaxBatchSize) ∨
      ∃ f, ((run as).sys.clients t).call = some (.fetch f) ∧ f.pc ≠ .done ∧
        as.countP (own t) ≤ fetchBound m ∧
        f.grabbed.length ≤ SizeClass.kMaxBatchSize ∧
        f.prefetched.length ≤ SizeClass.kMaxBatchSize := by
  intro s started run as
  have hs : Inv n s := (create_inv n backed heap).run hardened as₀
  have hstarted : Inv n started := next_inv hs _
  have hcall : (started.sys.clients t).call = some (.fetch (.start idx m)) := by
    have hguard : t < n ∧ (s.sys.clients t).call = none ∧ idx < kNumSizeClasses ∧
        m ≤ SizeClass.kMaxBatchSize := ⟨ht, hidle, hidx, hmax⟩
    show ((CentralSystem.next n hardened s.sys (.fetchBatch t idx m)).clients t).call = _
    rw [CentralSystem.next, if_pos hguard, (CentralSystem.startCall_client _ t t _).2, if_pos rfl]
  -- the scratch array in any state of the call
  have hscratch : ∀ bs f, ((run bs).sys.clients t).call = some (.fetch f) → f.fetchNum = m →
      f.grabbed.length ≤ SizeClass.kMaxBatchSize ∧
        f.prefetched.length ≤ SizeClass.kMaxBatchSize := by
    intro bs f hf hnum
    have hok : (run bs).sys.central.FetchOk f := (hstarted.run hardened bs).sys.calls t ht _ hf
    have hgrabbed := hok.grabbed_le
    have hprefetched := hok.prefetched_length_le
    omega
  rcases fetch_progress hstarted hardened ht hm hcall as with
    ⟨bs, f, hbs, hf, hpc, g, hg, hgi, hnum, hdelivery⟩ | ⟨f, hf, hpc, ⟨g, hg, -, hnum, -⟩, hle⟩
  · obtain rfl : f = g := CentralFrame.fetch.inj hg
    have hdelivered := delivered (hstarted.run hardened bs) ht hf hpc hdelivery
    rw [hgi, hnum] at hdelivered
    exact Or.inl ⟨bs, f, hbs, hf, hpc, hdelivered, hscratch bs f hf hnum⟩
  · obtain rfl : f = g := CentralFrame.fetch.inj hg
    exact Or.inr ⟨f, hf, hpc, hle, hscratch as f hf hnum⟩

/-- Caller 1 fetches two objects of the largest class. The call maps a span and leaves two more
objects, which it has prefetched, in the TransferCache. -/
def firstSpan : List LinkedAction :=
  let env : PageEnv :=
    { sysAlloc := [some 1024], tryNew := [some 1, some 2], radixNode := List.replicate 6 true }
  ([.fetchBatch 1 39 2, .step 1 {}, .step 1 {}, .step 1 env, .step 1 {}, .step 1 {}, .step 1 {},
    .step 1 {}] : List CentralAction).map .act

/-- The steps of a call of caller 0, among those of a call of caller 1. The span list runs out of
objects, and the memory system has another span. -/
def secondSpan : List LinkedAction :=
  let env : PageEnv :=
    { sysAlloc := [some 2048], tryNew := [some 2, some 3], radixNode := List.replicate 6 true }
  ([.step 0 {}, .fetchBatch 1 39 2, .step 0 {}, .step 1 {}, .step 0 env, .step 0 {}, .step 1 {},
    .step 0 {}, .step 0 {}] : List CentralAction).map .act

/-- A call for eight objects is served by the TransferCache and by the span list, and returns all
eight. -/
theorem fetch_delivers_eight :
    let s := (machine 2 true).run (create true fun _ => 0) firstSpan
    let started := next 2 true s (.act (.fetchBatch 0 39 8))
    let last := (machine 2 true).run started secondSpan
    (s.sys.central.buckets 39).transferCache.contents = [4259856, 4292624] ∧
      (∃ f, (last.sys.clients 0).call = some (.fetch f) ∧ f.pc = .done) ∧
      (fetchResult 39 (last.chains 0)).count = 8 ∧
      Delivered 39 8 (AllocSpanFailed 2 true 0 started secondSpan) last.heap
        (fetchResult 39 (last.chains 0))
        [4489232, 4456464, 4423696, 4390928, 4358160, 4325392, 4292624, 4259856] := by
  have hidx : 39 < kNumSizeClasses := by decide
  have hidle : (((machine 2 true).run (create true fun _ => 0) firstSpan).sys.clients 0).call =
      none := by
    decide +kernel
  have hring : (((machine 2 true).run (create true fun _ => 0) firstSpan).sys.central.buckets
      39).transferCache.contents = [4259856, 4292624] := by
    decide +kernel
  have hcount : (fetchResult 39 (((machine 2 true).run (next 2 true ((machine 2 true).run
      (create true fun _ => 0) firstSpan) (.act (.fetchBatch 0 39 8))) secondSpan).chains
      0)).count =
        8 := by
    decide +kernel
  have hchain : (((machine 2 true).run (next 2 true ((machine 2 true).run
      (create true fun _ => 0) firstSpan) (.act (.fetchBatch 0 39 8))) secondSpan).sys.clients
      0).call.elim [] (fun | .fetch f => f.chain | _ => []) =
        [4489232, 4456464, 4423696, 4390928, 4358160, 4325392, 4292624, 4259856] := by
    decide +kernel
  -- the call returns with the last step, and not before
  have hreturned : ∀ k ≤ 9, (((machine 2 true).run (next 2 true ((machine 2 true).run
      (create true fun _ => 0) firstSpan) (.act (.fetchBatch 0 39 8)))
      (secondSpan.take k)).sys.clients 0).call.any CentralFrame.returned = decide (k = 9) := by
    decide +kernel
  rcases fetch_delivers 2 true true (fun _ => 0) firstSpan (t := 0) (m := 8) (by decide) hidx
      (by decide) (by decide) hidle secondSpan with
    ⟨bs, f, hbs, hf, hpc, hdelivered, -⟩ | ⟨f, hf, hpc, -⟩
  · have htake := List.prefix_iff_eq_take.mp hbs
    have hlen : bs.length = 9 := by
      have h := hreturned bs.length hbs.length_le
      rw [← htake, hf] at h
      simpa [CentralFrame.returned, hpc] using h
    obtain rfl : bs = secondSpan := by rw [htake, hlen]; rfl
    have hnodes : f.chain =
        [4489232, 4456464, 4423696, 4390928, 4358160, 4325392, 4292624, 4259856] := by
      rw [hf] at hchain
      exact hchain
    rw [hnodes] at hdelivered
    exact ⟨hring, ⟨f, hf, hpc⟩, hcount, hdelivered⟩
  · have h := hreturned 9 le_rfl
    rw [show secondSpan.take 9 = secondSpan from rfl, hf] at h
    simp [CentralFrame.returned, hpc] at h

end LinkedSystem

end Ammalloc
