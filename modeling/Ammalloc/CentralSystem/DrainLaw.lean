import Ammalloc.CentralCache.DrainBudget
import Ammalloc.CentralSystem.Callers

set_option relaxedAutoImplicit false
set_option autoImplicit false

/-!
# The budget law of `DrainTransferCaches`

A drain among any number of other calls spends no more than its budget, wraps nowhere and ends
after a bounded number of its own steps. With nothing else running it empties the TransferCaches
greedily from the largest class down.

## Main definitions

* `Ammalloc.CentralSystem.DrainedTo` — the outcome of an undisturbed drain.
* `Ammalloc.CentralSystem.DrainInv` — what is known of a drain during a run.

## Main results

* `Ammalloc.CentralSystem.drain_budget_law`.
-/

namespace Ammalloc

open SizeClass (kNumSizeClasses)
open CentralCache (Budget Draining bytesFrom drainFuel drainTarget maxRing)

namespace CentralSystem

variable {n t : ℕ} {hardened : Bool} {st : CentralSystem}

/-! ## The drain -/

/-- **The outcome of an undisturbed drain** from `st` to `st'`: `k j` objects have left class
`j`. -/
structure DrainedTo (M : ℕ) (st st' : CentralSystem) (returned : ℕ) (k : ℕ → ℕ) : Prop where
  /-- The result is the sum over the classes of what they gave. -/
  sum : returned = ∑ j ∈ Finset.range kNumSizeClasses, k j * SizeClass.size j
  le : returned ≤ M
  /-- The coldest objects of every class have left. -/
  coldest : ∀ j < kNumSizeClasses, k j ≤ (st.central.buckets j).transferCache.size ∧
    (st'.central.buckets j).transferCache.contents =
      (st.central.buckets j).transferCache.contents.drop (k j)
  /-- The classes are served from the largest down. -/
  order : ∀ j < kNumSizeClasses,
    k j = drainTarget (fun i => (st.central.buckets i).transferCache.size) M k j
  /-- A class that keeps an object is larger than the unspent budget. -/
  left : ∀ j < kNumSizeClasses, (st'.central.buckets j).transferCache.size ≠ 0 →
    M - returned < SizeClass.size j
  all : M = sizeMax → ∀ j < kNumSizeClasses, (st'.central.buckets j).transferCache.size = 0
  /-- What has left is free in the bitmap of its span. -/
  free : ∀ j < kNumSizeClasses,
    ∀ a ∈ (st.central.buckets j).transferCache.contents.take (k j),
      st.central.Allocated (j, a) ∧ ¬ st'.central.Allocated (j, a) ∧
        ∀ i s m, st'.central.pageCache.spans i = some s → m < s.capacity → s.sizeClassIdx = j →
          s.slotAddr m = a → s.freeSlot m = true
  /-- Nothing else has moved. -/
  others : ∀ p : ℕ × ℕ, p.2 ∉ (st.central.buckets p.1).transferCache.contents.take (k p.1) →
    (st'.central.Allocated p ↔ st.central.Allocated p)

/-- The possessions of all callers and the calls of those other than `t` are as in `st`. -/
def SameClients (t : ℕ) (st st' : CentralSystem) : Prop :=
  ∀ u, (st'.clients u).held = (st.clients u).held ∧
    (u ≠ t → (st'.clients u).call = (st.clients u).call)

/-- What is known of the drain of `t` that was started in `st`, after the run `bs`: its frame keeps
the budget, and if no one else has moved, it has served the classes in order. -/
def DrainInv (n : ℕ) (hardened : Bool) (t M : ℕ) (st : CentralSystem) (bs : List CentralAction)
    (cf : CentralFrame) : Prop :=
  ∃ f, cf = .drain f ∧ Budget M f ∧
    ((∀ a ∈ bs, own t a = true) →
      ∃ k, Draining (fun j => (st.central.buckets j).transferCache.contents) M
          ((machine n hardened).run st bs).central f k ∧
        SameClients t st ((machine n hardened).run st bs))

/-- The steps a drain has left at most. -/
def frameFuel : CentralFrame → ℕ
  | .drain f => drainFuel f
  | _ => 0

/-- The bound on the steps of a drain. -/
def drainBound : ℕ := kNumSizeClasses * (5 * maxRing + 2)

/-- One step of the drain. -/
lemma DrainInv.own {M : ℕ} (ht : t < n) {bs : List CentralAction} (env : PageEnv)
    {cf : CentralFrame} (hinv : Inv n ((machine n hardened).run st bs))
    (hf : (((machine n hardened).run st bs).clients t).call = some cf)
    (h : DrainInv n hardened t M st bs cf) (hret : cf.returned = false) :
    ∃ f f', cf = .drain f ∧
      (((machine n hardened).run st (bs ++ [.step t env])).clients t).call = some (.drain f') ∧
      DrainInv n hardened t M st (bs ++ [.step t env]) (.drain f') ∧
      drainFuel f' < drainFuel f := by
  obtain ⟨f, rfl, hbudget, hseq⟩ := h
  obtain ⟨central, cf', hrun, hnext⟩ := next_own hinv hardened ht hf hret env
  obtain ⟨⟨c', f'⟩, hstep, hcf⟩ := exists_ok_of_bind hrun
  obtain ⟨rfl, rfl⟩ := Prod.mk.inj (Except.ok.inj hcf)
  have hpc : f.pc ≠ .next 0 := by simpa [CentralFrame.returned] using hret
  obtain ⟨hbudget', hlt⟩ := hbudget.step hinv.central hpc hstep
  have hlast : (machine n hardened).run st (bs ++ [.step t env]) =
      { (machine n hardened).run st bs with central := c' }.startCall t (.drain f') := by
    rw [Machine.run_append]
    exact hnext
  refine ⟨f, f', rfl, ?_, ⟨f', rfl, hbudget', fun hown => ?_⟩, hlt⟩
  · rw [hlast, (startCall_client _ t t _).2, if_pos rfl]
  · obtain ⟨k, hdraining, hsame⟩ := hseq fun a ha => hown a (List.mem_append_left _ ha)
    obtain ⟨k', hdraining'⟩ := hdraining.step hbudget hinv.central hstep
    rw [hlast]
    refine ⟨k', hdraining', fun u => ?_⟩
    obtain ⟨hheld, hcall⟩ := startCall_client { (machine n hardened).run st bs with central := c' }
      t u (.drain f')
    refine ⟨hheld.trans (hsame u).1, fun hu => ?_⟩
    rw [hcall, if_neg hu]
    exact (hsame u).2 hu

/-- The progress of a drain that `t` has started in `st`. -/
lemma drain_progress {M : ℕ} (h : Inv n st) (hardened : Bool) (ht : t < n) (hM : M ≤ sizeMax)
    (hf : (st.clients t).call = some (.drain (.start M))) (as : List CentralAction) :
    (∃ bs f, bs <+: as ∧
        (((machine n hardened).run st bs).clients t).call = some (.drain f) ∧ f.pc = .next 0 ∧
        DrainInv n hardened t M st bs (.drain f)) ∨
      ∃ f, (((machine n hardened).run st as).clients t).call = some (.drain f) ∧ Budget M f ∧
        as.countP (own t) ≤ drainBound := by
  have hinv := h.run hardened
  have hstart : DrainInv n hardened t M st [] (.drain (.start M)) :=
    ⟨.start M, rfl, .start hM, fun _ =>
      ⟨fun _ => 0, .start M fun _ _ => rfl, fun _ => ⟨rfl, fun _ => rfl⟩⟩⟩
  have hother : ∀ bs a cf, own t a = false →
      (((machine n hardened).run st bs).clients t).call = some cf →
      DrainInv n hardened t M st bs cf →
      (((machine n hardened).run st (bs ++ [a])).clients t).call = some cf ∧
        DrainInv n hardened t M st (bs ++ [a]) cf := by
    rintro bs a cf ha hcall ⟨f, hcf, hbudget, -⟩
    refine ⟨?_, f, hcf, hbudget, fun hall => ?_⟩
    · rw [Machine.run_append]
      exact call_of_other ha hcall
    · rw [hall a (List.mem_append_right bs List.mem_cons_self)] at ha
      exact absurd ha (by simp)
  have hown : ∀ bs a cf, own t a = true →
      (((machine n hardened).run st bs).clients t).call = some cf →
      DrainInv n hardened t M st bs cf → ¬ cf.returned = true →
      ∃ cf', (((machine n hardened).run st (bs ++ [a])).clients t).call = some cf' ∧
        DrainInv n hardened t M st (bs ++ [a]) cf' ∧ frameFuel cf' < frameFuel cf := by
    intro bs a cf ha hcall hj hret
    cases a with
    | step u env =>
      obtain rfl : u = t := by simpa [own] using ha
      obtain ⟨f, f', rfl, hcall', hj', hlt⟩ :=
        DrainInv.own ht env (hinv bs) hcall hj (by simpa using hret)
      exact ⟨.drain f', hcall', hj', hlt⟩
    | _ => exact absurd ha (by simp [own])
  rcases Machine.progress (fun s : CentralSystem => (s.clients t).call) (own t)
    (DrainInv n hardened t M st)
    (fun f => f.returned = true) frameFuel hf hstart hother hown as with
    ⟨bs, cf, hbs, hcall, hret, hj⟩ | ⟨cf, hcall, hret, hj, hle⟩
  · obtain ⟨f, rfl, -⟩ := id hj
    exact Or.inl ⟨bs, f, hbs, hcall, by simpa [CentralFrame.returned] using hret, hj⟩
  · obtain ⟨f, rfl, hbudget, -⟩ := hj
    have hbound := CentralCache.drainFuel_start_le M
    change drainFuel f + _ ≤ drainFuel (.start M) at hle
    exact Or.inr ⟨f, hcall, hbudget, by unfold drainBound; omega⟩

/-- Where no buffer of `t` is in use, the objects outside are the same. -/
lemma SameClients.outObjs_eq {st' : CentralSystem} (h : SameClients t st st')
    (h₀ : (st.clients t).inFlight = 0) (h₁ : (st'.clients t).inFlight = 0) :
    outObjs n st' = outObjs n st := by
  refine Finset.sum_congr rfl fun u _ => ?_
  rw [Client.objs, Client.objs, (h u).1]
  congr 1
  by_cases hu : u = t
  · subst hu
    rw [h₀, h₁]
  · rw [Client.inFlight, (h u).2 hu]
    rfl

/-- The slots that are not free, as counts. -/
lemma Inv.allocated_iff_count (h : Inv n st) {p : ℕ × ℕ} (hp : p.1 < kNumSizeClasses) :
    st.central.Allocated p ↔
      0 < (st.central.buckets p.1).transferCache.contents.count p.2 + (outObjs n st).count p := by
  rw [← h.central.allocated, ← Multiset.count_pos, Multiset.count_add,
    CentralCache.count_ringObjs hp]

/-- **The end of an undisturbed drain.** -/
lemma drainedTo {M : ℕ} {st' : CentralSystem} {f : DrainFrame} {k : ℕ → ℕ} (h : Inv n st)
    (h' : Inv n st') (hbudget : Budget M f) (hpc : f.pc = .next 0)
    (hdraining :
      Draining (fun j => (st.central.buckets j).transferCache.contents) M st'.central f k)
    (hout : outObjs n st' = outObjs n st) : DrainedTo M st st' f.drainedBytes k := by
  have hserved : ∀ j < kNumSizeClasses,
      k j = drainTarget (fun i => (st.central.buckets i).transferCache.size) M k j := by
    intro j hj
    have hposition := hdraining.position
    have hs := hdraining.served j
    simp only [hpc, DrainPc.cls, RingBuffer.length_contents] at hposition hs
    rcases Nat.eq_zero_or_pos j with rfl | hpos
    · exact hposition.1 hj
    · exact hs hpos hj
  have hreturned : f.drainedBytes = bytesFrom k 0 := by
    have hposition := hdraining.position
    simp only [hpc] at hposition
    exact hposition.2
  have hcontents := hdraining.contents
  have hle : ∀ j < kNumSizeClasses, k j ≤ (st.central.buckets j).transferCache.size := by
    intro j hj
    have := hdraining.le j hj
    rwa [RingBuffer.length_contents] at this
  have hleft : ∀ j < kNumSizeClasses, (st'.central.buckets j).transferCache.size ≠ 0 →
      k j < (st.central.buckets j).transferCache.size := by
    intro j hj hne
    have hlen := congrArg List.length (hcontents j hj)
    rw [RingBuffer.length_contents, List.length_drop, RingBuffer.length_contents] at hlen
    omega
  -- an object of class `j` is counted in what left, in what stays, and outside
  have hcount : ∀ p : ℕ × ℕ, p.1 < kNumSizeClasses →
      (st.central.buckets p.1).transferCache.contents.count p.2 =
        ((st.central.buckets p.1).transferCache.contents.take (k p.1)).count p.2 +
          (st'.central.buckets p.1).transferCache.contents.count p.2 := by
    intro p hp
    rw [hcontents p.1 hp, ← List.count_append, List.take_append_drop]
  refine ⟨?_, ?_, fun j hj => ⟨hle j hj, hcontents j hj⟩, hserved, fun j hj hne => ?_,
    fun hM j hj => ?_, fun j hj a ha => ?_, fun p hp => ?_⟩
  · rw [hreturned, bytesFrom, Nat.Ico_zero_eq_range]
  · exact hbudget.drained_le_budget
  · rw [hreturned]
    exact (CentralCache.lt_size_of_left hj (hserved j hj) (hleft j hj hne)).2
  · by_contra hne
    exact (CentralCache.lt_size_of_left hj (hserved j hj) (hleft j hj hne)).1 hM
  · have hbooks := Multiset.nodup_iff_count_le_one.mp h.central.books (j, a)
    rw [Multiset.count_add, CentralCache.count_ringObjs hj, hcount (j, a) hj] at hbooks
    have hmem := List.count_pos_iff.mpr ha
    have hnot : ¬ st'.central.Allocated (j, a) := by
      rw [h'.allocated_iff_count hj, hout]
      simp only at hbooks ⊢
      omega
    refine ⟨?_, hnot, fun i s m hs hm hcls haddr => ?_⟩
    · rw [h.allocated_iff_count hj, hcount (j, a) hj]
      simp only
      omega
    · have hiff := h'.central.allocated_slot_iff hs hm
      rw [hcls, haddr] at hiff
      simpa using (not_congr hiff).mp hnot
  · by_cases hj : p.1 < kNumSizeClasses
    · rw [h'.allocated_iff_count hj, h.allocated_iff_count hj, hout, hcount p hj,
        List.count_eq_zero_of_not_mem hp, Nat.zero_add]
    · exact ⟨fun hp => absurd hp.1 hj, fun hp => absurd hp.1 hj⟩

/-- **The budget law.** In every reachable state, let `t` call `DrainTransferCaches(M)`.

With nothing else running, the call returns, and its outcome is `DrainedTo`: exactly what it
detached, at most `M`, the coldest objects, from the largest class down, back in the bitmaps, until
every class that is not empty is larger than the rest of the budget.

With anything else in between, the call has returned at most `M`, or it is in progress, has taken
at most `drainBound` steps, and no batch it releases is larger than its remaining budget. -/
theorem drain_budget_law (n : ℕ) (hardened backed : Bool) (as₀ : List CentralAction) {t M : ℕ}
    (ht : t < n) (hM : M ≤ sizeMax)
    (hidle : (((machine n hardened).run (create backed) as₀).clients t).call = none) :
    let st := (machine n hardened).run (create backed) as₀
    let run := (machine n hardened).run (next n hardened st (.drainTransferCaches t M))
    (∀ envs : List PageEnv, drainBound < envs.length →
      ∃ es f k, es <+: envs ∧
        ((run (es.map (.step t))).clients t).call = some (.drain f) ∧ f.pc = .next 0 ∧
        DrainedTo M st (run (es.map (.step t))) f.drainedBytes k) ∧
    ∀ as,
      (∃ bs f, bs <+: as ∧ ((run bs).clients t).call = some (.drain f) ∧ f.pc = .next 0 ∧
        f.drainedBytes ≤ M) ∨
      ∃ f, ((run as).clients t).call = some (.drain f) ∧ as.countP (own t) ≤ drainBound ∧
        f.drainedBytes ≤ M ∧ ∀ idx remaining detached pc,
          f.pc = .release idx remaining detached pc → f.unbounded = false →
            detached * SizeClass.size idx ≤ f.maxBytes := by
  intro st run
  have hst : Inv n st := run_inv n hardened backed as₀
  have hstart : next n hardened st (.drainTransferCaches t M) =
      st.startCall t (.drain (.start M)) := if_pos ⟨ht, hidle⟩
  have hinv : Inv n (st.startCall t (.drain (.start M))) := hstart ▸ next_inv hst _
  have hcall : ((st.startCall t (.drain (.start M))).clients t).call =
      some (.drain (.start M)) := by
    rw [(startCall_client st t t _).2, if_pos rfl]
  have hrun : run = (machine n hardened).run (st.startCall t (.drain (.start M))) := by
    show (machine n hardened).run (next n hardened st (.drainTransferCaches t M)) = _
    rw [hstart]
  rw [hrun]
  refine ⟨fun envs hlen => ?_, fun as => ?_⟩
  · have hown : (envs.map (CentralAction.step t)).countP (own t) = envs.length := by
      rw [List.countP_eq_length.mpr, List.length_map]
      intro a ha
      obtain ⟨env, -, rfl⟩ := List.mem_map.mp ha
      simp [own]
    rcases drain_progress hinv hardened ht hM hcall (envs.map (.step t)) with
      ⟨bs, f, ⟨cs, hcs⟩, hf, hpc, g, hg, hbudget, hseq⟩ | ⟨f, -, -, hle⟩
    · obtain ⟨es, es', rfl, rfl, -⟩ := List.map_eq_append_iff.mp hcs.symm
      obtain rfl : f = g := CentralFrame.drain.inj hg
      obtain ⟨k, hdraining, hsame⟩ := hseq fun a ha => by
        obtain ⟨env, -, rfl⟩ := List.mem_map.mp ha
        simp [own]
      refine ⟨es, f, k, List.prefix_append es es', hf, hpc, ?_⟩
      refine drainedTo hst (hinv.run hardened _) hbudget hpc hdraining ?_
      -- the buffers of `t` are empty before, at the start and at the end of the call
      have hbefore : SameClients t st (st.startCall t (.drain (.start M))) := fun u =>
        ⟨(startCall_client st t u _).1, fun hu => by rw [(startCall_client st t u _).2, if_neg hu]⟩
      have h₀ : (st.clients t).inFlight = 0 := by
        rw [Client.inFlight, hidle]
        rfl
      have h₁ : ((st.startCall t (.drain (.start M))).clients t).inFlight = 0 := by
        rw [Client.inFlight, hcall]
        rfl
      rw [hsame.outObjs_eq h₁ ?_, hbefore.outObjs_eq h₀ h₁]
      rw [Client.inFlight, hf]
      simp [CentralFrame.objs, DrainFrame.objs, hpc]
    · omega
  · rcases drain_progress hinv hardened ht hM hcall as with
      ⟨bs, f, hbs, hf, hpc, g, hg, hbudget, -⟩ | ⟨f, hf, hbudget, hle⟩
    · obtain rfl : f = g := CentralFrame.drain.inj hg
      exact Or.inl ⟨bs, f, hbs, hf, hpc, hbudget.drained_le_budget⟩
    · refine Or.inr ⟨f, hf, hle, hbudget.drained_le_budget, ?_⟩
      intro idx remaining detached pc hpc hb
      exact (hbudget.sub_batch hpc hb).1

/-- A caller fetches two objects of each of the two largest classes. Each call leaves two more,
which it has prefetched, in the TransferCache of its class. -/
def filledRings : List CentralAction :=
  let env (page i j : ℕ) : PageEnv :=
    { sysAlloc := [some page], tryNew := [some i, some j], radixNode := List.replicate 6 true }
  [.fetchBatch 0 39 2, .step 0 {}, .step 0 {}, .step 0 (env 1024 1 2), .step 0 {}, .step 0 {},
    .step 0 {}, .step 0 {},
    .fetchBatch 0 38 2, .step 0 {}, .step 0 {}, .step 0 (env 2048 2 3), .step 0 {}, .step 0 {},
    .step 0 {}, .step 0 {}]

/-- A budget that ends inside the second class: both objects of 32768 bytes are drained, and one of
the two of 28672 bytes. -/
theorem drain_budget_law_filledRings :
    let st := (machine 1 true).run (create true) filledRings
    let run := (machine 1 true).run (next 1 true st (.drainTransferCaches 0 100000))
    (st.central.buckets 39).transferCache.contents = [4259856, 4292624] ∧
      (st.central.buckets 38).transferCache.contents = [8445968, 8474640] ∧
      ∃ es f k, es <+: List.replicate (drainBound + 1) ({} : PageEnv) ∧
        ((run (es.map (.step 0))).clients 0).call = some (.drain f) ∧ f.pc = .next 0 ∧
        DrainedTo 100000 st (run (es.map (.step 0))) f.drainedBytes k ∧
        k 39 = 2 ∧ k 38 = 1 ∧ f.drainedBytes = 2 * 32768 + 28672 := by
  have hidle : (((machine 1 true).run (create true) filledRings).clients 0).call = none := by
    decide +kernel
  obtain ⟨es, f, k, hes, hf, hpc, h⟩ :=
    (drain_budget_law 1 true true filledRings (t := 0) (M := 100000) (by decide) (by decide)
      hidle).1 (List.replicate (drainBound + 1) {})
      (by rw [List.length_replicate]; exact Nat.lt_succ_self _)
  refine ⟨by decide +kernel, by decide +kernel, es, f, k, hes, hf, hpc, h, ?_⟩
  have hsizes : ∀ j < 40, (((machine 1 true).run (create true) filledRings).central.buckets
      j).transferCache.size = if j < 38 then 0 else 2 := by
    decide +kernel
  have h39 : k 39 = 2 := by
    have hnone : bytesFrom k (39 + 1) = 0 := by simp [bytesFrom, kNumSizeClasses]
    rw [h.order 39 (by decide), drainTarget, hnone, hsizes 39 (by decide)]
    decide
  have h38 : k 38 = 1 := by
    have hlarger : bytesFrom k (38 + 1) = 65536 := by
      rw [bytesFrom, show Finset.Ico (38 + 1) kNumSizeClasses = {39} by decide,
        Finset.sum_singleton, h39]
      decide
    rw [h.order 38 (by decide), drainTarget, hlarger, hsizes 38 (by decide)]
    decide
  have hrest : ∀ j ∈ Finset.range 38, k j * SizeClass.size j = 0 := by
    intro j hj
    have hlt := Finset.mem_range.mp hj
    have hle := (h.coldest j (by unfold kNumSizeClasses; omega)).1
    rw [hsizes j (by omega), if_pos hlt] at hle
    rw [Nat.le_zero.mp hle, Nat.zero_mul]
  refine ⟨h39, h38, ?_⟩
  rw [h.sum, show kNumSizeClasses = 38 + 1 + 1 from rfl, Finset.sum_range_succ,
    Finset.sum_range_succ, Finset.sum_eq_zero hrest, h38, h39]
  decide

end CentralSystem

end Ammalloc
