import Ammalloc.FrontEnd

set_option relaxedAutoImplicit false
set_option autoImplicit false

/-!
# Cooperative trim requests

Controllers publish trim requests in one 64-bit word, a 63-bit epoch above a mode bit; owners
look at the word at their slow paths. This file relates the word, each owner's observed epoch
and the requests published since the owner last looked.

## Main definitions

* `Ammalloc.TcPc.answer` — the published request that a trim in progress answers.
* `Ammalloc.FrontEnd.EpochInv` — the word and the epochs count the publications.

## Main results

* `Ammalloc.FrontEnd.purge_request_iff` — what an execution of `HandleGlobalTrimRequest` does
  with the purge requests published since the previous one, and that it returns.
-/

namespace Ammalloc

open SizeClass (kNumSizeClasses)

/-! ## The word -/

namespace FrontEnd

/-- The word after a publication: the next epoch, modulo `2 ^ 63`, and the mode. -/
lemma nextRequest_eq (observed : ℕ) (mode : TrimMode) :
    nextRequest observed mode = 2 * ((observed / 2 + 1) % 2 ^ 63) + mode.toNat := by
  have hmode : mode.toNat < 2 ^ 1 := by cases mode <;> decide
  have hword : ((observed >>> 1 + 1) <<< 1) % 2 ^ 64 = ((observed / 2 + 1) % 2 ^ 63) <<< 1 := by
    simp only [Nat.shiftLeft_eq, Nat.shiftRight_eq_div_pow]
    omega
  rw [nextRequest, hword, ← Nat.shiftLeft_add_eq_or_of_lt hmode, Nat.shiftLeft_eq]
  omega

/-- The request word stays a 64-bit number. -/
lemma nextRequest_lt (observed : ℕ) (mode : TrimMode) : nextRequest observed mode < 2 ^ 64 := by
  rw [nextRequest_eq]
  cases mode <;> simp only [TrimMode.toNat] <;> omega

/-- A publication adds one to the epoch, modulo `2 ^ 63`. -/
lemma nextRequest_epoch (observed : ℕ) (mode : TrimMode) :
    nextRequest observed mode >>> 1 = (observed >>> 1 + 1) % 2 ^ 63 := by
  rw [nextRequest_eq]
  simp only [Nat.shiftRight_eq_div_pow]
  cases mode <;> simp only [TrimMode.toNat] <;> omega

/-- A publication stores its mode in the request word. -/
lemma ofRequest_nextRequest (observed : ℕ) (mode : TrimMode) :
    TrimMode.ofRequest (nextRequest observed mode) = mode := by
  rw [nextRequest_eq, TrimMode.ofRequest, Nat.and_one_is_mod]
  cases mode with
  | kReuse => exact if_neg (by simp only [TrimMode.toNat]; omega)
  | kRelease => exact if_pos (by simp only [TrimMode.toNat]; omega)

end FrontEnd

/-! ## The epoch of an owner -/

/-- The published request that a trim in progress answers: its epoch, mode and target. -/
def TcPc.answer : TcPc → Option (ℕ × TrimMode × ℕ)
  | .trim _ f => f.epoch.map fun e => (e, f.mode, f.targetBytes)
  | .trimCall _ f => f.epoch.map fun e => (e, f.mode, f.targetBytes)
  | _ => none

namespace ThreadCache

variable {tc : ThreadCache} {stat : ℕ}

@[simp] lemma setFreeList_observedTrimEpoch (idx : ℕ) (l : FreeList) :
    (tc.setFreeList idx l).observedTrimEpoch = tc.observedTrimEpoch := rfl

@[simp] lemma setOverages_observedTrimEpoch (idx n : ℕ) :
    (tc.setOverages idx n).observedTrimEpoch = tc.observedTrimEpoch := rfl

@[simp] lemma setQuota_observedTrimEpoch (idx n : ℕ) :
    (tc.setQuota stat idx n).1.observedTrimEpoch = tc.observedTrimEpoch := by
  unfold setQuota
  dsimp only
  split_ifs <;> rfl

/-- A step that neither begins nor ends the answer to a request. -/
def SameEpoch (tc : ThreadCache) (pc : TcPc) (out : TcOut) : Prop :=
  out.pc.answer = pc.answer ∧ out.tc.observedTrimEpoch = tc.observedTrimEpoch

/-- The beginning of `Allocate` leaves the epoch alone. -/
lemma allocate_sameEpoch (idx : ℕ) : SameEpoch tc .idle (tc.allocate stat idx) := by
  unfold allocate
  split <;> exact ⟨rfl, rfl⟩

/-- The beginning of `Deallocate` leaves the epoch alone. -/
lemma deallocate_sameEpoch (ptr idx : ℕ) : SameEpoch tc .idle (tc.deallocate stat ptr idx) := by
  unfold deallocate
  dsimp only
  refine ⟨?_, rfl⟩
  dsimp only
  split <;> rfl

/-- The end of `DeallocateSlowPath` leaves the epoch alone. -/
lemma overflowEnd_sameEpoch (idx : ℕ) : SameEpoch tc .idle (tc.overflowEnd stat idx) :=
  ⟨rfl, by simp [overflowEnd]⟩

/-- What follows `HandleGlobalTrimRequest` leaves the epoch alone. -/
lemma afterHandle_sameEpoch (tc : ThreadCache) (stat : ℕ) (after : TcAfter) :
    SameEpoch tc .idle (tc.afterHandle stat after) := by
  cases after with
  | ret => exact ⟨rfl, rfl⟩
  | fetch idx => exact ⟨rfl, rfl⟩
  | overflow idx =>
    unfold afterHandle
    dsimp only
    split
    · exact ⟨rfl, rfl⟩
    · split
      · exact overflowEnd_sameEpoch idx
      · exact ⟨rfl, rfl⟩

/-- The contraction of one class in a trim goes on with the same answer. -/
lemma trimNext_sameEpoch (idx : ℕ) (f : TrimFrame) :
    SameEpoch tc (.trim idx f) (tc.trimNext stat idx f) := by
  refine ⟨rfl, ?_⟩
  unfold trimNext trimQuota
  cases f.mode with
  | kRelease => simp
  | kReuse =>
    dsimp only
    split_ifs <;> simp

/-- A step inside the loop of `Trim`. -/
lemma trimStep_sameEpoch (idx : ℕ) (f : TrimFrame) :
    SameEpoch tc (.trim (idx + 1) f) (tc.trimStep stat f (idx + 1)) := by
  unfold trimStep
  dsimp only
  split_ifs
  · exact ⟨rfl, rfl⟩
  · exact trimNext_sameEpoch idx f

/-- The end of one class in `ReleaseAll` leaves the epoch alone. -/
lemma allNext_sameEpoch (i : ℕ) : SameEpoch tc .idle (tc.allNext stat i) :=
  ⟨rfl, by simp [allNext]⟩

/-- One class of `ReleaseAll` leaves the epoch alone. -/
lemma allStep_sameEpoch (i : ℕ) : SameEpoch tc .idle (tc.allStep stat i) := by
  unfold allStep
  split_ifs
  · exact ⟨rfl, rfl⟩
  · split
    · exact allNext_sameEpoch i
    · exact ⟨rfl, rfl⟩

/-- The end of `FetchFromCentralCache` leaves the epoch alone. -/
lemma fetchEnd_sameEpoch (idx fetchNum : ℕ) (batch : List ℕ) :
    SameEpoch tc .idle (tc.fetchEnd stat idx fetchNum batch) := by
  unfold fetchEnd
  cases batch with
  | nil => exact ⟨rfl, rfl⟩
  | cons ptr rest =>
    refine ⟨rfl, ?_⟩
    dsimp only
    split_ifs <;> simp

end ThreadCache

namespace FrontEnd

/-- **The step of an owner outside `HandleGlobalTrimRequest`'s load** goes on with the answer in
progress, or ends it and records its epoch. -/
lemma ownerStep_epoch (o : Owner) (stat trimRequest : ℕ) (batch : List ℕ)
    (h : ∀ after, o.pc ≠ .handle after) :
    ThreadCache.SameEpoch o.tc o.pc (ownerStep o stat trimRequest batch) ∨
      ∃ f e, o.pc = .trim 0 f ∧ f.epoch = some e ∧
        (ownerStep o stat trimRequest batch).pc.answer = none ∧
        (ownerStep o stat trimRequest batch).tc.observedTrimEpoch = e := by
  unfold ownerStep
  cases hpc : o.pc with
  | handle after => exact absurd hpc (h after)
  | idle => exact Or.inl ⟨rfl, rfl⟩
  | trim i f =>
    cases i with
    | zero =>
      cases hepoch : f.epoch with
      | none =>
        refine Or.inl ?_
        obtain ⟨h₁, h₂⟩ := ThreadCache.afterHandle_sameEpoch o.tc stat f.after
        simp only [TcPc.waits, Bool.false_eq_true, if_false, ThreadCache.step,
          ThreadCache.trimStep, hepoch, ThreadCache.SameEpoch]
        exact ⟨by rw [h₁]; simp [TcPc.answer, hepoch], h₂⟩
      | some e =>
        refine Or.inr ⟨f, e, rfl, hepoch, ?_⟩
        simp only [TcPc.waits, Bool.false_eq_true, if_false, ThreadCache.step,
          ThreadCache.trimStep, hepoch]
        exact ThreadCache.afterHandle_sameEpoch _ stat f.after
    | succ idx => exact Or.inl (ThreadCache.trimStep_sameEpoch idx f)
  | trimCall idx f => exact Or.inl (ThreadCache.trimNext_sameEpoch idx f)
  | fetchCall idx n => exact Or.inl (ThreadCache.fetchEnd_sameEpoch idx n _)
  | overflowCall idx => exact Or.inl (ThreadCache.overflowEnd_sameEpoch idx)
  | all i => exact Or.inl (ThreadCache.allStep_sameEpoch i)
  | allCall i => exact Or.inl (ThreadCache.allNext_sameEpoch i)

/-- The epoch up to which an owner has observed the requests. -/
def observedEpoch (o : Owner) : ℕ := (o.pc.answer.map Prod.fst).getD o.tc.observedTrimEpoch

/-- **The history of an owner and the word agree**: the epochs count the publications since the
last observation, the mode bit is the newest of them, and a trim in progress answers the newest
of those it has observed. -/
structure OwnerEpoch (trimRequest : ℕ) (o : Owner) : Prop where
  lt : observedEpoch o < 2 ^ 63
  epoch : (observedEpoch o + o.pending.length) % 2 ^ 63 = trimRequest >>> 1
  mode : ∀ m ∈ o.pending.head?, TrimMode.ofRequest trimRequest = m
  answer : ∀ e m n, o.pc.answer = some (e, m, n) → o.loaded.length % 2 ^ 63 ≠ 0 ∧
    o.loaded.head? = some m ∧ n = ThreadCache.trimTargetForMode m

/-- What a completed execution of `HandleGlobalTrimRequest` has done. -/
inductive HandleRecord.Ok (r : HandleRecord) : Prop
  | skipped (hnone : r.performed = none) (hlen : r.pending.length % 2 ^ 63 = 0)
  | trimmed (m : TrimMode) (hsome : r.performed = some (m, ThreadCache.trimTargetForMode m))
      (hlen : r.pending.length % 2 ^ 63 ≠ 0) (hhead : r.pending.head? = some m)
      (hempty : m = .kRelease → r.empty = true)

/-- The invariant of the trim word. -/
structure EpochInv (st : FrontEnd) : Prop where
  lt : st.trimRequest < 2 ^ 64
  owner : ∀ t o, st.owners t = some o → OwnerEpoch st.trimRequest o
  handled : ∀ r ∈ st.handled, HandleRecord.Ok r

variable {st : FrontEnd} {t : ℕ} {o : Owner}

/-- A step within the epoch keeps the agreement. -/
lemma OwnerEpoch.of_sameEpoch {w : ℕ} (h : OwnerEpoch w o) {out : TcOut}
    (hs : ThreadCache.SameEpoch o.tc o.pc out) :
    OwnerEpoch w { o with tc := out.tc, pc := out.pc } := by
  have hobs : observedEpoch { o with tc := out.tc, pc := out.pc } = observedEpoch o := by
    simp only [observedEpoch, hs.1, hs.2]
  refine ⟨hobs ▸ h.lt, hobs ▸ h.epoch, h.mode, fun e m n ha => h.answer e m n ?_⟩
  rw [← hs.1]
  exact ha

/-- The end of an answer keeps the agreement: the recorded epoch is the observed one. -/
lemma OwnerEpoch.of_recorded {w e : ℕ} (h : OwnerEpoch w o) {f : TrimFrame}
    (hpc : o.pc = .trim 0 f) (hepoch : f.epoch = some e) {out : TcOut}
    (hnone : out.pc.answer = none) (hout : out.tc.observedTrimEpoch = e) :
    OwnerEpoch w { o with tc := out.tc, pc := out.pc } := by
  have hobs : observedEpoch { o with tc := out.tc, pc := out.pc } = observedEpoch o := by
    have hanswer : o.pc.answer = some (e, f.mode, f.targetBytes) := by
      simp [hpc, TcPc.answer, hepoch]
    simp only [observedEpoch, hnone, hout, hanswer, Option.map_some, Option.map_none,
      Option.getD_some, Option.getD_none]
  refine ⟨hobs ▸ h.lt, hobs ▸ h.epoch, h.mode, fun e' m n ha => ?_⟩
  rw [hnone] at ha
  cases ha

/-- The load of `HandleGlobalTrimRequest` observes everything pending. -/
lemma OwnerEpoch.of_load {w : ℕ} (hw : w < 2 ^ 64) (h : OwnerEpoch w o) {after : TcAfter}
    (hpc : o.pc = .handle after) (stat : ℕ) :
    OwnerEpoch w { o with
      tc := (o.tc.handle stat w after).tc, pc := (o.tc.handle stat w after).pc
      pending := [], loaded := o.pending } := by
  have hobs : observedEpoch o = o.tc.observedTrimEpoch := by
    simp only [observedEpoch, hpc, TcPc.answer, Option.map_none, Option.getD_none]
  have hlt := h.lt
  have hepoch := h.epoch
  rw [hobs] at hlt hepoch
  have hshift : w >>> 1 < 2 ^ 63 := by
    rw [Nat.shiftRight_eq_div_pow]
    exact Nat.div_lt_of_lt_mul hw
  unfold ThreadCache.handle
  dsimp only
  by_cases heq : w >>> 1 = o.tc.observedTrimEpoch
  · rw [if_pos heq]
    obtain ⟨h₁, h₂⟩ := ThreadCache.afterHandle_sameEpoch o.tc stat after
    have hnone : (o.tc.afterHandle stat after).pc.answer = none := h₁
    have hnew : ∀ l, observedEpoch { o with
        tc := (o.tc.afterHandle stat after).tc, pc := (o.tc.afterHandle stat after).pc
        pending := [], loaded := l } = w >>> 1 := by
      intro l
      simp only [observedEpoch, hnone, h₂, Option.map_none, Option.getD_none, heq]
    refine ⟨by rw [hnew]; exact hshift, by rw [hnew]; exact Nat.mod_eq_of_lt hshift,
      by simp, fun e m n ha => ?_⟩
    rw [hnone] at ha
    cases ha
  · rw [if_neg heq]
    refine ⟨hshift, Nat.mod_eq_of_lt hshift, by simp, fun e m n ha => ?_⟩
    simp only [ThreadCache.trim, TcPc.answer, Option.map_some, Option.some.injEq,
      Prod.mk.injEq] at ha
    obtain ⟨rfl, rfl, rfl⟩ := ha
    -- the epochs differ, so something is pending
    have hlen : o.pending.length % 2 ^ 63 ≠ 0 := by omega
    refine ⟨hlen, ?_, rfl⟩
    cases hp : o.pending with
    | nil => simp [hp] at hlen
    | cons m rest => rw [h.mode m (by simp [hp]), List.head?_cons]

/-- A publication counts for every owner. -/
lemma OwnerEpoch.publish {w : ℕ} (h : OwnerEpoch w o) (mode : TrimMode) :
    OwnerEpoch (nextRequest w mode) { o with pending := mode :: o.pending } := by
  refine ⟨h.lt, ?_, ?_, h.answer⟩
  · have := h.epoch
    rw [nextRequest_epoch, ← this, List.length_cons]
    show (observedEpoch o + _) % _ = _
    omega
  · simp [ofRequest_nextRequest]

/-! ## Whole runs -/

/-- A cache with nothing in any class is empty. -/
lemma isEmpty_of_forall {tc : ThreadCache}
    (h : ∀ i < kNumSizeClasses, (tc.freeLists i).objs = []) : tc.isEmpty = true := by
  simp only [ThreadCache.isEmpty, List.all_eq_true, List.mem_range, List.isEmpty_iff]
  exact h

/-- **A completed execution** skips a word it has seen, or trims as the newest request says; a
hard trim leaves every list empty. -/
lemma completes_ok {w : ℕ} (h : OwnerEpoch w o) (hi : ThreadCache.PcInv 1 o.tc o.pc) :
    ∀ r ∈ completes t o w, HandleRecord.Ok r := by
  intro r hr
  unfold completes at hr
  split at hr
  · rename_i after hpc
    split_ifs at hr with heq
    · obtain rfl := Option.some.inj hr
      have hobs : observedEpoch o = o.tc.observedTrimEpoch := by
        simp only [observedEpoch, hpc, TcPc.answer, Option.map_none, Option.getD_none]
      have hlt := h.lt
      have hepoch := h.epoch
      rw [hobs] at hlt hepoch
      exact .skipped rfl (by dsimp only; omega)
    · cases hr
  · rename_i f hpc
    obtain ⟨e, hepoch, rfl⟩ := Option.map_eq_some_iff.mp hr
    have hanswer : o.pc.answer = some (e, f.mode, f.targetBytes) := by
      simp [hpc, TcPc.answer, hepoch]
    obtain ⟨hlen, hhead, htarget⟩ := h.answer e f.mode f.targetBytes hanswer
    rw [hpc] at hi
    have hok : o.tc.TrimOk 0 f := hi.ok
    refine .trimmed f.mode (by rw [htarget]) hlen hhead fun hm => ?_
    exact isEmpty_of_forall fun i hi =>
      hok.emptied hm (by rw [htarget, hm]; rfl) i (Nat.zero_le i) hi
  · cases hr

/-- What does not publish keeps the invariant if it keeps it at the owners it changes. -/
lemma EpochInv.of_owners (h : EpochInv st) {st' : FrontEnd}
    (hword : st'.trimRequest = st.trimRequest)
    (howner : ∀ u o, st'.owners u = some o →
      st.owners u = some o ∨ OwnerEpoch st.trimRequest o)
    (hhandled : ∀ r ∈ st'.handled, r ∈ st.handled ∨ HandleRecord.Ok r) : EpochInv st' where
  lt := hword ▸ h.lt
  owner u o ho := by
    rw [hword]
    exact (howner u o ho).elim (h.owner u o) id
  handled r hr := (hhandled r hr).elim (h.handled r) id

/-- The beginning of an operation. -/
lemma EpochInv.operate (h : EpochInv st) (begin : ThreadCache → ℕ → TcOut)
    (hbegin : ∀ tc stat, ThreadCache.SameEpoch tc .idle (begin tc stat)) :
    EpochInv (st.operate t begin) := by
  unfold FrontEnd.operate
  split
  · rename_i o ho
    split_ifs with hidle
    · refine h.of_owners rfl (fun u o' ho' => ?_) fun r hr => Or.inl hr
      by_cases hu : u = t
      · subst hu
        simp only [commit, Function.update_self, Option.some.injEq] at ho'
        subst ho'
        exact Or.inr ((h.owner u o ho).of_sameEpoch (hidle ▸ hbegin o.tc st.stat))
      · simp only [commit, Function.update_of_ne hu] at ho'
        exact Or.inl ho'
    · exact h
  · exact h

/-- The step of an owner. -/
lemma EpochInv.step (h : EpochInv st) (hi : Inv 1 st) (batch : List ℕ) :
    EpochInv (st.next (.step t batch)) := by
  unfold FrontEnd.next
  dsimp only
  split
  · rename_i o ho
    refine h.of_owners rfl (fun u o' ho' => ?_) fun r hr => ?_
    · by_cases hu : u = t
      · subst hu
        simp only [commit, Function.update_self, Option.some.injEq] at ho'
        subst ho'
        refine Or.inr ?_
        by_cases hload : ∃ after, o.pc = .handle after
        · obtain ⟨after, hpc⟩ := hload
          have := (h.owner u o ho).of_load h.lt hpc st.stat
          simpa only [observe, hpc, ownerStep, TcPc.waits, Bool.false_eq_true, if_false,
            ThreadCache.step] using this
        · have hne : ∀ after, o.pc ≠ .handle after := fun after hpc => hload ⟨after, hpc⟩
          have hobs : observe o = o := by
            unfold observe
            split
            · rename_i after hpc
              exact absurd hpc (hne after)
            · rfl
          rw [hobs]
          rcases ownerStep_epoch o st.stat st.trimRequest batch hne with hs | hs
          · exact (h.owner u o ho).of_sameEpoch hs
          · obtain ⟨f, e, hpc, hepoch, hnone, hout⟩ := hs
            exact (h.owner u o ho).of_recorded hpc hepoch hnone hout
      · simp only [commit, Function.update_of_ne hu] at ho'
        exact Or.inl ho'
    · rcases List.mem_append.mp hr with hr | hr
      · exact Or.inr (completes_ok (h.owner t o ho) (hi.cache t o.tc o.pc (cacheOf_eq_some ho)) r
          (Option.mem_toList.mp hr))
      · exact Or.inl hr
  · exact h

/-- **Every action keeps the invariant of the trim word.** -/
lemma EpochInv.next (h : EpochInv st) (hi : Inv 1 st) (a : FrontAction) :
    EpochInv (st.next a) := by
  cases a with
  | create t budget =>
    unfold FrontEnd.next
    dsimp only
    split_ifs with hnone
    · refine h.of_owners rfl (fun u o ho => ?_) fun r hr => Or.inl hr
      by_cases hu : u = t
      · subst hu
        simp only [Function.update_self, Option.some.injEq] at ho
        subst ho
        have hlt : st.trimRequest >>> 1 < 2 ^ 63 := by
          rw [Nat.shiftRight_eq_div_pow]
          exact Nat.div_lt_of_lt_mul h.lt
        exact Or.inr ⟨hlt, Nat.mod_eq_of_lt hlt, by simp, by simp [TcPc.answer]⟩
      · simp only [Function.update_of_ne hu] at ho
        exact Or.inl ho
    · exact h
  | destroy t =>
    unfold FrontEnd.next
    dsimp only
    split
    · split_ifs
      · refine h.of_owners rfl (fun u o ho => ?_) fun r hr => Or.inl hr
        by_cases hu : u = t
        · subst hu
          simp at ho
        · simp only [Function.update_of_ne hu] at ho
          exact Or.inl ho
      · exact h
    · exact h
  | allocate t size =>
    unfold FrontEnd.next
    dsimp only
    split_ifs
    · exact h.operate _ fun tc stat => ThreadCache.allocate_sameEpoch _
    · exact h
  | deallocate t ptr idx =>
    unfold FrontEnd.next
    dsimp only
    split_ifs
    · exact h.operate _ fun tc stat => ThreadCache.deallocate_sameEpoch ptr idx
    · exact h
  | trim t mode target =>
    exact h.operate (fun tc stat => tc.trim stat mode (target % 2 ^ 64) none .ret)
      fun _ _ => ⟨rfl, rfl⟩
  | handleGlobalTrimRequest t =>
    exact h.operate (fun tc stat => { tc := tc, stat := stat, pc := .handle .ret })
      fun _ _ => ⟨rfl, rfl⟩
  | releaseAll t => exact h.operate _ fun _ _ => ⟨rfl, rfl⟩
  | step t batch => exact h.step hi batch
  | load c mode =>
    unfold FrontEnd.next
    dsimp only
    split_ifs
    · exact ⟨h.lt, h.owner, h.handled⟩
    · exact h
  | compareExchange c spurious =>
    unfold FrontEnd.next
    dsimp only
    split
    · rename_i observed mode hc
      split_ifs with heq
      · refine ⟨nextRequest_lt _ _, fun u o ho => ?_, h.handled⟩
        obtain ⟨o₀, ho₀, rfl⟩ := Option.map_eq_some_iff.mp ho
        rw [← heq.1]
        exact (h.owner u o₀ ho₀).publish mode
      · exact ⟨h.lt, h.owner, h.handled⟩
    · exact h

/-- Both invariants hold in every reachable state. -/
lemma run_epochInv (as : List FrontAction) :
    Inv 1 (machine.run {} as) ∧ EpochInv (machine.run {} as) := by
  have hinit : EpochInv {} := ⟨by decide, by simp, by simp⟩
  refine Machine.Reachable.invariant (M := machine) (I := fun st => Inv 1 st ∧ EpochInv st)
    (fun s hs => ?_) (fun st a h => ?_)
    ((Machine.Reachable.init (M := machine) (Set.mem_singleton _)).run as)
  · obtain rfl := Set.mem_singleton_iff.mp hs
    exact ⟨init_inv 1, hinit⟩
  · exact ⟨(next_effect st a).inv h.1 le_rfl (by simp), h.2.next h.1 a⟩

end FrontEnd

/-! ## `HandleGlobalTrimRequest` returns -/

/-- The steps left of an execution of `HandleGlobalTrimRequest`; zero outside of one. -/
def TcPc.handleRank : TcPc → ℕ
  | .handle _ => 2 * kNumSizeClasses + 2
  | .trim i f => if f.epoch.isSome then 2 * i + 1 else 0
  | .trimCall idx f => if f.epoch.isSome then 2 * idx + 2 else 0
  | _ => 0

/-- The action is a step of the operation of `t`. -/
def FrontAction.isStepOf (t : ℕ) : FrontAction → Bool
  | .step u _ => u == t
  | _ => false

namespace FrontEnd

variable {st : FrontEnd} {t : ℕ} {o : Owner}

/-- The completed executions of `HandleGlobalTrimRequest` of `t`. -/
def handledBy (st : FrontEnd) (t : ℕ) : ℕ := st.handled.countP (·.owner = t)

/-- **The step lemma**: a step of an execution either completes it or brings it closer to its
end. -/
lemma handleRank_ownerStep (hr : 0 < o.pc.handleRank) (w stat : ℕ) (batch : List ℕ)
    (hc : completes t o w = none) :
    0 < (ownerStep o stat w batch).pc.handleRank ∧
      (ownerStep o stat w batch).pc.handleRank < o.pc.handleRank := by
  unfold ownerStep
  unfold completes at hc
  cases hpc : o.pc with
  | handle after =>
    simp only [hpc] at hc
    split_ifs at hc with heq
    simp only [TcPc.waits, Bool.false_eq_true, if_false, ThreadCache.step, ThreadCache.handle,
      if_neg heq, ThreadCache.trim, TcPc.handleRank, Option.isSome_some, if_true]
    omega
  | trim i f =>
    simp only [hpc, TcPc.handleRank] at hr
    have hsome : f.epoch.isSome = true := by
      by_contra hn
      simp [hn] at hr
    cases i with
    | zero =>
      obtain ⟨e, he⟩ := Option.isSome_iff_exists.mp hsome
      simp [hpc, he] at hc
    | succ idx =>
      simp only [TcPc.waits, Bool.false_eq_true, if_false, ThreadCache.step, ThreadCache.trimStep]
      split_ifs <;> simp only [ThreadCache.trimNext_pc, TcPc.handleRank, hsome, if_true] <;> omega
  | trimCall idx f =>
    simp only [hpc, TcPc.handleRank] at hr
    have hsome : f.epoch.isSome = true := by
      by_contra hn
      simp [hn] at hr
    simp only [TcPc.waits, if_true, ThreadCache.resume, ThreadCache.trimNext_pc, TcPc.handleRank,
      hsome]
    omega
  | _ => simp [hpc, TcPc.handleRank] at hr

/-- No operation begins in the middle of another one of the same owner. -/
lemma operate_owner {u : ℕ} (ho : st.owners t = some o) (hpc : o.pc ≠ .idle)
    (begin : ThreadCache → ℕ → TcOut) : (st.operate u begin).owners t = some o := by
  unfold operate
  split
  · rename_i o' ho'
    split_ifs with hidle
    · have hne : t ≠ u := by
        rintro rfl
        rw [ho] at ho'
        exact hpc (Option.some.inj ho' ▸ hidle)
      simpa [commit, hne] using ho
    · exact ho
  · exact ho

/-- An owner inside an operation moves by its own steps only. -/
lemma next_owner {a : FrontAction} (ho : st.owners t = some o) (hpc : o.pc ≠ .idle)
    (ha : a.isStepOf t = false) : ∃ o', (st.next a).owners t = some o' ∧ o'.pc = o.pc := by
  cases a with
  | create u budget =>
    have hnot : u = t → st.owners u ≠ none := by rintro rfl; simp [ho]
    unfold next
    dsimp only
    split_ifs with hnone
    · have hne : t ≠ u := fun h => hnot h.symm hnone
      exact ⟨o, by simpa [hne] using ho, rfl⟩
    · exact ⟨o, ho, rfl⟩
  | destroy u =>
    unfold next
    dsimp only
    split
    · rename_i o' ho'
      split_ifs with hidle
      · have hne : t ≠ u := by
          rintro rfl
          rw [ho] at ho'
          exact hpc (Option.some.inj ho' ▸ hidle)
        exact ⟨o, by simpa [hne] using ho, rfl⟩
      · exact ⟨o, ho, rfl⟩
    · exact ⟨o, ho, rfl⟩
  | allocate u size =>
    unfold next
    dsimp only
    split_ifs
    · exact ⟨o, operate_owner ho hpc _, rfl⟩
    · exact ⟨o, ho, rfl⟩
  | deallocate u ptr idx =>
    unfold next
    dsimp only
    split_ifs
    · exact ⟨o, operate_owner ho hpc _, rfl⟩
    · exact ⟨o, ho, rfl⟩
  | trim u mode target => exact ⟨o, operate_owner ho hpc _, rfl⟩
  | handleGlobalTrimRequest u => exact ⟨o, operate_owner ho hpc _, rfl⟩
  | releaseAll u => exact ⟨o, operate_owner ho hpc _, rfl⟩
  | step u batch =>
    have hne : t ≠ u := by
      rintro rfl
      simp [FrontAction.isStepOf] at ha
    unfold next
    dsimp only
    split
    · exact ⟨o, by simpa [commit, hne] using ho, rfl⟩
    · exact ⟨o, ho, rfl⟩
  | load c mode =>
    unfold next
    dsimp only
    split_ifs <;> exact ⟨o, ho, rfl⟩
  | compareExchange c spurious =>
    unfold next
    dsimp only
    split
    · rename_i observed mode hc
      split_ifs
      · exact ⟨{ o with pending := mode :: o.pending }, by simp [ho], rfl⟩
      · exact ⟨o, ho, rfl⟩
    · exact ⟨o, ho, rfl⟩

/-- The beginning of an operation completes no `HandleGlobalTrimRequest`. -/
lemma operate_handled (u : ℕ) (begin : ThreadCache → ℕ → TcOut) :
    (st.operate u begin).handled = st.handled := by
  unfold operate
  split
  · split_ifs <;> rfl
  · rfl

/-- The history only grows. -/
lemma handledBy_le_next (st : FrontEnd) (t : ℕ) (a : FrontAction) :
    st.handledBy t ≤ (st.next a).handledBy t := by
  have hsuffix : st.handled <:+ (st.next a).handled := by
    cases a with
    | step u batch =>
      unfold next
      dsimp only
      split
      · exact List.suffix_append _ _
      · exact List.suffix_rfl
    | trim u mode target => exact (operate_handled u _).symm ▸ List.suffix_rfl
    | handleGlobalTrimRequest u => exact (operate_handled u _).symm ▸ List.suffix_rfl
    | releaseAll u => exact (operate_handled u _).symm ▸ List.suffix_rfl
    | _ =>
      unfold next
      dsimp only
      split <;> first
        | exact List.suffix_rfl
        | exact (operate_handled _ _).symm ▸ List.suffix_rfl
        | (split_ifs <;> exact List.suffix_rfl)
  exact hsuffix.sublist.countP_le

/-- Completed executions stay completed. -/
lemma handledBy_le_run (st : FrontEnd) (t : ℕ) (as : List FrontAction) :
    st.handledBy t ≤ (machine.run st as).handledBy t := by
  induction as generalizing st with
  | nil => exact le_rfl
  | cons a as ih => exact (handledBy_le_next st t a).trans (ih _)

/-- A completing step adds a record. -/
lemma handledBy_lt_next (ho : st.owners t = some o) {r : HandleRecord}
    (hc : completes t o st.trimRequest = some r) (batch : List ℕ) :
    st.handledBy t < (st.next (.step t batch)).handledBy t := by
  have howner : r.owner = t := by
    unfold completes at hc
    split at hc
    · split_ifs at hc
      obtain rfl := Option.some.inj hc
      rfl
    · obtain ⟨e, -, rfl⟩ := Option.map_eq_some_iff.mp hc
      rfl
    · cases hc
  simp [handledBy, next, ho, hc, howner]

/-- **The run lemma**: an execution of `HandleGlobalTrimRequest` is complete once its owner has
taken as many steps as were left, whatever the others do meanwhile. -/
lemma handledBy_lt_run (ho : st.owners t = some o) (hr : 0 < o.pc.handleRank)
    (bs : List FrontAction) (hbs : o.pc.handleRank ≤ bs.countP (·.isStepOf t)) :
    st.handledBy t < (machine.run st bs).handledBy t := by
  induction bs generalizing st o with
  | nil =>
    rw [List.countP_nil] at hbs
    omega
  | cons a bs ih =>
    rw [Machine.run_cons]
    rw [List.countP_cons] at hbs
    by_cases ha : a.isStepOf t = true
    · rw [if_pos ha] at hbs
      obtain ⟨batch, rfl⟩ : ∃ batch, a = .step t batch := by
        cases a with
        | step u batch => exact ⟨batch, by simp [FrontAction.isStepOf] at ha; rw [ha]⟩
        | _ => simp [FrontAction.isStepOf] at ha
      cases hc : completes t o st.trimRequest with
      | some r => exact (handledBy_lt_next ho hc batch).trans_le (handledBy_le_run _ t bs)
      | none =>
        obtain ⟨h₁, h₂⟩ := handleRank_ownerStep hr st.trimRequest st.stat batch hc
        have hnext : (st.next (.step t batch)).owners t = some { observe o with
            tc := (ownerStep o st.stat st.trimRequest batch).tc
            pc := (ownerStep o st.stat st.trimRequest batch).pc } := by
          simp [next, ho, commit]
        exact (handledBy_le_next st t _).trans_lt (ih hnext h₁ (by dsimp only; omega))
    · rw [if_neg ha] at hbs
      have hpc : o.pc ≠ .idle := by
        intro hidle
        rw [hidle] at hr
        exact absurd hr (by simp [TcPc.handleRank])
      obtain ⟨o', ho', hpc'⟩ := next_owner ho hpc (by simpa using ha)
      rw [← hpc'] at hr hbs
      exact (handledBy_le_next st t a).trans_lt (ih ho' hr (by omega))

/-! ## Purge requests -/

/-- **What becomes of purge requests.** In every run, an execution of `HandleGlobalTrimRequest`
answers the purge requests published since its owner's previous observation, by a hard trim to
zero that leaves every list empty, exactly if there is none or the newest request is one (and
the 63-bit epoch has not come round). And every execution returns, within `82` of its owner's
own steps.

**Proof sketch.** The epochs count the publications since the last observation, and the mode bit
is the mode of the newest (`EpochInv`); older requests leave no trace in the word. -/
theorem purge_request_iff (as : List FrontAction) :
    (∀ r ∈ (machine.run {} as).handled,
      ((TrimMode.kRelease ∈ r.pending →
          r.performed = some (.kRelease, 0) ∧ r.empty = true) ↔
        (TrimMode.kRelease ∉ r.pending ∨
          r.pending.head? = some .kRelease ∧ r.pending.length % 2 ^ 63 ≠ 0))) ∧
    (∀ t o after bs, (machine.run {} as).owners t = some o → o.pc = .handle after →
      82 ≤ bs.countP (FrontAction.isStepOf t) →
      (machine.run {} as).handledBy t < (machine.run {} (as ++ bs)).handledBy t) := by
  refine ⟨fun r hr => ?_, fun t o after bs ho hpc hbs => ?_⟩
  · by_cases hmem : TrimMode.kRelease ∈ r.pending
    · simp only [hmem, not_true_eq_false, false_or, true_imp_iff]
      cases (run_epochInv as).2.handled r hr with
      | skipped hnone hlen =>
        rw [hnone]
        refine ⟨fun h => absurd h.1 (by simp), fun h => absurd hlen h.2⟩
      | trimmed m hsome hlen hhead hempty =>
        rw [hsome, hhead]
        cases m with
        | kReuse => simp
        | kRelease => simpa [ThreadCache.trimTargetForMode, hempty rfl] using hlen
    · simp [hmem]
  · rw [Machine.run_append]
    exact handledBy_lt_run ho (by rw [hpc]; exact Nat.zero_lt_succ 81) bs (by rw [hpc]; exact hbs)

/-- A controller publishes a request. -/
def publish (mode : TrimMode) : List FrontAction := [.load 0 mode, .compareExchange 0 false]

/-- An owner with one cached object; a purge request, then a trim request, and the owner's
safepoint. -/
def overwrittenPurgeRun : List FrontAction :=
  [.create 0 ThreadCache.kDefaultCacheBudgetBytes, .deallocate 0 4096 0] ++
    publish .kRelease ++ publish .kReuse ++
    .handleGlobalTrimRequest 0 :: List.replicate 42 (.step 0 [])

/-- The safepoint performs a soft trim to 1 MiB only, and the object stays. -/
theorem overwrittenPurgeRun_loses_purge : ∃ r ∈ (machine.run {} overwrittenPurgeRun).handled,
    TrimMode.kRelease ∈ r.pending ∧ r.performed = some (.kReuse, 1024 * 1024) ∧
      r.empty = false := by
  have hrun : (machine.run {} overwrittenPurgeRun).handled =
      [{ owner := 0, pending := [.kReuse, .kRelease], performed := some (.kReuse, 1024 * 1024)
         empty := false }] := by
    decide +kernel
  rw [hrun]
  exact ⟨_, List.mem_cons_self, by decide, rfl, rfl⟩

end FrontEnd

end Ammalloc
