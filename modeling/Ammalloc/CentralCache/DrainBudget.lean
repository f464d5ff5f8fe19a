import Ammalloc.CentralCache.Calls
import Ammalloc.CentralCache.Progress

set_option relaxedAutoImplicit false
set_option autoImplicit false

/-!
# The budget of a drain

What a `DrainTransferCaches` has spent and may still spend is in its frame, and no other thread can
change that: the budget law, the absence of wrapping and the bound on its steps hold whatever the
other threads do between its lock sections. What it detaches depends on them; with nothing else
running, every class gives its coldest objects, as many as the budget left by the larger classes
allows.

## Main definitions

* `Ammalloc.CentralCache.Budget`, `Ammalloc.CentralCache.drainFuel` — what the frame of a drain
  guarantees, and how many steps are left.
* `Ammalloc.CentralCache.Draining` — what an undisturbed drain has done so far.
* `Ammalloc.CentralCache.drainTarget` — how many objects a class gives.

## Main results

* `Ammalloc.CentralCache.Budget.step` — one step, with anything in between.
* `Ammalloc.CentralCache.Draining.step` — one step of an undisturbed drain.
-/

namespace Ammalloc

open SizeClass (kNumSizeClasses)

/-- The class a drain is at, where the classes below have not been touched. -/
def DrainPc.cls : DrainPc → ℕ
  | .next i => i
  | .detach idx _ => idx
  | .release idx _ _ _ => idx

/-- The bytes that the snapshot of the class still allows, with those being released. -/
def DrainPc.pending : DrainPc → ℕ
  | .next _ => 0
  | .detach idx remaining => remaining * SizeClass.size idx
  | .release idx remaining _ _ => remaining * SizeClass.size idx

/-- A class is a class, and the batch that is being released is part of the snapshot and not yet
released. -/
def DrainPc.Shape : DrainPc → Prop
  | .next i => i ≤ kNumSizeClasses
  | .detach idx _ => idx < kNumSizeClasses
  | .release idx remaining detached pc =>
    idx < kNumSizeClasses ∧ detached ≤ remaining ∧ pc ≠ .chunk []

namespace CentralCache

variable {c c' : CentralCache} {det : List ℕ} {out : Multiset (ℕ × ℕ)} {spansOut : Multiset ℕ}
  {fresh : Option ℕ} {hardened : Bool} {env : PageEnv} {f f' : DrainFrame} {M : ℕ}

/-- The most objects a TransferCache can hold. -/
def maxRing : ℕ := kCapScale * SizeClass.kMaxBatchSize

/-- The most bytes a TransferCache can hold. -/
def maxRingBytes : ℕ := maxRing * maxTcSize

/-- No TransferCache holds more than `maxRing` objects. -/
lemma Inv.ring_size_le (h : c.Inv det out spansOut fresh) {idx : ℕ} (hidx : idx < kNumSizeClasses) :
    (c.buckets idx).transferCache.size ≤ maxRing := by
  refine (h.ring idx hidx).size_le.trans ?_
  rcases h.capacity idx hidx with h₀ | h₀
  · rw [h₀]
    exact Nat.zero_le _
  · rw [h₀]
    exact Nat.mul_le_mul_left kCapScale (SizeClass.calculateBatchSize_bounds hidx).2

/-! ## The frame -/

/-- **What the frame of a drain guarantees**, whatever the other threads do. -/
structure Budget (M : ℕ) (f : DrainFrame) : Prop where
  word : M ≤ sizeMax
  unbounded : f.unbounded = decide (M = sizeMax)
  shape : f.pc.Shape
  /-- What is spent and what is left make up the budget. -/
  spent : f.unbounded = false → f.drainedBytes + f.maxBytes = M
  /-- The snapshot is within what is left. -/
  room : f.unbounded = false → f.pc.pending ≤ f.maxBytes
  /-- No more is spent on a class than its TransferCache can hold. -/
  drained_le : f.drainedBytes + f.pc.pending ≤ (kNumSizeClasses - f.pc.cls) * maxRingBytes

/-- The steps a drain has left at most. -/
def drainFuel (f : DrainFrame) : ℕ :=
  match f.pc with
  | .next i => i * (5 * maxRing + 2)
  | .detach idx remaining => 5 * remaining + 1 + idx * (5 * maxRing + 2)
  | .release idx remaining detached pc =>
    pc.steps + 5 * (remaining - detached) + 1 + idx * (5 * maxRing + 2)

/-- A drain at its start. -/
lemma Budget.start (hM : M ≤ sizeMax) : Budget M (.start M) := by
  refine ⟨hM, rfl, ?_, fun _ => Nat.zero_add M, fun _ => Nat.zero_le _, Nat.zero_le _⟩
  show (if M = 0 then 0 else kNumSizeClasses) ≤ kNumSizeClasses
  split <;> omega

/-- The bound at the beginning of a drain. -/
lemma drainFuel_start_le (M : ℕ) : drainFuel (.start M) ≤ kNumSizeClasses * (5 * maxRing + 2) := by
  refine Nat.mul_le_mul_right _ ?_
  show (if M = 0 then 0 else kNumSizeClasses) ≤ kNumSizeClasses
  split <;> omega

/-- What a drain has spent does not wrap. -/
lemma Budget.drained_lt (h : Budget M f) : f.drainedBytes + f.pc.pending < 2 ^ 64 := by
  have hmax : (kNumSizeClasses - f.pc.cls) * maxRingBytes ≤ kNumSizeClasses * maxRingBytes :=
    Nat.mul_le_mul_right _ (Nat.sub_le _ _)
  have hlt : kNumSizeClasses * maxRingBytes < 2 ^ 64 := by decide
  have := h.drained_le
  omega

/-- A drain has not spent more than its budget. -/
lemma Budget.drained_le_budget (h : Budget M f) : f.drainedBytes ≤ M := by
  have hlt := h.drained_lt
  cases hb : f.unbounded with
  | false =>
    have := h.spent hb
    omega
  | true =>
    rw [h.unbounded, decide_eq_true_eq] at hb
    rw [hb]
    unfold sizeMax
    omega

/-- The bytes of a batch are part of the snapshot, and neither they nor the new sum wrap. -/
lemma Budget.batch_bytes {idx remaining detached : ℕ} {pc : ReleasePc} (h : Budget M f)
    (hpc : f.pc = .release idx remaining detached pc) :
    detached * SizeClass.size idx ≤ remaining * SizeClass.size idx ∧
      detached * SizeClass.size idx % 2 ^ 64 = detached * SizeClass.size idx ∧
      addU64 f.drainedBytes (detached * SizeClass.size idx) =
        f.drainedBytes + detached * SizeClass.size idx := by
  have hshape := h.shape
  have hlt := h.drained_lt
  simp only [hpc, DrainPc.Shape, DrainPc.pending] at hshape hlt
  have hmul := Nat.mul_le_mul_right (SizeClass.size idx) hshape.2.1
  exact ⟨hmul, Nat.mod_eq_of_lt (by omega), addU64_of_lt (by omega)⟩

/-- **The budget subtraction does not wrap.** -/
lemma Budget.sub_batch {idx remaining detached : ℕ} {pc : ReleasePc} (h : Budget M f)
    (hpc : f.pc = .release idx remaining detached pc) (hb : f.unbounded = false) :
    detached * SizeClass.size idx ≤ f.maxBytes ∧
      subU64 f.maxBytes (detached * SizeClass.size idx) =
        f.maxBytes - detached * SizeClass.size idx := by
  have hroom := h.room hb
  have hspent := h.spent hb
  have hword := h.word
  have hbatch := (h.batch_bytes hpc).1
  simp only [hpc, DrainPc.pending] at hroom
  unfold sizeMax at hword
  exact ⟨by omega, subU64_of_le (by omega) (by omega)⟩

/-- The snapshot of a class costs no more than its TransferCache can hold. -/
lemma snapshot_bytes_le (hinv : c.Inv det out spansOut fresh) {idx n : ℕ}
    (hidx : idx < kNumSizeClasses) (hn : n ≤ (c.buckets idx).transferCache.size) :
    n ≤ maxRing ∧ n * SizeClass.size idx ≤ maxRingBytes := by
  have hle := hn.trans (hinv.ring_size_le hidx)
  exact ⟨hle, Nat.mul_le_mul hle (SizeClass.size_bounds idx hidx).2.1⟩

/-- One class more is behind the drain. -/
lemma classes_succ {idx : ℕ} (hidx : idx < kNumSizeClasses) :
    (kNumSizeClasses - idx) * maxRingBytes =
      (kNumSizeClasses - (idx + 1)) * maxRingBytes + maxRingBytes := by
  rw [← Nat.succ_mul]
  congr 1
  omega

/-- **One step of a drain**, with anything before it: the frame keeps its guarantee, and its end
comes nearer. -/
theorem Budget.step (h : Budget M f) (hinv : c.Inv det out spansOut fresh) (hpc : f.pc ≠ .next 0)
    (hrun : c.drainStep hardened env f = .ok (c', f')) :
    Budget M f' ∧ drainFuel f' < drainFuel f := by
  have hshape := h.shape
  have hle := h.drained_le
  have hroom := h.room
  cases drainStep_cases hrun with
  | returned hf => exact absurd hf hpc
  | @skip idx hf hbounded hlow =>
    simp only [hf, DrainPc.Shape, DrainPc.cls, DrainPc.pending] at hshape hle
    have hs := classes_succ (show idx < kNumSizeClasses by omega)
    refine ⟨⟨h.word, h.unbounded, ?_, h.spent, fun _ => Nat.zero_le _, ?_⟩, ?_⟩
    · show idx ≤ kNumSizeClasses
      omega
    · show f.drainedBytes + 0 ≤ (kNumSizeClasses - idx) * maxRingBytes
      omega
    · simp only [drainFuel, hf, Nat.succ_mul]
      omega
  | @snapshot idx hf hlarge =>
    simp only [hf, DrainPc.Shape, DrainPc.cls, DrainPc.pending] at hshape hle
    have hidx : idx < kNumSizeClasses := by omega
    have hs := classes_succ hidx
    generalize hn : (if f.unbounded then (c.buckets idx).transferCache.size
      else min (c.buckets idx).transferCache.size (f.maxBytes / SizeClass.size idx)) = n
    have hsnap : n ≤ (c.buckets idx).transferCache.size := by
      rw [← hn]
      split
      · exact le_rfl
      · exact min_le_left _ _
    obtain ⟨hmax, hbytes⟩ := snapshot_bytes_le hinv hidx hsnap
    refine ⟨⟨h.word, h.unbounded, hidx, h.spent, fun hb => ?_, ?_⟩, ?_⟩
    · -- the quotient is rounded down
      replace hb : f.unbounded = false := hb
      rw [hb, if_neg (by simp)] at hn
      show n * SizeClass.size idx ≤ f.maxBytes
      refine (Nat.mul_le_mul_right _ (hn ▸ min_le_right _ _)).trans ?_
      exact Nat.div_mul_le_self _ _
    · show f.drainedBytes + n * SizeClass.size idx ≤ (kNumSizeClasses - idx) * maxRingBytes
      omega
    · simp only [drainFuel, hf, Nat.succ_mul]
      omega
  | @exhausted idx remaining hf hnone =>
    simp only [hf, DrainPc.Shape, DrainPc.cls, DrainPc.pending] at hshape hle
    refine ⟨⟨h.word, h.unbounded, hshape.le, h.spent, fun _ => Nat.zero_le _, ?_⟩, ?_⟩
    · show f.drainedBytes + 0 ≤ (kNumSizeClasses - idx) * maxRingBytes
      omega
    · simp only [drainFuel, hf]
      omega
  | @detach idx remaining d hf hd hpos =>
    simp only [hf, DrainPc.Shape, DrainPc.cls, DrainPc.pending] at hshape hle hroom
    have hlen : ((c.buckets idx).transferCache.detach d).1.length = d := by
      simp
    have hsub : d ≤ remaining := by omega
    refine ⟨⟨h.word, h.unbounded, ⟨hshape, hsub, fun hnil => ?_⟩, h.spent, hroom, hle⟩, ?_⟩
    · have := congrArg List.length (ReleasePc.chunk.inj hnil)
      simp only [List.length_reverse, hlen, List.length_nil] at this
      omega
    · simp only [drainFuel, hf, ReleasePc.steps, List.length_reverse, hlen]
      omega
  | @releasing idx remaining detached pc pc' c' hf hrelease hmore =>
    simp only [hf, DrainPc.Shape, DrainPc.cls, DrainPc.pending] at hshape hle hroom
    have hsteps := (releaseStep_progress hshape.2.2 hrelease).2
    refine ⟨⟨h.word, h.unbounded, ⟨hshape.1, hshape.2.1, hmore⟩, h.spent, hroom, hle⟩, ?_⟩
    simp only [drainFuel, hf]
    omega
  | @released idx remaining detached pc c' hf hrelease =>
    obtain ⟨hbatch, hmod, hadd⟩ := h.batch_bytes hf
    simp only [hf, DrainPc.Shape, DrainPc.cls, DrainPc.pending] at hshape hle hroom
    have hsteps := ReleasePc.steps_pos hshape.2.2
    rw [hmod, hadd]
    refine ⟨⟨h.word, h.unbounded, hshape.1, fun hb => ?_, fun hb => ?_, ?_⟩, ?_⟩
    · replace hb : f.unbounded = false := hb
      obtain ⟨hsub, heq⟩ := h.sub_batch hf hb
      have hspent := h.spent hb
      simp only [hb, heq, Bool.false_eq_true, if_false]
      omega
    · replace hb : f.unbounded = false := hb
      obtain ⟨hsub, heq⟩ := h.sub_batch hf hb
      have := hroom hb
      simp only [hb, heq, Bool.false_eq_true, if_false, DrainPc.pending, Nat.sub_mul]
      omega
    · show f.drainedBytes + detached * SizeClass.size idx +
        (remaining - detached) * SizeClass.size idx ≤ (kNumSizeClasses - idx) * maxRingBytes
      rw [Nat.sub_mul]
      omega
    · simp only [drainFuel, hf]
      omega

/-! ## An undisturbed drain -/

/-- The bytes of `k j` objects of every class `j` from `i` on. -/
def bytesFrom (k : ℕ → ℕ) (i : ℕ) : ℕ := ∑ j ∈ Finset.Ico i kNumSizeClasses, k j * SizeClass.size j

/-- **How many of its `n j` objects class `j` gives** if the larger classes give `k`: as many as the
rest of the budget allows. -/
def drainTarget (n : ℕ → ℕ) (M : ℕ) (k : ℕ → ℕ) (j : ℕ) : ℕ :=
  if M = sizeMax then n j else min (n j) ((M - bytesFrom k (j + 1)) / SizeClass.size j)

/-- **What an undisturbed drain has done so far**: `k j` objects have left the cold end of class
`j`, which held `L j`. Classes above the current one have given what they had to, and those below
are untouched. -/
structure Draining (L : ℕ → List ℕ) (M : ℕ) (c : CentralCache) (f : DrainFrame) (k : ℕ → ℕ) :
    Prop where
  contents : ∀ j < kNumSizeClasses, (c.buckets j).transferCache.contents = (L j).drop (k j)
  le : ∀ j < kNumSizeClasses, k j ≤ (L j).length
  untouched : ∀ j < f.pc.cls, k j = 0
  served : ∀ j, f.pc.cls < j → j < kNumSizeClasses →
    k j = drainTarget (fun i => (L i).length) M k j
  position : match f.pc with
    | .next i => (i < kNumSizeClasses → k i = drainTarget (fun i => (L i).length) M k i) ∧
        f.drainedBytes = bytesFrom k 0
    | .detach idx remaining => k idx + remaining = drainTarget (fun i => (L i).length) M k idx ∧
        f.drainedBytes = bytesFrom k 0
    | .release idx remaining detached _ =>
        k idx + (remaining - detached) = drainTarget (fun i => (L i).length) M k idx ∧
        f.drainedBytes + detached * SizeClass.size idx = bytesFrom k 0

section

variable {L : ℕ → List ℕ} {n k : ℕ → ℕ}

/-- Untouched classes cost nothing. -/
lemma bytesFrom_eq_of_untouched {i : ℕ} (hi : i ≤ kNumSizeClasses) (h : ∀ j < i, k j = 0) :
    bytesFrom k 0 = bytesFrom k i := by
  unfold bytesFrom
  rw [← Finset.sum_Ico_consecutive _ (Nat.zero_le i) hi, Finset.sum_eq_zero, Nat.zero_add]
  intro j hj
  rw [h j (Finset.mem_Ico.mp hj).2, Nat.zero_mul]

/-- The bytes of the classes above `idx` do not depend on its count. -/
lemma bytesFrom_update_of_lt {idx m i : ℕ} (h : idx < i) :
    bytesFrom (Function.update k idx m) i = bytesFrom k i := by
  refine Finset.sum_congr rfl fun j hj => ?_
  rw [Function.update_of_ne (by have := (Finset.mem_Ico.mp hj).1; omega)]

/-- The bytes of all classes when `d` more objects of class `idx` are drained. -/
lemma bytesFrom_update {idx d : ℕ} (hidx : idx < kNumSizeClasses) :
    bytesFrom (Function.update k idx (k idx + d)) 0 =
      bytesFrom k 0 + d * SizeClass.size idx := by
  have hmem : idx ∈ Finset.Ico 0 kNumSizeClasses := Finset.mem_Ico.mpr ⟨Nat.zero_le _, hidx⟩
  unfold bytesFrom
  rw [← Finset.add_sum_erase _ _ hmem, ← Finset.add_sum_erase _ _ hmem, Function.update_self,
    Nat.add_mul]
  have hrest : ∑ j ∈ (Finset.Ico 0 kNumSizeClasses).erase idx,
      Function.update k idx (k idx + d) j * SizeClass.size j =
        ∑ j ∈ (Finset.Ico 0 kNumSizeClasses).erase idx, k j * SizeClass.size j :=
    Finset.sum_congr rfl fun j hj => by rw [Function.update_of_ne (Finset.ne_of_mem_erase hj)]
  rw [hrest]
  omega

/-- What a class has to give depends on the larger ones only. -/
lemma drainTarget_update {M idx m j : ℕ} (h : idx ≤ j) :
    drainTarget n M (Function.update k idx m) j = drainTarget n M k j := by
  unfold drainTarget
  rw [bytesFrom_update_of_lt (by omega)]

/-- A class has no more to give than it holds. -/
lemma drainTarget_le (M j : ℕ) : drainTarget n M k j ≤ n j := by
  unfold drainTarget
  split
  · exact le_rfl
  · exact min_le_left _ _

/-- Without a budget, no class gives anything. -/
lemma drainTarget_zero (j : ℕ) : drainTarget n 0 k j = 0 := by
  rw [drainTarget, if_neg (by decide), Nat.zero_sub, Nat.zero_div, Nat.min_zero]

/-- The start of a drain. -/
lemma Draining.start {L : ℕ → List ℕ} (M : ℕ)
    (hL : ∀ j < kNumSizeClasses, (c.buckets j).transferCache.contents = L j) :
    Draining L M c (.start M) fun _ => 0 := by
  have hzero : bytesFrom (fun _ => 0) 0 = 0 := Finset.sum_eq_zero fun j _ => Nat.zero_mul _
  have hnone : ∀ j, (if M = 0 then 0 else kNumSizeClasses) ≤ j → j < kNumSizeClasses →
      0 = drainTarget (fun i => (L i).length) M (fun _ => 0) j := by
    intro j hle hj
    split at hle
    · rename_i hM
      rw [hM, drainTarget_zero]
    · omega
  exact ⟨fun j hj => hL j hj, fun _ _ => Nat.zero_le _, fun _ _ => rfl,
    fun j hlt hj => hnone j hlt.le hj, fun hi => hnone _ le_rfl hi, hzero.symm⟩

/-- A class and the classes above it are part of the whole. -/
lemma bytesFrom_succ_le (k : ℕ → ℕ) {j : ℕ} (hj : j < kNumSizeClasses) :
    k j * SizeClass.size j + bytesFrom k (j + 1) ≤ bytesFrom k 0 := by
  have hbot : bytesFrom k j = k j * SizeClass.size j + bytesFrom k (j + 1) :=
    Finset.sum_eq_sum_Ico_succ_bot hj _
  rw [← hbot, bytesFrom, bytesFrom, ← Finset.sum_Ico_consecutive _ (Nat.zero_le j) hj.le]
  exact Nat.le_add_left _ _

/-- **The budget is used up**: where the classes give what they have to, a class that keeps an
object is larger than what is left. -/
lemma lt_size_of_left {j : ℕ} (hj : j < kNumSizeClasses) (hk : k j = drainTarget n M k j)
    (hleft : k j < n j) : M ≠ sizeMax ∧ M - bytesFrom k 0 < SizeClass.size j := by
  have hpos := (SizeClass.size_bounds j hj).1
  have hsum := bytesFrom_succ_le k hj
  rw [drainTarget] at hk
  split at hk
  · omega
  · rename_i hM
    refine ⟨hM, ?_⟩
    have hquot : k j = (M - bytesFrom k (j + 1)) / SizeClass.size j := by omega
    have hlt := Nat.lt_mul_div_succ (M - bytesFrom k (j + 1)) hpos
    rw [← hquot, Nat.mul_add, Nat.mul_comm, Nat.mul_one] at hlt
    omega

/-- Before the class `idx`, all above it have given what they had to. -/
lemma Draining.served_above (h : Draining L M c f k) {idx : ℕ} (hf : f.pc = .next (idx + 1)) {j : ℕ}
    (hlt : idx < j) (hj : j < kNumSizeClasses) :
    k j = drainTarget (fun i => (L i).length) M k j := by
  have hserved := h.served j
  have hposition := h.position
  simp only [hf, DrainPc.cls] at hserved hposition
  rcases Nat.eq_or_lt_of_le (Nat.succ_le_of_lt hlt) with rfl | hlt'
  · exact hposition.1 hj
  · exact hserved hlt' hj

/-- Before the class `idx`, the budget left is what the classes above did not take. -/
lemma Draining.rest_eq (h : Draining L M c f k) (hbudget : Budget M f) {idx : ℕ}
    (hf : f.pc = .next (idx + 1)) (hbounded : f.unbounded = false) :
    M - bytesFrom k (idx + 1) = f.maxBytes := by
  have hshape := hbudget.shape
  have huntouched := h.untouched
  have hposition := h.position
  simp only [hf, DrainPc.Shape, DrainPc.cls] at hshape huntouched hposition
  have hspent := hbudget.spent hbounded
  rw [← bytesFrom_eq_of_untouched hshape huntouched, ← hposition.2]
  omega

/-- **One step of an undisturbed drain.** -/
theorem Draining.step (h : Draining L M c f k) (hbudget : Budget M f)
    (hinv : c.Inv det out spansOut fresh) (hrun : c.drainStep hardened env f = .ok (c', f')) :
    ∃ k', Draining L M c' f' k' := by
  have hshape := hbudget.shape
  obtain ⟨hcontents, hle, huntouched, hserved, hposition⟩ := id h
  cases drainStep_cases hrun with
  | returned hf => exact ⟨k, h⟩
  | @skip idx hf hbounded hlow =>
    have hrest := h.rest_eq hbudget hf hbounded
    simp only [hf, DrainPc.Shape, DrainPc.cls] at hshape huntouched hposition
    refine ⟨k, hcontents, hle, fun j hj => huntouched j (Nat.lt_succ_of_lt hj),
      fun j hlt hj => h.served_above hf hlt hj, fun _ => ?_, hposition.2⟩
    -- the budget is below the size of one object
    have hM : M ≠ sizeMax := by
      intro heq
      rw [hbudget.unbounded, decide_eq_false_iff_not] at hbounded
      exact hbounded heq
    rw [huntouched idx (Nat.lt_succ_self idx), drainTarget, if_neg hM, hrest,
      Nat.div_eq_of_lt hlow, Nat.min_zero]
  | @snapshot idx hf hlarge =>
    have hrest := h.rest_eq hbudget hf
    simp only [hf, DrainPc.Shape, DrainPc.cls] at hshape huntouched hposition
    have hk := huntouched idx (Nat.lt_succ_self idx)
    have hsize : (c.buckets idx).transferCache.size = (L idx).length := by
      have hall := hcontents idx hshape
      rw [hk, List.drop_zero] at hall
      rw [← hall, RingBuffer.length_contents]
    refine ⟨k, hcontents, hle, fun j hj => huntouched j (Nat.lt_succ_of_lt hj),
      fun j hlt hj => h.served_above hf hlt hj, ?_, hposition.2⟩
    rw [hk, Nat.zero_add, hsize, drainTarget]
    by_cases hM : M = sizeMax
    · rw [if_pos hM, hbudget.unbounded, if_pos (by simpa using hM)]
    · have hbounded : f.unbounded = false := by rw [hbudget.unbounded, decide_eq_false hM]
      rw [if_neg hM, hrest hbounded, hbounded, if_neg (by simp)]
  | @exhausted idx remaining hf hnone =>
    simp only [hf, DrainPc.Shape, DrainPc.cls] at hshape huntouched hserved hposition
    refine ⟨k, hcontents, hle, huntouched, hserved, fun _ => ?_, hposition.2⟩
    have htarget := drainTarget_le (n := fun i => (L i).length) (k := k) M idx
    have hlen := congrArg List.length (hcontents idx hshape)
    rw [RingBuffer.length_contents, List.length_drop] at hlen
    have hk := hle idx hshape
    change drainTarget _ M k idx ≤ (L idx).length at htarget
    omega
  | @detach idx remaining d hf hd hpos =>
    simp only [hf, DrainPc.Shape, DrainPc.cls] at hshape huntouched hserved hposition
    have hring : d ≤ (c.buckets idx).transferCache.size := by omega
    have hcut := RingBuffer.contents_detach (hinv.ring idx hshape) hring
    have hlen : ((c.buckets idx).transferCache.detach d).1.length = d := by
      simp
    have hleft := congrArg List.length (hcontents idx hshape)
    rw [RingBuffer.length_contents, List.length_drop] at hleft
    refine ⟨Function.update k idx (k idx + d), fun j hj => ?_, fun j hj => ?_, fun j hj => ?_,
      fun j hlt hj => ?_, ?_, ?_⟩
    · by_cases hji : j = idx
      · subst hji
        rw [Function.update_self]
        simp only [setRing, Function.update_self]
        -- the batch is the cold end of what is left
        rw [← List.drop_drop, ← hcontents j hj, hcut]
        exact (List.drop_left' hlen).symm
      · rw [Function.update_of_ne hji]
        simp only [setRing, Function.update_of_ne hji]
        exact hcontents j hj
    · by_cases hji : j = idx
      · subst hji
        rw [Function.update_self]
        have := hle j hj
        omega
      · rw [Function.update_of_ne hji]
        exact hle j hj
    · have hj' : j < idx := hj
      rw [Function.update_of_ne hj'.ne]
      exact huntouched j hj'
    · have hlt' : idx < j := hlt
      rw [Function.update_of_ne hlt'.ne', drainTarget_update hlt'.le]
      exact hserved j hlt' hj
    · rw [Function.update_self, drainTarget_update le_rfl]
      omega
    · show f.drainedBytes + d * SizeClass.size idx = _
      rw [bytesFrom_update hshape, hposition.2]
  | @releasing idx remaining detached pc pc' c' hf hrelease hmore =>
    simp only [hf, DrainPc.Shape, DrainPc.cls] at hshape huntouched hserved hposition
    have hrings := (releaseStep_progress hshape.2.2 hrelease).1
    exact ⟨k, fun j hj => by rw [hrings j]; exact hcontents j hj, hle, huntouched, hserved,
      hposition⟩
  | @released idx remaining detached pc c' hf hrelease =>
    obtain ⟨-, hmod, hadd⟩ := hbudget.batch_bytes hf
    simp only [hf, DrainPc.Shape, DrainPc.cls] at hshape huntouched hserved hposition
    have hrings := (releaseStep_progress hshape.2.2 hrelease).1
    refine ⟨k, fun j hj => by rw [hrings j]; exact hcontents j hj, hle, huntouched, hserved,
      hposition.1, ?_⟩
    show addU64 f.drainedBytes (detached * SizeClass.size idx % 2 ^ 64) = bytesFrom k 0
    rw [hmod, hadd]
    exact hposition.2

end

end CentralCache

end Ammalloc
