import Ammalloc.FreeList
import Ammalloc.Lib.Machine

set_option relaxedAutoImplicit false
set_option autoImplicit false

/-!
# The quota of a class over a run

`NextAfterRefill` and `NextAfterOverflow` on `size_t` words, and every sequence of the two from a
fresh list. The quota grows to `kMaxQuotaBatches` batches and decays to one batch, unless the sum
`cur_max_size + step` of the linear growth wraps before it is clamped. From one batch on, every
quota is a multiple of `gcd (batch / 8) (batch % 8)`, and the ceiling minus this number is reached,
so that the sum wraps in some run exactly if it does there.

## Main definitions

* `Ammalloc.QuotaPolicy.nextAfterRefillWord`, `Ammalloc.QuotaPolicy.nextAfterOverflowWord`.
* `Ammalloc.QuotaPolicy.Converges` — the growth and the decay from a state.
* `Ammalloc.QuotaPolicy.NoWrap` — the condition on the batch.

## Main results

* `Ammalloc.QuotaPolicy.converges_iff`.
-/

namespace Ammalloc

namespace QuotaPolicy

/-! ## The rules on words -/

/-- `quota_policy::NextAfterRefill` on words. -/
def nextAfterRefillWord (curMaxSize batch : ℕ) : ℕ :=
  if curMaxSize < batch then min batch (addU64 curMaxSize (max 1 curMaxSize))
  else if curMaxSize < batch * kMaxQuotaBatches % 2 ^ 64 then
    min (batch * kMaxQuotaBatches % 2 ^ 64)
      (addU64 curMaxSize (max 1 (batch / kMaxQuotaBatches)))
  else curMaxSize

/-- `quota_policy::NextAfterOverflow` on words. -/
def nextAfterOverflowWord (curMaxSize batch overages : ℕ) : ℕ × ℕ :=
  if curMaxSize ≤ batch then (curMaxSize, 0)
  else if addU64 overages 1 ≥ kMaxOverages then (max (subU64 curMaxSize batch) batch, 0)
  else (curMaxSize, addU64 overages 1)

/-- `struct QuotaState`, with the values of a fresh list. -/
structure QuotaState where
  maxSize : ℕ := 1
  overages : ℕ := 0
  deriving DecidableEq, Repr

/-- The two transitions of a list. -/
inductive QuotaAction where
  | refill
  | overflow
  deriving DecidableEq, Repr

/-- The state after a transition; a refill also resets the counter. -/
def QuotaState.next (batch : ℕ) (s : QuotaState) : QuotaAction → QuotaState
  | .refill => ⟨nextAfterRefillWord s.maxSize batch, 0⟩
  | .overflow =>
    let r := nextAfterOverflowWord s.maxSize batch s.overages
    ⟨r.1, r.2⟩

/-- All sequences of transitions for one batch size. -/
def machine (batch : ℕ) : Machine QuotaState QuotaAction where
  init := {{}}
  next := QuotaState.next batch

/-- The state after `k` transitions of one kind. -/
def repeated (batch : ℕ) (s : QuotaState) (a : QuotaAction) (k : ℕ) : QuotaState :=
  (machine batch).run s (List.replicate k a)

/-- **Convergence from a state**: what consecutive refills and consecutive overflows do. -/
structure Converges (batch : ℕ) (s : QuotaState) : Prop where
  quota : 1 ≤ s.maxSize ∧ s.maxSize ≤ kMaxQuotaBatches * batch
  overages : s.overages ≤ 2
  /-- Below one batch a refill doubles the quota or hits the batch. -/
  warmup : s.maxSize < batch → (s.next batch .refill).maxSize = min batch (2 * s.maxSize)
  /-- Refills increase the quota until it is at the ceiling, and stays there. -/
  ceiling : ∃ k, (∀ i < k, (repeated batch s .refill i).maxSize <
      (repeated batch s .refill (i + 1)).maxSize) ∧
    ∀ i ≥ k, (repeated batch s .refill i).maxSize = kMaxQuotaBatches * batch
  /-- No overflow raises the quota. -/
  never_raises : (s.next batch .overflow).maxSize ≤ s.maxSize
  /-- Every third overflow takes a batch off, and no other. -/
  decay : batch < s.maxSize → s.overages = 0 →
    repeated batch s .overflow 1 = ⟨s.maxSize, 1⟩ ∧
    repeated batch s .overflow 2 = ⟨s.maxSize, 2⟩ ∧
    repeated batch s .overflow 3 = ⟨max (s.maxSize - batch) batch, 0⟩
  /-- A quota of at most one batch stays. -/
  floor : s.maxSize ≤ batch → s.next batch .overflow = ⟨s.maxSize, 0⟩
  /-- Overflows end at a quota of at most one batch. -/
  settles : ∃ k, (repeated batch s .overflow k).maxSize ≤ batch ∧
    (repeated batch s .overflow k).overages = 0 ∧
    ∀ i ≥ k, repeated batch s .overflow i = repeated batch s .overflow k

/-- The step of the linear growth. -/
def growthStep (batch : ℕ) : ℕ := max 1 (batch / kMaxQuotaBatches)

/-- What divides every quota from one batch on. -/
def grid (batch : ℕ) : ℕ := Nat.gcd (batch / kMaxQuotaBatches) (batch % kMaxQuotaBatches)

/-- The linear growth does not wrap at the last quota below the ceiling. -/
def NoWrap (batch : ℕ) : Prop :=
  kMaxQuotaBatches * batch - grid batch + growthStep batch < 2 ^ 64

instance (batch : ℕ) : Decidable (NoWrap batch) := inferInstanceAs (Decidable (_ < _))

variable {batch cur : ℕ}

/-! ## One transition -/

section Word

variable (hbatch : kMaxQuotaBatches * batch < 2 ^ 64)
include hbatch

/-- The ceiling of the quotas is computed without wrapping. -/
lemma ceiling_word : batch * kMaxQuotaBatches % 2 ^ 64 = kMaxQuotaBatches * batch := by
  rw [Nat.mul_comm]
  exact Nat.mod_eq_of_lt hbatch

/-- Where the sum of the linear growth does not wrap, the rule on words is the rule on numbers. -/
lemma refill_word (hsum : batch ≤ cur → cur < kMaxQuotaBatches * batch →
      cur + growthStep batch < 2 ^ 64) :
    nextAfterRefillWord cur batch = nextAfterRefill cur batch := by
  rw [nextAfterRefillWord, nextAfterRefill, ceiling_word hbatch, Nat.mul_comm batch]
  by_cases hwarm : cur < batch
  · rw [if_pos hwarm, if_pos hwarm, addU64_of_lt]
    unfold kMaxQuotaBatches at hbatch
    omega
  rw [if_neg hwarm, if_neg hwarm]
  by_cases hlt : cur < kMaxQuotaBatches * batch
  · rw [if_pos hlt, if_pos hlt]
    exact congrArg _ (addU64_of_lt (hsum (by omega) hlt))
  · rw [if_neg hlt, if_neg hlt]

/-- Exponential warmup. -/
lemma refill_warmup (hcur : 1 ≤ cur) (hlt : cur < batch) :
    nextAfterRefillWord cur batch = min batch (2 * cur) := by
  rw [refill_word hbatch (by omega), nextAfterRefill, if_pos hlt, Nat.max_eq_right hcur,
    Nat.two_mul]

/-- Linear growth, where the sum does not wrap. -/
lemma refill_linear (hge : batch ≤ cur) (hlt : cur < kMaxQuotaBatches * batch)
    (hsum : cur + growthStep batch < 2 ^ 64) :
    nextAfterRefillWord cur batch = min (kMaxQuotaBatches * batch) (cur + growthStep batch) := by
  rw [refill_word hbatch fun _ _ => hsum, nextAfterRefill, if_neg (by omega), Nat.mul_comm batch,
    if_pos hlt]
  rfl

/-- Where the sum wraps, the quota shrinks. -/
lemma refill_wrap (hge : batch ≤ cur) (hlt : cur < kMaxQuotaBatches * batch)
    (hsum : 2 ^ 64 ≤ cur + growthStep batch) : nextAfterRefillWord cur batch < cur := by
  rw [nextAfterRefillWord, if_neg (by omega), ceiling_word hbatch, if_pos hlt]
  refine lt_of_le_of_lt (Nat.min_le_right _ _) ?_
  have hstep : growthStep batch < 2 ^ 64 := by
    unfold growthStep kMaxQuotaBatches at *
    omega
  show addU64 cur (growthStep batch) < cur
  unfold addU64
  omega

/-- At the ceiling the quota stays. -/
lemma refill_ceiling :
    nextAfterRefillWord (kMaxQuotaBatches * batch) batch = kMaxQuotaBatches * batch := by
  rw [nextAfterRefillWord, if_neg (by unfold kMaxQuotaBatches; omega), ceiling_word hbatch,
    if_neg (lt_irrefl _)]

/-- An overflow does not wrap. -/
lemma overflow_word {overages : ℕ} (hcur : cur ≤ kMaxQuotaBatches * batch) (ho : overages ≤ 2) :
    nextAfterOverflowWord cur batch overages = nextAfterOverflow cur batch overages := by
  rw [nextAfterOverflowWord, nextAfterOverflow, addU64_of_lt (by omega)]
  by_cases hle : cur ≤ batch
  · rw [if_pos hle, if_pos hle]
  · rw [if_neg hle, if_neg hle, subU64_of_le (by omega) (by omega)]

end Word

/-! ## Every run -/

/-- A step of the growth is a multiple of the grid. -/
lemma grid_dvd_step (h : kMaxQuotaBatches ≤ batch) : grid batch ∣ growthStep batch := by
  have hstep : growthStep batch = batch / kMaxQuotaBatches :=
    Nat.max_eq_right (Nat.div_pos h (by decide))
  rw [hstep]
  exact Nat.gcd_dvd_left _ _

/-- A batch is a multiple of the grid. -/
lemma grid_dvd_batch (batch : ℕ) : grid batch ∣ batch := by
  have hsum : grid batch ∣
      kMaxQuotaBatches * (batch / kMaxQuotaBatches) + batch % kMaxQuotaBatches :=
    Nat.dvd_add (Dvd.dvd.mul_left (Nat.gcd_dvd_left _ _) _) (Nat.gcd_dvd_right _ _)
  rwa [Nat.div_add_mod] at hsum

/-- The invariant of all runs. -/
structure Inv (batch : ℕ) (s : QuotaState) : Prop where
  pos : 1 ≤ s.maxSize
  le : s.maxSize ≤ kMaxQuotaBatches * batch
  overages : s.overages ≤ 2
  grid : kMaxQuotaBatches ≤ batch → batch ≤ s.maxSize → grid batch ∣ s.maxSize

/-- Several equal actions are the first one and the others. -/
lemma repeated_succ (s : QuotaState) (a : QuotaAction) (k : ℕ) :
    repeated batch s a (k + 1) = repeated batch (s.next batch a) a k := rfl

section Run

variable (hbatch : kMaxQuotaBatches * batch < 2 ^ 64)
include hbatch

/-- **The linear growth of a reachable quota does not wrap**: the quota is at least one grid line
below the ceiling. -/
lemma Inv.sum_lt {s : QuotaState} (h : Inv batch s) (hno : NoWrap batch)
    (hge : batch ≤ s.maxSize) (hlt : s.maxSize < kMaxQuotaBatches * batch) :
    s.maxSize + growthStep batch < 2 ^ 64 := by
  by_cases hsmall : kMaxQuotaBatches ≤ batch
  · have hdvd : QuotaPolicy.grid batch ∣ kMaxQuotaBatches * batch - s.maxSize :=
      Nat.dvd_sub (Dvd.dvd.mul_left (grid_dvd_batch batch) _) (h.grid hsmall hge)
    have hle := Nat.le_of_dvd (by omega) hdvd
    unfold NoWrap at hno
    omega
  · have hstep : growthStep batch = 1 := by
      unfold growthStep
      rw [Nat.div_eq_of_lt (by omega)]
      rfl
    rw [hstep]
    omega

/-- The state after an overflow. -/
lemma Inv.next_overflow {s : QuotaState} (h : Inv batch s) :
    s.next batch .overflow =
      if s.maxSize ≤ batch then ⟨s.maxSize, 0⟩
      else if s.overages = 2 then ⟨max (s.maxSize - batch) batch, 0⟩
      else ⟨s.maxSize, s.overages + 1⟩ := by
  have ho := h.overages
  rw [QuotaState.next, overflow_word hbatch h.le ho, nextAfterOverflow]
  unfold kMaxOverages
  by_cases hle : s.maxSize ≤ batch
  · rw [if_pos hle, if_pos hle]
  · rw [if_neg hle, if_neg hle]
    by_cases hthird : s.overages = 2
    · rw [if_pos (by omega), if_pos hthird]
    · rw [if_neg (by omega), if_neg hthird]

/-- At the ceiling refills change nothing. -/
lemma refills_at_ceiling {s : QuotaState} (hmax : s.maxSize = kMaxQuotaBatches * batch) (i : ℕ) :
    (repeated batch s .refill i).maxSize = kMaxQuotaBatches * batch := by
  induction i generalizing s with
  | zero => exact hmax
  | succ i ih =>
    refine ih (s := s.next batch .refill) ?_
    show nextAfterRefillWord s.maxSize batch = _
    rw [hmax]
    exact refill_ceiling hbatch

/-- A quota of at most one batch with the counter at zero is fixed. -/
lemma Inv.fixed {s : QuotaState} (h : Inv batch s) (hfloor : s.maxSize ≤ batch)
    (ho : s.overages = 0) (i : ℕ) : repeated batch s .overflow i = s := by
  have hself : s.next batch .overflow = s := by
    rw [h.next_overflow hbatch, if_pos hfloor, ← ho]
  induction i with
  | zero => rfl
  | succ i ih => rw [repeated_succ, hself, ih]

variable (hb : 1 ≤ batch)
include hb

/-- A refill below the ceiling. -/
lemma Inv.refill {s : QuotaState} (h : Inv batch s) (hno : NoWrap batch) :
    Inv batch (s.next batch .refill) ∧
      (s.maxSize < kMaxQuotaBatches * batch →
        s.maxSize < (s.next batch .refill).maxSize) := by
  have hpos := h.pos
  have hceil : batch ≤ kMaxQuotaBatches * batch := by
    unfold kMaxQuotaBatches
    omega
  rcases Nat.lt_or_ge s.maxSize batch with hwarm | hge
  · -- the quota doubles or becomes one batch
    have hnext : (s.next batch .refill).maxSize = min batch (2 * s.maxSize) :=
      refill_warmup hbatch hpos hwarm
    refine ⟨⟨by omega, by omega, Nat.zero_le _, fun _ hle => ?_⟩, fun _ => by omega⟩
    rw [show (s.next batch .refill).maxSize = batch by omega]
    exact grid_dvd_batch batch
  rcases Nat.lt_or_ge s.maxSize (kMaxQuotaBatches * batch) with hlt | hmax
  · have hnext : (s.next batch .refill).maxSize =
        min (kMaxQuotaBatches * batch) (s.maxSize + growthStep batch) :=
      refill_linear hbatch hge hlt (h.sum_lt hbatch hno hge hlt)
    have hstep : 1 ≤ growthStep batch := Nat.le_max_left _ _
    refine ⟨⟨by omega, by omega, Nat.zero_le _, fun hbig _ => ?_⟩, fun _ => by omega⟩
    rw [hnext]
    rcases Nat.le_total (kMaxQuotaBatches * batch) (s.maxSize + growthStep batch) with hle | hle
    · rw [Nat.min_eq_left hle]
      exact Dvd.dvd.mul_left (grid_dvd_batch batch) _
    · rw [Nat.min_eq_right hle]
      exact Nat.dvd_add (h.grid hbig hge) (grid_dvd_step hbig)
  · have heq : s.maxSize = kMaxQuotaBatches * batch := le_antisymm h.le hmax
    have hnext : (s.next batch .refill).maxSize = s.maxSize := by
      show nextAfterRefillWord s.maxSize batch = s.maxSize
      rw [heq]
      exact refill_ceiling hbatch
    refine ⟨⟨hnext ▸ hpos, hnext ▸ h.le, Nat.zero_le _, fun hbig _ => ?_⟩, fun hlt => by omega⟩
    rw [hnext]
    exact h.grid hbig hge

/-- An overflow keeps the invariant and does not raise the quota. -/
lemma Inv.overflow {s : QuotaState} (h : Inv batch s) :
    Inv batch (s.next batch .overflow) ∧ (s.next batch .overflow).maxSize ≤ s.maxSize := by
  obtain ⟨hpos, hle, ho, hgrid⟩ := h
  rw [Inv.next_overflow hbatch ⟨hpos, hle, ho, hgrid⟩]
  split_ifs with hfloor hthird
  · exact ⟨⟨hpos, hle, Nat.zero_le _, hgrid⟩, le_rfl⟩
  · refine ⟨⟨?_, ?_, Nat.zero_le _, fun hbig _ => ?_⟩, ?_⟩
    · show 1 ≤ max (s.maxSize - batch) batch
      omega
    · show max (s.maxSize - batch) batch ≤ kMaxQuotaBatches * batch
      unfold kMaxQuotaBatches at *
      omega
    · show QuotaPolicy.grid batch ∣ max (s.maxSize - batch) batch
      rcases Nat.le_total (s.maxSize - batch) batch with hmax | hmax
      · rw [Nat.max_eq_right hmax]
        exact grid_dvd_batch batch
      · rw [Nat.max_eq_left hmax]
        exact Nat.dvd_sub (hgrid hbig (by omega)) (grid_dvd_batch batch)
    · show max (s.maxSize - batch) batch ≤ s.maxSize
      omega
  · exact ⟨⟨hpos, hle, by show s.overages + 1 ≤ 2; omega, hgrid⟩, le_rfl⟩

/-- **Refills reach the ceiling.** -/
lemma Inv.ceiling (hno : NoWrap batch) {s : QuotaState} (h : Inv batch s) :
    ∃ k, (∀ i < k, (repeated batch s .refill i).maxSize <
        (repeated batch s .refill (i + 1)).maxSize) ∧
      ∀ i ≥ k, (repeated batch s .refill i).maxSize = kMaxQuotaBatches * batch := by
  -- induction on the distance to the ceiling
  induction hd : kMaxQuotaBatches * batch - s.maxSize using Nat.strong_induction_on
    generalizing s with
  | _ d ih =>
    obtain ⟨hnext, hgrow⟩ := h.refill hbatch hb hno
    rcases Nat.lt_or_ge s.maxSize (kMaxQuotaBatches * batch) with hlt | hmax
    · have hgrow := hgrow hlt
      obtain ⟨k, hbelow, habove⟩ := ih _ (by omega) hnext rfl
      refine ⟨k + 1, fun i hi => ?_, fun i hi => ?_⟩
      · cases i with
        | zero => exact hgrow
        | succ i => exact hbelow i (by omega)
      · cases i with
        | zero => exact absurd hi (by omega)
        | succ i => exact habove i (by omega)
    · exact ⟨0, fun i hi => absurd hi (Nat.not_lt_zero i),
        fun i _ => refills_at_ceiling hbatch (le_antisymm h.le hmax) i⟩

/-- **Overflows end at one batch at most.** -/
lemma Inv.settles {s : QuotaState} (h : Inv batch s) :
    ∃ k, (repeated batch s .overflow k).maxSize ≤ batch ∧
      (repeated batch s .overflow k).overages = 0 ∧
      ∀ i ≥ k, repeated batch s .overflow i = repeated batch s .overflow k := by
  -- every overflow above one batch lowers `3 * maxSize - overages`
  induction hd : 3 * s.maxSize - s.overages using Nat.strong_induction_on generalizing s with
  | _ d ih =>
    obtain ⟨hnext, -⟩ := h.overflow hbatch hb
    have hstep := h.next_overflow hbatch
    by_cases hfloor : s.maxSize ≤ batch
    · rw [if_pos hfloor] at hstep
      rw [hstep] at hnext
      have hfixed := hnext.fixed hbatch hfloor rfl
      have hrep : ∀ i, repeated batch s .overflow (i + 1) = ⟨s.maxSize, 0⟩ := fun i => by
        rw [repeated_succ, hstep, hfixed]
      refine ⟨1, by rw [hrep 0]; exact hfloor, by rw [hrep 0], fun i hi => ?_⟩
      obtain ⟨j, rfl⟩ : ∃ j, i = j + 1 := ⟨i - 1, by omega⟩
      rw [hrep j, hrep 0]
    · have hlt : 3 * (s.next batch .overflow).maxSize - (s.next batch .overflow).overages < d := by
        have ho := h.overages
        rw [hstep, if_neg hfloor]
        split_ifs with hthird
        · show 3 * max (s.maxSize - batch) batch - 0 < d
          omega
        · show 3 * s.maxSize - (s.overages + 1) < d
          omega
      obtain ⟨k, hle, hzero, hstay⟩ := ih _ hlt hnext rfl
      refine ⟨k + 1, hle, hzero, fun i hi => ?_⟩
      obtain ⟨j, rfl⟩ : ∃ j, i = j + 1 := ⟨i - 1, by omega⟩
      exact hstay j (by omega)

/-- **Convergence from every state of the invariant.** -/
lemma Inv.converges (hno : NoWrap batch) {s : QuotaState} (h : Inv batch s) :
    Converges batch s := by
  refine ⟨⟨h.pos, h.le⟩, h.overages, fun hlt => refill_warmup hbatch h.pos hlt,
    h.ceiling hbatch hb hno, (h.overflow hbatch hb).2, fun hgt ho => ?_, fun hfloor => ?_,
    h.settles hbatch hb⟩
  · have h₁ := h.next_overflow hbatch
    rw [if_neg (by omega), if_neg (by omega), ho] at h₁
    have hinv₁ : Inv batch ⟨s.maxSize, 1⟩ := h₁ ▸ (h.overflow hbatch hb).1
    have h₂ : QuotaState.next batch ⟨s.maxSize, 1⟩ .overflow = ⟨s.maxSize, 2⟩ := by
      rw [hinv₁.next_overflow hbatch, if_neg (by show ¬ s.maxSize ≤ batch; omega),
        if_neg (by simp)]
    have hinv₂ : Inv batch ⟨s.maxSize, 2⟩ := h₂ ▸ (hinv₁.overflow hbatch hb).1
    have h₃ : QuotaState.next batch ⟨s.maxSize, 2⟩ .overflow =
        ⟨max (s.maxSize - batch) batch, 0⟩ := by
      rw [hinv₂.next_overflow hbatch, if_neg (by show ¬ s.maxSize ≤ batch; omega), if_pos rfl]
    refine ⟨h₁, ?_, ?_⟩
    · show QuotaState.next batch (s.next batch .overflow) .overflow = _
      rw [h₁]
      exact h₂
    · show QuotaState.next batch
        (QuotaState.next batch (s.next batch .overflow) .overflow) .overflow = _
      rw [h₁]
      show QuotaState.next batch (QuotaState.next batch ⟨s.maxSize, 1⟩ .overflow) .overflow = _
      rw [h₂, h₃]
  · rw [h.next_overflow hbatch, if_pos hfloor]

/-- The invariant holds after every run. -/
lemma inv_run (hno : NoWrap batch) (as : List QuotaAction) :
    Inv batch ((machine batch).run {} as) := by
  refine Machine.run_invariant (M := machine batch) (I := Inv batch) (fun s a h => ?_) ?_ as
  · cases a with
    | refill => exact (h.refill hbatch hb hno).1
    | overflow => exact (h.overflow hbatch hb).1
  · refine ⟨le_rfl, ?_, Nat.zero_le _, fun hbig hle => ?_⟩
    · show 1 ≤ kMaxQuotaBatches * batch
      unfold kMaxQuotaBatches
      omega
    · change batch ≤ 1 at hle
      unfold kMaxQuotaBatches at hbig
      omega

end Run

/-! ## The last quota below the ceiling is reached -/

/-- Some run ends with quota `q` and the counter at zero. -/
def Reached (batch q : ℕ) : Prop := ∃ as, (machine batch).run {} as = ⟨q, 0⟩

section Reached

variable {q : ℕ} (hbatch : kMaxQuotaBatches * batch < 2 ^ 64)
  (hconv : ∀ as, Converges batch ((machine batch).run {} as))

include hbatch in
/-- Refills add steps as long as the ceiling is not passed. -/
lemma Reached.add_steps (h : Reached batch q) (hge : batch ≤ q) (i : ℕ)
    (hle : q + i * growthStep batch ≤ kMaxQuotaBatches * batch) :
    Reached batch (q + i * growthStep batch) := by
  induction i with
  | zero => simpa using h
  | succ i ih =>
    have hstep : 1 ≤ growthStep batch := Nat.le_max_left _ _
    rw [Nat.add_mul, Nat.one_mul, ← Nat.add_assoc] at hle ⊢
    obtain ⟨as, has⟩ := ih (by omega)
    refine ⟨as ++ [.refill], ?_⟩
    rw [Machine.run_append, has]
    show QuotaState.mk (nextAfterRefillWord (q + i * growthStep batch) batch) 0 = _
    rw [refill_linear hbatch (by omega) (by omega) (by omega), Nat.min_eq_right hle]

include hconv in
/-- Three overflows take a batch off. -/
lemma Reached.sub_batch (h : Reached batch q) (hlt : batch < q) :
    Reached batch (max (q - batch) batch) := by
  obtain ⟨as, has⟩ := h
  have hdecay := ((hconv as).decay (by rw [has]; exact hlt) (by rw [has])).2.2
  rw [has] at hdecay
  refine ⟨as ++ List.replicate 3 .overflow, ?_⟩
  rw [Machine.run_append, has]
  exact hdecay

include hconv in
/-- The ceiling is reached. -/
lemma reached_ceiling : Reached batch (kMaxQuotaBatches * batch) := by
  obtain ⟨k, -, hmax⟩ := (hconv []).ceiling
  refine ⟨List.replicate k .refill ++ [.refill], ?_⟩
  have hlast := hmax (k + 1) (Nat.le_succ k)
  rw [repeated, List.replicate_succ'] at hlast
  rw [Machine.run_append] at hlast ⊢
  exact congrArg (QuotaState.mk · 0) hlast

include hbatch hconv in
/-- A batch off and eight steps up: the quota is lower by the remainder of the batch. -/
lemma Reached.sub_mod (h : Reached batch q) (hbig : kMaxQuotaBatches ≤ batch)
    (hge : 2 * batch ≤ q) (hle : q ≤ kMaxQuotaBatches * batch) :
    Reached batch (q - batch % kMaxQuotaBatches) := by
  have hstep : growthStep batch = batch / kMaxQuotaBatches :=
    Nat.max_eq_right (Nat.div_pos hbig (by decide))
  have hlow := h.sub_batch hconv (by unfold kMaxQuotaBatches at hbig; omega)
  rw [Nat.max_eq_left (by omega)] at hlow
  have heq : q - batch + 8 * growthStep batch = q - batch % kMaxQuotaBatches := by
    rw [hstep]
    unfold kMaxQuotaBatches
    omega
  have hup := hlow.add_steps hbatch (by omega) 8 (by omega)
  rwa [heq] at hup

include hbatch hconv in
/-- Trims and refills lead to each quota `j` remainders below the ceiling. -/
lemma reached_sub_mul_mod (hbig : kMaxQuotaBatches ≤ batch) (j : ℕ)
    (hj : batch % kMaxQuotaBatches * j ≤ batch) :
    Reached batch (kMaxQuotaBatches * batch - batch % kMaxQuotaBatches * j) := by
  induction j with
  | zero => exact reached_ceiling hconv
  | succ j ih =>
    rw [Nat.mul_succ] at hj ⊢
    have hprev := (ih (by omega)).sub_mod hbatch hconv hbig
      (by unfold kMaxQuotaBatches at *; omega) (Nat.sub_le _ _)
    rwa [Nat.sub_sub] at hprev

include hbatch hconv in
/-- **The grid line below the ceiling is reached.**

**Proof sketch.** Remainders of the batch take the quota to any multiple of them below the ceiling,
and steps take it up again; by Bézout some combination is the greatest common divisor. -/
lemma reached_last (hbig : kMaxQuotaBatches ≤ batch) (hlt : grid batch < growthStep batch) :
    Reached batch (kMaxQuotaBatches * batch - grid batch) := by
  have hstep : growthStep batch = batch / kMaxQuotaBatches :=
    Nat.max_eq_right (Nat.div_pos hbig (by decide))
  have hgcd : Nat.gcd (batch % kMaxQuotaBatches) (growthStep batch) = grid batch := by
    rw [hstep, Nat.gcd_comm]
    rfl
  obtain ⟨j, hj, hmod⟩ := Nat.exists_mul_mod_eq_gcd (hgcd ▸ hlt)
  rw [hgcd] at hmod
  have hrem : batch % kMaxQuotaBatches < kMaxQuotaBatches := Nat.mod_lt _ (by decide)
  have hsplit := Nat.div_add_mod (batch % kMaxQuotaBatches * j) (growthStep batch)
  rw [hmod, Nat.mul_comm (growthStep batch)] at hsplit
  have hsmall : batch % kMaxQuotaBatches * j ≤ batch := by
    calc batch % kMaxQuotaBatches * j ≤ kMaxQuotaBatches * (batch / kMaxQuotaBatches) :=
          Nat.mul_le_mul hrem.le (hstep ▸ hj.le)
      _ ≤ batch := Nat.mul_div_le batch kMaxQuotaBatches
  have hreached := reached_sub_mul_mod hbatch hconv hbig j hsmall
  have hup := hreached.add_steps hbatch (by unfold kMaxQuotaBatches at *; omega)
    (batch % kMaxQuotaBatches * j / growthStep batch) (by unfold kMaxQuotaBatches at *; omega)
  have heq : kMaxQuotaBatches * batch - batch % kMaxQuotaBatches * j +
      batch % kMaxQuotaBatches * j / growthStep batch * growthStep batch =
      kMaxQuotaBatches * batch - grid batch := by
    unfold kMaxQuotaBatches at *
    omega
  rwa [heq] at hup

end Reached

/-- **Quota convergence.** For every batch whose ceiling is a word: every run from a fresh list
stays within the bounds and converges, under refills to the ceiling and under overflows to one
batch, if and only if the linear growth does not wrap at the last grid line below the ceiling. -/
theorem converges_iff (batch : ℕ) (hb : 1 ≤ batch) (hbatch : kMaxQuotaBatches * batch < 2 ^ 64) :
    (∀ as, Converges batch ((machine batch).run {} as)) ↔ NoWrap batch := by
  refine ⟨fun hconv => ?_, fun hno as => (inv_run hbatch hb hno as).converges hbatch hb hno⟩
  by_contra hwrap
  have hbig : kMaxQuotaBatches ≤ batch := by
    by_contra hsmall
    refine hwrap ?_
    rw [NoWrap, growthStep, Nat.div_eq_of_lt (by omega)]
    unfold kMaxQuotaBatches at *
    show 8 * batch - grid batch + 1 < 2 ^ 64
    omega
  have hpos : 0 < grid batch := Nat.gcd_pos_of_pos_left _ (Nat.div_pos hbig (by decide))
  rw [NoWrap, not_lt] at hwrap
  have hgrid : grid batch ≤ batch := Nat.le_of_dvd hb (grid_dvd_batch batch)
  have hroom : batch + grid batch ≤ kMaxQuotaBatches * batch := by
    unfold kMaxQuotaBatches
    omega
  have hlt : grid batch < growthStep batch := by omega
  obtain ⟨as, has⟩ := reached_last hbatch hconv hbig hlt
  have hge : batch ≤ kMaxQuotaBatches * batch - grid batch := by omega
  have hshrink := refill_wrap hbatch hge (by omega) hwrap
  obtain ⟨k, hbelow, habove⟩ := (hconv as).ceiling
  rw [has] at hbelow habove
  rcases Nat.eq_zero_or_pos k with rfl | hk
  · have hmax : kMaxQuotaBatches * batch - grid batch = kMaxQuotaBatches * batch := habove 0 le_rfl
    omega
  · have hgrow : kMaxQuotaBatches * batch - grid batch <
        nextAfterRefillWord (kMaxQuotaBatches * batch - grid batch) batch := hbelow 0 hk
    omega

/-- With the largest batch of any class, the quota converges from its value after three refills. -/
theorem converges_iff_kMaxBatchSize : NoWrap SizeClass.kMaxBatchSize ∧
    Converges SizeClass.kMaxBatchSize
      ((machine SizeClass.kMaxBatchSize).run {} [.refill, .refill, .refill]) :=
  ⟨by decide, (converges_iff SizeClass.kMaxBatchSize (by decide) (by decide)).mpr (by decide) _⟩

/-- After 117 refills with a batch of `2 ^ 61 - 1` the quota is 49 below the ceiling, and the next
refill takes it below one batch. -/
theorem not_converges_wrapping_batch :
    ¬ ∀ as, Converges (2 ^ 61 - 1) ((machine (2 ^ 61 - 1)).run {} as) := by
  intro hconv
  have hquota : (machine (2 ^ 61 - 1)).run {} (List.replicate 117 .refill) =
      ⟨2 ^ 64 - 57, 0⟩ := by decide +kernel
  obtain ⟨k, hbelow, habove⟩ := (hconv (List.replicate 117 .refill)).ceiling
  rw [hquota] at hbelow habove
  rcases Nat.eq_zero_or_pos k with rfl | hk
  · exact absurd (habove 0 le_rfl) (by decide +kernel)
  · exact absurd (hbelow 0 hk) (by decide +kernel)

end QuotaPolicy

end Ammalloc
