import Ammalloc.FreeList.Chains

set_option relaxedAutoImplicit false
set_option autoImplicit false

/-!
# What `IsCanonical` decides

The shape check of a batch, on any heap: the chain behind the descriptor may be cyclic, too short
or too long, and the tail need not be on it. The walk follows `count - 1` links and gives up at a
null pointer, so it ends, and reads no link of the null pointer. That the nodes are distinct is
never looked at: it follows from the null link of the tail.

## Main definitions

* `Ammalloc.Intrusive.ObjectBatch.checkedIsCanonical` — the check with reads that fail at null.
* `Ammalloc.Intrusive.ObjectBatch.WellFormed` — what a batch should be.

## Main results

* `Ammalloc.Intrusive.ObjectBatch.isCanonical_decides`.
-/

namespace Ammalloc.Intrusive

open LinkedStack
open SizeClass (kNumSizeClasses)

namespace ObjectBatch

variable {heap : Heap} {batch : ObjectBatch}

/-- `node->next`; reading the link of the null pointer has no result. -/
def readNext (heap : Heap) (node : ℕ) : Option ℕ := if node = 0 then none else some (heap node)

/-- The walk of `IsCanonical`, with failing reads; the inner result is where it gives up. -/
def checkedWalk (heap : Heap) : ℕ → ℕ → Option (Option ℕ)
  | 0, cur => some (some cur)
  | steps + 1, cur =>
    if cur = 0 then some none
    else do
      let next ← readNext heap cur
      checkedWalk heap steps next

/-- `IsCanonical`, with failing reads. -/
def checkedIsCanonical (heap : Heap) (batch : ObjectBatch) : Option Bool :=
  if batch.count = 0 then
    some (batch.head = 0 ∧ batch.tail = 0 ∧ batch.sizeClassIdx = kNumSizeClasses)
  else if batch.head = 0 ∨ batch.tail = 0 ∨ batch.sizeClassIdx ≥ kNumSizeClasses then some false
  else do
    let walked ← checkedWalk heap (batch.count - 1) batch.head
    match walked with
    | none => return false
    | some cur =>
      -- the second operand of `&&` is evaluated only at the tail
      if cur = batch.tail then
        let next ← readNext heap cur
        return next = 0
      else return false

/-- **A well-formed batch**: the empty one, or a chain of exactly `count` distinct nodes from the
head to the tail, whose link is null, with a valid class. -/
def WellFormed (heap : Heap) (batch : ObjectBatch) : Prop :=
  batch.count = 0 ∧ batch.head = 0 ∧ batch.tail = 0 ∧ batch.sizeClassIdx = kNumSizeClasses ∨
    batch.sizeClassIdx < kNumSizeClasses ∧
      ∃ nodes, Chain heap 0 batch.head (nodes ++ [batch.tail]) ∧
      (nodes ++ [batch.tail]).Nodup ∧ (nodes ++ [batch.tail]).length = batch.count ∧
      heap batch.tail = 0

/-- The walk reads no link of the null pointer. -/
lemma checkedWalk_eq (heap : Heap) (steps cur : ℕ) :
    checkedWalk heap steps cur = some (canonicalWalk heap steps cur) := by
  induction steps generalizing cur with
  | zero => rfl
  | succ steps ih =>
    rw [checkedWalk, canonicalWalk]
    split_ifs with hnull
    · rfl
    · rw [readNext, if_neg hnull]
      exact ih (heap cur)

/-- The check reads no link of the null pointer. -/
lemma checkedIsCanonical_eq (heap : Heap) (batch : ObjectBatch) :
    batch.checkedIsCanonical heap = some (batch.isCanonical heap) := by
  rw [checkedIsCanonical, isCanonical]
  split_ifs with hcount hguard
  · rfl
  · rfl
  rw [checkedWalk_eq]
  simp only [Option.bind_eq_bind, Option.bind_some]
  cases canonicalWalk heap (batch.count - 1) batch.head with
  | none => rfl
  | some cur =>
    by_cases hcur : cur = batch.tail
    · have hne : cur ≠ 0 := by
        rw [hcur]
        omega
      simp [readNext, hcur, hcur ▸ hne]
    · simp [hcur]

/-- A walk that ends at a terminated node has followed a chain. -/
lemma chain_of_canonicalWalk {steps cur t : ℕ} (h : canonicalWalk heap steps cur = some t)
    (ht : t ≠ 0) (hlast : heap t = 0) :
    ∃ nodes, nodes.length = steps ∧ Chain heap 0 cur (nodes ++ [t]) := by
  induction steps generalizing cur with
  | zero =>
    obtain rfl : cur = t := Option.some.inj h
    exact ⟨[], rfl, rfl, ht, hlast⟩
  | succ steps ih =>
    rw [canonicalWalk] at h
    split_ifs at h with hnull
    obtain ⟨nodes, hlen, hchain⟩ := ih h
    exact ⟨cur :: nodes, by rw [List.length_cons, hlen], rfl, hnull, hchain⟩

/-- What the check accepts is well formed. -/
lemma wellFormed_of_isCanonical (h : batch.isCanonical heap = true) : batch.WellFormed heap := by
  rw [isCanonical] at h
  split_ifs at h with hcount hguard
  · exact Or.inl ⟨hcount, by simpa using h⟩
  rw [not_or, not_or] at hguard
  obtain ⟨-, htail, hcls⟩ := hguard
  cases hwalk : canonicalWalk heap (batch.count - 1) batch.head with
  | none =>
    rw [hwalk] at h
    exact absurd h (by simp)
  | some cur =>
    rw [hwalk] at h
    obtain ⟨rfl, hlast⟩ : cur = batch.tail ∧ heap cur = 0 := by simpa using h
    obtain ⟨nodes, hlen, hchain⟩ := chain_of_canonicalWalk hwalk htail hlast
    refine Or.inr ⟨not_le.mp hcls, nodes, hchain, hchain.nodup, ?_, hlast⟩
    rw [List.length_append, hlen]
    exact Nat.sub_add_cancel (Nat.one_le_iff_ne_zero.mpr hcount)

/-- A well-formed batch is accepted. -/
lemma isCanonical_of_wellFormed (h : batch.WellFormed heap) : batch.isCanonical heap = true := by
  rcases h with ⟨hcount, hempty⟩ | ⟨hcls, nodes, hchain, -, hlen, -⟩
  · rw [isCanonical, if_pos hcount]
    simpa using hempty
  · refine isCanonical_of_holds (c := ⟨nodes ++ [batch.tail], batch.sizeClassIdx⟩)
      ⟨hchain, fun t ht => ?_, hlen.symm, fun k hk => ?_⟩
    · rw [← Option.some.inj ht, List.getLastD_concat]
    · obtain rfl := Option.some.inj hk
      exact ⟨rfl, fun hnil => absurd hnil (by simp), fun _ => hcls⟩

/-- **`IsCanonical` decides well-formedness on every heap**, and never reads the link of the null
pointer. -/
theorem isCanonical_decides (heap : Heap) (batch : ObjectBatch) :
    batch.checkedIsCanonical heap = some (batch.isCanonical heap) ∧
      (batch.isCanonical heap = true ↔ batch.WellFormed heap) :=
  ⟨checkedIsCanonical_eq heap batch, wellFormed_of_isCanonical, isCanonical_of_wellFormed⟩

end ObjectBatch

end Ammalloc.Intrusive
