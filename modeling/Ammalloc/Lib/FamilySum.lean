import Mathlib.Tactic
import Mathlib.Algebra.BigOperators.Group.Finset.Basic

set_option relaxedAutoImplicit false
set_option autoImplicit false

/-!
# Totals over a family of components

A system of components indexed by a finite set keeps a total of some measure of its members.
When one component changes, the total changes by the difference.

## Main results

* `FamilySum.sum_update_add` — the exchange law for one changed component.
* `FamilySum.sum_update_erase` — the changed component, and the others as they were.
* `FamilySum.eq_of_mem_of_nodup_sum`, `FamilySum.pairwise_disjoint_of_nodup` — no two components
  share a member of a total without duplicates.
-/

namespace FamilySum

variable {ι α M : Type*} [DecidableEq ι] [AddCommMonoid M]

/-- **The exchange law**: the new total and the old share of the changed component balance the
old total and its new share. -/
lemma sum_update_add (s : Finset ι) (f : ι → α) (g : ι → α → M) {j : ι} (hj : j ∈ s) (v : α) :
    ∑ i ∈ s, g i (Function.update f j v i) + g j (f j) = ∑ i ∈ s, g i (f i) + g j v := by
  have hrest : ∑ i ∈ s.erase j, g i (Function.update f j v i) = ∑ i ∈ s.erase j, g i (f i) := by
    refine Finset.sum_congr rfl fun i hi => ?_
    rw [Function.update_of_ne (Finset.ne_of_mem_erase hi)]
  rw [← Finset.add_sum_erase s _ hj, ← Finset.add_sum_erase s (fun i => g i (f i)) hj, hrest,
    Function.update_self]
  abel

/-- The total after one component has changed: its new share, and the others as they were. -/
lemma sum_update_erase (s : Finset ι) (f : ι → α) (g : α → M) {j : ι} (hj : j ∈ s) (v : α) :
    ∑ i ∈ s, g (Function.update f j v i) = g v + ∑ i ∈ s.erase j, g (f i) := by
  rw [← Finset.add_sum_erase s _ hj, Function.update_self]
  congr 1
  refine Finset.sum_congr rfl fun i hi => ?_
  rw [Function.update_of_ne (Finset.ne_of_mem_erase hi)]

/-- A component outside the family does not count. -/
lemma sum_update_of_notMem (s : Finset ι) (f : ι → α) (g : ι → α → M) {j : ι} (hj : j ∉ s)
    (v : α) : ∑ i ∈ s, g i (Function.update f j v i) = ∑ i ∈ s, g i (f i) := by
  refine Finset.sum_congr rfl fun i hi => ?_
  have hij : i ≠ j := by rintro rfl; exact hj hi
  rw [Function.update_of_ne hij]

/-- A member of a total without duplicates comes from one component. -/
lemma eq_of_mem_of_nodup_sum {α : Type*} {s : Finset ι} {f : ι → Multiset α}
    (h : (∑ i ∈ s, f i).Nodup) {i j : ι} (hi : i ∈ s) (hj : j ∈ s) {a : α} (hai : a ∈ f i)
    (haj : a ∈ f j) : i = j := by
  by_contra hne
  have hj' : j ∈ s.erase i := Finset.mem_erase.mpr ⟨Ne.symm hne, hj⟩
  rw [← Finset.add_sum_erase s f hi, ← Finset.add_sum_erase _ f hj'] at h
  have hdisj := (Multiset.nodup_add.mp h).2.2
  exact Multiset.disjoint_left.mp hdisj hai (Multiset.mem_add.mpr (Or.inl haj))

/-- The shares of a total without duplicates are disjoint. -/
lemma pairwise_disjoint_of_nodup {α β : Type*} {l : List α} {f : α → Multiset β}
    (h : (l.map f).sum.Nodup) : l.Pairwise fun a b => Disjoint (f a) (f b) := by
  induction l with
  | nil => exact List.Pairwise.nil
  | cons a l ih =>
    rw [List.map_cons, List.sum_cons, Multiset.nodup_add] at h
    obtain ⟨-, hl, hdisj⟩ := h
    refine List.Pairwise.cons (fun b hb => hdisj.mono_right ?_) (ih hl)
    exact List.single_le_sum (fun _ _ => Multiset.zero_le _) _ (List.mem_map_of_mem hb)

end FamilySum
