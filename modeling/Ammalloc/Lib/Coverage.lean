import Ammalloc.Lib.ExtentMap
import Mathlib.Data.Multiset.Count

set_option relaxedAutoImplicit false
set_option autoImplicit false

/-!
# How often extents cover a point

A collection of nonempty extents is disjoint exactly if it covers no point twice. The coverage of a
point adds up over collections, so a ledger of ranges that are handed over, split and returned is
kept by additions.

## Main definitions

* `Extent.coverage` — the number of extents that contain a point.

## Main results

* `Extent.coverage_split` — cutting an extent in two.
* `Extent.pairwise_disjoint_of_coverage` — points covered at most once.
* `Extent.card_le_of_coverage` — how many disjoint extents fit below a bound.
-/

namespace Extent

/-- The number of extents that contain the point `q`. -/
def coverage (l : Multiset Extent) (q : ℕ) : ℕ := l.countP fun e => e.Contains q

variable {l l' : Multiset Extent} {e : Extent} {q : ℕ}

@[simp] lemma coverage_zero (q : ℕ) : coverage 0 q = 0 := Multiset.countP_zero _

/-- One extent more covers its points once more. -/
lemma coverage_cons (e : Extent) (l : Multiset Extent) (q : ℕ) :
    coverage (e ::ₘ l) q = coverage l q + if e.Contains q then 1 else 0 :=
  Multiset.countP_cons _ _ _

/-- A point is covered if some extent contains it. -/
lemma coverage_pos_iff : 0 < coverage l q ↔ ∃ e ∈ l, e.Contains q := Multiset.countP_pos

/-- **Cutting an extent in two** covers the same points. -/
lemma coverage_split (s a b : ℕ) (l : Multiset Extent) (q : ℕ) :
    coverage (⟨s, a⟩ ::ₘ ⟨s + a, b⟩ ::ₘ l) q = coverage (⟨s, a + b⟩ ::ₘ l) q := by
  have hboth : (⟨s, a + b⟩ : Extent).Contains q ↔
      (⟨s, a⟩ : Extent).Contains q ∨ (⟨s + a, b⟩ : Extent).Contains q := by
    unfold Contains
    simp only
    omega
  have hone : ¬ ((⟨s, a⟩ : Extent).Contains q ∧ (⟨s + a, b⟩ : Extent).Contains q) := by
    unfold Contains
    simp only
    omega
  simp only [coverage_cons, hboth]
  by_cases ha : (⟨s, a⟩ : Extent).Contains q
  · have hb : ¬ (⟨s + a, b⟩ : Extent).Contains q := fun hb => hone ⟨ha, hb⟩
    simp [ha, hb]
  · simp [ha]

/-- **Extents that cover no point twice are disjoint.** -/
lemma pairwise_disjoint_of_coverage {l : List Extent} (hlen : ∀ e ∈ l, 0 < e.len)
    (h : ∀ q, coverage (l : Multiset Extent) q ≤ 1) : l.Pairwise Disjoint := by
  induction l with
  | nil => exact List.Pairwise.nil
  | cons e l ih =>
    have hcov : ∀ q, coverage (l : Multiset Extent) q + (if e.Contains q then 1 else 0) ≤ 1 := by
      intro q
      rw [← coverage_cons]
      exact h q
    refine List.Pairwise.cons (fun f hf => ?_) (ih (fun f hf => hlen f (List.mem_cons_of_mem e hf))
      fun q => (Nat.le_add_right _ _).trans (hcov q))
    refine disjoint_of_forall (hlen e List.mem_cons_self) (hlen f (List.mem_cons_of_mem e hf)) ?_
    intro q he hfq
    have hpos : 0 < coverage (l : Multiset Extent) q := coverage_pos_iff.mpr ⟨f, hf, hfq⟩
    have := hcov q
    rw [if_pos he] at this
    omega

/-- **At most `N` nonempty extents** that cover no point twice start below `N`.

**Proof sketch.** Their starting points are distinct. -/
lemma card_le_of_coverage {N : ℕ} (hlen : ∀ e ∈ l, 0 < e.len ∧ e.start < N)
    (h : ∀ q, coverage l q ≤ 1) : Multiset.card l ≤ N := by
  induction l using Quotient.inductionOn with
  | _ l =>
    have hdisj := pairwise_disjoint_of_coverage (fun e he => (hlen e he).1) h
    have hnodup : (l.map start).Nodup := by
      rw [List.nodup_iff_pairwise_ne, List.pairwise_map]
      refine hdisj.imp_of_mem fun {e f} he hf hd => ?_
      have := (hlen e he).1
      have := (hlen f hf).1
      unfold Disjoint at hd
      omega
    have hsub : (l.map start).toFinset ⊆ Finset.range N := by
      intro q hq
      obtain ⟨e, he, rfl⟩ := List.mem_map.mp (List.mem_toFinset.mp hq)
      exact Finset.mem_range.mpr (hlen e he).2
    calc l.length = (l.map start).toFinset.card := by
          rw [List.toFinset_card_of_nodup hnodup, List.length_map]
      _ ≤ (Finset.range N).card := Finset.card_le_card hsub
      _ = N := Finset.card_range N

end Extent
