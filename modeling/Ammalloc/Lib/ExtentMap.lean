import Mathlib.Tactic

set_option relaxedAutoImplicit false
set_option autoImplicit false

/-!
# Extents and the tables that index them

An extent is a half-open range of points. A family of extents is indexed by a point table when
the table gives, for each point, the member that contains it. Such a family is disjoint, and
one rule (`Indexes.write`) says when overwriting the table on one extent keeps it in step with
the family: it covers inserting a member, carving one out of another and absorbing neighbours.

## Main definitions

* `Extent`, `Extent.Disjoint`, `Extent.Within`.
* `ExtentMap.Indexes` — the table `lk` indexes the family `fam`.

## Main results

* `ExtentMap.Indexes.disjoint` — an indexed family is disjoint.
* `ExtentMap.Indexes.write`, `ExtentMap.Indexes.clear` — overwriting the table on one extent.
-/

/-- A half-open range of points. -/
structure Extent where
  start : ℕ
  len : ℕ
  deriving DecidableEq, Repr

namespace Extent

/-- The points of an extent. -/
def Contains (e : Extent) (q : ℕ) : Prop := e.start ≤ q ∧ q < e.start + e.len

instance (e : Extent) (q : ℕ) : Decidable (e.Contains q) := inferInstanceAs (Decidable (_ ∧ _))

/-- Two extents one of which ends before the other starts. -/
def Disjoint (e f : Extent) : Prop := e.start + e.len ≤ f.start ∨ f.start + f.len ≤ e.start

instance (e f : Extent) : Decidable (e.Disjoint f) := inferInstanceAs (Decidable (_ ∨ _))

/-- Disjointness is symmetric. -/
lemma Disjoint.symm {e f : Extent} (h : e.Disjoint f) : f.Disjoint e := Or.symm h

/-- Disjoint extents share no point. -/
lemma Disjoint.not_contains {e f : Extent} (h : e.Disjoint f) {q : ℕ} (hq : e.Contains q) :
    ¬ f.Contains q := by
  unfold Disjoint at h
  unfold Contains at hq ⊢
  omega

/-- `e` lies inside `f`. -/
def Within (e f : Extent) : Prop := f.start ≤ e.start ∧ e.start + e.len ≤ f.start + f.len

/-- What lies inside disjoint extents is disjoint. -/
lemma Disjoint.mono {e e' f f' : Extent} (h : e'.Disjoint f') (he : e.Within e')
    (hf : f.Within f') : e.Disjoint f := by
  unfold Disjoint at h ⊢
  unfold Within at he hf
  omega

/-- Nonempty extents that share no point are disjoint. -/
lemma disjoint_of_forall {e f : Extent} (he : 0 < e.len) (hf : 0 < f.len)
    (h : ∀ q, e.Contains q → ¬ f.Contains q) : e.Disjoint f := by
  have h₁ := h e.start
  have h₂ := h f.start
  unfold Contains at h₁ h₂
  unfold Disjoint
  omega

end Extent

namespace ExtentMap

variable {ι : Type*} {lk lk' : ℕ → Option ι} {fam fam' : ι → Option Extent}

/-- The table `lk` indexes the family `fam`: a point is looked up to the member that
contains it. -/
def Indexes (lk : ℕ → Option ι) (fam : ι → Option Extent) : Prop :=
  ∀ q i, lk q = some i ↔ ∃ e, fam i = some e ∧ e.Contains q

/-- **An indexed family is disjoint**: no point lies in two of its members. -/
lemma Indexes.disjoint (h : Indexes lk fam) {i j : ι} (hij : i ≠ j) {e f : Extent}
    (hi : fam i = some e) (hj : fam j = some f) {q : ℕ} (hq : e.Contains q) :
    ¬ f.Contains q := by
  intro hq'
  have h₁ := (h q i).mpr ⟨e, hi, hq⟩
  have h₂ := (h q j).mpr ⟨f, hj, hq'⟩
  rw [h₁] at h₂
  exact hij (Option.some.inj h₂)

/-- A point that is looked up to nothing is in no member. -/
lemma Indexes.not_contains (h : Indexes lk fam) {q : ℕ} (hq : lk q = none) {i : ι} {e : Extent}
    (hi : fam i = some e) : ¬ e.Contains q := by
  intro hc
  have := (h q i).mpr ⟨e, hi, hc⟩
  rw [hq] at this
  exact absurd this (by simp)

/-- **The write rule.** Overwrite the table with `i` on the extent `e`. The table indexes the
new family if `e` is now the extent of `i` and swallows its old one, and every other member
has lost exactly its points in `e`. -/
lemma Indexes.write [DecidableEq ι] (h : Indexes lk fam) {i : ι} {e : Extent}
    (hlk : ∀ q, lk' q = if e.Contains q then some i else lk q)
    (hi : fam' i = some e) (hold : ∀ f, fam i = some f → ∀ q, f.Contains q → e.Contains q)
    (hother : ∀ j, j ≠ i → ∀ q, (∃ f, fam' j = some f ∧ f.Contains q) ↔
      (∃ f, fam j = some f ∧ f.Contains q) ∧ ¬ e.Contains q) :
    Indexes lk' fam' := by
  intro q j
  rw [hlk q]
  by_cases hq : e.Contains q
  · rw [if_pos hq]
    by_cases hj : j = i
    · subst hj
      exact ⟨fun _ => ⟨e, hi, hq⟩, fun _ => rfl⟩
    · constructor
      · intro hs
        exact absurd (Option.some.inj hs).symm hj
      · intro hf
        exact absurd hq ((hother j hj q).mp hf).2
  · rw [if_neg hq, h q j]
    by_cases hj : j = i
    · subst hj
      constructor
      · rintro ⟨f, hf, hfq⟩
        exact absurd (hold f hf q hfq) hq
      · rintro ⟨f, hf, hfq⟩
        rw [hi] at hf
        obtain rfl := Option.some.inj hf
        exact absurd hfq hq
    · rw [hother j hj q]
      exact ⟨fun hf => ⟨hf, hq⟩, And.left⟩

/-- **The clear rule.** Clearing the table on the extent of `i` removes `i` from the family. -/
lemma Indexes.clear [DecidableEq ι] (h : Indexes lk fam) {i : ι} {e : Extent}
    (hi : fam i = some e) (hlk : ∀ q, lk' q = if e.Contains q then none else lk q) :
    Indexes lk' (Function.update fam i none) := by
  intro q j
  rw [hlk q]
  by_cases hj : j = i
  · subst hj
    rw [Function.update_self]
    constructor
    · intro hs
      split at hs
      · exact absurd hs (by simp)
      · rename_i hq
        obtain ⟨f, hf, hfq⟩ := (h q j).mp hs
        rw [hi] at hf
        obtain rfl := Option.some.inj hf
        exact absurd hfq hq
    · rintro ⟨f, hf, -⟩
      exact absurd hf (by simp)
  · rw [Function.update_of_ne hj, ← h q j]
    split
    · rename_i hq
      constructor
      · intro hs
        exact absurd hs (by simp)
      · intro hs
        obtain ⟨f, hf, hfq⟩ := (h q j).mp hs
        exact absurd hfq (h.disjoint (Ne.symm hj) hi hf hq)
    · rfl

end ExtentMap
