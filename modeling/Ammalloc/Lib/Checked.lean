import Mathlib.Tactic

set_option relaxedAutoImplicit false
set_option autoImplicit false

/-!
# Checked machine arithmetic

Operations on unsigned words that have no result where the machine operation wraps around, loses
bits or divides by zero. A computation written with them returns only if none of its steps does so.

## Main definitions

* `Checked.fit` — a value of a word; addition, multiplication, shift and narrowing go through it.
* `Checked.sub`, `Checked.div`, `Checked.mod`, `Checked.shiftLeft`, `Checked.shiftRight` — the
  operations with a condition of their own.
-/

namespace Checked

/-- The number `n` as a word of `w` bits. -/
def fit (w n : ℕ) : Option ℕ := if n < 2 ^ w then some n else none

/-- The difference of two words. -/
def sub (a b : ℕ) : Option ℕ := if b ≤ a then some (a - b) else none

/-- The quotient of two words. -/
def div (a b : ℕ) : Option ℕ := if b = 0 then none else some (a / b)

/-- The remainder of two words. -/
def mod (a b : ℕ) : Option ℕ := if b = 0 then none else some (a % b)

/-- The word `a` shifted left; the machine operation has a result only below the width. -/
def shiftLeft (w a k : ℕ) : Option ℕ := if k < w then fit w (a <<< k) else none

/-- The word `a` shifted right. -/
def shiftRight (w a k : ℕ) : Option ℕ := if k < w then some (a >>> k) else none

/-- A number below `2 ^ w` fits into `w` bits. -/
lemma fit_of_lt {w n : ℕ} (h : n < 2 ^ w) : fit w n = some n := if_pos h

/-- A difference that does not wrap passes the check. -/
lemma sub_of_le {a b : ℕ} (h : b ≤ a) : sub a b = some (a - b) := if_pos h

/-- A division by a positive number passes the check. -/
lemma div_of_pos (a : ℕ) {b : ℕ} (h : 0 < b) : div a b = some (a / b) := if_neg h.ne'

/-- A remainder by a positive number passes the check. -/
lemma mod_of_pos (a : ℕ) {b : ℕ} (h : 0 < b) : mod a b = some (a % b) := if_neg h.ne'

/-- A left shift that loses no bit passes the check. -/
lemma shiftLeft_of_lt {w a k : ℕ} (hk : k < w) (h : a <<< k < 2 ^ w) :
    shiftLeft w a k = some (a <<< k) := by
  rw [shiftLeft, if_pos hk, fit_of_lt h]

/-- A right shift by less than the width passes the check. -/
lemma shiftRight_of_lt {w k : ℕ} (a : ℕ) (hk : k < w) : shiftRight w a k = some (a >>> k) :=
  if_pos hk

end Checked
