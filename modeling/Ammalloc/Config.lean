import Mathlib.Tactic

set_option relaxedAutoImplicit false
set_option autoImplicit false

/-!
# Compile-time constants of the allocator

The constants of `include/ammalloc/config.h` (default 48-bit virtual addresses), the
64-bit wrap-around arithmetic of `size_t` and `uint64_t`, and the fatal ends a call can
come to.

## Main definitions

* `Ammalloc.sizeMax`, `Ammalloc.subU64` — `SIZE_MAX` and the wrapping 64-bit subtraction.
* `Ammalloc.alignUp` — `detail::AlignUp` for a power-of-two alignment.
* `Ammalloc.Fault` — the ways a call ends without returning.
-/

namespace Ammalloc

/-! ## `SystemConfig`, `SizeConfig`, `PageConfig` -/

/-- `SystemConfig::PAGE_SIZE`. -/
def pageSize : ℕ := 4096

/-- `SystemConfig::PAGE_SHIFT`. -/
def pageShift : ℕ := 12

/-- `SystemConfig::ALIGNMENT`, the value of `alignof(std::max_align_t)`. -/
def alignment : ℕ := 16

/-- `SizeConfig::MAX_TC_SIZE`: the largest object a ThreadCache serves. -/
def maxTcSize : ℕ := 32 * 1024

/-- `PageConfig::MAX_PAGE_NUM`: the largest span kept in the PageCache buckets. -/
def maxPageNum : ℕ := 128

/-- `PageConfig::RADIX_NODE_BITS`. -/
def radixNodeBits : ℕ := 9

/-- `PageConfig::RADIX_NODE_SIZE`. -/
def radixNodeSize : ℕ := 512

/-- `PageConfig::RADIX_ROOT_SIZE`: `PAGE_ID_BITS - 3 * RADIX_NODE_BITS = 9` root bits. -/
def radixRootSize : ℕ := 512

/-! ## 64-bit words -/

/-- `std::numeric_limits<size_t>::max()`. -/
def sizeMax : ℕ := 2 ^ 64 - 1

/-- `std::numeric_limits<uint32_t>::max()`. -/
def uint32Max : ℕ := 2 ^ 32 - 1

/-- The 64-bit unsigned subtraction, which wraps. -/
def subU64 (a b : ℕ) : ℕ := (a + 2 ^ 64 - b) % 2 ^ 64

/-- The 64-bit unsigned addition, which wraps. -/
def addU64 (a b : ℕ) : ℕ := (a + b) % 2 ^ 64

/-- A subtraction of 64-bit words that does not go below zero does not wrap. -/
lemma subU64_of_le {a b : ℕ} (ha : a < 2 ^ 64) (h : b ≤ a) : subU64 a b = a - b := by
  unfold subU64
  rw [show a + 2 ^ 64 - b = a - b + 2 ^ 64 by omega, Nat.add_mod_right]
  exact Nat.mod_eq_of_lt (by omega)

/-- A subtraction of 64-bit words that goes below zero comes out `2 ^ 64` too large. -/
lemma subU64_of_lt {a b : ℕ} (h : a < b) : subU64 a b = a + 2 ^ 64 - b := by
  unfold subU64
  exact Nat.mod_eq_of_lt (by omega)

/-- An addition that stays below `2 ^ 64` does not wrap. -/
lemma addU64_of_lt {a b : ℕ} (h : a + b < 2 ^ 64) : addU64 a b = a + b :=
  Nat.mod_eq_of_lt h

/-- `detail::AlignUp(size, align)` for a power-of-two `align`: zero goes to one unit, and
the mask `~(align - 1)` clears the low bits of `size + align - 1`. -/
def alignUp (size align : ℕ) : ℕ :=
  if size = 0 then align else addU64 size (align - 1) / align * align

/-! ## Fatal ends -/

/-- How a call can end without returning: a failed `AM_HCHECK`, a `FatalNoAlloc`, a use of a
descriptor that was given back to its pool, or a `SystemFree` of pages that are not mapped.
`outOfFuel` marks a model loop that was cut off; the theorems about the loops show that it is
never reached. -/
inductive Fault where
  | check (message : String)
  | fatal (message : String)
  | danglingSpan
  | notMapped
  | outOfFuel
  deriving DecidableEq, Repr

/-- A computation that returns has got past its first part. -/
lemma exists_ok_of_bind {α β : Type} {x : Except Fault α} {f : α → Except Fault β} {b : β}
    (h : x >>= f = .ok b) : ∃ a, x = .ok a ∧ f a = .ok b := by
  cases x with
  | error e => exact absurd h (by simp [bind, Except.bind])
  | ok a => exact ⟨a, rfl, h⟩

/-- A mapped computation that returns has returned before. -/
lemma exists_ok_of_map {α β : Type} {x : Except Fault α} {f : α → β} {b : β}
    (h : x.map f = .ok b) : ∃ a, x = .ok a ∧ f a = b := by
  cases x with
  | error e => exact absurd h (by simp [Except.map])
  | ok a => exact ⟨a, rfl, Except.ok.inj h⟩

end Ammalloc
