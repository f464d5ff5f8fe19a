import Ammalloc.Lib.ExtentMap

set_option relaxedAutoImplicit false
set_option autoImplicit false

/-!
# Byte-addressed memory

A memory maps addresses to bytes. Data structures that live in raw storage read and write eight
byte words at any address, and their owners overwrite whole extents. What a word load returns
depends on the eight bytes at its address only, so a write to a disjoint extent cannot be seen.

## Main definitions

* `ByteMemory`, `ByteMemory.write` — overwriting an extent.
* `ByteMemory.loadWord`, `ByteMemory.storeWord` — little-endian 64-bit words.

## Main results

* `ByteMemory.loadWord_storeWord` — a stored word is read back.
* `ByteMemory.loadWord_write` — the frame rule.
-/

/-- The contents of a memory. -/
abbrev ByteMemory := ℕ → UInt8

namespace ByteMemory

variable (m : ByteMemory)

/-- The little-endian number in the `n` bytes from `a` on. -/
def loadBytes : ℕ → ℕ → ℕ
  | _, 0 => 0
  | a, n + 1 => (m a).toNat + 256 * loadBytes (a + 1) n

/-- The word at `a`. -/
def loadWord (a : ℕ) : ℕ := m.loadBytes a 8

/-- The memory with the bytes of `e` taken from `contents`. -/
def write (e : Extent) (contents : ByteMemory) : ByteMemory :=
  fun b => if e.Contains b then contents b else m b

/-- The memory with the word at `a` set to `v`. -/
def storeWord (a v : ℕ) : ByteMemory :=
  m.write ⟨a, 8⟩ fun b => UInt8.ofNat (v / 256 ^ (b - a))

variable {m}

/-- What is loaded depends on the bytes loaded. -/
lemma loadBytes_congr {m' : ByteMemory} {a n : ℕ} (h : ∀ b, a ≤ b → b < a + n → m' b = m b) :
    m'.loadBytes a n = m.loadBytes a n := by
  induction n generalizing a with
  | zero => rfl
  | succ n ih =>
    unfold loadBytes
    rw [h a le_rfl (by omega), ih fun b hb hlt => h b (by omega) (by omega)]

/-- The bytes of a number, loaded. -/
lemma loadBytes_of_digits {a n v : ℕ}
    (h : ∀ i, i < n → m (a + i) = UInt8.ofNat (v / 256 ^ i)) : m.loadBytes a n = v % 256 ^ n := by
  induction n generalizing a v with
  | zero => simp [loadBytes, Nat.mod_one]
  | succ n ih =>
    have hfirst : (m a).toNat = v % 256 := by
      have h₀ := h 0 (Nat.succ_pos n)
      rw [Nat.add_zero, pow_zero, Nat.div_one] at h₀
      rw [h₀, UInt8.toNat_ofNat']
    have hrest : m.loadBytes (a + 1) n = v / 256 % 256 ^ n := by
      refine ih fun i hi => ?_
      rw [Nat.div_div_eq_div_mul, ← pow_succ', ← h (i + 1) (by omega)]
      congr 1
      omega
    rw [loadBytes, hfirst, hrest, pow_succ', Nat.mod_mul]

/-- **A stored word is read back.** -/
lemma loadWord_storeWord (m : ByteMemory) (a : ℕ) {v : ℕ} (hv : v < 2 ^ 64) :
    (m.storeWord a v).loadWord a = v := by
  have hbytes : ∀ i, i < 8 → m.storeWord a v (a + i) = UInt8.ofNat (v / 256 ^ i) := by
    intro i hi
    have hin : Extent.Contains ⟨a, 8⟩ (a + i) := ⟨by simp, by simpa using hi⟩
    rw [storeWord, write, if_pos hin, Nat.add_sub_cancel_left]
  rw [loadWord, loadBytes_of_digits hbytes]
  exact Nat.mod_eq_of_lt (by omega)

/-- **The frame rule of a write**: a word outside the extent is unchanged. -/
lemma loadWord_write {e : Extent} {a : ℕ} (h : e.Disjoint ⟨a, 8⟩) (contents : ByteMemory) :
    (m.write e contents).loadWord a = m.loadWord a := by
  refine loadBytes_congr fun b hb hlt => ?_
  exact if_neg (h.symm.not_contains ⟨hb, hlt⟩)

end ByteMemory
