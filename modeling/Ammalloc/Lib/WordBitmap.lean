import Mathlib.Tactic

set_option relaxedAutoImplicit false
set_option autoImplicit false

/-!
# Bitmaps stored as 64-bit words

A bitmap is a list of 64-bit words; bit `k` is bit `k % 64` of word `k / 64`. The operations
are those of a word-scanning allocator: the lowest set bit of a word, the first nonzero word
from a cursor on, clearing and setting one bit of one word.

## Main definitions

* `WordBitmap.testBit`, `WordBitmap.count` — one bit, and the number of set bits below a bound.
* `WordBitmap.countrZero`, `WordBitmap.firstNonzero` — the two scans.
* `WordBitmap.ones` — the bitmap whose first `n` bits are set.

## Main results

* `WordBitmap.testBit_clear`, `WordBitmap.testBit_set` — what one update changes.
* `WordBitmap.count_clear`, `WordBitmap.count_set` — and how it changes the count.
-/

namespace WordBitmap

/-- Bit `k` of a bitmap; bits past the last word read as clear. -/
def testBit (bm : List (BitVec 64)) (k : ℕ) : Bool := (bm.getD (k / 64) 0).getLsbD (k % 64)

/-- The number of set bits below `n`. -/
def count (bm : List (BitVec 64)) (n : ℕ) : ℕ :=
  ((Finset.range n).filter fun k => testBit bm k = true).card

/-- `std::countr_zero` on a 64-bit word. -/
def countrZero (w : BitVec 64) : ℕ := (List.range 64).findIdx fun i => w.getLsbD i

/-- The first nonzero word among `steps` words from index `i` on. -/
def firstNonzero (bm : List (BitVec 64)) : ℕ → ℕ → Option ℕ
  | 0, _ => none
  | steps + 1, i => if bm.getD i 0 = 0 then firstNonzero bm steps (i + 1) else some i

/-- Clear bit `p` of word `i`. -/
def clear (bm : List (BitVec 64)) (i p : ℕ) : List (BitVec 64) :=
  bm.set i (bm.getD i 0 &&& ~~~(1#64 <<< p))

/-- Set bit `p` of word `i`. -/
def set (bm : List (BitVec 64)) (i p : ℕ) : List (BitVec 64) :=
  bm.set i (bm.getD i 0 ||| (1#64 <<< p))

/-- The bitmap of `words` words whose first `n` bits are set, written word by word: full words,
one partial word, then zeros. -/
def ones (n words : ℕ) : List (BitVec 64) :=
  (List.range words).map fun i =>
    if i < n / 64 then ~~~(0#64)
    else if i = n / 64 then (if n % 64 = 0 then 0 else (1#64 <<< (n % 64)) - 1)
    else 0

/-! ## The scans -/

/-- A nonzero word has a set bit. -/
lemma exists_getLsbD_of_ne_zero {w : BitVec 64} (h : w ≠ 0) : ∃ i < 64, w.getLsbD i = true := by
  by_contra hno
  push Not at hno
  apply h
  refine BitVec.eq_of_getLsbD_eq fun i hi => ?_
  simpa using hno i hi

/-- `countr_zero` finds the lowest set bit of a nonzero word. -/
lemma countrZero_spec {w : BitVec 64} (h : w ≠ 0) :
    countrZero w < 64 ∧ w.getLsbD (countrZero w) = true ∧
      ∀ j < countrZero w, w.getLsbD j = false := by
  obtain ⟨i, hi, hb⟩ := exists_getLsbD_of_ne_zero h
  have hlt : countrZero w < (List.range 64).length :=
    List.findIdx_lt_length_of_exists ⟨i, List.mem_range.mpr hi, hb⟩
  have hlt' : countrZero w < 64 := by simpa using hlt
  refine ⟨hlt', ?_, fun j hj => ?_⟩
  · have hget := List.findIdx_getElem (p := fun i => w.getLsbD i) (w := hlt)
    have hself : (List.range 64)[countrZero w] = countrZero w := List.getElem_range hlt
    unfold countrZero at hself ⊢
    grind
  · have := List.not_of_lt_findIdx (p := fun i => w.getLsbD i) hj
    simpa using this

/-- What a successful scan for a nonzero word found. -/
lemma firstNonzero_eq_some {bm : List (BitVec 64)} {steps i m : ℕ}
    (h : firstNonzero bm steps i = some m) :
    i ≤ m ∧ m < i + steps ∧ bm.getD m 0 ≠ 0 ∧ ∀ j, i ≤ j → j < m → bm.getD j 0 = 0 := by
  induction steps generalizing i with
  | zero => simp [firstNonzero] at h
  | succ steps ih =>
    unfold firstNonzero at h
    split at h
    · rename_i h0
      obtain ⟨h₁, h₂, h₃, h₄⟩ := ih h
      refine ⟨by omega, by omega, h₃, fun j hj hjm => ?_⟩
      rcases Nat.eq_or_lt_of_le hj with rfl | hj
      · exact h0
      · exact h₄ j hj hjm
    · rename_i h0
      obtain rfl : i = m := by simpa using h
      exact ⟨le_rfl, by omega, h0, fun j hj hjm => by omega⟩

/-- A scan that finds nothing saw only zero words. -/
lemma firstNonzero_eq_none {bm : List (BitVec 64)} {steps i : ℕ}
    (h : firstNonzero bm steps i = none) : ∀ j, i ≤ j → j < i + steps → bm.getD j 0 = 0 := by
  induction steps generalizing i with
  | zero => intro j h₁ h₂; omega
  | succ steps ih =>
    unfold firstNonzero at h
    split at h
    · rename_i h0
      intro j h₁ h₂
      rcases Nat.eq_or_lt_of_le h₁ with rfl | h₁
      · exact h0
      · exact ih h j h₁ (by omega)
    · simp at h

/-- The bits of a zero word are clear. -/
lemma testBit_of_word_eq_zero {bm : List (BitVec 64)} {k : ℕ} (h : bm.getD (k / 64) 0 = 0) :
    testBit bm k = false := by
  simp only [testBit, h]
  simp

/-! ## Updating one bit -/

@[simp] lemma length_clear (bm : List (BitVec 64)) (i p : ℕ) :
    (clear bm i p).length = bm.length := by simp [clear]

@[simp] lemma length_set (bm : List (BitVec 64)) (i p : ℕ) :
    (set bm i p).length = bm.length := by simp [set]

/-- The words of an updated bitmap. -/
lemma getD_set_word (bm : List (BitVec 64)) (i j : ℕ) (w : BitVec 64) (hi : i < bm.length) :
    (bm.set i w).getD j 0 = if j = i then w else bm.getD j 0 := by
  simp only [List.getD_eq_getElem?_getD, List.getElem?_set]
  by_cases h : i = j
  · subst h; simp [hi]
  · simp [h, Ne.symm h]

/-- Bit `q` of the word with only bit `p` set. -/
lemma getLsbD_one_shiftLeft {p q : ℕ} (hp : p < 64) (hq : q < 64) :
    (1#64 <<< p).getLsbD q = decide (q = p) := by
  simp only [BitVec.getLsbD_shiftLeft, BitVec.getLsbD_one, hq, decide_true, Bool.true_and]
  by_cases h : q = p
  · subst h; simp
  · by_cases hlt : q < p
    · simp [hlt, h]
    · simp [hlt, h]; omega

/-- Clearing bit `p` of word `i` changes exactly bit `64 i + p`. -/
theorem testBit_clear {bm : List (BitVec 64)} {i p : ℕ} (hi : i < bm.length) (hp : p < 64)
    (k : ℕ) : testBit (clear bm i p) k = (testBit bm k && !decide (k = 64 * i + p)) := by
  have hq : k % 64 < 64 := Nat.mod_lt _ (by norm_num)
  simp only [testBit, clear, getD_set_word bm i (k / 64) _ hi]
  by_cases h : k / 64 = i
  · subst h
    simp only [if_true, BitVec.getLsbD_and, BitVec.getLsbD_not, hq, decide_true, Bool.true_and,
      getLsbD_one_shiftLeft hp hq]
    congr 2
    rw [decide_eq_decide]
    omega
  · have hne : k ≠ 64 * i + p := by rintro rfl; omega
    simp [h, hne]

/-- Setting bit `p` of word `i` changes exactly bit `64 i + p`. -/
theorem testBit_set {bm : List (BitVec 64)} {i p : ℕ} (hi : i < bm.length) (hp : p < 64)
    (k : ℕ) : testBit (set bm i p) k = (testBit bm k || decide (k = 64 * i + p)) := by
  have hq : k % 64 < 64 := Nat.mod_lt _ (by norm_num)
  simp only [testBit, set, getD_set_word bm i (k / 64) _ hi]
  by_cases h : k / 64 = i
  · subst h
    simp only [if_true, BitVec.getLsbD_or, getLsbD_one_shiftLeft hp hq]
    congr 1
    rw [decide_eq_decide]
    omega
  · have hne : k ≠ 64 * i + p := by rintro rfl; omega
    simp [h, hne]

/-- Clearing a set bit below `n` takes one off the count. -/
theorem count_clear {bm : List (BitVec 64)} {i p n : ℕ} (hi : i < bm.length) (hp : p < 64)
    (hn : 64 * i + p < n) (hb : testBit bm (64 * i + p) = true) :
    count (clear bm i p) n + 1 = count bm n := by
  unfold count
  have hset : (Finset.range n).filter (fun k => testBit (clear bm i p) k = true) =
      ((Finset.range n).filter fun k => testBit bm k = true).erase (64 * i + p) := by
    ext k
    simp only [Finset.mem_filter, Finset.mem_range, Finset.mem_erase, testBit_clear hi hp,
      Bool.and_eq_true, Bool.not_eq_true', decide_eq_false_iff_not]
    tauto
  rw [hset]
  exact Finset.card_erase_add_one (by simp [hn, hb])

/-- Setting a clear bit below `n` adds one to the count. -/
theorem count_set {bm : List (BitVec 64)} {i p n : ℕ} (hi : i < bm.length) (hp : p < 64)
    (hn : 64 * i + p < n) (hb : testBit bm (64 * i + p) = false) :
    count (set bm i p) n = count bm n + 1 := by
  unfold count
  have hset : (Finset.range n).filter (fun k => testBit (set bm i p) k = true) =
      insert (64 * i + p) ((Finset.range n).filter fun k => testBit bm k = true) := by
    ext k
    simp only [Finset.mem_filter, Finset.mem_range, Finset.mem_insert, testBit_set hi hp,
      Bool.or_eq_true, decide_eq_true_eq]
    constructor
    · rintro ⟨h₁, h₂ | h₂⟩
      · exact Or.inr ⟨h₁, h₂⟩
      · exact Or.inl h₂
    · rintro (rfl | ⟨h₁, h₂⟩)
      · exact ⟨hn, Or.inr rfl⟩
      · exact ⟨h₁, Or.inl h₂⟩
  rw [hset]
  exact Finset.card_insert_of_notMem (by simp [hb])

/-- Bits at or above `n` do not count, so a full count means that all are set. -/
lemma testBit_of_count_eq {bm : List (BitVec 64)} {n k : ℕ} (h : count bm n = n) (hk : k < n) :
    testBit bm k = true := by
  have hfull := (Finset.card_filter_eq_iff (s := Finset.range n)
    (p := fun k => testBit bm k = true)).mp (by simpa [count] using h)
  exact hfull k (Finset.mem_range.mpr hk)

/-- A count below the bound leaves a clear bit; a positive count has a set one. -/
lemma exists_of_count_pos {bm : List (BitVec 64)} {n : ℕ} (h : 0 < count bm n) :
    ∃ k < n, testBit bm k = true := by
  obtain ⟨k, hk⟩ := Finset.card_pos.mp h
  simp only [Finset.mem_filter, Finset.mem_range] at hk
  exact ⟨k, hk.1, hk.2⟩

/-! ## The initial bitmap -/

@[simp] lemma length_ones (n words : ℕ) : (ones n words).length = words := by simp [ones]

/-- The bits of the mask of the partial word. -/
lemma getLsbD_mask {t q : ℕ} (ht : t < 64) :
    ((1#64 <<< t) - 1).getLsbD q = decide (q < t) := by
  have hpow : 2 ^ t < 2 ^ 64 := Nat.pow_lt_pow_right (by norm_num) ht
  have hone : 1 ≤ 2 ^ t := Nat.one_le_two_pow
  have hval : ((1#64 <<< t) - 1).toNat = 2 ^ t - 1 := by
    have h1 : (1#64 <<< t).toNat = 2 ^ t := by
      rw [BitVec.toNat_shiftLeft, Nat.shiftLeft_eq, show (1#64).toNat = 1 from rfl, one_mul,
        Nat.mod_eq_of_lt hpow]
    have h2 : (1 : BitVec 64).toNat = 1 := rfl
    rw [BitVec.toNat_sub, h1, h2, show 2 ^ 64 - 1 + 2 ^ t = 2 ^ t - 1 + 2 ^ 64 by omega,
      Nat.add_mod_right, Nat.mod_eq_of_lt (by omega)]
  rw [BitVec.getLsbD, hval, Nat.testBit_two_pow_sub_one]

/-- **The initial bitmap**: exactly the first `n` bits are set, if the words have room. -/
theorem testBit_ones {n words : ℕ} (h : n ≤ 64 * words) (k : ℕ) :
    testBit (ones n words) k = decide (k < n) := by
  have hq : k % 64 < 64 := Nat.mod_lt _ (by norm_num)
  by_cases hw : k / 64 < words
  · have hget : (ones n words).getD (k / 64) 0 =
        if k / 64 < n / 64 then ~~~(0#64)
        else if k / 64 = n / 64 then (if n % 64 = 0 then 0 else (1#64 <<< (n % 64)) - 1)
        else 0 := by
      simp [ones, List.getD_eq_getElem?_getD, hw]
    rw [testBit, hget]
    split_ifs with h₁ h₂ h₃
    · simp only [BitVec.getLsbD_not, hq, decide_true, Bool.true_and]
      have : k < n := by omega
      simp [this]
    · have : ¬ k < n := by omega
      simp [this]
    · rw [getLsbD_mask (Nat.mod_lt _ (by norm_num)), decide_eq_decide]
      omega
    · have : ¬ k < n := by omega
      simp [this]
  · have hk : ¬ k < n := by omega
    have : (ones n words).getD (k / 64) 0 = 0 := by
      rw [List.getD_eq_getElem?_getD, List.getElem?_eq_none (by simp; omega)]
      rfl
    rw [testBit_of_word_eq_zero this]
    simp [hk]

/-- The initial count. -/
lemma count_ones {n words : ℕ} (h : n ≤ 64 * words) : count (ones n words) n = n := by
  unfold count
  rw [Finset.filter_true_of_mem, Finset.card_range]
  intro k hk
  simp [testBit_ones h, Finset.mem_range.mp hk]

end WordBitmap
