import Mathlib.Tactic

set_option relaxedAutoImplicit false
set_option autoImplicit false

/-!
# Circular buffers

A fixed array used as a bounded double-ended sequence: `first` is the physical slot of the
cold end and `size` the number of valid entries. Entries are appended at the hot end, grabbed
from the hot end (hottest first) and detached from the cold end. Each operation is written as
the index arithmetic does it and shown to act on the logical contents as a list operation.

## Main definitions

* `RingBuffer`, `RingBuffer.physical`, `RingBuffer.contents`, `RingBuffer.WF`.
* `RingBuffer.appendTraced`, `RingBuffer.grabTraced`, `RingBuffer.detachTraced` — the operations,
  with the slots that they compute.
* `RingBuffer.append`, `RingBuffer.grab`, `RingBuffer.detach` — their results.

## Main results

* `RingBuffer.contents_append`, `RingBuffer.contents_grab`, `RingBuffer.contents_detach` — the
  operations on the logical contents.
* `RingBuffer.WF.append`, `RingBuffer.WF.grab`, `RingBuffer.WF.detach` — the index bounds are
  kept.
* `RingBuffer.WF.appendTraced_lt`, `RingBuffer.WF.grabTraced_lt`,
  `RingBuffer.WF.detachTraced_lt` — no slot beyond the array is computed.
-/

/-- A circular array of `capacity` slots. -/
structure RingBuffer (α : Type*) where
  /-- The backing array. -/
  slots : ℕ → α
  /-- The physical slot of the cold end. -/
  first : ℕ
  /-- The number of valid entries. -/
  size : ℕ
  /-- The number of slots. -/
  capacity : ℕ

namespace RingBuffer

variable {α : Type*}

/-- The physical slot of a logical cold-to-hot offset. -/
def physical (r : RingBuffer α) (offset : ℕ) : ℕ :=
  if r.first + offset < r.capacity then r.first + offset else r.first + offset - r.capacity

/-- The logical contents, cold end first. -/
def contents (r : RingBuffer α) : List α := (List.range r.size).map fun k => r.slots (r.physical k)

/-- The index bounds: the size never exceeds the capacity, and the cold end is a slot unless
there are none. -/
structure WF (r : RingBuffer α) : Prop where
  size_le : r.size ≤ r.capacity
  first_lt : r.first < r.capacity ∨ (r.first = 0 ∧ r.capacity = 0)

/-- Append entries at the hot end while there is room. The result is the buffer with what did not
fit, and the slots that were written, in order. -/
def appendTraced (r : RingBuffer α) : List α → (RingBuffer α × List α) × List ℕ
  | [] => ((r, []), [])
  | a :: as =>
    if r.size < r.capacity then
      let i := r.physical r.size
      let (out, slots) :=
        appendTraced { r with slots := Function.update r.slots i a, size := r.size + 1 } as
      (out, i :: slots)
    else ((r, a :: as), [])

/-- Remove `n` entries from the hot end, hottest first. The result is the entries with the buffer,
and the slots that were read, in order. -/
def grabTraced (r : RingBuffer α) : ℕ → (List α × RingBuffer α) × List ℕ
  | 0 => (([], r), [])
  | n + 1 =>
    let i := r.physical (r.size - 1)
    let ((objs, r'), slots) := grabTraced { r with size := r.size - 1 } n
    ((r.slots i :: objs, r'), i :: slots)

/-- Remove `n` entries from the cold end, coldest first; a drain of the whole array moves the
cold end back to slot zero. The result is the entries with the buffer, and the slots that were
computed: those that were read, and the new cold end unless the array is drained. -/
def detachTraced (r : RingBuffer α) (n : ℕ) : (List α × RingBuffer α) × List ℕ :=
  let read := (List.range n).map r.physical
  if n = r.capacity then
    ((read.map r.slots, { r with first := 0, size := r.size - n }), read)
  else
    let first := r.physical n
    ((read.map r.slots, { r with first := first, size := r.size - n }), read ++ [first])

/-- Append entries at the hot end while there is room; returns what did not fit. -/
def append (r : RingBuffer α) (as : List α) : RingBuffer α × List α := (r.appendTraced as).1

/-- Remove `n` entries from the hot end, hottest first. -/
def grab (r : RingBuffer α) (n : ℕ) : List α × RingBuffer α := (r.grabTraced n).1

/-- Remove `n` entries from the cold end, coldest first. -/
def detach (r : RingBuffer α) (n : ℕ) : List α × RingBuffer α := (r.detachTraced n).1

/-! ## The operations, one entry at a time -/

@[simp] lemma append_nil (r : RingBuffer α) : r.append [] = (r, []) := rfl

/-- Append of one more entry. -/
lemma append_cons (r : RingBuffer α) (a : α) (as : List α) :
    r.append (a :: as) =
      if r.size < r.capacity then
        append { r with slots := Function.update r.slots (r.physical r.size) a,
                        size := r.size + 1 } as
      else (r, a :: as) := by
  simp only [append, appendTraced]
  split <;> rfl

@[simp] lemma grab_zero (r : RingBuffer α) : r.grab 0 = ([], r) := rfl

/-- Grab of one more entry. -/
lemma grab_succ (r : RingBuffer α) (n : ℕ) :
    r.grab (n + 1) = (r.slots (r.physical (r.size - 1)) :: (grab { r with size := r.size - 1 } n).1,
      (grab { r with size := r.size - 1 } n).2) := rfl

/-- The entries that a detach takes, and the buffer afterwards. -/
lemma detach_eq (r : RingBuffer α) (n : ℕ) :
    r.detach n = ((List.range n).map fun j => r.slots (r.physical j),
      { r with first := if n = r.capacity then 0 else r.physical n, size := r.size - n }) := by
  simp only [detach, detachTraced, List.map_map, Function.comp_def]
  split <;> rfl

@[simp] lemma length_detach (r : RingBuffer α) (n : ℕ) : (r.detach n).1.length = n := by
  simp [detach_eq]

@[simp] lemma size_detach (r : RingBuffer α) (n : ℕ) : (r.detach n).2.size = r.size - n := by
  simp [detach_eq]

/-! ## Physical slots -/

/-- An offset within the capacity has a slot of the array. -/
lemma WF.physical_lt {r : RingBuffer α} (h : r.WF) {k : ℕ} (hk : k < r.capacity) :
    r.physical k < r.capacity := by
  obtain ⟨-, hf⟩ := h
  unfold physical
  split <;> omega

/-- Distinct offsets within the capacity have distinct slots. -/
lemma WF.physical_inj {r : RingBuffer α} (h : r.WF) {j k : ℕ} (hj : j < r.capacity)
    (hk : k < r.capacity) (he : r.physical j = r.physical k) : j = k := by
  obtain ⟨-, hf⟩ := h
  unfold physical at he
  split at he <;> split at he <;> omega

@[simp] lemma length_contents (r : RingBuffer α) : r.contents.length = r.size := by
  simp [contents]

/-! ## Append -/

/-- One append adds the entry at the hot end. -/
lemma contents_push {r : RingBuffer α} (h : r.WF) (hlt : r.size < r.capacity) (a : α) :
    contents { r with slots := Function.update r.slots (r.physical r.size) a,
                      size := r.size + 1 } = r.contents ++ [a] := by
  simp only [contents, List.range_succ, List.map_append, List.map_cons, List.map_nil]
  congr 1
  · refine List.map_congr_left fun k hk => ?_
    have hk' : k < r.size := List.mem_range.mp hk
    refine Function.update_of_ne (fun he => ?_) _ _
    have := h.physical_inj (by omega) hlt he
    omega
  · simp [physical]

/-- Appending keeps the index bounds. -/
theorem WF.append {r : RingBuffer α} (h : r.WF) (as : List α) : (r.append as).1.WF := by
  induction as generalizing r with
  | nil => exact h
  | cons a as ih =>
    rw [append_cons]
    split
    · exact ih ⟨by simp only; omega, h.first_lt⟩
    · exact h

/-- What does not fit is an end of the entries. -/
lemma append_suffix (r : RingBuffer α) (as : List α) : (r.append as).2 <:+ as := by
  induction as generalizing r with
  | nil => exact List.suffix_rfl
  | cons a as ih =>
    rw [append_cons]
    split
    · exact (ih _).trans (List.suffix_cons a as)
    · exact List.suffix_rfl

@[simp] lemma capacity_append (r : RingBuffer α) (as : List α) :
    (r.append as).1.capacity = r.capacity := by
  induction as generalizing r with
  | nil => rfl
  | cons a as ih =>
    rw [append_cons]
    split
    · rw [ih]
    · rfl

/-- **Append on the contents**: a prefix of the entries goes to the hot end, the rest is
handed back, and something is handed back only when the array is full. -/
theorem contents_append {r : RingBuffer α} (h : r.WF) (as : List α) :
    (r.append as).1.contents ++ (r.append as).2 = r.contents ++ as ∧
      ((r.append as).2 ≠ [] → (r.append as).1.size = r.capacity) := by
  induction as generalizing r with
  | nil => simp
  | cons a as ih =>
    rw [append_cons]
    split
    · rename_i hlt
      have hwf : WF { r with slots := Function.update r.slots (r.physical r.size) a,
                             size := r.size + 1 } := ⟨by simp only; omega, h.first_lt⟩
      obtain ⟨h₁, h₂⟩ := ih hwf
      rw [contents_push h hlt, List.append_assoc] at h₁
      exact ⟨h₁, h₂⟩
    · rename_i hge
      have := h.size_le
      exact ⟨rfl, fun _ => by simp only; omega⟩

/-! ## Grab -/

/-- Grabbing keeps the index bounds. -/
theorem WF.grab {r : RingBuffer α} (h : r.WF) (n : ℕ) : (r.grab n).2.WF := by
  induction n generalizing r with
  | zero => exact h
  | succ n ih =>
    have := h.size_le
    exact ih (r := { r with size := r.size - 1 }) ⟨by simp only; omega, h.first_lt⟩

@[simp] lemma capacity_grab (r : RingBuffer α) (n : ℕ) : (r.grab n).2.capacity = r.capacity := by
  induction n generalizing r with
  | zero => rfl
  | succ n ih => exact ih { r with size := r.size - 1 }

/-- **Grab on the contents**: the last `n` entries come out, hottest first, and the others
keep their order. -/
theorem contents_grab {r : RingBuffer α} {n : ℕ} (hn : n ≤ r.size) :
    r.contents = (r.grab n).2.contents ++ (r.grab n).1.reverse := by
  induction n generalizing r with
  | zero => simp
  | succ n ih =>
    have hstep : r.contents = contents { r with size := r.size - 1 } ++
        [r.slots (r.physical (r.size - 1))] := by
      obtain ⟨m, hm⟩ : ∃ m, r.size = m + 1 := ⟨r.size - 1, by omega⟩
      simp [contents, hm, List.range_succ, physical]
    rw [hstep, ih (r := { r with size := r.size - 1 }) (by simp only; omega)]
    simp [grab_succ]

@[simp] lemma length_grab (r : RingBuffer α) (n : ℕ) : (r.grab n).1.length = n := by
  induction n generalizing r with
  | zero => rfl
  | succ n ih => simp [grab_succ, ih]

/-! ## Detach -/

/-- Detaching keeps the index bounds. -/
theorem WF.detach {r : RingBuffer α} (h : r.WF) {n : ℕ} (hn : n ≤ r.size) :
    (r.detach n).2.WF := by
  have hs := h.size_le
  refine ⟨by rw [size_detach, detach_eq]; dsimp only; omega, ?_⟩
  simp only [detach_eq]
  split
  · rcases Nat.eq_zero_or_pos r.capacity with h0 | h0 <;> omega
  · exact Or.inl (h.physical_lt (by omega))

@[simp] lemma capacity_detach (r : RingBuffer α) (n : ℕ) :
    (r.detach n).2.capacity = r.capacity := by
  rw [detach_eq]

/-- After the cold end has moved by `n`, offset `k` is the slot of the old offset `n + k`. -/
lemma physical_detach {r : RingBuffer α} (h : r.WF) {n k : ℕ} (hn : n < r.capacity)
    (hk : n + k < r.capacity) : (r.detach n).2.physical k = r.physical (n + k) := by
  have hne : n ≠ r.capacity := by omega
  have hf := h.first_lt
  simp only [detach_eq, physical, if_neg hne]
  split_ifs <;> omega

/-- **Detach on the contents**: the first `n` entries come out, coldest first, and the others
keep their order, also across the wrap-around and when the whole array is drained. -/
theorem contents_detach {r : RingBuffer α} (h : r.WF) {n : ℕ} (hn : n ≤ r.size) :
    r.contents = (r.detach n).1 ++ (r.detach n).2.contents := by
  have hs := h.size_le
  obtain ⟨m, hm⟩ : ∃ m, r.size = n + m := ⟨r.size - n, by omega⟩
  have hlist : r.contents = (List.range n).map (fun k => r.slots (r.physical k)) ++
      (List.range m).map fun k => r.slots (r.physical (n + k)) := by
    simp [contents, hm, List.range_add, Function.comp_def]
  rw [hlist]
  have hout : (r.detach n).1 = (List.range n).map fun k => r.slots (r.physical k) := by
    rw [detach_eq]
  rw [hout]
  congr 1
  have hsz : (r.detach n).2.size = m := by simp [hm]
  rw [contents, hsz]
  refine List.map_congr_left fun k hk => ?_
  have hk' : k < m := List.mem_range.mp hk
  rw [physical_detach h (by omega) (by omega)]
  simp [detach_eq]

/-! ## The slots that are computed -/

/-- Appending writes inside the array. -/
theorem WF.appendTraced_lt {r : RingBuffer α} (h : r.WF) (as : List α) :
    ∀ i ∈ (r.appendTraced as).2, i < r.capacity := by
  induction as generalizing r with
  | nil => simp [appendTraced]
  | cons a as ih =>
    unfold appendTraced
    split
    · rename_i hlt
      intro i hi
      rcases List.mem_cons.mp hi with rfl | hi
      · exact h.physical_lt hlt
      · exact ih (r := { r with slots := Function.update r.slots (r.physical r.size) a,
                                size := r.size + 1 }) ⟨hlt, h.first_lt⟩ i hi
    · simp

/-- Grabbing reads inside the array. -/
theorem WF.grabTraced_lt {r : RingBuffer α} (h : r.WF) {n : ℕ} (hn : n ≤ r.size) :
    ∀ i ∈ (r.grabTraced n).2, i < r.capacity := by
  have hs := h.size_le
  induction n generalizing r with
  | zero => simp [grabTraced]
  | succ n ih =>
    intro i hi
    rcases List.mem_cons.mp hi with rfl | hi
    · exact h.physical_lt (by omega)
    · exact ih (r := { r with size := r.size - 1 }) ⟨by simp only; omega, h.first_lt⟩
        (by simp only; omega) (by simp only; omega) i hi

/-- Detaching reads inside the array, and so is the new cold end. -/
theorem WF.detachTraced_lt {r : RingBuffer α} (h : r.WF) {n : ℕ} (hn : n ≤ r.size) :
    ∀ i ∈ (r.detachTraced n).2, i < r.capacity := by
  have hs := h.size_le
  have hread : ∀ i ∈ (List.range n).map r.physical, i < r.capacity := by
    intro i hi
    obtain ⟨k, hk, rfl⟩ := List.mem_map.mp hi
    have := List.mem_range.mp hk
    exact h.physical_lt (by omega)
  unfold detachTraced
  split
  · exact hread
  · intro i hi
    rcases List.mem_append.mp hi with hi | hi
    · exact hread i hi
    · rw [List.mem_singleton.mp hi]
      exact h.physical_lt (by omega)

/-- **Append on the contents**, with what goes in: as many entries as there is room for. -/
theorem contents_append_take {r : RingBuffer α} (h : r.WF) (as : List α) :
    (r.append as).1.contents = r.contents ++ as.take (r.capacity - r.size) ∧
      (r.append as).2 = as.drop (r.capacity - r.size) := by
  obtain ⟨hcut, hfull⟩ := contents_append h as
  have hle := (h.append as).size_le
  rw [capacity_append, ← length_contents] at hle
  have hlen := congrArg List.length hcut
  simp only [List.length_append, length_contents] at hlen
  by_cases hleft : (r.append as).2 = []
  · rw [hleft, List.append_nil] at hcut
    rw [hleft, List.length_nil, Nat.add_zero] at hlen
    rw [length_contents] at hle
    rw [hcut, hleft, List.take_of_length_le (by omega), List.drop_of_length_le (by omega)]
    exact ⟨rfl, rfl⟩
  · have hsize := hfull hleft
    have hcap : (r.append as).1.contents.length = r.contents.length + (r.capacity - r.size) := by
      have := h.size_le
      rw [length_contents, length_contents, hsize]
      omega
    have htake := congrArg (List.take (r.append as).1.contents.length) hcut
    have hdrop := congrArg (List.drop (r.append as).1.contents.length) hcut
    rw [List.take_left, hcap, List.take_length_add_append] at htake
    rw [List.drop_left, hcap, List.drop_length_add_append] at hdrop
    exact ⟨htake, hdrop⟩

end RingBuffer
