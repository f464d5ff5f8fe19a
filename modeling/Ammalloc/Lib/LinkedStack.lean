import Mathlib.Tactic

set_option relaxedAutoImplicit false
set_option autoImplicit false

/-!
# Stacks linked through a shared array

The nodes of a pool each have one link, and a stack is the chain of links from its head. Several
stacks may share the pool. A head is versioned by a tag that wraps, so that a stale reader can
tell that the head has moved, as long as it has not moved a full turn.

## Main definitions

* `LinkedStack.Chain` — the nodes that a stack holds, from the top.
* `LinkedStack.walk` — the same list, computed.

## Main results

* `LinkedStack.Chain.push`, `LinkedStack.Chain.pop`, `LinkedStack.Chain.congr`.
* `LinkedStack.Chain.nodup` — a chain that ends at null is acyclic.
* `LinkedStack.Chain.cut`, `LinkedStack.Chain.glue` — one link rewritten at the last node of a
  part takes a chain apart, or puts two chains together.
* `LinkedStack.version_eq` — equal tags mean equal versions within one turn.
-/

namespace LinkedStack

variable {α : Type*} {next next' : α → α} {null head : α} {l : List α}

/-- The nodes reached from `head` along `next`, up to `null`. -/
def Chain (next : α → α) (null : α) : α → List α → Prop
  | head, [] => head = null
  | head, i :: l => head = i ∧ i ≠ null ∧ Chain next null (next i) l

/-- Links of nodes outside the chain may change. -/
lemma Chain.congr (h : Chain next null head l) (heq : ∀ i ∈ l, next' i = next i) :
    Chain next' null head l := by
  induction l generalizing head with
  | nil => exact h
  | cons i l ih =>
    obtain ⟨hi, hne, hl⟩ := h
    refine ⟨hi, hne, ?_⟩
    rw [heq i List.mem_cons_self]
    exact ih hl fun j hj => heq j (List.mem_cons_of_mem i hj)

/-- A node linked to the head of a chain is the head of the longer chain. -/
lemma Chain.push (h : Chain next null head l) {i : α} (hi : i ≠ null) (hnext : next i = head) :
    Chain next null i (i :: l) := by
  refine ⟨rfl, hi, ?_⟩
  rw [hnext]
  exact h

/-- A chain whose head is not null begins with its head. -/
lemma Chain.pop (h : Chain next null head l) (hhead : head ≠ null) :
    ∃ l', l = head :: l' ∧ Chain next null (next head) l' := by
  cases l with
  | nil => exact absurd h hhead
  | cons i l =>
    obtain ⟨rfl, -, hl⟩ := h
    exact ⟨l, rfl, hl⟩

/-- A chain whose head is null is empty. -/
lemma Chain.eq_nil (h : Chain next null null l) : l = [] := by
  cases l with
  | nil => rfl
  | cons i l => exact absurd h.1.symm h.2.1

/-- The head of a chain is null or one of its nodes. -/
lemma Chain.head_mem (h : Chain next null head l) : head = null ∨ head ∈ l := by
  cases l with
  | nil => exact Or.inl h
  | cons i l => exact Or.inr (h.1 ▸ List.mem_cons_self)

/-- Follow the links for at most the given number of nodes. -/
def walk [DecidableEq α] (next : α → α) (null : α) : ℕ → α → List α
  | 0, _ => []
  | fuel + 1, head => if head = null then [] else head :: walk next null fuel (next head)

/-- The walk along a chain gives the chain. -/
lemma Chain.walk_eq [DecidableEq α] (h : Chain next null head l) {fuel : ℕ}
    (hfuel : l.length ≤ fuel) : walk next null fuel head = l := by
  induction l generalizing head fuel with
  | nil =>
    cases fuel with
    | zero => rfl
    | succ fuel => exact if_pos h
  | cons i l ih =>
    obtain ⟨rfl, hne, hl⟩ := h
    cases fuel with
    | zero => simp at hfuel
    | succ fuel =>
      rw [walk, if_neg hne, ih hl (Nat.le_of_succ_le_succ hfuel)]

/-! ## Cutting and gluing -/

/-- A head determines its chain. -/
lemma Chain.unique {l' : List α} (h : Chain next null head l) (h' : Chain next null head l') :
    l = l' := by
  induction l generalizing head l' with
  | nil =>
    cases l' with
    | nil => rfl
    | cons i l' => exact absurd (h'.1.symm.trans h) h'.2.1
  | cons i l ih =>
    obtain ⟨rfl, hne, hl⟩ := h
    obtain ⟨l', rfl, hl'⟩ := h'.pop hne
    rw [ih hl hl']

/-- Null is not a node. -/
lemma Chain.ne_null (h : Chain next null head l) {i : α} (hi : i ∈ l) : i ≠ null := by
  induction l generalizing head with
  | nil => exact absurd hi List.not_mem_nil
  | cons j l ih =>
    rcases List.mem_cons.mp hi with rfl | hi
    · exact h.2.1
    · exact ih h.2.2 hi

/-- As many steps from the head as the first part has nodes lead to the second part. -/
lemma Chain.iterate {l₁ l₂ : List α} (h : Chain next null head (l₁ ++ l₂)) :
    Chain next null (next^[l₁.length] head) l₂ := by
  induction l₁ generalizing head with
  | nil => exact h
  | cons i l₁ ih =>
    obtain ⟨rfl, -, hl⟩ := h
    exact ih hl

/-- **A chain that ends at null is acyclic.**

**Proof sketch.** From a node that occurred twice there would be two chains of different
lengths. -/
lemma Chain.nodup (h : Chain next null head l) : l.Nodup := by
  induction l generalizing head with
  | nil => exact List.nodup_nil
  | cons i l ih =>
    obtain ⟨rfl, hne, hl⟩ := h
    refine List.nodup_cons.mpr ⟨fun hmem => ?_, ih hl⟩
    obtain ⟨l₁, l₂, rfl⟩ := List.append_of_mem hmem
    have hsecond := hl.iterate
    obtain ⟨hhead, -, hrest⟩ := hsecond
    have heq := hl.unique hrest
    have hlen := congrArg List.length heq
    simp at hlen
    omega

/-- The last node of the first part is linked to the second part. -/
lemma Chain.next_last {l₁ l₂ : List α} {t : α} (h : Chain next null head (l₁ ++ t :: l₂)) :
    Chain next null (next t) l₂ := by
  obtain ⟨-, -, hl⟩ := h.iterate
  exact hl

/-- A chain up to its last node, whatever that is linked to. -/
lemma Chain.relink_last [DecidableEq α] {l₁ l₂ l₂' : List α} {t head' : α}
    (h : Chain next null head (l₁ ++ t :: l₂)) (ht : t ∉ l₁)
    (h' : Chain (Function.update next t head') null head' l₂') :
    Chain (Function.update next t head') null head (l₁ ++ t :: l₂') := by
  induction l₁ generalizing head with
  | nil =>
    obtain ⟨rfl, hne, -⟩ := h
    refine ⟨rfl, hne, ?_⟩
    rw [Function.update_self]
    exact h'
  | cons i l₁ ih =>
    obtain ⟨rfl, hne, hl⟩ := h
    rw [List.mem_cons, not_or] at ht
    refine ⟨rfl, hne, ?_⟩
    rw [Function.update_of_ne (Ne.symm ht.1)]
    exact ih hl ht.2

/-- **Cutting a chain** behind the node `t`: with its link set to null, both parts are chains. -/
lemma Chain.cut [DecidableEq α] {l₁ l₂ : List α} {t : α}
    (h : Chain next null head (l₁ ++ t :: l₂)) :
    Chain (Function.update next t null) null head (l₁ ++ [t]) ∧
      Chain (Function.update next t null) null (next t) l₂ := by
  obtain ⟨-, hnd, hdis⟩ := List.nodup_append.mp h.nodup
  refine ⟨h.relink_last (fun ht => hdis t ht t List.mem_cons_self rfl) rfl,
    h.next_last.congr fun i hi => Function.update_of_ne ?_ _ _⟩
  rintro rfl
  exact (List.nodup_cons.mp hnd).1 hi

/-- **Gluing two chains**: with the last node `t` of the one linked to the head of the other, they
are one chain. -/
lemma Chain.glue [DecidableEq α] {l₁ l₂ : List α} {t head' : α}
    (h : Chain next null head (l₁ ++ [t])) (h' : Chain next null head' l₂) (ht : t ∉ l₂) :
    Chain (Function.update next t head') null head (l₁ ++ t :: l₂) := by
  refine h.relink_last (fun hmem => ?_) (h'.congr fun i hi => Function.update_of_ne ?_ _ _)
  · exact (List.nodup_append.mp h.nodup).2.2 t hmem t List.mem_cons_self rfl
  · rintro rfl
    exact ht hi

/-- **Versions within one turn of the tag.** A version that has the tag of the current one, and is
less than a turn old, is the current one. -/
lemma version_eq {turn seen now : ℕ} (hle : seen ≤ now) (hturn : now < seen + turn)
    (htag : seen % turn = now % turn) : seen = now := by
  obtain ⟨k, hk⟩ := (Nat.modEq_iff_dvd' hle).mp htag
  have hzero : k = 0 := by
    by_contra hne
    have := Nat.le_mul_of_pos_right turn (Nat.pos_of_ne_zero hne)
    omega
  rw [hzero, Nat.mul_zero] at hk
  omega

end LinkedStack
