import Mathlib.Tactic

set_option relaxedAutoImplicit false
set_option autoImplicit false

/-!
# Doubly linked rings through sentinels

The nodes of a pool each have a link to the next node and one to the previous one, either of which
may be null. A ring is a closed walk from a sentinel. Several rings may share the pool.

## Main definitions

* `LinkedRing.Path` — a walk along one of the two links.
* `LinkedRing.walk` — the nodes up to the sentinel, computed.
* `LinkedRing.Links`, `LinkedRing.Links.splice`, `LinkedRing.Links.bypass` — the links of a pool, a
  node put between two others, and a node taken out from between them.
* `LinkedRing.Ring` — the nodes between a sentinel and itself, forwards and backwards.

## Main results

* `LinkedRing.Ring.splice`, `LinkedRing.Ring.bypass`, `LinkedRing.Ring.congr`.
* `LinkedRing.Ring.walk_next`, `LinkedRing.Ring.walk_prev` — the two walks from the sentinel visit
  the nodes of the ring in opposite orders.
-/

namespace LinkedRing

variable {α : Type*}

/-! ## Paths -/

section Paths

variable {f g : α → Option α} {a b x : α} {l l₁ l₂ : List α}

/-- The nodes of `l`, in order, lead from `a` to `b`. -/
def Path (f : α → Option α) : α → List α → α → Prop
  | a, [], b => f a = some b
  | a, x :: l, b => f a = some x ∧ Path f x l b

/-- A path through `x` is a path to it and a path from it. -/
lemma path_append : Path f a (l₁ ++ x :: l₂) b ↔ Path f a l₁ x ∧ Path f x l₂ b := by
  induction l₁ generalizing a with
  | nil => exact Iff.rfl
  | cons y l₁ ih => exact (and_congr_right fun _ => ih).trans and_assoc.symm

/-- Links of nodes off the path may change. -/
lemma Path.congr (h : Path f a l b) (heq : ∀ y ∈ a :: l, g y = f y) : Path g a l b := by
  induction l generalizing a with
  | nil => exact (heq a List.mem_cons_self).trans h
  | cons x l ih =>
    exact ⟨(heq a List.mem_cons_self).trans h.1,
      ih h.2 fun y hy => heq y (List.mem_cons_of_mem a hy)⟩

/-- The last link of a path leads to its end. -/
lemma Path.last (h : Path f a l b) : f (l.getLastD a) = some b := by
  induction l generalizing a with
  | nil => exact h
  | cons x l ih =>
    rw [List.getLastD_cons]
    exact ih h.2

/-- The first link of a path leads to its first node. -/
lemma Path.first (h : Path f a l b) : f a = some (l.headD b) := by
  cases l with
  | nil => exact h
  | cons x l => exact h.1

/-- What the distinctness of a ring's nodes says at one of them: it is not on either side, and its
predecessor is not on the far side. -/
lemma nodup_split {s : α} (h : (s :: (l₁ ++ x :: l₂)).Nodup) :
    (s :: l₁).Nodup ∧ (∀ y ∈ s :: l₁, y ≠ x) ∧ ∀ z ∈ l₂, z ≠ x ∧ z ≠ l₁.getLastD s := by
  rw [← List.cons_append] at h
  obtain ⟨h₁, h₂, hdisj⟩ := List.nodup_append.mp h
  refine ⟨h₁, fun y hy => hdisj y hy x List.mem_cons_self, fun z hz => ⟨?_, ?_⟩⟩
  · exact fun heq => (List.nodup_cons.mp h₂).1 (heq ▸ hz)
  · exact (hdisj _ (List.getLastD_mem_cons) z (List.mem_cons_of_mem x hz)).symm

/-- The last link of a path may be led elsewhere. -/
lemma Path.relink [DecidableEq α] (h : Path f a l b) (hnodup : (a :: l).Nodup) (b' : α) :
    Path (Function.update f (l.getLastD a) (some b')) a l b' := by
  induction l generalizing a with
  | nil => exact Function.update_self a (some b') f
  | cons x l ih =>
    have hne : a ≠ l.getLastD x := fun heq =>
      (List.nodup_cons.mp hnodup).1 (heq ▸ List.getLastD_mem_cons)
    rw [List.getLastD_cons]
    refine ⟨?_, ih h.2 (List.nodup_cons.mp hnodup).2⟩
    rw [Function.update_of_ne hne]
    exact h.1

/-- Follow the links from `a` up to `s`, for at most the given number of links. -/
def walk [DecidableEq α] (f : α → Option α) (s : α) : ℕ → α → Option (List α)
  | 0, _ => none
  | fuel + 1, a => do
    let b ← f a
    if b = s then some [] else (walk f s fuel b).map (b :: ·)

/-- The walk along a path gives the path. -/
lemma Path.walk_eq [DecidableEq α] {s : α} (h : Path f a l s) (hs : s ∉ l) {fuel : ℕ}
    (hfuel : l.length < fuel) : walk f s fuel a = some l := by
  induction l generalizing a fuel with
  | nil =>
    obtain ⟨fuel, rfl⟩ : ∃ n, fuel = n + 1 := ⟨fuel - 1, by omega⟩
    have hlink : f a = some s := h
    simp [walk, hlink]
  | cons x l ih =>
    obtain ⟨fuel, rfl⟩ : ∃ n, fuel = n + 1 := ⟨fuel - 1, by omega⟩
    have hx : x ≠ s := fun heq => hs (heq ▸ List.mem_cons_self)
    have hrest := ih h.2 (fun hmem => hs (List.mem_cons_of_mem x hmem))
      (Nat.lt_of_succ_lt_succ hfuel)
    simp [walk, h.1, hx, hrest]

/-- A node is put on a closed path, between its neighbours. -/
lemma Path.insert [DecidableEq α] {s : α} (h : Path f s (l₁ ++ l₂) s)
    (hnodup : (s :: (l₁ ++ x :: l₂)).Nodup) :
    Path (Function.update (Function.update f x (some (l₂.headD s))) (l₁.getLastD s) (some x)) s
      (l₁ ++ x :: l₂) s := by
  obtain ⟨hnodup₁, hx₁, hx₂⟩ := nodup_split hnodup
  have hlast : x ≠ l₁.getLastD s := (hx₁ _ (List.getLastD_mem_cons)).symm
  set f' := Function.update f x (some (l₂.headD s)) with hf'
  have hleft : ∀ {b}, Path f s l₁ b → Path (Function.update f' (l₁.getLastD s) (some x)) s l₁ x :=
    fun h₁ => (h₁.congr fun y hy => Function.update_of_ne (hx₁ y hy) _ _).relink hnodup₁ x
  have hlink : Function.update f' (l₁.getLastD s) (some x) x = some (l₂.headD s) := by
    rw [Function.update_of_ne hlast, hf', Function.update_self]
  refine path_append.mpr ?_
  cases l₂ with
  | nil => exact ⟨hleft (List.append_nil l₁ ▸ h), hlink⟩
  | cons y l₂ =>
    obtain ⟨h₁, h₂⟩ := path_append.mp h
    refine ⟨hleft h₁, hlink, h₂.congr fun z hz => ?_⟩
    rw [Function.update_of_ne (hx₂ z hz).2, hf', Function.update_of_ne (hx₂ z hz).1]

/-- A node is taken off a closed path. -/
lemma Path.erase [DecidableEq α] {s : α} (h : Path f s (l₁ ++ x :: l₂) s)
    (hnodup : (s :: (l₁ ++ x :: l₂)).Nodup) :
    Path (Function.update (Function.update f (l₁.getLastD s) (some (l₂.headD s))) x none) s
      (l₁ ++ l₂) s := by
  obtain ⟨hnodup₁, hx₁, hx₂⟩ := nodup_split hnodup
  obtain ⟨h₁, h₂⟩ := path_append.mp h
  set f' := Function.update f (l₁.getLastD s) (some (l₂.headD s)) with hf'
  have hleft : Path (Function.update f' x none) s l₁ (l₂.headD s) :=
    (h₁.relink hnodup₁ (l₂.headD s)).congr fun y hy => Function.update_of_ne (hx₁ y hy) _ _
  cases l₂ with
  | nil => exact (List.append_nil l₁).symm ▸ hleft
  | cons y l₂ =>
    refine path_append.mpr ⟨hleft, h₂.2.congr fun z hz => ?_⟩
    rw [Function.update_of_ne (hx₂ z hz).1, hf', Function.update_of_ne (hx₂ z hz).2]

end Paths

/-! ## Rings -/

/-- The two links of every node of a pool; `none` is the null pointer. -/
structure Links (α : Type*) where
  next : α → Option α
  prev : α → Option α

namespace Links

variable [DecidableEq α]

/-- Link `x` between `p` and `n`. -/
def splice (m : Links α) (p x n : α) : Links α where
  next := Function.update (Function.update m.next x (some n)) p (some x)
  prev := Function.update (Function.update m.prev x (some p)) n (some x)

/-- Link `p` and `n`, the neighbours of `x`, to each other, and clear the links of `x`. -/
def bypass (m : Links α) (p x n : α) : Links α where
  next := Function.update (Function.update m.next p (some n)) x none
  prev := Function.update (Function.update m.prev n (some p)) x none

variable {m : Links α} {p x n v : α}

/-- A node that is not one of the three keeps its links. -/
lemma splice_of_ne (hp : v ≠ p) (hx : v ≠ x) (hn : v ≠ n) :
    (m.splice p x n).next v = m.next v ∧ (m.splice p x n).prev v = m.prev v :=
  ⟨(Function.update_of_ne hp _ _).trans (Function.update_of_ne hx _ _),
    (Function.update_of_ne hn _ _).trans (Function.update_of_ne hx _ _)⟩

/-- A node that is not one of the three keeps its links. -/
lemma bypass_of_ne (hp : v ≠ p) (hx : v ≠ x) (hn : v ≠ n) :
    (m.bypass p x n).next v = m.next v ∧ (m.bypass p x n).prev v = m.prev v :=
  ⟨(Function.update_of_ne hx _ _).trans (Function.update_of_ne hp _ _),
    (Function.update_of_ne hx _ _).trans (Function.update_of_ne hn _ _)⟩

end Links

/-- The nodes `l` lie between the sentinel `s` and itself, in this order along `next` and in the
opposite one along `prev`. -/
structure Ring (m : Links α) (s : α) (l : List α) : Prop where
  nodup : (s :: l).Nodup
  next : Path m.next s l s
  prev : Path m.prev s l.reverse s

namespace Ring

variable {m m' : Links α} {s x : α} {l l₁ l₂ : List α}

/-- A sentinel that is linked to itself is an empty ring. -/
lemma empty (hnext : m.next s = some s) (hprev : m.prev s = some s) : Ring m s [] :=
  ⟨List.nodup_singleton s, hnext, hprev⟩

/-- Links of nodes that are not on the ring may change. -/
lemma congr (h : Ring m s l)
    (heq : ∀ v ∈ s :: l, m'.next v = m.next v ∧ m'.prev v = m.prev v) : Ring m' s l where
  nodup := h.nodup
  next := h.next.congr fun v hv => (heq v hv).1
  prev := h.prev.congr fun v hv => (heq v (by simpa using hv)).2

/-- The sentinel is linked to the first and the last node. -/
lemma next_sentinel (h : Ring m s l) : m.next s = some (l.headD s) := h.next.first

/-- The first entry of the reverse is the last entry. -/
lemma reverse_headD (l : List α) (s : α) : l.reverse.headD s = l.getLastD s := by
  rw [List.headD_eq_head?_getD, List.head?_reverse, List.getLastD_eq_getLast?]

/-- The last entry of the reverse is the first entry. -/
lemma reverse_getLastD (l : List α) (s : α) : l.reverse.getLastD s = l.headD s := by
  rw [← reverse_headD, List.reverse_reverse]

/-- The backward link of a position leads to the node before it. -/
lemma prev_position (h : Ring m s (l₁ ++ l₂)) :
    m.prev (l₂.headD s) = some (l₁.getLastD s) := by
  have hprev := h.prev
  cases l₂ with
  | nil =>
    rw [List.append_nil] at hprev
    exact hprev.first.trans (congrArg some (reverse_headD l₁ s))
  | cons y l₂ =>
    rw [List.reverse_append, List.reverse_cons, List.append_assoc] at hprev
    exact (path_append.mp hprev).2.first.trans (congrArg some (reverse_headD l₁ s))

/-- The forward link of a node leads to the one after it. -/
lemma next_of_mem (h : Ring m s (l₁ ++ x :: l₂)) : m.next x = some (l₂.headD s) :=
  (path_append.mp h.next).2.first

/-- The nodes in the opposite order are as distinct. -/
lemma nodup_reverse (h : (s :: l).Nodup) : (s :: l.reverse).Nodup :=
  ((List.reverse_perm l).cons s).nodup_iff.mpr h

variable [DecidableEq α]

/-- A new node is put at a position. -/
lemma splice (h : Ring m s (l₁ ++ l₂)) (hx : x ∉ s :: (l₁ ++ l₂)) :
    Ring (m.splice (l₁.getLastD s) x (l₂.headD s)) s (l₁ ++ x :: l₂) := by
  have hperm : (s :: (l₁ ++ x :: l₂)).Perm (x :: s :: (l₁ ++ l₂)) :=
    (List.perm_middle.cons s).trans (List.Perm.swap x s _)
  have hnodup : (s :: (l₁ ++ x :: l₂)).Nodup :=
    hperm.nodup_iff.mpr (List.nodup_cons.mpr ⟨hx, h.nodup⟩)
  refine ⟨hnodup, h.next.insert hnodup, ?_⟩
  -- Backwards the two neighbours change places.
  have hback : (l₁ ++ x :: l₂).reverse = l₂.reverse ++ x :: l₁.reverse := by simp
  have hprev := h.prev
  rw [List.reverse_append] at hprev
  have hins := hprev.insert (hback ▸ nodup_reverse hnodup)
  rw [reverse_headD, reverse_getLastD] at hins
  rw [hback]
  exact hins

/-- A node is taken off the ring. -/
lemma bypass (h : Ring m s (l₁ ++ x :: l₂)) :
    Ring (m.bypass (l₁.getLastD s) x (l₂.headD s)) s (l₁ ++ l₂) := by
  have hsub : (l₁ ++ l₂).Sublist (l₁ ++ x :: l₂) :=
    (List.Sublist.refl l₁).append (List.sublist_cons_self x l₂)
  refine ⟨(hsub.cons_cons s).nodup h.nodup, h.next.erase h.nodup, ?_⟩
  have hback : (l₁ ++ x :: l₂).reverse = l₂.reverse ++ x :: l₁.reverse := by simp
  have hprev := h.prev
  rw [hback] at hprev
  have hers := hprev.erase (hback ▸ nodup_reverse h.nodup)
  rw [reverse_headD, reverse_getLastD] at hers
  rw [List.reverse_append]
  exact hers

/-- The forward walk from the sentinel visits the nodes of the ring and comes back. -/
lemma walk_next (h : Ring m s l) {fuel : ℕ} (hfuel : l.length < fuel) :
    walk m.next s fuel s = some l :=
  h.next.walk_eq (List.nodup_cons.mp h.nodup).1 hfuel

/-- The backward walk visits them in the opposite order. -/
lemma walk_prev (h : Ring m s l) {fuel : ℕ} (hfuel : l.length < fuel) :
    walk m.prev s fuel s = some l.reverse :=
  h.prev.walk_eq (List.nodup_cons.mp (nodup_reverse h.nodup)).1 (by simpa using hfuel)

end Ring

end LinkedRing
