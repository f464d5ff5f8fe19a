import Ammalloc.Lib.LinkedRing

set_option relaxedAutoImplicit false
set_option autoImplicit false

/-!
# Span lists

`SpanList` of `include/ammalloc/span.h`: doubly linked lists through the `next` and `prev` fields of
the spans, each closed by the sentinel `head_` inside the list object. Any number of lists share the
spans, and nothing but the discipline of the callers keeps a span on at most one of them. The fields
of a span are plain pointers: a step that dereferences null has no result.

## Main definitions

* `Ammalloc.SpanList.Node`, `Ammalloc.SpanList.Heap` — sentinels and spans, and their links.
* `Ammalloc.SpanList.insert`, `pushFront`, `pushBack`, `erase`, `eraseAt`, `popFront` — the
  operations, as the source writes the fields.
* `Ammalloc.SpanList.Represents` — the heap holds a family of sequences.

## Main results

* `Ammalloc.SpanList.Represents.insert`, `Ammalloc.SpanList.Represents.erase` — what the two writers
  of links do to the family.
-/

namespace Ammalloc.SpanList

open LinkedRing

/-- A `Span` object: the sentinel `head_` of a list, or a span of the pool. -/
inductive Node (ι σ : Type) where
  | head (k : ι)
  | span (x : σ)
  deriving DecidableEq, Repr

/-- The fields `next` and `prev` of every `Span` object. -/
abbrev Heap (ι σ : Type) := Links (Node ι σ)

/-- `SpanList::Iterator`: the pointer `node_`. -/
abbrev Iterator (ι σ : Type) := Option (Node ι σ)

variable {ι σ : Type}

/-! ## Operations -/

/-- The constructors of all lists, over whatever the memory of the spans holds. -/
def construct (heap : Heap ι σ) : Heap ι σ where
  next
    | .head k => some (.head k)
    | .span x => heap.next (.span x)
  prev
    | .head k => some (.head k)
    | .span x => heap.prev (.span x)

/-- `begin`. -/
def begin (heap : Heap ι σ) (k : ι) : Iterator ι σ := heap.next (.head k)

/-- `end`. -/
def endOf (k : ι) : Iterator ι σ := some (.head k)

/-- `Iterator::operator++`. -/
def advance (heap : Heap ι σ) (it : Iterator ι σ) : Option (Iterator ι σ) := do
  let node ← it
  return heap.next node

section

variable [DecidableEq ι] [DecidableEq σ]

/-- `node->next = value`. -/
def setNext (heap : Heap ι σ) (node : Node ι σ) (value : Option (Node ι σ)) : Heap ι σ :=
  { heap with next := Function.update heap.next node value }

/-- `node->prev = value`. -/
def setPrev (heap : Heap ι σ) (node : Node ι σ) (value : Option (Node ι σ)) : Heap ι σ :=
  { heap with prev := Function.update heap.prev node value }

/-- `empty`. -/
def empty (heap : Heap ι σ) (k : ι) : Bool := decide (heap.next (.head k) = some (.head k))

/-- `insert`, whose precondition that neither pointer is null is in the types. -/
def insert (heap : Heap ι σ) (pos span : Node ι σ) : Option (Heap ι σ) := do
  let heap := setNext heap span (some pos)
  let heap := setPrev heap span (heap.prev pos)
  let prev ← heap.prev span
  let heap := setNext heap prev (some span)
  return setPrev heap pos (some span)

/-- `push_front`. -/
def pushFront (heap : Heap ι σ) (k : ι) (span : Node ι σ) : Option (Heap ι σ) := do
  let pos ← begin heap k
  insert heap pos span

/-- `push_back`. -/
def pushBack (heap : Heap ι σ) (k : ι) (span : Node ι σ) : Option (Heap ι σ) := do
  let pos ← endOf k
  insert heap pos span

/-- `erase(Span*)`: the following node, and the links. The list itself is not read; only a debug
check compares the span with its sentinel. -/
def erase (heap : Heap ι σ) (span : Node ι σ) : Option (Node ι σ × Heap ι σ) := do
  let prev ← heap.prev span
  let next ← heap.next span
  let heap := setNext heap prev (some next)
  let heap := setPrev heap next (some prev)
  let heap := setPrev heap span none
  let heap := setNext heap span none
  return (next, heap)

/-- `erase(Iterator)`. -/
def eraseAt (heap : Heap ι σ) (pos : Iterator ι σ) : Option (Iterator ι σ × Heap ι σ) := do
  let span ← pos
  let (next, heap) ← erase heap span
  return (some next, heap)

/-- `pop_front`: the removed span, or null. -/
def popFront (heap : Heap ι σ) (k : ι) : Option (Option (Node ι σ) × Heap ι σ) :=
  if empty heap k then some (none, heap)
  else do
    let span ← heap.next (.head k)
    let (_, heap) ← erase heap span
    return (some span, heap)

end

/-! ## Families of sequences -/

/-- A position of list `k`: the first of the remaining spans, or the sentinel. -/
def position (k : ι) (rest : List σ) : Node ι σ := (rest.map Node.span).headD (.head k)

/-- **The heap holds the lists**: each is a ring through its sentinel, and no span is on two. -/
structure Represents (heap : Heap ι σ) (lists : ι → List σ) : Prop where
  ring : ∀ k, Ring heap (.head k) ((lists k).map Node.span)
  separate : ∀ x j k, x ∈ lists j → x ∈ lists k → j = k

namespace Represents

variable {heap : Heap ι σ} {lists : ι → List σ}

/-- The lists that the constructors leave are empty. -/
lemma construct (heap : Heap ι σ) : Represents (construct heap) fun _ => [] where
  ring _ := Ring.empty rfl rfl
  separate _ _ _ hx := absurd hx List.not_mem_nil

/-- A list has no span twice. -/
lemma nodup (h : Represents heap lists) (k : ι) : (lists k).Nodup :=
  (List.nodup_cons.mp (h.ring k).nodup).2.of_map _

/-- A sentinel or span of another list is neither on list `k` nor a span that is on no other. -/
lemma not_mem_of_ne (h : Represents heap lists) {k j : ι} {x : σ} (hjk : j ≠ k)
    (hx : ∀ i, i ≠ k → x ∉ lists i) {v : Node ι σ} (hv : v ∈ .head j :: (lists j).map Node.span) :
    v ∉ .head k :: (lists k).map Node.span ∧ v ≠ .span x := by
  cases v with
  | head i =>
    have hij : i = j := by simpa using hv
    simp [hij, hjk]
  | span y =>
    have hy : y ∈ lists j := by simpa using hv
    refine ⟨?_, ?_⟩
    · simpa using fun hyk => hjk (h.separate y j k hy hyk)
    · rintro ⟨⟩
      exact hx j hjk hy

/-- Both neighbours of a position are on the list. -/
lemma neighbours_mem {k : ι} {l₁ l₂ : List σ} {v : Node ι σ}
    (hv : v ∉ .head k :: (l₁ ++ l₂).map Node.span) :
    v ≠ (l₁.map Node.span).getLastD (.head k) ∧ v ≠ position k l₂ := by
  rw [List.map_append] at hv
  refine ⟨fun heq => hv ?_, fun heq => hv ?_⟩
  · have hmem : (l₁.map Node.span).getLastD (.head k) ∈ .head k :: l₁.map Node.span :=
      List.getLastD_mem_cons
    rw [heq]
    exact List.cons_subset_cons _ (List.subset_append_left _ _) hmem
  · rw [heq]
    cases l₂ with
    | nil => exact List.mem_cons_self
    | cons y l₂ => simp [position]

/-- `begin` is the first position. -/
lemma begin_eq (h : Represents heap lists) (k : ι) : begin heap k = some (position k (lists k)) :=
  (h.ring k).next_sentinel

variable [DecidableEq ι]

/-- **One list changes**: its ring is a new one, over its own spans and one that no other list has,
and all links outside of it are kept. -/
lemma update (h : Represents heap lists) {heap' : Heap ι σ} {k : ι} {l : List σ} {x : σ}
    (hx : ∀ i, i ≠ k → x ∉ lists i) (hring : Ring heap' (.head k) (l.map Node.span))
    (hl : ∀ y ∈ l, y = x ∨ y ∈ lists k)
    (hframe : ∀ v, v ∉ .head k :: (lists k).map Node.span → v ≠ .span x →
      heap'.next v = heap.next v ∧ heap'.prev v = heap.prev v) :
    Represents heap' (Function.update lists k l) where
  ring j := by
    by_cases hjk : j = k
    · subst hjk
      rw [Function.update_self]
      exact hring
    · rw [Function.update_of_ne hjk]
      refine (h.ring j).congr fun v hv => ?_
      obtain ⟨hvk, hvx⟩ := h.not_mem_of_ne hjk hx hv
      exact hframe v hvk hvx
  separate y i j hi hj := by
    have hother : ∀ j, j ≠ k → y ∈ l → y ∉ lists j := by
      intro j hjk hy hyj
      rcases hl y hy with rfl | hyk
      · exact hx j hjk hyj
      · exact hjk (h.separate y j k hyj hyk)
    by_cases hik : i = k <;> by_cases hjk : j = k
    · rw [hik, hjk]
    · rw [hik, Function.update_self] at hi
      rw [Function.update_of_ne hjk] at hj
      exact absurd hj (hother j hjk hi)
    · rw [hjk, Function.update_self] at hj
      rw [Function.update_of_ne hik] at hi
      exact absurd hi (hother i hik hj)
    · rw [Function.update_of_ne hik] at hi
      rw [Function.update_of_ne hjk] at hj
      exact h.separate y i j hi hj

variable [DecidableEq σ]

/-- **Insertion** of a span that is on no list, before a position of list `k`. -/
lemma insert (h : Represents heap lists) {k : ι} {l₁ l₂ : List σ} {x : σ}
    (hk : lists k = l₁ ++ l₂) (hx : ∀ j, x ∉ lists j) :
    ∃ heap', insert heap (position k l₂) (.span x) = some heap' ∧
      Represents heap' (Function.update lists k (l₁ ++ x :: l₂)) ∧
      ∀ v, v ∉ .head k :: (lists k).map Node.span → v ≠ .span x →
        heap'.next v = heap.next v ∧ heap'.prev v = heap.prev v := by
  have hring := h.ring k
  rw [hk, List.map_append] at hring
  have hprev : heap.prev (position k l₂) = some ((l₁.map Node.span).getLastD (.head k)) :=
    hring.prev_position
  have hframe : ∀ v, v ∉ .head k :: (lists k).map Node.span → v ≠ .span x →
      (heap.splice ((l₁.map Node.span).getLastD (.head k)) (.span x) (position k l₂)).next v =
        heap.next v ∧
      (heap.splice ((l₁.map Node.span).getLastD (.head k)) (.span x) (position k l₂)).prev v =
        heap.prev v := by
    intro v hv hvx
    rw [hk] at hv
    obtain ⟨hvp, hvn⟩ := neighbours_mem hv
    exact Links.splice_of_ne hvp hvx hvn
  refine ⟨_, ?_, h.update (fun j _ => hx j) ?_ ?_ hframe, hframe⟩
  · simp [SpanList.insert, setNext, setPrev, Links.splice, hprev]
  · have hxk : x ∉ l₁ ++ l₂ := hk ▸ hx k
    have hnew := hring.splice (x := Node.span x) (by simpa using hxk)
    simpa [position] using hnew
  · intro y hy
    rw [hk]
    simp only [List.mem_append, List.mem_cons] at hy ⊢
    tauto

/-- **Removal** of a span of list `k`: it gives the position after the span. -/
lemma erase (h : Represents heap lists) {k : ι} {l₁ l₂ : List σ} {x : σ}
    (hk : lists k = l₁ ++ x :: l₂) :
    ∃ heap', erase heap (.span x) = some (position k l₂, heap') ∧
      Represents heap' (Function.update lists k (l₁ ++ l₂)) ∧
      ∀ v, v ∉ .head k :: (lists k).map Node.span →
        heap'.next v = heap.next v ∧ heap'.prev v = heap.prev v := by
  have hring := h.ring k
  rw [hk, List.map_append, List.map_cons] at hring
  have hprev : heap.prev (.span x) = some ((l₁.map Node.span).getLastD (.head k)) :=
    hring.prev_position
  have hnext : heap.next (.span x) = some (position k l₂) := hring.next_of_mem
  have hxk : x ∈ lists k := by rw [hk]; simp
  have hframe : ∀ v, v ∉ .head k :: (lists k).map Node.span →
      (heap.bypass ((l₁.map Node.span).getLastD (.head k)) (.span x) (position k l₂)).next v =
        heap.next v ∧
      (heap.bypass ((l₁.map Node.span).getLastD (.head k)) (.span x) (position k l₂)).prev v =
        heap.prev v := by
    intro v hv
    have hvx : v ≠ .span x := by
      rintro rfl
      exact hv (List.mem_cons_of_mem _ (List.mem_map_of_mem hxk))
    have hv' : v ∉ .head k :: (l₁ ++ l₂).map Node.span := by
      rw [hk] at hv
      simp only [List.map_append, List.map_cons, List.mem_cons, List.mem_append, not_or] at hv ⊢
      tauto
    obtain ⟨hvp, hvn⟩ := neighbours_mem hv'
    exact Links.bypass_of_ne hvp hvx hvn
  have hother : ∀ i, i ≠ k → x ∉ lists i := fun i hik hxi => hik (h.separate x i k hxi hxk)
  refine ⟨_, ?_, h.update hother ?_ ?_ fun v hv _ => hframe v hv, hframe⟩
  · simp [SpanList.erase, setNext, setPrev, Links.bypass, hprev, hnext]
  · rw [List.map_append]
    exact hring.bypass
  · intro y hy
    rw [hk]
    simp only [List.mem_append, List.mem_cons] at hy ⊢
    tauto

/-- The field `next` of a span that is on no list may be used for anything. -/
lemma setNext (h : Represents heap lists) {x : σ} (hx : ∀ j, x ∉ lists j)
    (value : Option (Node ι σ)) : Represents (setNext heap (.span x) value) lists where
  ring k := by
    refine (h.ring k).congr fun v hv => ⟨Function.update_of_ne ?_ _ _, rfl⟩
    rintro rfl
    exact hx k (by simpa using hv)
  separate := h.separate

/-- A list is empty exactly if its sequence is. -/
lemma empty_iff (h : Represents heap lists) (k : ι) : empty heap k = true ↔ lists k = [] := by
  have hfirst : heap.next (.head k) = some (position k (lists k)) := h.begin_eq k
  rw [empty, decide_eq_true_iff, hfirst]
  cases lists k <;> simp [position]

end Represents

end Ammalloc.SpanList
