import Ammalloc.Lib.Machine
import Ammalloc.Span.SpanList

set_option relaxedAutoImplicit false
set_option autoImplicit false

/-!
# Span lists refine sequences

Any number of span lists over one pool of spans behave as finite sequences, as long as their callers
insert only spans that are on no list and remove only spans that are on the list. A span that is on
no list may have its `next` field used for something else in the meantime: `ReleaseSpan` links the
spans it retires through it, `ReleaseBatch` the ones that have become empty, the scavenger those it
has detached.

## Main definitions

* `Ammalloc.SpanList.Op` — an operation, with its effect on the heap (`exec`) and on the sequences
  (`apply`, `reply`), and what its caller has to observe (`Legal`).
* `Ammalloc.SpanList.Traversal`, `Ammalloc.SpanList.TraversalStep` — a loop over a list that removes
  some of the spans it visits.

## Main results

* `Ammalloc.SpanList.Represents.step` — one operation.
* `Ammalloc.SpanList.Visits.step` — one step of a loop.
* `Ammalloc.SpanList.spanLists_refine_sequences` — every legal run, and every loop after it.
-/

namespace Ammalloc.SpanList

variable {ι σ : Type} [DecidableEq ι] [DecidableEq σ]

/-! ## Operations -/

/-- A call, or a write to the `next` field of a span outside of the lists. -/
inductive Op (ι σ : Type) where
  | pushFront (k : ι) (x : σ)
  | pushBack (k : ι) (x : σ)
  | erase (k : ι) (x : σ)
  | eraseAt (k : ι) (pos : Iterator ι σ)
  | popFront (k : ι)
  | setNext (x : σ) (value : Option (Node ι σ))
  deriving DecidableEq, Repr

namespace Op

/-- The list that the operation is called on. -/
def list : Op ι σ → Option ι
  | pushFront k _ | pushBack k _ | erase k _ | eraseAt k _ | popFront k => some k
  | setNext _ _ => none

/-- The span outside of the lists that the operation writes to. -/
def span : Op ι σ → Option σ
  | pushFront _ x | pushBack _ x | setNext x _ => some x
  | erase _ _ | eraseAt _ _ | popFront _ => none

/-- The pointer or iterator that is returned (null if the operation returns nothing), and the heap
after the operation. -/
def exec (heap : Heap ι σ) : Op ι σ → Option (Option (Node ι σ) × Heap ι σ)
  | pushFront k x => (SpanList.pushFront heap k (.span x)).map (none, ·)
  | pushBack k x => (SpanList.pushBack heap k (.span x)).map (none, ·)
  | erase _ x => (SpanList.erase heap (.span x)).map fun r => (some r.1, r.2)
  | eraseAt _ pos => SpanList.eraseAt heap pos
  | popFront k => SpanList.popFront heap k
  | setNext x value => some (none, SpanList.setNext heap (.span x) value)

/-- What the caller has to observe. -/
def Legal (lists : ι → List σ) : Op ι σ → Prop
  | pushFront _ x | pushBack _ x | setNext x _ => ∀ j, x ∉ lists j
  | erase k x => x ∈ lists k
  | eraseAt k pos => ∃ x ∈ lists k, pos = some (.span x)
  | popFront _ => True

/-- The sequences after the operation. -/
def apply (lists : ι → List σ) : Op ι σ → ι → List σ
  | pushFront k x => Function.update lists k (x :: lists k)
  | pushBack k x => Function.update lists k (lists k ++ [x])
  | erase k x | eraseAt k (some (.span x)) => Function.update lists k ((lists k).erase x)
  | popFront k => Function.update lists k (lists k).tail
  | eraseAt _ _ | setNext _ _ => lists

/-- The position after a span of list `k`. -/
def following (lists : ι → List σ) (k : ι) (x : σ) : Node ι σ :=
  position k ((lists k).drop ((lists k).idxOf x + 1))

/-- What the operation returns, by the sequences. -/
def reply (lists : ι → List σ) : Op ι σ → Option (Node ι σ)
  | erase k x | eraseAt k (some (.span x)) => some (following lists k x)
  | popFront k => (lists k).head?.map .span
  | pushFront _ _ | pushBack _ _ | eraseAt _ _ | setNext _ _ => none

end Op

/-- **What one operation changes**: only the list it is called on, and of the spans outside of the
lists only the one it is given. -/
structure Frame (op : Op ι σ) (lists : ι → List σ) (heap heap' : Heap ι σ) : Prop where
  sequences : ∀ j, op.list ≠ some j → op.apply lists j = lists j
  links : ∀ j, op.list ≠ some j → ∀ v ∈ .head j :: (lists j).map Node.span,
    heap'.next v = heap.next v ∧ heap'.prev v = heap.prev v
  detached : ∀ x, (∀ j, x ∉ lists j) → op.span ≠ some x →
    heap'.next (.span x) = heap.next (.span x) ∧ heap'.prev (.span x) = heap.prev (.span x)

/-- **A step of the refinement**: the operation returns what the sequences say, and changes them as
they say. -/
structure Refines (op : Op ι σ) (lists : ι → List σ) (heap heap' : Heap ι σ) : Prop where
  exec : op.exec heap = some (op.reply lists, heap')
  represents : Represents heap' (op.apply lists)
  frame : Frame op lists heap heap'

/-- A list split at one of its members. -/
lemma split_at_mem {l : List σ} {x : σ} (hnodup : l.Nodup) (hx : x ∈ l) :
    ∃ l₁ l₂, l = l₁ ++ x :: l₂ ∧ l.erase x = l₁ ++ l₂ ∧ l.drop (l.idxOf x + 1) = l₂ := by
  obtain ⟨l₁, l₂, rfl⟩ := List.mem_iff_append.mp hx
  have hx₁ : x ∉ l₁ := fun hmem =>
    (List.nodup_append.mp hnodup).2.2 x hmem x List.mem_cons_self rfl
  refine ⟨l₁, l₂, rfl, ?_, ?_⟩
  · rw [List.erase_append_right _ hx₁, List.erase_cons_head]
  · rw [List.idxOf_append_of_notMem hx₁, List.idxOf_cons_self, Nat.add_zero,
      ← List.drop_drop, List.drop_left, List.drop_one, List.tail_cons]

namespace Represents

variable {heap : Heap ι σ} {lists : ι → List σ}

/-- An operation on list `k` that changes no link outside of the list and the span it is given
changes no other list. -/
lemma frame (h : Represents heap lists) {heap' : Heap ι σ} {op : Op ι σ} {k : ι} {l : List σ}
    (hlist : op.list = some k) (happly : op.apply lists = Function.update lists k l)
    (hspan : ∀ x, op.span = some x → ∀ j, x ∉ lists j)
    (hframe : ∀ v, v ∉ .head k :: (lists k).map Node.span → (∀ x, op.span = some x → v ≠ .span x) →
      heap'.next v = heap.next v ∧ heap'.prev v = heap.prev v) :
    Frame op lists heap heap' where
  sequences j hj := by
    have hjk : j ≠ k := fun heq => hj (heq ▸ hlist)
    rw [happly, Function.update_of_ne hjk]
  links j hj v hv := by
    have hjk : j ≠ k := fun heq => hj (heq ▸ hlist)
    cases v with
    | head i =>
      have hij : i = j := by simpa using hv
      exact hframe _ (by simp [hij, hjk]) fun x _ => by simp
    | span y =>
      have hy : y ∈ lists j := by simpa using hv
      refine hframe _ ?_ fun x hx heq => ?_
      · simpa using fun hyk => hjk (h.separate y j k hy hyk)
      · cases heq
        exact hspan y hx j hy
  detached x hx hne := by
    refine hframe _ (by simpa using hx k) fun y hy heq => hne ?_
    cases heq
    exact hy

/-- An insertion is a step of the refinement. -/
lemma step_insert (h : Represents heap lists) {op : Op ι σ} {k : ι} {x : σ} (l₁ l₂ : List σ)
    (hx : ∀ j, x ∉ lists j) (hk : lists k = l₁ ++ l₂) (hlist : op.list = some k)
    (hspan : op.span = some x) (happly : op.apply lists = Function.update lists k (l₁ ++ x :: l₂))
    (hexec : op.exec heap = (SpanList.insert heap (position k l₂) (.span x)).map (none, ·))
    (hreply : op.reply lists = none) : ∃ heap', Refines op lists heap heap' := by
  obtain ⟨heap', hins, hrep, hframe⟩ := h.insert hk hx
  refine ⟨heap', ?_, happly ▸ hrep, h.frame hlist happly ?_ ?_⟩
  · rw [hexec, hins, hreply]
    rfl
  · rintro y hy
    rw [hspan] at hy
    cases hy
    exact hx
  · exact fun v hv hne => hframe v hv (hne x hspan)

/-- A removal is a step of the refinement. -/
lemma step_erase (h : Represents heap lists) {op : Op ι σ} {k : ι} {x : σ} (hx : x ∈ lists k)
    (hlist : op.list = some k) (hspan : op.span = none)
    (happly : op.apply lists = Function.update lists k ((lists k).erase x))
    (hexec : ∀ next heap', SpanList.erase heap (.span x) = some (next, heap') →
      next = Op.following lists k x → op.exec heap = some (op.reply lists, heap')) :
    ∃ heap', Refines op lists heap heap' := by
  obtain ⟨l₁, l₂, hk, herase, hdrop⟩ := split_at_mem (h.nodup k) hx
  obtain ⟨heap', hers, hrep, hframe⟩ := h.erase hk
  refine ⟨heap', hexec _ heap' hers ?_, ?_, h.frame hlist happly ?_ fun v hv _ => hframe v hv⟩
  · rw [Op.following, hdrop]
  · rw [happly, herase]
    exact hrep
  · intro y hy
    rw [hspan] at hy
    cases hy

/-- **One operation** that its caller may make does not dereference null, and refines the operation
on sequences. -/
lemma step (h : Represents heap lists) {op : Op ι σ} (hlegal : op.Legal lists) :
    ∃ heap', Refines op lists heap heap' := by
  cases op with
  | pushFront k x =>
    refine h.step_insert [] (lists k) hlegal rfl rfl rfl rfl ?_ rfl
    simp [Op.exec, SpanList.pushFront, h.begin_eq k]
  | pushBack k x =>
    exact h.step_insert (lists k) [] hlegal (List.append_nil _).symm rfl rfl rfl rfl rfl
  | erase k x =>
    refine h.step_erase hlegal rfl rfl rfl fun next heap' hers hnext => ?_
    simp [Op.exec, Op.reply, hers, hnext]
  | eraseAt k pos =>
    obtain ⟨x, hx, rfl⟩ := hlegal
    refine h.step_erase hx rfl rfl rfl fun next heap' hers hnext => ?_
    simp [Op.exec, Op.reply, SpanList.eraseAt, hers, hnext]
  | popFront k =>
    have hbegin : heap.next (.head k) = some (position k (lists k)) := h.begin_eq k
    cases hk : lists k with
    | nil =>
      have hempty : SpanList.empty heap k = true := (h.empty_iff k).mpr hk
      have happly : (Op.popFront k).apply lists = lists := by
        simp [Op.apply, hk, Function.update_eq_self_iff]
      refine ⟨heap, ?_, happly.symm ▸ h, ?_⟩
      · simp [Op.exec, Op.reply, SpanList.popFront, hempty, hk]
      · exact ⟨fun j _ => by rw [happly], fun _ _ _ _ => ⟨rfl, rfl⟩, fun _ _ _ => ⟨rfl, rfl⟩⟩
    | cons x l =>
      have hempty : SpanList.empty heap k = false := by
        rw [Bool.eq_false_iff, Ne, h.empty_iff k, hk]
        exact List.cons_ne_nil x l
      refine h.step_erase (k := k) (x := x) (hk ▸ List.mem_cons_self) rfl rfl ?_
        fun next heap' hers _ => ?_
      · simp [Op.apply, hk]
      · rw [hk] at hbegin
        simp [Op.exec, Op.reply, SpanList.popFront, hempty, hbegin, position, hers, hk]
  | setNext x value =>
    refine ⟨_, rfl, h.setNext hlegal value, fun _ _ => rfl, fun j _ v hv => ⟨?_, rfl⟩,
      fun y _ hne => ⟨?_, rfl⟩⟩
    · refine Function.update_of_ne ?_ _ _
      rintro rfl
      exact hlegal j (by simpa using hv)
    · refine Function.update_of_ne ?_ _ _
      rintro ⟨⟩
      exact hne rfl

end Represents

/-! ## Runs -/

/-- The heap and what the operations have returned, as long as none has dereferenced null. -/
abbrev ListState (ι σ : Type) := Option (Heap ι σ × List (Option (Node ι σ)))

/-- The sequences, and what the operations return by them. -/
abbrev SeqState (ι σ : Type) := (ι → List σ) × List (Option (Node ι σ))

/-- The lists over a pool whose links hold anything at first. -/
def machine (ι σ : Type) [DecidableEq ι] [DecidableEq σ] : Machine (ListState ι σ) (Op ι σ) where
  init := { s | ∃ heap, s = some (construct heap, []) }
  next s op := s.bind fun (heap, replies) =>
    (op.exec heap).map fun (reply, heap') => (heap', replies ++ [reply])

/-- The sequences. -/
def seqMachine (ι σ : Type) [DecidableEq ι] [DecidableEq σ] : Machine (SeqState ι σ) (Op ι σ) where
  init := {(fun _ => [], [])}
  next s op := (op.apply s.1, s.2 ++ [op.reply s.1])

/-- The heap represents the sequences, and the operations have returned what they say. -/
def Agree (t : SeqState ι σ) (s : ListState ι σ) : Prop :=
  ∃ heap, s = some (heap, t.2) ∧ Represents heap t.1

/-- A run whose operations are legal by the sequences agrees with the run of the sequences. -/
lemma Agree.run {t : SeqState ι σ} {s : ListState ι σ} (h : Agree t s) {ops : List (Op ι σ)}
    (hlegal : Machine.Guarded (seqMachine ι σ) (fun t op => op.Legal t.1) t ops) :
    Agree ((seqMachine ι σ).run t ops) ((machine ι σ).run s ops) := by
  refine Machine.run_simulation (fun t s op h hop => ?_) h hlegal
  obtain ⟨heap, rfl, hrep⟩ := h
  obtain ⟨heap', href⟩ := hrep.step hop
  refine ⟨heap', ?_, href.represents⟩
  simp [machine, seqMachine, href.exec]

/-! ## Loops that remove spans -/

/-- A loop over a list: the heap, the loop's iterator, and the spans it has been at. -/
structure Traversal (ι σ : Type) where
  heap : Heap ι σ
  it : Iterator ι σ
  visited : List (Node ι σ) := []

/-- A step of the loop `while (it != end())`: `++it`, or `it = erase(it)`; or what is done in
between, by its body or on other lists. -/
inductive TraversalStep (ι σ : Type) where
  | keep
  | remove
  | other (op : Op ι σ)
  deriving DecidableEq, Repr

/-- One step of the loop. -/
def Traversal.step (t : Traversal ι σ) : TraversalStep ι σ → Option (Traversal ι σ)
  | .keep => do
    let node ← t.it
    let it ← advance t.heap t.it
    return { t with it, visited := t.visited ++ [node] }
  | .remove => do
    let node ← t.it
    let (it, heap) ← eraseAt t.heap t.it
    return { heap, it, visited := t.visited ++ [node] }
  | .other op => do
    let (_, heap) ← op.exec t.heap
    return { t with heap }

/-- The loop by the sequences: the spans it has visited, those of them it has kept, and those it has
yet to visit. -/
structure SeqTraversal (ι σ : Type) where
  lists : ι → List σ
  visited : List σ := []
  kept : List σ := []
  rest : List σ

namespace SeqTraversal

/-- One step of the loop over list `k`. -/
def step (k : ι) (t : SeqTraversal ι σ) : TraversalStep ι σ → SeqTraversal ι σ
  | .keep =>
    { t with
      visited := t.visited ++ t.rest.take 1
      kept := t.kept ++ t.rest.take 1
      rest := t.rest.tail }
  | .remove =>
    { t with
      lists := Function.update t.lists k (t.kept ++ t.rest.tail)
      visited := t.visited ++ t.rest.take 1
      rest := t.rest.tail }
  | .other op => { t with lists := op.apply t.lists }

/-- The loop goes on while its iterator is not at the end, and nothing else is done to its list. -/
def Legal (k : ι) (t : SeqTraversal ι σ) : TraversalStep ι σ → Prop
  | .keep | .remove => t.rest ≠ []
  | .other op => op.Legal t.lists ∧ op.list ≠ some k

end SeqTraversal

/-- The loops over list `k` of a heap. -/
def traversals (ι σ : Type) [DecidableEq ι] [DecidableEq σ] (k : ι) :
    Machine (Option (Traversal ι σ)) (TraversalStep ι σ) where
  init := { s | ∃ heap, s = some { heap, it := begin heap k } }
  next s a := s.bind fun t => t.step a

/-- The loops over sequence `k`. -/
def seqTraversals (ι σ : Type) [DecidableEq ι] [DecidableEq σ] (k : ι) :
    Machine (SeqTraversal ι σ) (TraversalStep ι σ) where
  init := { t | ∃ lists, t = { lists, rest := lists k } }
  next t a := t.step k a

/-- **What a loop over list `k`, which was `l` when it started, has done so far.** -/
structure Visits (k : ι) (l : List σ) (t : SeqTraversal ι σ) (s : Traversal ι σ) : Prop where
  represents : Represents s.heap t.lists
  /-- The list has lost the spans that were removed, and nothing else. -/
  list : t.lists k = t.kept ++ t.rest
  /-- The iterator is at the next span to visit, or at the end. -/
  it : s.it = some (position k t.rest)
  /-- The loop has been at the first spans of the list, in order and once each. -/
  visited : s.visited = t.visited.map Node.span
  all : t.visited ++ t.rest = l

namespace Visits

variable {k : ι} {l : List σ} {t : SeqTraversal ι σ} {s : Traversal ι σ}

omit [DecidableEq ι] [DecidableEq σ] in
/-- A loop starts at `begin()`. -/
lemma start {heap : Heap ι σ} {lists : ι → List σ} (h : Represents heap lists) (k : ι) :
    Visits k (lists k) { lists, rest := lists k } { heap, it := begin heap k } where
  represents := h
  list := rfl
  it := h.begin_eq k
  visited := rfl
  all := rfl

/-- **One step** of a loop, or one operation elsewhere. -/
lemma step (h : Visits k l t s) {a : TraversalStep ι σ} (hlegal : t.Legal k a) :
    ∃ s', s.step a = some s' ∧ Visits k l (t.step k a) s' := by
  cases a with
  | keep =>
    obtain ⟨x, rest, hrest⟩ := List.exists_cons_of_ne_nil hlegal
    have hlist := h.list
    rw [hrest] at hlist
    have hring := h.represents.ring k
    rw [hlist, List.map_append, List.map_cons] at hring
    have hnext : s.heap.next (.span x) = some (position k rest) := hring.next_of_mem
    have hit : s.it = some (.span x) := by rw [h.it, hrest]; rfl
    refine ⟨_, by simp [Traversal.step, hit, advance]; rfl, ?_⟩
    exact {
      represents := h.represents
      list := by simp [SeqTraversal.step, hrest, hlist]
      it := by simpa [SeqTraversal.step, hrest] using hnext
      visited := by simp [SeqTraversal.step, hrest, h.visited]
      all := by simp [SeqTraversal.step, hrest, ← h.all] }
  | remove =>
    obtain ⟨x, rest, hrest⟩ := List.exists_cons_of_ne_nil hlegal
    have hlist := h.list
    rw [hrest] at hlist
    have hit : s.it = some (.span x) := by rw [h.it, hrest]; rfl
    obtain ⟨heap', hers, hrep, -⟩ := h.represents.erase hlist
    refine ⟨_, by simp [Traversal.step, hit, eraseAt, hers]; rfl, ?_⟩
    exact {
      represents := by simpa [SeqTraversal.step, hrest] using hrep
      list := by simp [SeqTraversal.step]
      it := by simp [SeqTraversal.step, hrest]
      visited := by simp [SeqTraversal.step, hrest, h.visited]
      all := by simp [SeqTraversal.step, hrest, ← h.all] }
  | other op =>
    obtain ⟨heap', href⟩ := h.represents.step hlegal.1
    refine ⟨{ s with heap := heap' }, by simp [Traversal.step, href.exec], ?_⟩
    exact {
      represents := href.represents
      list := (href.frame.sequences k hlegal.2).trans h.list
      it := h.it
      visited := h.visited
      all := h.all }

/-- **Every loop**, whichever of the spans it removes and whatever happens elsewhere meanwhile. -/
lemma run (h : Visits k l t s) {as : List (TraversalStep ι σ)}
    (hlegal : Machine.Guarded (seqTraversals ι σ k) (fun t a => t.Legal k a) t as) :
    ∃ s', (traversals ι σ k).run (some s) as = some s' ∧
      Visits k l ((seqTraversals ι σ k).run t as) s' := by
  refine Machine.run_simulation (N := traversals ι σ k)
    (R := fun t o => ∃ s, o = some s ∧ Visits k l t s) (fun t o a h ha => ?_) ⟨s, rfl, h⟩ hlegal
  obtain ⟨s, rfl, h⟩ := h
  obtain ⟨s', hs', h'⟩ := h.step ha
  exact ⟨s', hs', h'⟩

end Visits

/-! ## The refinement -/

/-- **What the sequences say about the heap.** -/
structure Faithful (t : SeqState ι σ) (s : ListState ι σ) (heap : Heap ι σ) : Prop where
  /-- No operation has dereferenced null, and each has returned what it returns by the sequences. -/
  replies : s = some (heap, t.2)
  /-- Along `next` each list is a cycle from its sentinel through the spans of its sequence. -/
  next : ∀ k fuel, (t.1 k).length < fuel →
    LinkedRing.walk heap.next (.head k) fuel (.head k) = some ((t.1 k).map Node.span)
  /-- Along `prev` it is the reversed cycle. -/
  prev : ∀ k fuel, (t.1 k).length < fuel →
    LinkedRing.walk heap.prev (.head k) fuel (.head k) = some ((t.1 k).map Node.span).reverse
  /-- No span is on a list twice, or on two lists. -/
  nodup : ∀ k, (t.1 k).Nodup
  separate : ∀ x j k, x ∈ t.1 j → x ∈ t.1 k → j = k

/-- The relation of the run says how the lists lie in memory. -/
lemma Agree.faithful {t : SeqState ι σ} {s : ListState ι σ} (h : Agree t s) :
    ∃ heap, Faithful t s heap ∧ Represents heap t.1 := by
  obtain ⟨heap, hs, hrep⟩ := h
  refine ⟨heap, ⟨hs, ?_, ?_, hrep.nodup, hrep.separate⟩, hrep⟩
  · exact fun k fuel hfuel => (hrep.ring k).walk_next (by simpa using hfuel)
  · exact fun k fuel hfuel => (hrep.ring k).walk_prev (by simpa using hfuel)

/-- **Span lists refine sequences.** After every legal run over any number of lists, from any
content of the pool, the heap is faithful to the sequences that the same run moves around; every
operation on the way has changed only the list it was called on; and every loop that then removes
some of the spans it visits visits the spans of its list in order, once each, keeps the others on
the list, and is at the end exactly when it has visited all. -/
theorem spanLists_refine_sequences (pool : Heap ι σ) (ops : List (Op ι σ))
    (hlegal : Machine.Guarded (seqMachine ι σ) (fun t op => op.Legal t.1) (fun _ => [], []) ops) :
    ∃ heap, Faithful ((seqMachine ι σ).run (fun _ => [], []) ops)
        ((machine ι σ).run (some (construct pool, [])) ops) heap ∧
      (∀ bs op, bs ++ [op] <+: ops → ∃ h₀ h₁,
        ((machine ι σ).run (some (construct pool, [])) bs).map Prod.fst = some h₀ ∧
        ((machine ι σ).run (some (construct pool, [])) (bs ++ [op])).map Prod.fst = some h₁ ∧
        Frame op ((seqMachine ι σ).run (fun _ => [], []) bs).1 h₀ h₁) ∧
      ∀ k as lists, lists = ((seqMachine ι σ).run (fun _ => [], []) ops).1 →
        Machine.Guarded (seqTraversals ι σ k) (fun t a => t.Legal k a) { lists, rest := lists k }
          as → ∃ s, (traversals ι σ k).run (some { heap, it := begin heap k }) as = some s ∧
          Visits k (lists k) ((seqTraversals ι σ k).run { lists, rest := lists k } as) s ∧
          (s.it = endOf k ↔
            ((seqTraversals ι σ k).run { lists, rest := lists k } as).rest = []) := by
  have hstart : Agree (fun _ => [], []) (some (construct pool, [])) :=
    ⟨_, rfl, Represents.construct pool⟩
  obtain ⟨heap, hfaithful, hrep⟩ := (hstart.run hlegal).faithful
  refine ⟨heap, hfaithful, ?_, ?_⟩
  · rintro bs op ⟨cs, rfl⟩
    rw [List.append_assoc] at hlegal
    obtain ⟨hbs, hop, -⟩ := Machine.guarded_append.mp hlegal
    obtain ⟨h₀, hs₀, hrep₀⟩ := hstart.run hbs
    obtain ⟨h₁, href⟩ := hrep₀.step hop
    refine ⟨h₀, h₁, by rw [hs₀]; rfl, ?_, href.frame⟩
    rw [Machine.run_append, hs₀]
    simp [machine, href.exec]
  · rintro k as lists rfl has
    obtain ⟨s, hs, hvisits⟩ := (Visits.start hrep k).run has
    refine ⟨s, hs, hvisits, ?_⟩
    rw [hvisits.it, endOf]
    cases ((seqTraversals ι σ k).run _ as).rest <;> simp [position]

/-- Four spans on two lists. The middle one of the first list is moved out of it and its `next`
field is used for something else; a loop then removes the first and keeps the last. -/
theorem spanLists_refine_sequences_fourSpans :
    ∃ heap s, ((machine Bool ℕ).run (some (construct ⟨fun _ => some (.span 7), fun _ => none⟩, []))
        [.pushBack true 1, .pushFront true 2, .pushBack true 3, .pushBack false 4,
          .eraseAt true (some (.span 1)), .setNext 1 (some (.span 4))]).map Prod.fst = some heap ∧
      LinkedRing.walk heap.prev (.head true) 3 (.head true) = some [.span 3, .span 2] ∧
      (traversals Bool ℕ true).run (some { heap, it := begin heap true })
        [.remove, .other (.setNext 2 none), .keep] = some s ∧
      s.visited = [.span 2, .span 3] ∧ s.it = endOf true := by
  have hlegal : Machine.Guarded (seqMachine Bool ℕ) (fun t op => op.Legal t.1) (fun _ => [], [])
      [.pushBack true 1, .pushFront true 2, .pushBack true 3, .pushBack false 4,
        .eraseAt true (some (.span 1)), .setNext 1 (some (.span 4))] := by
    refine ⟨?_, ?_, ?_, ?_, ⟨1, by decide, rfl⟩, ?_, trivial⟩ <;> rintro (_ | _) <;> decide
  obtain ⟨heap, hfaithful, -, hloop⟩ :=
    spanLists_refine_sequences ⟨fun _ => some (.span 7), fun _ => none⟩ _ hlegal
  obtain ⟨s, hs, hvisits, hend⟩ := hloop true [.remove, .other (.setNext 2 none), .keep] _ rfl
    ⟨List.cons_ne_nil _ _, ⟨by rintro (_ | _) <;> decide, by decide⟩, List.cons_ne_nil _ _, trivial⟩
  refine ⟨heap, s, by rw [hfaithful.replies]; rfl, hfaithful.prev true 3 (by decide), hs, ?_, ?_⟩
  · exact hvisits.visited
  · exact hend.mpr rfl

end Ammalloc.SpanList
