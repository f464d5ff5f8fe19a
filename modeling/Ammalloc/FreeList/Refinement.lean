import Ammalloc.FreeList.Chains

set_option relaxedAutoImplicit false
set_option autoImplicit false

/-!
# Intrusive lists refine sequences

Over one heap of links, any number of lists, batches and detached chains behave as finite sequences
of nodes that are moved from one owner to another, as long as their users push only nodes that no
one owns and use a consumed chain no more. The sequence operations on lists are those of
`Ammalloc.FreeList`, which the models of the caches use.

## Main definitions

* `Ammalloc.Intrusive.Owner`, `Ammalloc.Intrusive.SeqState` — who owns which sequence.
* `Ammalloc.Intrusive.HeapState.Legal` — what the users of the lists have to observe.
* `Ammalloc.Intrusive.Rel` — the heap represents the sequences.

## Main results

* `Ammalloc.Intrusive.Rel.step` — one operation.
* `Ammalloc.Intrusive.lists_refine_sequences` — every legal run.
-/

namespace Ammalloc.Intrusive

open LinkedStack
open SizeClass (kNumSizeClasses)

/-! ## Sequences -/

/-- A variable that holds nodes. -/
inductive Owner (ι κ μ : Type) where
  | list (i : ι)
  | batch (j : κ)
  | chain (k : μ)
  deriving DecidableEq

/-- What every owner holds. -/
abbrev SeqState (ι κ μ : Type) := Owner ι κ μ → Content

/-- The content of a batch of class `idx`; an empty batch has the invalid class. -/
def Content.tagged (xs : List ℕ) (idx : ℕ) : Content :=
  ⟨xs, if xs = [] then kNumSizeClasses else idx⟩

namespace SeqState

variable {ι κ μ : Type} [DecidableEq ι] [DecidableEq κ] [DecidableEq μ] (t : SeqState ι κ μ)

/-- A list as the caches see it. -/
def list (i : ι) : Ammalloc.FreeList := { objs := (t (.list i)).nodes }

/-- What an action does to the sequences. -/
def step : ListAction ι κ μ → SeqState ι κ μ
  | .push i ptr =>
    if ptr = 0 then t else Function.update t (.list i) { nodes := ((t.list i).push ptr).objs }
  | .pop i => Function.update t (.list i) { nodes := (t.list i).pop.2.objs }
  | .pushRange i k =>
    Function.update (Function.update t (.chain k) {}) (.list i)
      { nodes := ((t.list i).pushBatch (t (.chain k)).nodes).objs }
  | .pushBatch i j =>
    Function.update (Function.update t (.batch j) {}) (.list i)
      { nodes := ((t.list i).pushBatch (t (.batch j)).nodes).objs }
  | .popRange i n k =>
    Function.update (Function.update t (.list i) { nodes := ((t.list i).popBatch n).2.objs })
      (.chain k) { nodes := ((t.list i).popBatch n).1 }
  | .popRangeTail i n k =>
    Function.update (Function.update t (.list i) { nodes := ((t.list i).popBatchTail n).2.objs })
      (.chain k) { nodes := ((t.list i).popBatchTail n).1 }
  | .popBatch i n idx j =>
    Function.update (Function.update t (.list i) { nodes := ((t.list i).popBatch n).2.objs })
      (.batch j) (.tagged ((t.list i).popBatch n).1 idx)
  | .popBatchTail i n idx j =>
    Function.update (Function.update t (.list i) { nodes := ((t.list i).popBatchTail n).2.objs })
      (.batch j) (.tagged ((t.list i).popBatchTail n).1 idx)
  | .fromSingleObject object idx j =>
    if object = 0 then t else Function.update t (.batch j) (.tagged [object] idx)
  | .adoptChain k idx j =>
    Function.update (Function.update t (.chain k) {}) (.batch j) (.tagged (t (.chain k)).nodes idx)
  | .detachChainForTransport j k =>
    Function.update (Function.update t (.batch j) {}) (.chain k) { nodes := (t (.batch j)).nodes }
  | .moveConstruct j j' =>
    Function.update (Function.update t (.batch j) {}) (.batch j') (t (.batch j))
  | .supply k _ xs => Function.update t (.chain k) { nodes := xs }
  | .write _ _ => t

end SeqState

/-- The machine of sequences. -/
def seqMachine (ι κ μ : Type) [DecidableEq ι] [DecidableEq κ] [DecidableEq μ] :
    Machine (SeqState ι κ μ) (ListAction ι κ μ) where
  init := {fun _ => {}}
  next := SeqState.step

/-- The nodes of the chains that an action is given. -/
def ListAction.Given {ι κ μ : Type} (t : SeqState ι κ μ) (x : ℕ) : ListAction ι κ μ → Prop
  | .push i ptr => x = ptr ∨ x ∈ (t (.list i)).nodes
  | .pop i => x ∈ (t (.list i)).nodes
  | .pushRange i k => x ∈ (t (.list i)).nodes ∨ x ∈ (t (.chain k)).nodes
  | .pushBatch i j => x ∈ (t (.list i)).nodes ∨ x ∈ (t (.batch j)).nodes
  | .popRange i _ _ | .popRangeTail i _ _ | .popBatch i _ _ _ | .popBatchTail i _ _ _ =>
    x ∈ (t (.list i)).nodes
  | .fromSingleObject object _ _ => x = object
  | .adoptChain k _ _ => x ∈ (t (.chain k)).nodes
  | .detachChainForTransport j _ | .moveConstruct j _ => x ∈ (t (.batch j)).nodes
  | .supply _ _ xs => x ∈ xs
  | .write y _ => x = y

/-! ## Legal use -/

namespace HeapState

variable {ι κ μ : Type} (s : HeapState ι κ μ)

/-- The descriptor in a variable. -/
def descriptor : Owner ι κ μ → Descriptor
  | .list i => (s.lists i).descriptor
  | .batch j => (s.batches j).descriptor
  | .chain k => (s.chains k).descriptor

/-- The node `x` is in no chain. -/
def Unowned (x : ℕ) : Prop := ∀ o c, (s.descriptor o).Holds s.heap c → x ∉ c.nodes

/-- **Legal use.** A node that is pushed is a 64-bit address in no chain; a chain that another
component supplies is well formed and its nodes are in no other; an object in a chain is not
written by its former user; a result goes to a fresh variable; and a class is valid. -/
def Legal : ListAction ι κ μ → Prop
  | .push _ ptr => ptr ≠ 0 → ptr < 2 ^ 64 ∧ s.Unowned ptr
  | .pop _ | .pushRange _ _ | .pushBatch _ _ => True
  | .popRange _ _ k | .popRangeTail _ _ k | .detachChainForTransport _ k => (s.chains k).count = 0
  | .popBatch _ _ idx j | .popBatchTail _ _ idx j | .adoptChain _ idx j =>
    idx < kNumSizeClasses ∧ (s.batches j).count = 0
  | .fromSingleObject object idx j =>
    (object ≠ 0 → object < 2 ^ 64 ∧ s.Unowned object) ∧ idx < kNumSizeClasses ∧
      (s.batches j).count = 0
  | .moveConstruct j j' => j ≠ j' ∧ (s.batches j').count = 0
  | .supply k chain xs =>
    (s.chains k).count = 0 ∧ chain.descriptor.Holds s.heap { nodes := xs } ∧
      ∀ x ∈ xs, x < 2 ^ 64 ∧ s.Unowned x
  | .write x _ => s.Unowned x

end HeapState

/-! ## The representation -/

section

variable {ι κ μ : Type} {s s' : HeapState ι κ μ} {t t' : SeqState ι κ μ}

/-- **The heap represents the sequences**: every variable holds its sequence, no node has two
owners, and nodes are 64-bit addresses. -/
structure Rel (s : HeapState ι κ μ) (t : SeqState ι κ μ) : Prop where
  holds : ∀ o, (s.descriptor o).Holds s.heap (t o)
  separate : ∀ x o o', x ∈ (t o).nodes → x ∈ (t o').nodes → o = o'
  address : ∀ o, ∀ x ∈ (t o).nodes, x < 2 ^ 64

namespace Rel

/-- No node is twice in a sequence. -/
lemma nodup (h : Rel s t) (o : Owner ι κ μ) : (t o).nodes.Nodup := (h.holds o).chain.nodup

/-- A node that no descriptor holds is in no sequence. -/
lemma not_mem_of_unowned (h : Rel s t) {x : ℕ} (hx : s.Unowned x) (o : Owner ι κ μ) :
    x ∉ (t o).nodes :=
  hx o (t o) (h.holds o)

/-- Distinct owners hold fewer than `2 ^ 64` nodes together. -/
lemma length_lt (h : Rel s t) (o : Owner ι κ μ) : (t o).nodes.length < 2 ^ 64 :=
  length_lt_of_addresses (h.nodup o) (fun _ => (h.holds o).chain.ne_null) (h.address o)

/-- Two sequences together are shorter than `2 ^ 64`: their nodes are distinct addresses. -/
lemma length_add_lt (h : Rel s t) {o o' : Owner ι κ μ} (hne : o ≠ o') :
    (t o).nodes.length + (t o').nodes.length < 2 ^ 64 := by
  rw [← List.length_append]
  refine length_lt_of_addresses (List.nodup_append.mpr ⟨h.nodup o, h.nodup o', ?_⟩) ?_ ?_
  · rintro x hx y hy rfl
    exact hne (h.separate x o o' hx hy)
  · intro x hx
    rcases List.mem_append.mp hx with hx | hx
    · exact (h.holds o).chain.ne_null hx
    · exact (h.holds o').chain.ne_null hx
  · intro x hx
    rcases List.mem_append.mp hx with hx | hx
    · exact h.address o x hx
    · exact h.address o' x hx

/-- **The update rule.** A step that changes some owners keeps the representation if these hold
their new sequences, take their nodes from each other or from no one, have none in common, and
leave the links of all other owners alone. -/
lemma update (h : Rel s t) (act : Owner ι κ μ → Prop)
    (hkeep : ∀ o, ¬ act o → s'.descriptor o = s.descriptor o ∧ t' o = t o)
    (hact : ∀ o, act o → (s'.descriptor o).Holds s'.heap (t' o))
    (hsub : ∀ o, act o → ∀ x ∈ (t' o).nodes, x < 2 ^ 64 ∧ ∀ o', x ∈ (t o').nodes → act o')
    (hdis : ∀ o o', act o → act o' → ∀ x, x ∈ (t' o).nodes → x ∈ (t' o').nodes → o = o')
    (hframe : ∀ o, ¬ act o → ∀ x ∈ (t o).nodes, s'.heap x = s.heap x) : Rel s' t' where
  holds o := by
    by_cases ho : act o
    · exact hact o ho
    · obtain ⟨hd, ht⟩ := hkeep o ho
      rw [hd, ht]
      exact (h.holds o).congr (hframe o ho)
  separate x o o' hx hx' := by
    by_cases ho : act o <;> by_cases ho' : act o'
    · exact hdis o o' ho ho' x hx hx'
    · rw [(hkeep o' ho').2] at hx'
      exact absurd ((hsub o ho x hx).2 o' hx') ho'
    · rw [(hkeep o ho).2] at hx
      exact absurd ((hsub o' ho' x hx').2 o hx) ho
    · rw [(hkeep o ho).2] at hx
      rw [(hkeep o' ho').2] at hx'
      exact h.separate x o o' hx hx'
  address o x hx := by
    by_cases ho : act o
    · exact (hsub o ho x hx).1
    · rw [(hkeep o ho).2] at hx
      exact h.address o x hx

/-- What the list `i` holds, spelled with its sequence. -/
lemma holds_list (h : Rel s t) (i : ι) :
    (s.lists i).descriptor.Holds s.heap ⟨(t.list i).objs, (t (.list i)).cls⟩ :=
  h.holds (.list i)

/-- A node is in no chain exactly if it is in no sequence. -/
lemma unowned_iff (h : Rel s t) {x : ℕ} : s.Unowned x ↔ ∀ o, x ∉ (t o).nodes := by
  refine ⟨h.not_mem_of_unowned, fun hx o c hc => ?_⟩
  rw [hc.chain.unique (h.holds o).chain]
  exact hx o

variable [DecidableEq ι] [DecidableEq κ] [DecidableEq μ]

/-- **One owner**: it keeps some of its nodes, or takes nodes that no one owns. -/
lemma single (h : Rel s t) {o : Owner ι κ μ} {c : Content}
    (hdesc : ∀ o', o' ≠ o → s'.descriptor o' = s.descriptor o')
    (hc : (s'.descriptor o).Holds s'.heap c)
    (hsub : ∀ x ∈ c.nodes, x ∈ (t o).nodes ∨ x < 2 ^ 64 ∧ ∀ o', x ∉ (t o').nodes)
    (hframe : ∀ o', o' ≠ o → ∀ x ∈ (t o').nodes, s'.heap x = s.heap x) :
    Rel s' (Function.update t o c) := by
  refine h.update (· = o) (fun o' ho' => ⟨hdesc o' ho', Function.update_of_ne ho' _ _⟩)
    ?_ ?_ ?_ hframe
  · rintro o' rfl
    rw [Function.update_self]
    exact hc
  · rintro o' rfl x hx
    rw [Function.update_self] at hx
    rcases hsub x hx with hmem | ⟨hlt, hnew⟩
    · exact ⟨h.address o' x hmem, fun o'' hx' => h.separate x o'' o' hx' hmem⟩
    · exact ⟨hlt, fun o'' hx' => absurd hx' (hnew o'')⟩
  · rintro o₁ o₂ rfl rfl x - -
    rfl

/-- **Two owners** that exchange nodes. -/
lemma transfer (h : Rel s t) {src dst : Owner ι κ μ} (hne : src ≠ dst) {c₁ c₂ : Content}
    (hdesc : ∀ o, o ≠ src → o ≠ dst → s'.descriptor o = s.descriptor o)
    (h₁ : (s'.descriptor src).Holds s'.heap c₁) (h₂ : (s'.descriptor dst).Holds s'.heap c₂)
    (hperm : (c₁.nodes ++ c₂.nodes).Perm ((t src).nodes ++ (t dst).nodes))
    (hframe : ∀ x, x ∉ (t src).nodes → x ∉ (t dst).nodes → s'.heap x = s.heap x) :
    Rel s' (Function.update (Function.update t src c₁) dst c₂) := by
  have hsrc : Function.update (Function.update t src c₁) dst c₂ src = c₁ := by
    rw [Function.update_of_ne hne, Function.update_self]
  have hdst : Function.update (Function.update t src c₁) dst c₂ dst = c₂ := by
    rw [Function.update_self]
  have hboth : ((t src).nodes ++ (t dst).nodes).Nodup := by
    refine List.nodup_append.mpr ⟨h.nodup src, h.nodup dst, ?_⟩
    rintro x hx y hy rfl
    exact hne (h.separate x src dst hx hy)
  have hnodes : ∀ x, x ∈ c₁.nodes ∨ x ∈ c₂.nodes → x ∈ (t src).nodes ∨ x ∈ (t dst).nodes := by
    intro x hx
    exact List.mem_append.mp (hperm.mem_iff.mp (List.mem_append.mpr hx))
  have hapart : ∀ x ∈ c₁.nodes, x ∉ c₂.nodes := fun x hx hx' =>
    (List.nodup_append.mp (hperm.nodup_iff.mpr hboth)).2.2 x hx x hx' rfl
  have howned : ∀ x, x ∈ (t src).nodes ∨ x ∈ (t dst).nodes →
      x < 2 ^ 64 ∧ ∀ o', x ∈ (t o').nodes → o' = src ∨ o' = dst := by
    rintro x (hx | hx)
    · exact ⟨h.address src x hx, fun o' hx' => Or.inl (h.separate x o' src hx' hx)⟩
    · exact ⟨h.address dst x hx, fun o' hx' => Or.inr (h.separate x o' dst hx' hx)⟩
  refine h.update (fun o => o = src ∨ o = dst) ?_ ?_ ?_ ?_ ?_
  · intro o ho
    rw [not_or] at ho
    exact ⟨hdesc o ho.1 ho.2, by rw [Function.update_of_ne ho.2, Function.update_of_ne ho.1]⟩
  · rintro o (rfl | rfl)
    · rw [hsrc]
      exact h₁
    · rw [hdst]
      exact h₂
  · rintro o (rfl | rfl) x hx
    · rw [hsrc] at hx
      exact howned x (hnodes x (Or.inl hx))
    · rw [hdst] at hx
      exact howned x (hnodes x (Or.inr hx))
  · rintro o o' (rfl | rfl) (rfl | rfl) x hx hx'
    · rfl
    · rw [hsrc] at hx
      rw [hdst] at hx'
      exact absurd hx' (hapart x hx)
    · rw [hdst] at hx
      rw [hsrc] at hx'
      exact absurd hx (hapart x hx')
    · rfl
  · intro o ho x hx
    rw [not_or] at ho
    refine hframe x (fun hx' => ho.1 (h.separate x o src hx hx')) fun hx' =>
      ho.2 (h.separate x o dst hx hx')

end Rel

/-! ## One step -/

variable [DecidableEq ι] [DecidableEq κ] [DecidableEq μ]

/-- A step represents the step of the sequences, and changes no link outside the chains it is
given. -/
structure StepRel (s : HeapState ι κ μ) (t : SeqState ι κ μ) (a : ListAction ι κ μ) : Prop where
  rel : Rel (s.step a) (t.step a)
  frame : ∀ x, ¬ a.Given t x → (s.step a).heap x = s.heap x

namespace Rel

/-- A legal `Push` follows its sequence. -/
lemma push (h : Rel s t) {i : ι} {ptr : ℕ} (hl : s.Legal (.push i ptr)) :
    StepRel s t (.push i ptr) := by
  by_cases hptr : ptr = 0
  · have hs : s.step (.push i ptr) = s := by
      simp [HeapState.step, FreeList.push, hptr]
    refine ⟨?_, fun x _ => by rw [hs]⟩
    rw [hs, SeqState.step, if_pos hptr]
    exact h
  obtain ⟨hlt, hun⟩ := hl hptr
  have hnew := h.not_mem_of_unowned hun
  have hframe : ∀ x, x ≠ ptr → (s.step (.push i ptr)).heap x = s.heap x := by
    intro x hx
    simp only [HeapState.step, FreeList.push, if_neg hptr]
    exact Function.update_of_ne hx _ _
  have hlen : ((t.list i).push ptr).objs.length < 2 ^ 64 := by
    refine length_lt_of_addresses (List.nodup_cons.mpr ⟨hnew _, h.nodup (.list i)⟩) ?_ ?_
    · exact List.forall_mem_cons.mpr ⟨hptr, fun x => (h.holds (.list i)).chain.ne_null⟩
    · exact List.forall_mem_cons.mpr ⟨hlt, h.address (.list i)⟩
  refine ⟨?_, fun x hx => hframe x fun heq => hx (Or.inl heq)⟩
  rw [SeqState.step, if_neg hptr]
  refine h.single ?_ ?_ ?_ fun o _ x hx => hframe x fun heq => hnew o (heq ▸ hx)
  · intro o ho
    cases o <;> simp_all [HeapState.descriptor, HeapState.step]
  · have hpush := FreeList.push_holds (h.holds_list i) hptr (hnew (.list i)) hlen
    simp only [HeapState.descriptor, HeapState.step, Function.update_self]
    exact FreeList.holds hpush.chain hpush.count
  · exact List.forall_mem_cons.mpr ⟨Or.inr ⟨hlt, hnew⟩, fun x hx => Or.inl hx⟩

/-- `Pop` follows its sequence. -/
lemma pop (h : Rel s t) (i : ι) : StepRel s t (.pop i) := by
  refine ⟨?_, fun _ _ => rfl⟩
  have hpop := FreeList.pop_spec (h.holds_list i) (h.length_lt (.list i))
  have hobjs : (t.list i).pop.2.objs = (t (.list i)).nodes.tail := by
    unfold Ammalloc.FreeList.pop SeqState.list
    cases (t (.list i)).nodes <;> rfl
  rw [SeqState.step, hobjs]
  refine h.single ?_ ?_ (fun x hx => Or.inl (List.mem_of_mem_tail hx)) fun _ _ _ _ => rfl
  · intro o ho
    cases o <;> simp_all [HeapState.descriptor, HeapState.step]
  · simp only [HeapState.descriptor, HeapState.step, Function.update_self]
    exact FreeList.holds hpop.2.chain hpop.2.count

/-- **Prepending** what `src` holds to the list `i`. -/
lemma prepend (h : Rel s t) {i : ι} {src : Owner ι κ μ} (hsrc : src ≠ .list i) {c : FreeChain}
    {k : ℕ} (hc : c.descriptor.Holds s.heap ⟨(t src).nodes, k⟩)
    (hheap : s'.heap =
      if c.count = 0 then s.heap else Function.update s.heap c.tail (s.lists i).head)
    (hlist : s'.lists i = if c.count = 0 then s.lists i else
      { s.lists i with head := c.head, size := addU64 (s.lists i).size c.count })
    (hempty : (s'.descriptor src).Holds s'.heap {})
    (hdesc : ∀ o, o ≠ src → o ≠ .list i → s'.descriptor o = s.descriptor o) :
    Rel s' (Function.update (Function.update t src {}) (.list i)
        { nodes := (t src).nodes ++ (t (.list i)).nodes }) ∧
      ∀ x, x ∉ (t src).nodes → x ∉ (t (.list i)).nodes → s'.heap x = s.heap x := by
  have hframe : ∀ x, x ∉ (t src).nodes → x ∉ (t (.list i)).nodes → s'.heap x = s.heap x := by
    intro x hx _
    rw [hheap]
    split
    · rfl
    · rename_i hcount
      obtain ⟨ys, y, hy, -, htail⟩ := hc.exists_concat hcount
      have hyt : c.tail = y := htail c.tail rfl
      change (t src).nodes = ys ++ [y] at hy
      refine Function.update_of_ne (fun hxy => hx ?_) _ _
      rw [hxy, hyt, hy]
      simp
  refine ⟨h.transfer hsrc hdesc hempty ?_ (List.Perm.refl _) hframe, hframe⟩
  show (s'.lists i).descriptor.Holds s'.heap _
  rw [hlist, hheap]
  by_cases hcount : c.count = 0
  · have hnil : (t src).nodes = [] := hc.nodes_eq_nil hcount
    rw [if_pos hcount, if_pos hcount, hnil]
    exact FreeList.holds (h.holds (.list i)).chain (h.holds (.list i)).count
  · rw [if_neg hcount, if_neg hcount]
    have hlen := h.length_add_lt (Ne.symm hsrc)
    have hnew := FreeList.prepend_holds (h.holds_list i) hc hcount
      (fun x hx hx' => hsrc (h.separate x src (.list i) hx hx')) hlen
    exact FreeList.holds hnew.chain hnew.count

/-- `PushRange` follows its sequences. -/
lemma pushRange (h : Rel s t) (i : ι) (k : μ) : StepRel s t (.pushRange i k) := by
  have hk := h.holds (.chain k)
  have hcond : ((s.chains k).head = 0 ∨ (s.chains k).tail = 0 ∨ (s.chains k).count = 0) ↔
      (s.chains k).count = 0 := by
    refine ⟨fun hor => ?_, fun h₀ => Or.inr (Or.inr h₀)⟩
    by_contra hcount
    obtain ⟨ys, y, hy, hne, htail⟩ := hk.exists_concat hcount
    rcases hor with h₀ | h₀ | h₀
    · have hnil : (t (.chain k)).nodes = [] := (h₀ ▸ hk.chain : Chain s.heap 0 0 _).eq_nil
      rw [hnil] at hy
      exact absurd hy (by simp)
    · exact hne ((htail _ rfl).symm.trans h₀)
    · exact hcount h₀
  have hsrc : (.chain k : Owner ι κ μ) ≠ .list i := by simp
  have hheap : (s.step (.pushRange i k)).heap = if (s.chains k).count = 0 then s.heap else
      Function.update s.heap (s.chains k).tail (s.lists i).head := by
    simp only [HeapState.step, FreeList.pushRange, hcond]
    split_ifs <;> rfl
  have hlist : (s.step (.pushRange i k)).lists i = if (s.chains k).count = 0 then s.lists i else
      { s.lists i with
        head := (s.chains k).head, size := addU64 (s.lists i).size (s.chains k).count } := by
    simp only [HeapState.step, FreeList.pushRange, hcond, Function.update_self]
    split_ifs <;> rfl
  have hempty : ((s.step (.pushRange i k)).descriptor (.chain k)).Holds
      (s.step (.pushRange i k)).heap {} := by
    simp only [HeapState.descriptor, HeapState.step, Function.update_self]
    exact FreeChain.holds rfl rfl rfl
  obtain ⟨hrel, hframe⟩ := h.prepend hsrc hk hheap hlist hempty fun o h₁ h₂ => by
    cases o <;> simp_all [HeapState.descriptor, HeapState.step]
  refine ⟨hrel, fun x hx => ?_⟩
  simp only [ListAction.Given, not_or] at hx
  exact hframe x hx.2 hx.1

/-- `PushBatch` follows its sequences. -/
lemma pushBatch (h : Rel s t) (i : ι) (j : κ) : StepRel s t (.pushBatch i j) := by
  have hj := h.holds (.batch j)
  have hc : (⟨(s.batches j).head, (s.batches j).tail, (s.batches j).count⟩ :
      FreeChain).descriptor.Holds s.heap ⟨(t (.batch j)).nodes, 0⟩ :=
    FreeChain.holds hj.chain (hj.tail _ rfl) hj.count
  have hsrc : (.batch j : Owner ι κ μ) ≠ .list i := by simp
  have hheap : (s.step (.pushBatch i j)).heap = if (s.batches j).count = 0 then s.heap else
      Function.update s.heap (s.batches j).tail (s.lists i).head := by
    by_cases h₀ : (s.batches j).count = 0 <;>
      simp [HeapState.step, FreeList.pushBatch, ObjectBatch.moveConstruct, h₀]
  have hlist : (s.step (.pushBatch i j)).lists i = if (s.batches j).count = 0 then s.lists i else
      { s.lists i with
        head := (s.batches j).head, size := addU64 (s.lists i).size (s.batches j).count } := by
    by_cases h₀ : (s.batches j).count = 0 <;>
      simp [HeapState.step, FreeList.pushBatch, ObjectBatch.moveConstruct, h₀]
  have hempty : ((s.step (.pushBatch i j)).descriptor (.batch j)).Holds
      (s.step (.pushBatch i j)).heap {} := by
    simp only [HeapState.descriptor, HeapState.step, Function.update_self,
      ObjectBatch.moveConstruct]
    exact ObjectBatch.empty_holds _
  obtain ⟨hrel, hframe⟩ := h.prepend hsrc hc hheap hlist hempty fun o h₁ h₂ => by
    cases o <;> simp_all [HeapState.descriptor, HeapState.step]
  refine ⟨hrel, fun x hx => ?_⟩
  simp only [ListAction.Given, not_or] at hx
  exact hframe x hx.2 hx.1

/-- **Detaching** a part of the list `i` into the empty variable `dst`. -/
lemma detach (h : Rel s t) {i : ι} {dst : Owner ι κ μ} (hdst : .list i ≠ dst)
    (hempty : (t dst).nodes = []) {keep : List ℕ} {c : Content}
    (hlist : (s'.descriptor (.list i)).Holds s'.heap ⟨keep, (t (.list i)).cls⟩)
    (hout : (s'.descriptor dst).Holds s'.heap c)
    (hdesc : ∀ o, o ≠ .list i → o ≠ dst → s'.descriptor o = s.descriptor o)
    (hperm : (keep ++ c.nodes).Perm (t (.list i)).nodes)
    (hframe : ∀ x, x ∉ (t (.list i)).nodes → s'.heap x = s.heap x) :
    Rel s' (Function.update (Function.update t (.list i) { nodes := keep }) dst c) := by
  refine h.transfer hdst hdesc (FreeList.holds hlist.chain hlist.count) hout ?_
    fun x hx _ => hframe x hx
  rw [hempty, List.append_nil]
  exact hperm

/-- Taking the first nodes off a sequence moves no node elsewhere. -/
lemma popBatch_perm (l : Ammalloc.FreeList) (n : ℕ) :
    ((l.popBatch n).2.objs ++ (l.popBatch n).1).Perm l.objs := by
  refine List.perm_append_comm.trans (List.Perm.of_eq ?_)
  exact List.take_append_drop n l.objs

/-- A legal `PopRange` follows its sequences. -/
lemma popRange (h : Rel s t) {i : ι} (n : ℕ) {k : μ} (hl : s.Legal (.popRange i n k)) :
    StepRel s t (.popRange i n k) := by
  obtain ⟨hkeep, hout, hframe⟩ := FreeList.popRange_spec (h.holds_list i) (h.length_lt (.list i)) n
  refine ⟨h.detach (by simp) ((h.holds (.chain k)).nodes_eq_nil hl) ?_ ?_ ?_
    (popBatch_perm (t.list i) n) hframe, fun x hx => hframe x hx⟩
  · simp only [HeapState.descriptor, HeapState.step, Function.update_self]
    exact hkeep
  · simp only [HeapState.descriptor, HeapState.step, Function.update_self]
    exact hout
  · intro o h₁ h₂
    cases o <;> simp_all [HeapState.descriptor, HeapState.step]

/-- A legal `PopBatch` follows its sequences. -/
lemma popBatch (h : Rel s t) {i : ι} (n : ℕ) {idx : ℕ} {j : κ}
    (hl : s.Legal (.popBatch i n idx j)) : StepRel s t (.popBatch i n idx j) := by
  obtain ⟨hkeep, hout, hframe⟩ := FreeList.popRange_spec (h.holds_list i) (h.length_lt (.list i)) n
  refine ⟨h.detach (by simp) ((h.holds (.batch j)).nodes_eq_nil hl.2) ?_ ?_ ?_
    (popBatch_perm (t.list i) n) hframe, fun x hx => hframe x hx⟩
  · simp only [HeapState.descriptor, HeapState.step, FreeList.popBatch, Function.update_self]
    exact hkeep
  · simp only [HeapState.descriptor, HeapState.step, FreeList.popBatch, Function.update_self]
    exact FreeChain.tag_holds hout hl.1
  · intro o h₁ h₂
    cases o <;> simp_all [HeapState.descriptor, HeapState.step]

/-- A legal `PopRangeTail` follows its sequences. -/
lemma popRangeTail (h : Rel s t) {i : ι} (n : ℕ) {k : μ} (hl : s.Legal (.popRangeTail i n k)) :
    StepRel s t (.popRangeTail i n k) := by
  obtain ⟨r, hr, hkeep, hout, hframe⟩ := FreeList.popRangeTail_spec (h.holds_list i) n
    (h.holds_list i).count.ge
  have hstep : s.step (.popRangeTail i n k) = { s with
      heap := r.1
      lists := Function.update s.lists i r.2.1
      chains := Function.update s.chains k r.2.2 } := by
    have hr' : (s.lists i).popRangeTail s.heap (s.lists i).size n = some r := hr
    rw [HeapState.step, hr']
  refine ⟨?_, fun x hx => by rw [hstep]; exact hframe x hx⟩
  rw [hstep]
  refine h.detach (by simp) ((h.holds (.chain k)).nodes_eq_nil hl) ?_ ?_ ?_
    (List.Perm.of_eq ((t.list i).popBatchTail_append n)) hframe
  · simp only [HeapState.descriptor, Function.update_self]
    exact hkeep
  · simp only [HeapState.descriptor, Function.update_self]
    exact hout
  · intro o h₁ h₂
    cases o <;> simp_all [HeapState.descriptor]

/-- A legal `PopBatchTail` follows its sequences. -/
lemma popBatchTail (h : Rel s t) {i : ι} (n : ℕ) {idx : ℕ} {j : κ}
    (hl : s.Legal (.popBatchTail i n idx j)) : StepRel s t (.popBatchTail i n idx j) := by
  obtain ⟨r, hr, hkeep, hout, hframe⟩ := FreeList.popRangeTail_spec (h.holds_list i) n
    (h.holds_list i).count.ge
  have hstep : s.step (.popBatchTail i n idx j) = { s with
      heap := r.1
      lists := Function.update s.lists i r.2.1
      batches := Function.update s.batches j
        (if r.2.2.count = 0 then {} else ⟨r.2.2.head, r.2.2.tail, r.2.2.count, idx⟩) } := by
    have hr' : (s.lists i).popRangeTail s.heap (s.lists i).size n = some r := hr
    rw [HeapState.step, FreeList.popBatchTail, hr']
    rfl
  refine ⟨?_, fun x hx => by rw [hstep]; exact hframe x hx⟩
  rw [hstep]
  refine h.detach (by simp) ((h.holds (.batch j)).nodes_eq_nil hl.2) ?_ ?_ ?_
    (List.Perm.of_eq ((t.list i).popBatchTail_append n)) hframe
  · simp only [HeapState.descriptor, Function.update_self]
    exact hkeep
  · simp only [HeapState.descriptor, Function.update_self]
    exact FreeChain.tag_holds hout hl.1
  · intro o h₁ h₂
    cases o <;> simp_all [HeapState.descriptor]

/-- A legal `FromSingleObject` follows its sequence. -/
lemma fromSingleObject (h : Rel s t) {object idx : ℕ} {j : κ}
    (hl : s.Legal (.fromSingleObject object idx j)) :
    StepRel s t (.fromSingleObject object idx j) := by
  obtain ⟨hobj, hidx, hcount⟩ := hl
  have hfree : (t (.batch j)).nodes = [] := (h.holds (.batch j)).nodes_eq_nil hcount
  by_cases hnull : object = 0
  · have hs : s.step (.fromSingleObject object idx j) = s := by
      have hb := ObjectBatch.eq_empty (h.holds (.batch j)) hfree
      simp [HeapState.step, ObjectBatch.fromSingleObject, hnull, ← hb]
    refine ⟨?_, fun x _ => by rw [hs]⟩
    rw [hs, SeqState.step, if_pos hnull]
    exact h
  obtain ⟨hlt, hun⟩ := hobj hnull
  have hnew := h.not_mem_of_unowned hun
  have hframe : ∀ x, x ≠ object → (s.step (.fromSingleObject object idx j)).heap x = s.heap x := by
    intro x hx
    simp only [HeapState.step, ObjectBatch.fromSingleObject, if_neg hnull]
    exact Function.update_of_ne hx _ _
  refine ⟨?_, fun x hx => hframe x hx⟩
  rw [SeqState.step, if_neg hnull]
  refine h.single ?_ ?_ ?_ fun o _ x hx => hframe x fun heq => hnew o (heq ▸ hx)
  · intro o ho
    cases o <;> simp_all [HeapState.descriptor, HeapState.step]
  · simp only [HeapState.descriptor, HeapState.step, ObjectBatch.fromSingleObject, if_neg hnull,
      Function.update_self]
    refine ⟨⟨rfl, hnull, Function.update_self object 0 s.heap⟩, ?_, rfl, ?_⟩
    · exact fun t ht => (Option.some.inj ht).symm
    · intro k hk
      obtain rfl := Option.some.inj hk
      exact ⟨rfl, fun hn => absurd hn (List.cons_ne_nil object []), fun _ => hidx⟩
  · intro x hx
    rw [List.mem_singleton.mp hx]
    exact Or.inr ⟨hlt, hnew⟩

/-- **Handing over** all that `src` holds to the empty variable `dst`; no link changes. -/
lemma handOver (h : Rel s t) {src dst : Owner ι κ μ} (hne : src ≠ dst)
    (hempty : (t dst).nodes = []) {c : Content} (hc : c.nodes = (t src).nodes)
    (hheap : s'.heap = s.heap) (hsrc : (s'.descriptor src).Holds s.heap {})
    (hdst : (s'.descriptor dst).Holds s.heap c)
    (hdesc : ∀ o, o ≠ src → o ≠ dst → s'.descriptor o = s.descriptor o) :
    Rel s' (Function.update (Function.update t src {}) dst c) := by
  refine h.transfer hne hdesc (hheap ▸ hsrc) (hheap ▸ hdst) ?_ fun x _ _ => by rw [hheap]
  rw [hempty, hc, List.append_nil]
  exact List.Perm.refl _

/-- A legal `AdoptChain` follows its sequences. -/
lemma adoptChain (h : Rel s t) {k : μ} {idx : ℕ} {j : κ} (hl : s.Legal (.adoptChain k idx j)) :
    StepRel s t (.adoptChain k idx j) := by
  refine ⟨h.handOver (by simp) ((h.holds (.batch j)).nodes_eq_nil hl.2) rfl rfl ?_ ?_ ?_,
    fun _ _ => rfl⟩
  · simp only [HeapState.descriptor, HeapState.step, Function.update_self]
    exact FreeChain.holds rfl rfl rfl
  · have hk : (s.chains k).descriptor.Holds s.heap ⟨(t (.chain k)).nodes, (t (.chain k)).cls⟩ :=
      h.holds (.chain k)
    simp only [HeapState.descriptor, HeapState.step, Function.update_self]
    exact FreeChain.tag_holds hk hl.1
  · intro o h₁ h₂
    cases o <;> simp_all [HeapState.descriptor, HeapState.step]

/-- A legal `DetachChainForTransport` follows its sequences. -/
lemma detachChainForTransport (h : Rel s t) (j : κ) {k : μ}
    (hl : s.Legal (.detachChainForTransport j k)) : StepRel s t (.detachChainForTransport j k) := by
  have hj := h.holds (.batch j)
  have hr : (s.batches j).detachChainForTransport.2.descriptor.Holds s.heap {} ∧
      (s.batches j).detachChainForTransport.1.descriptor.Holds s.heap
        { nodes := (t (.batch j)).nodes } := by
    by_cases hcount : (s.batches j).count = 0
    · have hnil := hj.nodes_eq_nil hcount
      rw [ObjectBatch.detachChainForTransport, if_pos hcount, ObjectBatch.eq_empty hj hnil, hnil]
      exact ⟨ObjectBatch.empty_holds s.heap, FreeChain.holds rfl rfl rfl⟩
    · rw [ObjectBatch.detachChainForTransport, if_neg hcount]
      exact ⟨ObjectBatch.empty_holds s.heap, FreeChain.holds hj.chain (hj.tail _ rfl) hj.count⟩
  refine ⟨h.handOver (by simp) ((h.holds (.chain k)).nodes_eq_nil hl) rfl rfl ?_ ?_ ?_,
    fun _ _ => rfl⟩
  · simp only [HeapState.descriptor, HeapState.step, Function.update_self]
    exact hr.1
  · simp only [HeapState.descriptor, HeapState.step, Function.update_self]
    exact hr.2
  · intro o h₁ h₂
    cases o <;> simp_all [HeapState.descriptor, HeapState.step]

/-- The move constructor of a batch follows its sequences. -/
lemma moveConstruct (h : Rel s t) {j j' : κ} (hl : s.Legal (.moveConstruct j j')) :
    StepRel s t (.moveConstruct j j') := by
  obtain ⟨hne, hcount⟩ := hl
  refine ⟨h.handOver (by simp [hne]) ((h.holds (.batch j')).nodes_eq_nil hcount) rfl rfl ?_ ?_ ?_,
    fun _ _ => rfl⟩
  · simp only [HeapState.descriptor, HeapState.step, Function.update_of_ne hne,
      Function.update_self]
    exact ObjectBatch.empty_holds s.heap
  · simp only [HeapState.descriptor, HeapState.step, Function.update_self]
    exact h.holds (.batch j)
  · intro o h₁ h₂
    cases o <;> simp_all [HeapState.descriptor, HeapState.step]

/-- A well-formed chain that another component hands over is represented from then on. -/
lemma supply (h : Rel s t) {k : μ} {chain : FreeChain} {xs : List ℕ}
    (hl : s.Legal (.supply k chain xs)) : StepRel s t (.supply k chain xs) := by
  obtain ⟨-, hchain, hnew⟩ := hl
  refine ⟨h.single ?_ ?_ ?_ fun _ _ _ _ => rfl, fun _ _ => rfl⟩
  · intro o ho
    cases o <;> simp_all [HeapState.descriptor, HeapState.step]
  · simp only [HeapState.descriptor, HeapState.step, Function.update_self]
    exact hchain
  · exact fun x hx => Or.inr ⟨(hnew x hx).1, h.not_mem_of_unowned (hnew x hx).2⟩

/-- A write of the user into an object that is in no chain disturbs no chain. -/
lemma write (h : Rel s t) {x v : ℕ} (hl : s.Legal (.write x v)) : StepRel s t (.write x v) := by
  have hframe : ∀ y, y ≠ x → (s.step (.write x v)).heap y = s.heap y :=
    fun y hy => Function.update_of_ne hy _ _
  refine ⟨⟨fun o => (h.holds o).congr fun y hy => hframe y ?_, h.separate, h.address⟩, hframe⟩
  rintro rfl
  exact h.not_mem_of_unowned hl o hy

/-- **One operation**: what it does to the heap is what it does to the sequences. -/
theorem step (h : Rel s t) {a : ListAction ι κ μ} (hl : s.Legal a) : StepRel s t a := by
  cases a with
  | push i ptr => exact h.push hl
  | pop i => exact h.pop i
  | pushRange i k => exact h.pushRange i k
  | pushBatch i j => exact h.pushBatch i j
  | popRange i n k => exact h.popRange n hl
  | popRangeTail i n k => exact h.popRangeTail n hl
  | popBatch i n idx j => exact h.popBatch n hl
  | popBatchTail i n idx j => exact h.popBatchTail n hl
  | fromSingleObject object idx j => exact h.fromSingleObject hl
  | adoptChain k idx j => exact h.adoptChain hl
  | detachChainForTransport j k => exact h.detachChainForTransport j hl
  | moveConstruct j j' => exact h.moveConstruct hl
  | supply k chain xs => exact h.supply hl
  | write x v => exact h.write hl

/-- Empty variables over any heap. -/
lemma start (ι κ μ : Type) (heap : Heap) :
    Rel ({ heap } : HeapState ι κ μ) (fun _ => {}) where
  holds o := by
    cases o with
    | list i => exact FreeList.holds rfl rfl
    | batch j => exact ObjectBatch.empty_holds heap
    | chain k => exact FreeChain.holds rfl rfl rfl
  separate _ _ _ hx := absurd hx List.not_mem_nil
  address _ _ hx := absurd hx List.not_mem_nil

/-- A legal run is matched by the run of the sequences. -/
lemma run (h : Rel s t) {as : List (ListAction ι κ μ)}
    (hl : Machine.Guarded (machine ι κ μ) (fun s a => s.Legal a) s as) :
    Rel ((machine ι κ μ).run s as) ((seqMachine ι κ μ).run t as) :=
  Machine.run_simulation (fun _ _ _ hr ha => (hr.step ha).rel) h hl

end Rel

/-! ## Runs -/

/-- **What the sequences say about the descriptors.** -/
structure Consistent (s : HeapState ι κ μ) (t : SeqState ι κ μ) : Prop where
  /-- The chain of a list is acyclic and has exactly `size_` nodes. -/
  lists : ∀ i, Chain s.heap 0 (s.lists i).head (t (.list i)).nodes ∧ (t (.list i)).nodes.Nodup ∧
    (s.lists i).size = (t (.list i)).nodes.length ∧ ((s.lists i).head = 0 ↔ (s.lists i).size = 0)
  /-- A detached chain is terminated, with the right tail and count. -/
  chains : ∀ k, Chain s.heap 0 (s.chains k).head (t (.chain k)).nodes ∧
    (s.chains k).tail = (t (.chain k)).nodes.getLastD 0 ∧
    (s.chains k).count = (t (.chain k)).nodes.length
  /-- So is the chain of a batch, which has the class it was tagged with. -/
  batches : ∀ j, Chain s.heap 0 (s.batches j).head (t (.batch j)).nodes ∧
    (s.batches j).tail = (t (.batch j)).nodes.getLastD 0 ∧
    (s.batches j).count = (t (.batch j)).nodes.length ∧
    (s.batches j).sizeClassIdx = (t (.batch j)).cls ∧ (s.batches j).isCanonical s.heap = true
  /-- A batch that holds nothing, as a moved-from or consumed one, is the empty batch of the invalid
  class. -/
  empty : ∀ j, (t (.batch j)).nodes = [] → s.batches j = {}
  /-- No node is in two of the lists, batches and chains. -/
  separate : ∀ x o o', x ∈ (t o).nodes → x ∈ (t o').nodes → o = o'
  /-- `Pop` returns the first node, or null. -/
  pop : ∀ i, ((s.lists i).pop s.heap).1 = (t.list i).pop.1.getD 0
  /-- The loop of `PopRangeTail` that looks for the tail ends within `size_` steps. -/
  returns : ∀ i n, ((s.lists i).popRangeTail s.heap (s.lists i).size n).isSome

omit [DecidableEq ι] [DecidableEq κ] [DecidableEq μ] in
/-- Represented descriptors are consistent with their sequences. -/
lemma Rel.consistent (h : Rel s t) : Consistent s t where
  lists i := by
    have hi := h.holds (.list i)
    refine ⟨hi.chain, h.nodup _, hi.count, ?_⟩
    have hcount : (s.lists i).size = (t (.list i)).nodes.length := hi.count
    constructor
    · intro hhead
      have hchain : Chain s.heap 0 0 (t (.list i)).nodes := hhead ▸ hi.chain
      rw [hcount, hchain.eq_nil]
      rfl
    · intro hsize
      have hchain := hi.chain
      rw [hi.nodes_eq_nil hsize] at hchain
      exact hchain
  chains k := ⟨(h.holds (.chain k)).chain, (h.holds (.chain k)).tail _ rfl,
    (h.holds (.chain k)).count⟩
  batches j := ⟨(h.holds (.batch j)).chain, (h.holds (.batch j)).tail _ rfl,
    (h.holds (.batch j)).count, ((h.holds (.batch j)).cls _ rfl).1,
    ObjectBatch.isCanonical_of_holds (h.holds (.batch j))⟩
  empty j hnil := ObjectBatch.eq_empty (h.holds (.batch j)) hnil
  separate := h.separate
  pop i := by
    rw [(FreeList.pop_spec (h.holds_list i) (h.length_lt (.list i))).1]
    unfold Ammalloc.FreeList.pop
    cases (t.list i).objs <;> rfl
  returns i n := by
    obtain ⟨r, hr, -⟩ := FreeList.popRangeTail_spec (h.holds_list i) n (h.holds_list i).count.ge
    have hr' : (s.lists i).popRangeTail s.heap (s.lists i).size n = some r := hr
    rw [hr']
    rfl

/-- **Lists and batches refine sequences.** Along every legal run over any number of lists, batches
and chains, the heap is consistent with the sequences that the same run moves around, and every
step changes only links of nodes in the chains it is given. -/
theorem lists_refine_sequences (heap : Heap) (as : List (ListAction ι κ μ))
    (hlegal : Machine.Guarded (machine ι κ μ) (fun s a => s.Legal a) { heap } as) :
    Consistent ((machine ι κ μ).run { heap } as) ((seqMachine ι κ μ).run (fun _ => {}) as) ∧
      ∀ bs a, bs ++ [a] <+: as → ∀ x, ¬ a.Given ((seqMachine ι κ μ).run (fun _ => {}) bs) x →
        ((machine ι κ μ).run { heap } (bs ++ [a])).heap x =
          ((machine ι κ μ).run { heap } bs).heap x := by
  refine ⟨((Rel.start ι κ μ heap).run hlegal).consistent, ?_⟩
  rintro bs a ⟨cs, rfl⟩ x hx
  rw [List.append_assoc] at hlegal
  obtain ⟨hbs, hstep, -⟩ := Machine.guarded_append.mp hlegal
  rw [Machine.run_append]
  exact (((Rel.start ι κ μ heap).run hbs).step hstep).frame x hx

/-- Two nodes are pushed, one is popped as a batch of class 3 and pushed again. -/
theorem lists_refine_sequences_twoNodes :
    ∃ t : SeqState Unit Unit Unit, t (.list ()) = { nodes := [128, 64] } ∧
      Consistent ((machine Unit Unit Unit).run { heap := fun _ => 7 }
        [.push () 64, .push () 128, .popBatch () 1 3 (), .pushBatch () ()]) t := by
  have h₀ : Rel ({ heap := fun _ => 7 } : HeapState Unit Unit Unit) (fun _ => {}) :=
    Rel.start Unit Unit Unit _
  have hl₀ : ({ heap := fun _ => 7 } : HeapState Unit Unit Unit).Legal (.push () 64) :=
    fun _ => ⟨by decide, h₀.unowned_iff.mpr fun _ => List.not_mem_nil⟩
  have h₁ := (h₀.step hl₀).rel
  have hl₁ : (({ heap := fun _ => 7 } : HeapState Unit Unit Unit).step (.push () 64)).Legal
      (.push () 128) := by
    refine fun _ => ⟨by decide, h₁.unowned_iff.mpr fun o => ?_⟩
    rcases o with ⟨⟨⟩⟩ | ⟨⟨⟩⟩ | ⟨⟨⟩⟩ <;> decide
  have hlegal : Machine.Guarded (machine Unit Unit Unit) (fun s a => s.Legal a)
      { heap := fun _ => 7 } [.push () 64, .push () 128, .popBatch () 1 3 (), .pushBatch () ()] :=
    ⟨hl₀, hl₁, ⟨by decide, rfl⟩, trivial, trivial⟩
  exact ⟨_, rfl, (lists_refine_sequences _ _ hlegal).1⟩

end

end Ammalloc.Intrusive
