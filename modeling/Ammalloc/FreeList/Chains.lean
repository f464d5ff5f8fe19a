import Ammalloc.FreeList.Intrusive
import Ammalloc.Lib.LinkedStack

set_option relaxedAutoImplicit false
set_option autoImplicit false

/-!
# What each list operation does to the chains

Every operation of `FreeList` and `ObjectBatch` rewrites at most one link. `Descriptor.Holds` says
which nodes a descriptor stands for, and there is one lemma per operation that says what its result
holds and which links it changed.

## Main definitions

* `Ammalloc.Intrusive.Descriptor` — what a list, a batch and a chain have in common.
* `Ammalloc.Intrusive.Descriptor.Holds` — the descriptor stands for a sequence of nodes.

## Main results

* `Ammalloc.Intrusive.FreeList.prepend_holds` — `PushRange` and `PushBatch`.
* `Ammalloc.Intrusive.FreeList.popRange_spec`, `Ammalloc.Intrusive.FreeList.popRangeTail_spec`.
* `Ammalloc.Intrusive.ObjectBatch.isCanonical_of_holds`.
-/

namespace Ammalloc.Intrusive

open LinkedStack
open SizeClass (kNumSizeClasses)

/-! ## Descriptors -/

/-- What a sequence of nodes is to the program: the nodes, and the class a batch is tagged
with. -/
structure Content where
  nodes : List ℕ := []
  cls : ℕ := kNumSizeClasses
  deriving DecidableEq, Repr

/-- The members of a list, a chain or a batch; a list has no tail pointer, and only a batch has a
class. -/
structure Descriptor where
  head : ℕ
  tail : Option ℕ
  count : ℕ
  cls : Option ℕ

/-- A list as a descriptor. -/
def FreeList.descriptor (l : FreeList) : Descriptor := ⟨l.head, none, l.size, none⟩

/-- A chain as a descriptor. -/
def FreeChain.descriptor (c : FreeChain) : Descriptor := ⟨c.head, some c.tail, c.count, none⟩

/-- A batch as a descriptor. -/
def ObjectBatch.descriptor (b : ObjectBatch) : Descriptor :=
  ⟨b.head, some b.tail, b.count, some b.sizeClassIdx⟩

/-- **The descriptor stands for the content `c`**: its chain is terminated and has exactly the
nodes of `c`, its tail is the last one, its count is right, and its class is valid unless it is
empty. -/
structure Descriptor.Holds (heap : Heap) (d : Descriptor) (c : Content) : Prop where
  chain : Chain heap 0 d.head c.nodes
  tail : ∀ t ∈ d.tail, t = c.nodes.getLastD 0
  count : d.count = c.nodes.length
  cls : ∀ k ∈ d.cls, k = c.cls ∧ (c.nodes = [] → k = kNumSizeClasses) ∧
    (c.nodes ≠ [] → k < kNumSizeClasses)

namespace Descriptor

variable {heap heap' : Heap} {d : Descriptor} {c : Content}

/-- Links of other nodes may change. -/
lemma Holds.congr (h : d.Holds heap c) (heq : ∀ x ∈ c.nodes, heap' x = heap x) :
    d.Holds heap' c :=
  ⟨h.chain.congr heq, h.tail, h.count, h.cls⟩

/-- A descriptor with count zero holds nothing. -/
lemma Holds.nodes_eq_nil (h : d.Holds heap c) (hcount : d.count = 0) : c.nodes = [] :=
  List.eq_nil_of_length_eq_zero (h.count.symm.trans hcount)

/-- The nodes of a descriptor that is not empty end with its tail. -/
lemma Holds.exists_concat (h : d.Holds heap c) (hcount : d.count ≠ 0) :
    ∃ l t, c.nodes = l ++ [t] ∧ t ≠ 0 ∧ ∀ t' ∈ d.tail, t' = t := by
  rcases List.eq_nil_or_concat c.nodes with hnil | ⟨l, t, hlt⟩
  · rw [h.count, hnil] at hcount
    exact absurd rfl hcount
  · rw [List.concat_eq_append] at hlt
    refine ⟨l, t, hlt, h.chain.ne_null (by rw [hlt]; simp), fun t' ht' => ?_⟩
    rw [h.tail t' ht', hlt, List.getLastD_concat]

end Descriptor

/-- A list with a chain: the shape of `Holds` for descriptors without a class. -/
lemma FreeList.holds {heap : Heap} {l : FreeList} {xs : List ℕ} {k : ℕ}
    (hchain : Chain heap 0 l.head xs) (hsize : l.size = xs.length) :
    l.descriptor.Holds heap ⟨xs, k⟩ :=
  ⟨hchain, fun _ ht => absurd ht (by simp [descriptor]), hsize,
    fun _ ht => absurd ht (by simp [descriptor])⟩

/-- A chain with the tail and the count of a sequence holds the sequence. -/
lemma FreeChain.holds {heap : Heap} {c : FreeChain} {xs : List ℕ} {k : ℕ}
    (hchain : Chain heap 0 c.head xs) (htail : c.tail = xs.getLastD 0)
    (hcount : c.count = xs.length) : c.descriptor.Holds heap ⟨xs, k⟩ :=
  ⟨hchain, fun t ht => by rw [← Option.some.inj ht]; exact htail, hcount,
    fun _ ht => absurd ht (by simp [descriptor])⟩

/-- The empty batch. -/
lemma ObjectBatch.empty_holds (heap : Heap) : ({} : ObjectBatch).descriptor.Holds heap {} := by
  refine ⟨rfl, fun t ht => (Option.some.inj ht).symm, rfl, fun t ht => ?_⟩
  exact ⟨(Option.some.inj ht).symm, fun _ => (Option.some.inj ht).symm, fun hne => absurd rfl hne⟩

/-- A chain that is tagged with a valid class, as the factories of `ObjectBatch` do it: an empty
chain gives the empty batch. -/
lemma FreeChain.tag_holds {heap : Heap} {c : FreeChain} {xs : List ℕ} {k idx : ℕ}
    (h : c.descriptor.Holds heap ⟨xs, k⟩) (hidx : idx < kNumSizeClasses) :
    (if c.count = 0 then ({} : ObjectBatch)
      else ⟨c.head, c.tail, c.count, idx⟩).descriptor.Holds heap
      ⟨xs, if xs = [] then kNumSizeClasses else idx⟩ := by
  by_cases hnil : xs = []
  · subst hnil
    have hcount : c.count = 0 := h.count
    rw [if_pos hcount, if_pos rfl]
    exact ObjectBatch.empty_holds heap
  · have hcount : c.count ≠ 0 := fun h₀ => hnil (h.nodes_eq_nil h₀)
    rw [if_neg hcount, if_neg hnil]
    refine ⟨h.chain, h.tail, h.count, fun t ht => ?_⟩
    obtain rfl := Option.some.inj ht
    exact ⟨rfl, fun hn => absurd hn hnil, fun _ => hidx⟩

/-- Only the empty batch holds nothing. -/
lemma ObjectBatch.eq_empty {heap : Heap} {b : ObjectBatch} {c : Content}
    (h : b.descriptor.Holds heap c) (hnil : c.nodes = []) : b = {} := by
  obtain ⟨hchain, htail, hcount, hcls⟩ := h
  rw [hnil] at hchain htail hcount
  have h₁ : b.head = 0 := hchain
  have h₂ : b.tail = 0 := htail b.tail rfl
  have h₃ : b.count = 0 := hcount
  have h₄ : b.sizeClassIdx = kNumSizeClasses := (hcls b.sizeClassIdx rfl).2.1 hnil
  cases b
  simp only at h₁ h₂ h₃ h₄
  rw [h₁, h₂, h₃, h₄]

/-- Distinct non-null 64-bit addresses are fewer than `2 ^ 64`, so that no count of them wraps. -/
lemma length_lt_of_addresses {l : List ℕ} (hnd : l.Nodup) (hne : ∀ x ∈ l, x ≠ 0)
    (hlt : ∀ x ∈ l, x < 2 ^ 64) : l.length < 2 ^ 64 := by
  have hsub : l.toFinset ⊆ Finset.Ico 1 (2 ^ 64) := by
    intro x hx
    rw [List.mem_toFinset] at hx
    exact Finset.mem_Ico.mpr ⟨Nat.one_le_iff_ne_zero.mpr (hne x hx), hlt x hx⟩
  have hcard := Finset.card_le_card hsub
  rw [List.toFinset_card_of_nodup hnd, Nat.card_Ico] at hcard
  omega

/-! ## Pushing -/

namespace FreeList

variable {heap : Heap} {l : FreeList} {xs ys : List ℕ} {k k' : ℕ}

/-- `Push` of a node that is not in the list. -/
lemma push_holds (h : l.descriptor.Holds heap ⟨xs, k⟩) {ptr : ℕ} (hptr : ptr ≠ 0)
    (hmem : ptr ∉ xs) (hlen : xs.length + 1 < 2 ^ 64) :
    (l.push heap ptr).2.descriptor.Holds (l.push heap ptr).1 ⟨ptr :: xs, k⟩ := by
  rw [push, if_neg hptr]
  refine holds ?_ ?_
  · refine Chain.push (h.chain.congr fun x hx => ?_) hptr (Function.update_self ptr _ heap)
    refine Function.update_of_ne ?_ _ _
    rintro rfl
    exact hmem hx
  · have hsize : l.size = xs.length := h.count
    show addU64 l.size 1 = xs.length + 1
    rw [hsize, addU64_of_lt hlen]

/-- **Prepending a chain** (`PushRange`, `PushBatch`): its last node is linked to the old head. -/
lemma prepend_holds (h : l.descriptor.Holds heap ⟨xs, k⟩) {c : FreeChain}
    (hc : c.descriptor.Holds heap ⟨ys, k'⟩) (hcount : c.count ≠ 0) (hdis : ∀ x ∈ ys, x ∉ xs)
    (hlen : xs.length + ys.length < 2 ^ 64) :
    ({ l with head := c.head, size := addU64 l.size c.count } : FreeList).descriptor.Holds
      (Function.update heap c.tail l.head) ⟨ys ++ xs, k⟩ := by
  obtain ⟨ys', t, hys, -, htail⟩ := hc.exists_concat hcount
  have ht : c.tail = t := htail c.tail rfl
  change ys = ys' ++ [t] at hys
  refine holds ?_ ?_
  · have hchain : Chain heap 0 c.head (ys' ++ [t]) := hys ▸ hc.chain
    rw [hys, List.append_assoc, ht]
    exact hchain.glue h.chain (hdis t (by rw [hys]; simp))
  · have hsize : l.size = xs.length := h.count
    have hcnt : c.count = ys.length := hc.count
    show addU64 l.size c.count = (ys ++ xs).length
    rw [hsize, hcnt, addU64_of_lt hlen, List.length_append, Nat.add_comm]

/-! ## Popping -/

/-- The loop of `PopRange` stops behind the first `n` nodes, at the rest of the chain. -/
lemma popRangeLoop_spec {n cur : ℕ} {out : FreeChain} (h : Chain heap 0 cur xs)
    (hlen : out.count + xs.length < 2 ^ 64) :
    Chain heap 0 (popRangeLoop heap n cur out).1 (xs.drop n) ∧
      (popRangeLoop heap n cur out).2 =
        { out with
          tail := (xs.take n).getLastD out.tail
          count := out.count + (xs.take n).length } := by
  induction n generalizing cur xs out with
  | zero => exact ⟨h, rfl⟩
  | succ n ih =>
    cases xs with
    | nil =>
      have hcur : cur = 0 := h
      rw [popRangeLoop, if_pos hcur]
      exact ⟨h, rfl⟩
    | cons x xs =>
      obtain ⟨rfl, hne, hrest⟩ := h
      rw [List.length_cons] at hlen
      have hone : addU64 out.count 1 = out.count + 1 := addU64_of_lt (by omega)
      rw [popRangeLoop, if_neg hne, hone]
      have hroom : ({ out with tail := cur, count := out.count + 1 } : FreeChain).count +
          xs.length < 2 ^ 64 := by
        show out.count + 1 + xs.length < 2 ^ 64
        omega
      obtain ⟨h₁, h₂⟩ := ih hrest hroom
      refine ⟨h₁, h₂.trans ?_⟩
      rw [List.take_succ_cons, List.getLastD_cons, List.length_cons, Nat.add_assoc,
        Nat.add_comm 1]

/-- **`PopRange`** detaches the first `n` nodes as a terminated chain and keeps the others; only
the link of the last detached node changes. -/
lemma popRange_spec (h : l.descriptor.Holds heap ⟨xs, k⟩) (hlen : xs.length < 2 ^ 64) (n : ℕ) :
    (l.popRange heap n).2.1.descriptor.Holds (l.popRange heap n).1 ⟨xs.drop n, k⟩ ∧
      (l.popRange heap n).2.2.descriptor.Holds (l.popRange heap n).1 { nodes := xs.take n } ∧
      ∀ x, x ∉ xs → (l.popRange heap n).1 x = heap x := by
  have hchain₀ : Chain heap 0 l.head xs := h.chain
  have hsize : l.size = xs.length := h.count
  have hempty : ({} : FreeChain).count + xs.length < 2 ^ 64 := by simpa using hlen
  obtain ⟨hdrop, hout⟩ := popRangeLoop_spec (n := n) hchain₀ hempty
  simp only [Nat.zero_add] at hout
  rcases List.eq_nil_or_concat (xs.take n) with hnil | ⟨ys, t, hyt⟩
  · rw [hnil] at hout
    have hkeep : xs.drop n = xs := by
      have hsplit := List.take_append_drop n xs
      rw [hnil, List.nil_append] at hsplit
      exact hsplit
    rw [popRange, hout, hnil, hkeep]
    exact ⟨h, FreeChain.holds rfl rfl rfl, fun _ _ => rfl⟩
  · rw [List.concat_eq_append] at hyt
    have hxs : xs = ys ++ t :: xs.drop n := by
      have hsplit := List.take_append_drop n xs
      rw [hyt, List.append_assoc] at hsplit
      exact hsplit.symm
    have hchain : Chain heap 0 l.head (ys ++ t :: xs.drop n) := hxs ▸ hchain₀
    have hlast : t ∉ xs.drop n := by
      have hnd := hchain.nodup
      exact (List.nodup_cons.mp (List.nodup_append.mp hnd).2.1).1
    have hcount : 0 < (xs.take n).length := by
      rw [hyt, List.length_append]
      exact Nat.succ_pos _
    have htail : (xs.take n).getLastD 0 = t := by rw [hyt, List.getLastD_concat]
    have heq : l.popRange heap n = (Function.update heap t 0,
        { l with
          head := (popRangeLoop heap n l.head {}).1
          size := xs.length - (xs.take n).length },
        ⟨l.head, t, (xs.take n).length⟩) := by
      have hle : (xs.take n).length ≤ xs.length := by
        rw [List.length_take]
        exact Nat.min_le_right n xs.length
      rw [popRange, hout]
      simp only [htail, gt_iff_lt, hcount, if_true, hsize, subU64_of_le hlen hle]
    rw [heq]
    refine ⟨holds (hdrop.congr fun x hx => ?_) ?_, FreeChain.holds ?_ htail.symm rfl,
      fun x hx => ?_⟩
    · refine Function.update_of_ne ?_ _ _
      rintro rfl
      exact hlast hx
    · show xs.length - (xs.take n).length = (xs.drop n).length
      rw [List.length_take, List.length_drop]
      omega
    · rw [hyt]
      exact hchain.cut.1
    · refine Function.update_of_ne (fun hxt => hx ?_) _ _
      rw [hxt, hxs]
      simp

/-- Following links is iteration. -/
lemma keepLoop_eq (heap : Heap) (steps p : ℕ) : keepLoop heap steps p = heap^[steps] p := by
  induction steps generalizing p with
  | zero => rfl
  | succ steps ih => exact ih (heap p)

/-- The second loop of `PopRangeTail` ends at the last node. -/
lemma tailLoop_spec {p fuel : ℕ} (h : Chain heap 0 p xs) (hne : xs ≠ [])
    (hfuel : xs.length ≤ fuel) :
    tailLoop heap fuel p = some (xs.getLastD 0) := by
  induction xs generalizing p fuel with
  | nil => exact absurd rfl hne
  | cons x xs ih =>
    obtain ⟨rfl, hp, hrest⟩ := h
    obtain ⟨fuel, rfl⟩ := Nat.exists_eq_succ_of_ne_zero (Nat.ne_zero_of_lt hfuel)
    rw [tailLoop, if_neg hp]
    cases xs with
    | nil => exact if_pos hrest
    | cons y ys =>
      have hlink : heap p ≠ 0 := by
        rw [hrest.1]
        exact hrest.2.1
      rw [if_neg hlink, ih hrest (List.cons_ne_nil y ys) (Nat.le_of_succ_le_succ hfuel)]
      rfl

/-- **`PopRangeTail`** detaches the last `min n size` nodes in their order and keeps the others;
only the link of the last node that stays changes. -/
lemma popRangeTail_spec (h : l.descriptor.Holds heap ⟨xs, k⟩) (n : ℕ) {fuel : ℕ}
    (hfuel : xs.length ≤ fuel) :
    ∃ r, l.popRangeTail heap fuel n = some r ∧
      r.2.1.descriptor.Holds r.1 ⟨xs.take (xs.length - min n xs.length), k⟩ ∧
      r.2.2.descriptor.Holds r.1 { nodes := xs.drop (xs.length - min n xs.length) } ∧
      ∀ x, x ∉ xs → r.1 x = heap x := by
  have hsize : l.size = xs.length := h.count
  have hchain₀ : Chain heap 0 l.head xs := h.chain
  have hpop : (if n < xs.length then n else xs.length) = min n xs.length := by
    split <;> omega
  rcases Nat.eq_zero_or_pos (min n xs.length) with hzero | hpos
  · refine ⟨(heap, l, {}), ?_, ?_, ?_, fun _ _ => rfl⟩
    · simp only [popRangeTail, hsize, hpop, hzero, if_true]
    · rw [hzero, Nat.sub_zero, List.take_length]
      exact h
    · rw [hzero, Nat.sub_zero, List.drop_length]
      exact FreeChain.holds rfl rfl rfl
  generalize hkeep : xs.length - min n xs.length = keep
  have hdrop : xs.drop keep ≠ [] := by
    rw [ne_eq, List.drop_eq_nil_iff]
    omega
  have hcount : min n xs.length = (xs.drop keep).length := by
    rw [List.length_drop]
    omega
  rcases Nat.eq_zero_or_pos keep with hk | hk
  · -- the whole list is detached
    subst hk
    rw [List.drop_zero] at hdrop hcount
    refine ⟨(heap, { l with head := 0, size := 0 }, ⟨l.head, xs.getLastD 0, min n xs.length⟩),
      ?_, holds rfl rfl, FreeChain.holds h.chain rfl hcount, fun _ _ => rfl⟩
    simp only [popRangeTail, hsize, hpop, hpos.ne', hkeep, if_true, if_false,
      tailLoop_spec hchain₀ hdrop hfuel, Option.map_some]
  · -- the list is cut behind the node `keep - 1`
    obtain ⟨t, htake⟩ : ∃ t, xs.take keep = xs.take (keep - 1) ++ [t] := by
      have hlt : keep - 1 < xs.length := by omega
      refine ⟨xs[keep - 1], ?_⟩
      rw [List.take_append_getElem, Nat.sub_add_cancel hk]
    have ht : xs = xs.take (keep - 1) ++ t :: xs.drop keep := by
      have hsplit := List.take_append_drop keep xs
      rw [htake, List.append_assoc] at hsplit
      exact hsplit.symm
    have hchain : Chain heap 0 l.head (xs.take (keep - 1) ++ t :: xs.drop keep) := ht ▸ hchain₀
    have hlast : keepLoop heap (keep - 1) l.head = t := by
      have hiter := hchain.iterate
      rw [List.length_take, Nat.min_eq_left (by omega)] at hiter
      rw [keepLoop_eq]
      exact hiter.1
    obtain ⟨hfirst, hsecond⟩ := hchain.cut
    have henough : (xs.drop keep).length ≤ fuel := by omega
    have hloop := tailLoop_spec hsecond hdrop henough
    refine ⟨(Function.update heap t 0, { l with size := keep },
      ⟨heap t, (xs.drop keep).getLastD 0, min n xs.length⟩), ?_, holds ?_ ?_,
      FreeChain.holds hsecond rfl hcount, fun x hx => ?_⟩
    · simp only [popRangeTail, hsize, hpop, hpos.ne', hkeep, hk.ne', if_false, hlast, hloop,
        Option.map_some]
    · rw [htake]
      exact hfirst
    · show keep = (xs.take keep).length
      rw [List.length_take]
      omega
    · refine Function.update_of_ne (fun hxt => hx ?_) _ _
      rw [hxt, ht]
      simp

/-- `Pop` takes the first node. -/
lemma pop_spec (h : l.descriptor.Holds heap ⟨xs, k⟩) (hlen : xs.length < 2 ^ 64) :
    (l.pop heap).1 = xs.headD 0 ∧ (l.pop heap).2.descriptor.Holds heap ⟨xs.tail, k⟩ := by
  have hsize : l.size = xs.length := h.count
  cases xs with
  | nil =>
    have hhead : l.head = 0 := h.chain
    rw [pop, if_pos hhead]
    exact ⟨rfl, h⟩
  | cons x xs =>
    obtain ⟨hx, hne, hrest⟩ := h.chain
    change l.head = x at hx
    rw [pop, if_neg (hx ▸ hne)]
    refine ⟨hx, holds (hx ▸ hrest) ?_⟩
    show subU64 l.size 1 = xs.length
    rw [hsize, subU64_of_le hlen (by simp)]
    rfl

end FreeList

/-! ## The shape check -/

namespace ObjectBatch

variable {heap : Heap} {b : ObjectBatch} {c : Content}

/-- The walk of `IsCanonical` along a chain. -/
lemma canonicalWalk_spec {cur t : ℕ} {ys zs : List ℕ} (h : Chain heap 0 cur (ys ++ t :: zs)) :
    canonicalWalk heap ys.length cur = some t := by
  induction ys generalizing cur with
  | nil => exact congrArg some h.1
  | cons y ys ih =>
    obtain ⟨rfl, hne, hrest⟩ := h
    rw [List.length_cons, canonicalWalk, if_neg hne]
    exact ih hrest

/-- **A batch that holds its content passes `IsCanonical`.** -/
lemma isCanonical_of_holds (h : b.descriptor.Holds heap c) : b.isCanonical heap = true := by
  by_cases hnil : c.nodes = []
  · rw [eq_empty h hnil]
    rfl
  · have hcount : b.count ≠ 0 := fun h₀ => hnil (h.nodes_eq_nil h₀)
    obtain ⟨ys, t, hyt, ht, htail⟩ := h.exists_concat hcount
    have hchain : Chain heap 0 b.head (ys ++ [t]) := hyt ▸ h.chain
    have hbtail : b.tail = t := htail b.tail rfl
    have hlen : b.count - 1 = ys.length := by
      have : b.count = c.nodes.length := h.count
      rw [this, hyt, List.length_append]
      rfl
    have hhead : b.head ≠ 0 := by
      intro h₀
      rw [h₀] at hchain
      exact absurd hchain.eq_nil (by simp)
    have hcls : b.sizeClassIdx < kNumSizeClasses := (h.cls b.sizeClassIdx rfl).2.2 hnil
    have hlast : heap t = 0 := hchain.next_last
    rw [isCanonical, if_neg hcount, if_neg (by rw [hbtail]; omega), hlen,
      canonicalWalk_spec hchain]
    simp [hbtail, hlast]

end ObjectBatch

end Ammalloc.Intrusive
