import Ammalloc.Config

set_option relaxedAutoImplicit false
set_option autoImplicit false

/-!
# The radix page map

`PageMap` of `src/page_cache.cpp`: a four-level radix tree from page ids to span descriptors.
Interior nodes are attached on demand and never detached, so a tree of partial functions
models them; a node is `none` where the source has a null child pointer. Descriptors are
identified by the address of their pool slot.

## Main definitions

* `Ammalloc.PageMap`, `Ammalloc.PageMap.getSpan`, `Ammalloc.PageMap.hasPath`.
* `Ammalloc.PageMap.ensureRange`, `setSpan`, `clearRange` — the mutators, with the answers of
  the radix-node allocator as an input.

## Main results

* `Ammalloc.PageMap.getSpan_ensureRange`, `Ammalloc.PageMap.hasPath_ensureRange` — growth
  changes no lookup, and builds every path when it succeeds.
* `Ammalloc.PageMap.setSpan_ok` — publication on built paths succeeds and changes exactly the
  published range.
* `Ammalloc.PageMap.getSpan_clearRange` — clearing changes exactly the cleared range.
-/

namespace Ammalloc

/-- A bottom `RadixNode`: its children are `Span*`. -/
abbrev LeafNode := ℕ → Option ℕ

/-- A `RadixNode` one level above the leaves. -/
abbrev MidNode := ℕ → Option LeafNode

/-- A `RadixNode` below the root. -/
abbrev TopNode := ℕ → Option MidNode

/-- The `RadixRootNode`. -/
abbrev RootNode := ℕ → Option TopNode

/-- The page map; `root` is `none` until the first growth. -/
structure PageMap where
  root : Option RootNode := none

namespace PageMap

/-! ## Node indices of a page id -/

/-- The root index of a page id. -/
def i0 (q : ℕ) : ℕ := q >>> (radixNodeBits * 3)

/-- The index below the root. -/
def i1 (q : ℕ) : ℕ := (q >>> (radixNodeBits * 2)) &&& (radixNodeSize - 1)

/-- The index above the leaf. -/
def i2 (q : ℕ) : ℕ := (q >>> radixNodeBits) &&& (radixNodeSize - 1)

/-- The index in the leaf. -/
def i3 (q : ℕ) : ℕ := q &&& (radixNodeSize - 1)

/-- The root index as a quotient. -/
lemma i0_eq (q : ℕ) : i0 q = q / 2 ^ 27 := Nat.shiftRight_eq_div_pow q 27

/-- The index in the first level of nodes as a remainder. -/
lemma i1_eq (q : ℕ) : i1 q = q / 2 ^ 18 % 512 := by
  rw [i1, show radixNodeSize - 1 = 2 ^ 9 - 1 from rfl, Nat.and_two_pow_sub_one_eq_mod,
    Nat.shiftRight_eq_div_pow]
  rfl

/-- The index in the second level of nodes as a remainder. -/
lemma i2_eq (q : ℕ) : i2 q = q / 2 ^ 9 % 512 := by
  rw [i2, show radixNodeSize - 1 = 2 ^ 9 - 1 from rfl, Nat.and_two_pow_sub_one_eq_mod,
    Nat.shiftRight_eq_div_pow]
  rfl

/-- The index in the leaf as a remainder. -/
lemma i3_eq (q : ℕ) : i3 q = q % 512 := by
  rw [i3, show radixNodeSize - 1 = 2 ^ 9 - 1 from rfl, Nat.and_two_pow_sub_one_eq_mod]

/-- The three upper indices name the leaf `q / 512`. -/
lemma path_eq_iff (q q' : ℕ) :
    (i0 q = i0 q' ∧ i1 q = i1 q' ∧ i2 q = i2 q') ↔ q / 512 = q' / 512 := by
  simp only [i0_eq, i1_eq, i2_eq]
  omega

/-! ## Lookup -/

/-- The walk to the leaf of a page id, shared by `GetSpan`, `HasPath` and `SetSpan`. -/
def leafOf (pm : PageMap) (q : ℕ) : Option LeafNode :=
  pm.root.bind fun root =>
    if i0 q ≥ radixRootSize then none
    else (root (i0 q)).bind fun p1 => (p1 (i1 q)).bind fun p2 => p2 (i2 q)

/-- `PageMap::GetSpan`. -/
def getSpan (pm : PageMap) (q : ℕ) : Option ℕ := (pm.leafOf q).bind fun p3 => p3 (i3 q)

/-- `PageMap::HasPath`. -/
def hasPath (pm : PageMap) (q : ℕ) : Bool := (pm.leafOf q).isSome

/-- Page ids past the radix capacity have no leaf. -/
lemma leafOf_eq_none_of_ge {pm : PageMap} {q : ℕ} (h : i0 q ≥ radixRootSize) :
    pm.leafOf q = none := by
  unfold leafOf
  cases pm.root <;> simp [h]

/-- A page with a path has an entry in the root. -/
lemma i0_lt_of_hasPath {pm : PageMap} {q : ℕ} (h : pm.hasPath q = true) :
    i0 q < radixRootSize := by
  by_contra hge
  simp [hasPath, leafOf_eq_none_of_ge (not_lt.mp hge)] at h

/-- A mapped page has a path. -/
lemma hasPath_of_getSpan {pm : PageMap} {q i : ℕ} (h : pm.getSpan q = some i) :
    pm.hasPath q = true := by
  unfold getSpan at h
  unfold hasPath
  cases hl : pm.leafOf q with
  | none => simp [hl] at h
  | some l => rfl

/-- The page ids of one leaf share their leaf. -/
lemma leafOf_congr (pm : PageMap) {q q' : ℕ} (h : q / 512 = q' / 512) :
    pm.leafOf q = pm.leafOf q' := by
  obtain ⟨h0, h1, h2⟩ := (path_eq_iff q q').mpr h
  simp only [leafOf, h0, h1, h2]

/-! ## Stores -/

/-- Replace the leaf of page id `q` along a walk `root → p1 → p2`. -/
def attach (root : RootNode) (p1 : TopNode) (p2 : MidNode) (q : ℕ) (leaf : LeafNode) : PageMap :=
  ⟨some (Function.update root (i0 q) (some (Function.update p1 (i1 q)
    (some (Function.update p2 (i2 q) (some leaf))))))⟩

/-- The leaves after one leaf has been replaced: the nodes on the walk keep their other
children. -/
lemma leafOf_attach {pm : PageMap} {root : RootNode} {p1 : TopNode} {p2 : MidNode} {q : ℕ}
    (leaf : LeafNode) (hq : i0 q < radixRootSize)
    (hroot : ∀ q', pm.leafOf q' = if i0 q' ≥ radixRootSize then none
      else (root (i0 q')).bind fun p1 => (p1 (i1 q')).bind fun p2 => p2 (i2 q'))
    (h1 : (root (i0 q)).getD (fun _ => none) = p1)
    (h2 : (p1 (i1 q)).getD (fun _ => none) = p2) (q' : ℕ) :
    (attach root p1 p2 q leaf).leafOf q' =
      if q' / 512 = q / 512 then some leaf else pm.leafOf q' := by
  have hpath := path_eq_iff q' q
  rw [hroot q']
  simp only [attach, leafOf, Option.bind_some]
  by_cases hr : i0 q' ≥ radixRootSize
  · have hne : ¬ q' / 512 = q / 512 := by
      intro he
      obtain ⟨h0, -, -⟩ := hpath.mpr he
      omega
    simp [hr, hne]
  simp only [if_neg hr]
  by_cases h0 : i0 q' = i0 q
  swap
  · have hne : ¬ q' / 512 = q / 512 := fun he => h0 (hpath.mpr he).1
    simp [Function.update_of_ne h0, hne]
  rw [h0, Function.update_self, Option.bind_some]
  by_cases h1' : i1 q' = i1 q
  swap
  · have hne : ¬ q' / 512 = q / 512 := fun he => h1' (hpath.mpr he).2.1
    rw [Function.update_of_ne h1', if_neg hne, ← h1]
    cases root (i0 q) <;> simp
  rw [h1', Function.update_self, Option.bind_some]
  by_cases h2' : i2 q' = i2 q
  swap
  · have hne : ¬ q' / 512 = q / 512 := fun he => h2' (hpath.mpr he).2.2
    rw [Function.update_of_ne h2', if_neg hne, ← h2, ← h1]
    cases root (i0 q) with
    | none => simp
    | some t => cases ht : t (i1 q) <;> simp [ht]
  rw [if_pos (hpath.mp ⟨h0, h1', h2'⟩), h2', Function.update_self]

/-- Store a leaf on an existing path. -/
def storeLeaf (pm : PageMap) (q : ℕ) (leaf : LeafNode) : PageMap :=
  let root := pm.root.getD fun _ => none
  let p1 := (root (i0 q)).getD fun _ => none
  let p2 := (p1 (i1 q)).getD fun _ => none
  attach root p1 p2 q leaf

/-- The root, read as a node without children when it is missing, gives the same walks. -/
lemma leafOf_eq_root (pm : PageMap) (q : ℕ) :
    pm.leafOf q = if i0 q ≥ radixRootSize then none
      else ((pm.root.getD fun _ => none) (i0 q)).bind fun p1 =>
        (p1 (i1 q)).bind fun p2 => p2 (i2 q) := by
  unfold leafOf
  cases pm.root <;> simp

/-- The leaves after `storeLeaf`. -/
lemma leafOf_storeLeaf {pm : PageMap} {q : ℕ} (hq : i0 q < radixRootSize) (leaf : LeafNode)
    (q' : ℕ) :
    (pm.storeLeaf q leaf).leafOf q' =
      if q' / 512 = q / 512 then some leaf else pm.leafOf q' :=
  leafOf_attach _ hq pm.leafOf_eq_root rfl rfl q'

/-- The stores of one leaf pass: children `[i, i + count)` become `v`. -/
def storeRange (leaf : LeafNode) (i count : ℕ) (v : Option ℕ) : LeafNode :=
  fun j => if i ≤ j ∧ j < i + count then v else leaf j

/-- The lookups after one leaf pass of `count` pages from `q` on. -/
lemma getSpan_storeRange {pm : PageMap} {q count : ℕ} {leaf : LeafNode} {v : Option ℕ}
    (hq : pm.leafOf q = some leaf) (hc : count ≤ radixNodeSize - i3 q) (q' : ℕ) :
    (pm.storeLeaf q (storeRange leaf (i3 q) count v)).getSpan q' =
      if q ≤ q' ∧ q' < q + count then v else pm.getSpan q' := by
  have hlt : i0 q < radixRootSize :=
    i0_lt_of_hasPath (show pm.hasPath q = true by simp [hasPath, hq])
  unfold radixNodeSize at hc
  unfold getSpan
  rw [leafOf_storeLeaf hlt]
  rw [i3_eq] at hc
  by_cases hleaf : q' / 512 = q / 512
  · rw [if_pos hleaf, leafOf_congr pm hleaf, hq]
    simp only [Option.bind_some, storeRange, i3_eq]
    by_cases hin : q ≤ q' ∧ q' < q + count
    · rw [if_pos hin, if_pos (by omega)]
    · rw [if_neg hin, if_neg (by omega)]
  · rw [if_neg hleaf, if_neg (by omega)]

/-- A write of a leaf builds and destroys no path. -/
lemma hasPath_storeLeaf {pm : PageMap} {q : ℕ} (hq : pm.hasPath q = true) (leaf : LeafNode)
    (q' : ℕ) : (pm.storeLeaf q leaf).hasPath q' = pm.hasPath q' := by
  simp only [hasPath, leafOf_storeLeaf (i0_lt_of_hasPath hq)]
  split
  · rename_i h
    rw [leafOf_congr pm h]
    exact hq.symm
  · rfl

/-! ## Growth -/

/-- `TryNewRadixNode`: the next answer of the node allocator. -/
def tryNewRadixNode : List Bool → Bool × List Bool
  | [] => (false, [])
  | ok :: nodes => (ok, nodes)

/-- Load a child pointer, attaching a fresh empty node when it is null. -/
def childOrNew {α : Type} (child : Option (ℕ → Option α)) (nodes : List Bool) :
    Option (ℕ → Option α) × List Bool :=
  match child with
  | some node => (some node, nodes)
  | none =>
    match tryNewRadixNode nodes with
    | (true, nodes) => (some fun _ => none, nodes)
    | (false, nodes) => (none, nodes)

/-- `PageMap::EnsurePathLocked`. Nodes attached before a failure stay attached. -/
def ensurePathLocked (pm : PageMap) (nodes : List Bool) (q : ℕ) : Bool × PageMap × List Bool :=
  if i0 q ≥ radixRootSize then (false, pm, nodes)
  else
    let root := pm.root.getD fun _ => none
    match childOrNew (root (i0 q)) nodes with
    | (none, nodes) => (false, ⟨some root⟩, nodes)
    | (some p1, nodes) =>
      match childOrNew (p1 (i1 q)) nodes with
      | (none, nodes) => (false, ⟨some (Function.update root (i0 q) (some p1))⟩, nodes)
      | (some p2, nodes) =>
        match childOrNew (p2 (i2 q)) nodes with
        | (none, nodes) =>
          (false, ⟨some (Function.update root (i0 q)
            (some (Function.update p1 (i1 q) (some p2))))⟩, nodes)
        | (some p3, nodes) => (true, attach root p1 p2 q p3, nodes)

/-- The loop of `PageMap::EnsureRange`, one leaf at a time. -/
def ensureLoop : ℕ → PageMap → List Bool → ℕ → ℕ → Bool × PageMap × List Bool
  | 0, pm, nodes, _, _ => (true, pm, nodes)
  | fuel + 1, pm, nodes, current, remaining =>
    if remaining = 0 then (true, pm, nodes)
    else if i0 current ≥ radixRootSize then (false, pm, nodes)
    else
      let step := min remaining (radixNodeSize - i3 current)
      if pm.hasPath current then ensureLoop fuel pm nodes (current + step) (remaining - step)
      else
        match pm.ensurePathLocked nodes current with
        | (true, pm, nodes) => ensureLoop fuel pm nodes (current + step) (remaining - step)
        | (false, pm, nodes) => (false, pm, nodes)

/-- `PageMap::EnsureRange`. Each pass covers at least one page, so `page_num` passes are
enough. -/
def ensureRange (pm : PageMap) (nodes : List Bool) (startPageId pageNum : ℕ) :
    Bool × PageMap × List Bool :=
  if pageNum = 0 then (true, pm, nodes)
  else if pageNum > 1 ∧ startPageId > sizeMax - (pageNum - 1) then (false, pm, nodes)
  else ensureLoop pageNum pm nodes startPageId pageNum

/-- `pm'` has the leaves of `pm` and possibly new empty ones. -/
def Grows (pm pm' : PageMap) : Prop :=
  ∀ q, pm'.leafOf q = pm.leafOf q ∨ (pm.leafOf q = none ∧ pm'.leafOf q = some fun _ => none)

/-- A map grows to itself. -/
lemma Grows.refl (pm : PageMap) : pm.Grows pm := fun _ => Or.inl rfl

/-- Growth in two steps is growth. -/
lemma Grows.trans {pm pm' pm'' : PageMap} (h : pm.Grows pm') (h' : pm'.Grows pm'') :
    pm.Grows pm'' := by
  intro q
  rcases h' q with h₁ | ⟨h₁, h₂⟩
  · rw [h₁]; exact h q
  · rcases h q with h₃ | ⟨h₃, h₄⟩
    · exact Or.inr ⟨h₃ ▸ h₁, h₂⟩
    · rw [h₁] at h₄; exact absurd h₄ (by simp)

/-- Growth changes no lookup. -/
lemma Grows.getSpan {pm pm' : PageMap} (h : pm.Grows pm') (q : ℕ) :
    pm'.getSpan q = pm.getSpan q := by
  unfold PageMap.getSpan
  rcases h q with h | ⟨h₁, h₂⟩
  · rw [h]
  · rw [h₁, h₂]; rfl

/-- Growth keeps every path. -/
lemma Grows.hasPath {pm pm' : PageMap} (h : pm.Grows pm') {q : ℕ} (hp : pm.hasPath q = true) :
    pm'.hasPath q = true := by
  unfold PageMap.hasPath at hp ⊢
  rcases h q with h | ⟨-, h⟩
  · rw [h]; exact hp
  · rw [h]; rfl

/-- A child pointer after `childOrNew` is the old node, or a node without children. -/
lemma childOrNew_some {α : Type} {child : Option (ℕ → Option α)} {nodes nodes' : List Bool}
    {node : ℕ → Option α} (h : childOrNew child nodes = (some node, nodes')) :
    child.getD (fun _ => none) = node ∧ (child = none → node = fun _ => none) := by
  unfold childOrNew at h
  cases child with
  | some n =>
    simp only [Prod.mk.injEq, Option.some.injEq] at h
    exact ⟨h.1, by simp⟩
  | none =>
    simp only at h
    split at h
    · simp only [Prod.mk.injEq, Option.some.injEq] at h
      exact ⟨h.1, fun _ => h.1.symm⟩
    · simp at h

/-- **`EnsurePathLocked` only grows the tree**, and on success the path exists.

The three failure exits attach zero, one or two nodes without children, which hold no leaf. -/
lemma ensurePathLocked_spec (pm : PageMap) (nodes : List Bool) (q : ℕ) :
    pm.Grows (pm.ensurePathLocked nodes q).2.1 ∧
      ((pm.ensurePathLocked nodes q).1 = true →
        (pm.ensurePathLocked nodes q).2.1.hasPath q = true) := by
  unfold ensurePathLocked
  split
  · exact ⟨Grows.refl pm, by simp⟩
  rename_i hq
  have hq' : i0 q < radixRootSize := not_le.mp hq
  have hroot := pm.leafOf_eq_root
  set root := pm.root.getD fun _ => none with hr
  simp only
  split
  · refine ⟨fun q' => Or.inl ?_, by simp⟩
    rw [hroot q']; rfl
  rename_i p1 nodes1 h1
  obtain ⟨h1, h1'⟩ := childOrNew_some h1
  split
  · refine ⟨fun q' => Or.inl ?_, by simp⟩
    rw [hroot q']
    simp only [leafOf, Option.bind_some]
    by_cases h0 : i0 q' = i0 q
    · rw [h0, Function.update_self, Option.bind_some, ← h1]
      cases root (i0 q) <;> simp
    · rw [Function.update_of_ne h0]
  rename_i p2 nodes2 h2
  obtain ⟨h2, h2'⟩ := childOrNew_some h2
  split
  · refine ⟨fun q' => Or.inl ?_, by simp⟩
    rw [hroot q']
    simp only [leafOf, Option.bind_some]
    by_cases h0 : i0 q' = i0 q
    · rw [h0, Function.update_self, Option.bind_some]
      by_cases h1q : i1 q' = i1 q
      · rw [h1q, Function.update_self, Option.bind_some, ← h2, ← h1]
        cases root (i0 q) with
        | none => simp
        | some t => cases ht : t (i1 q) <;> simp [ht]
      · rw [Function.update_of_ne h1q, ← h1]
        cases root (i0 q) <;> simp
    · rw [Function.update_of_ne h0]
  rename_i p3 nodes3 h3
  obtain ⟨h3, h3'⟩ := childOrNew_some h3
  have hleaf := leafOf_attach p3 hq' hroot h1 h2
  refine ⟨fun q' => ?_, fun _ => ?_⟩
  · rw [hleaf q']
    split
    · rename_i hsame
      rw [leafOf_congr pm hsame, hroot q, if_neg hq]
      -- the leaf is the old one if the walk reached it, and a fresh empty one otherwise
      have hwalk : ((root (i0 q)).bind fun p1 => (p1 (i1 q)).bind fun p2 => p2 (i2 q)) =
          p2 (i2 q) := by
        rw [← h2, ← h1]
        cases root (i0 q) with
        | none => simp
        | some t => cases ht : t (i1 q) <;> simp [ht]
      rw [hwalk]
      cases hp : p2 (i2 q) with
      | none => exact Or.inr ⟨rfl, by rw [h3' hp]⟩
      | some l => rw [hp] at h3; exact Or.inl (by rw [← h3]; rfl)
    · exact Or.inl rfl
  · simp [hasPath, hleaf q]

/-- The growth loop only grows the tree, and on success every page of the range has a path. -/
lemma ensureLoop_spec {fuel : ℕ} {pm : PageMap} {nodes : List Bool} {current remaining : ℕ}
    (hfuel : remaining ≤ fuel) :
    pm.Grows (ensureLoop fuel pm nodes current remaining).2.1 ∧
      ((ensureLoop fuel pm nodes current remaining).1 = true →
        ∀ q, current ≤ q → q < current + remaining →
          (ensureLoop fuel pm nodes current remaining).2.1.hasPath q = true) := by
  induction fuel generalizing pm nodes current remaining with
  | zero => exact ⟨Grows.refl pm, fun _ q h₁ h₂ => by omega⟩
  | succ fuel ih =>
    unfold ensureLoop
    split
    · exact ⟨Grows.refl pm, fun _ q h₁ h₂ => by omega⟩
    split
    · exact ⟨Grows.refl pm, by simp⟩
    rename_i hr hi0
    have hi3 : i3 current < radixNodeSize := by rw [i3_eq]; exact Nat.mod_lt _ (by norm_num)
    have hstep : 1 ≤ min remaining (radixNodeSize - i3 current) := by omega
    -- the pages of this pass share the leaf of `current`
    have hpass : ∀ {p : PageMap} {q : ℕ}, p.hasPath current = true → current ≤ q →
        q < current + min remaining (radixNodeSize - i3 current) → p.hasPath q = true := by
      intro p q hp h₁ h₂
      have hsame : q / 512 = current / 512 := by
        rw [i3_eq] at h₂
        unfold radixNodeSize at h₂
        omega
      rw [hasPath, leafOf_congr p hsame]
      exact hp
    simp only
    split
    · rename_i hp
      obtain ⟨hg, hok⟩ := @ih pm nodes
        (current + min remaining (radixNodeSize - i3 current))
        (remaining - min remaining (radixNodeSize - i3 current)) (by omega)
      refine ⟨hg, fun h q h₁ h₂ => ?_⟩
      rcases Nat.lt_or_ge q (current + min remaining (radixNodeSize - i3 current)) with hlt | hge
      · exact hg.hasPath (hpass hp h₁ hlt)
      · exact hok h q hge (by omega)
    · have hspec := ensurePathLocked_spec pm nodes current
      split
      · rename_i pm' nodes' he
        rw [he] at hspec
        obtain ⟨hg', hp⟩ := hspec
        obtain ⟨hg, hok⟩ := @ih pm' nodes'
          (current + min remaining (radixNodeSize - i3 current))
          (remaining - min remaining (radixNodeSize - i3 current)) (by omega)
        refine ⟨hg'.trans hg, fun h q h₁ h₂ => ?_⟩
        rcases Nat.lt_or_ge q (current + min remaining (radixNodeSize - i3 current))
          with hlt | hge
        · exact hg.hasPath (hpass (hp rfl) h₁ hlt)
        · exact hok h q hge (by omega)
      · rename_i pm' nodes' he
        rw [he] at hspec
        exact ⟨hspec.1, by simp⟩

/-- **`EnsureRange` only grows the tree.** -/
theorem grows_ensureRange (pm : PageMap) (nodes : List Bool) (start n : ℕ) :
    pm.Grows (pm.ensureRange nodes start n).2.1 := by
  unfold ensureRange
  split
  · exact Grows.refl pm
  split
  · exact Grows.refl pm
  · exact (ensureLoop_spec le_rfl).1

/-- **`EnsureRange` changes no lookup**, whether it succeeds or not. -/
theorem getSpan_ensureRange (pm : PageMap) (nodes : List Bool) (start n q : ℕ) :
    (pm.ensureRange nodes start n).2.1.getSpan q = pm.getSpan q :=
  (grows_ensureRange pm nodes start n).getSpan q

/-- **A successful `EnsureRange` builds every path of the range.** -/
theorem hasPath_ensureRange {pm : PageMap} {nodes : List Bool} {start n : ℕ}
    (h : (pm.ensureRange nodes start n).1 = true) {q : ℕ} (h₁ : start ≤ q) (h₂ : q < start + n) :
    (pm.ensureRange nodes start n).2.1.hasPath q = true := by
  unfold ensureRange at h ⊢
  split at h
  · omega
  split at h
  · simp at h
  · rename_i hn hs
    rw [if_neg hn, if_neg hs]
    exact (ensureLoop_spec le_rfl).2 h q h₁ h₂

/-! ## Publication -/

/-- The loop of `PageMap::SetSpan`, one leaf at a time. -/
def setLoop (id : ℕ) : ℕ → PageMap → ℕ → ℕ → Except Fault PageMap
  | 0, pm, _, _ => .ok pm
  | fuel + 1, pm, current, remaining =>
    if remaining = 0 then .ok pm
    else if i0 current ≥ radixRootSize then
      .error (.fatal "PageMap::SetSpan page ID is out of range")
    else
      match pm.leafOf current with
      | none => .error (.fatal "PageMap::SetSpan path was not prepared")
      | some p3 =>
        let count := min remaining (radixNodeSize - i3 current)
        setLoop id fuel (pm.storeLeaf current (storeRange p3 (i3 current) count (some id)))
          (current + count) (remaining - count)

/-- `PageMap::SetSpan` of the descriptor `id` with its page range. -/
def setSpan (pm : PageMap) (id startPageIdx pageNum : ℕ) : Except Fault PageMap :=
  if pageNum = 0 then .error (.fatal "PageMap::SetSpan received invalid Span")
  else if pm.root = none then .error (.fatal "PageMap::SetSpan path was not prepared")
  else setLoop id pageNum pm startPageIdx pageNum

/-- The publication loop on built paths. -/
lemma setLoop_ok {id fuel : ℕ} {pm : PageMap} {current remaining : ℕ} (hfuel : remaining ≤ fuel)
    (hp : ∀ q, current ≤ q → q < current + remaining → pm.hasPath q = true) :
    ∃ pm', setLoop id fuel pm current remaining = .ok pm' ∧
      (∀ q, pm'.getSpan q =
        if current ≤ q ∧ q < current + remaining then some id else pm.getSpan q) ∧
      ∀ q, pm'.hasPath q = pm.hasPath q := by
  induction fuel generalizing pm current remaining with
  | zero =>
    refine ⟨pm, rfl, fun q => ?_, fun _ => rfl⟩
    rw [if_neg (by omega)]
  | succ fuel ih =>
    unfold setLoop
    split
    · refine ⟨pm, rfl, fun q => ?_, fun _ => rfl⟩
      rw [if_neg (by omega)]
    rename_i hr
    have hpc := hp current le_rfl (by omega)
    rw [if_neg (not_le.mpr (i0_lt_of_hasPath hpc))]
    obtain ⟨p3, hp3⟩ := Option.isSome_iff_exists.mp hpc
    have hi3 : i3 current < radixNodeSize := by rw [i3_eq]; exact Nat.mod_lt _ (by norm_num)
    set count := min remaining (radixNodeSize - i3 current) with hcount
    simp only [hp3]
    have hkeep := hasPath_storeLeaf hpc (storeRange p3 (i3 current) count (some id))
    obtain ⟨pm', hrun, hget, hpath⟩ := @ih
      (pm.storeLeaf current (storeRange p3 (i3 current) count (some id)))
      (current + count) (remaining - count) (by omega)
      (fun q h₁ h₂ => by rw [hkeep]; exact hp q (by omega) (by omega))
    refine ⟨pm', hrun, fun q => ?_, fun q => (hpath q).trans (hkeep q)⟩
    rw [hget q, getSpan_storeRange hp3 (by omega)]
    split_ifs <;> first | rfl | omega

/-- **`SetSpan` on built paths** reaches none of its fatal branches and changes exactly the
lookups of the published range. -/
theorem setSpan_ok {pm : PageMap} (id : ℕ) {start n : ℕ} (hn : 0 < n)
    (hp : ∀ q, start ≤ q → q < start + n → pm.hasPath q = true) :
    ∃ pm', pm.setSpan id start n = .ok pm' ∧
      (∀ q, pm'.getSpan q = if start ≤ q ∧ q < start + n then some id else pm.getSpan q) ∧
      ∀ q, pm'.hasPath q = pm.hasPath q := by
  unfold setSpan
  have hroot : pm.root ≠ none := by
    intro h
    have := hp start le_rfl (by omega)
    simp [hasPath, leafOf, h] at this
  rw [if_neg (by omega), if_neg hroot]
  exact setLoop_ok le_rfl hp

/-! ## Clearing -/

/-- The loop of `PageMap::ClearRange`: pages under a missing node are skipped up to the end of
the node's coverage. -/
def clearLoop : ℕ → PageMap → ℕ → ℕ → PageMap
  | 0, pm, _, _ => pm
  | fuel + 1, pm, current, remaining =>
    if remaining = 0 then pm
    else if i0 current ≥ radixRootSize then pm
    else
      match (pm.root.getD fun _ => none) (i0 current) with
      | none =>
        let step := min remaining (2 ^ 27 - (current &&& (2 ^ 27 - 1)))
        clearLoop fuel pm (current + step) (remaining - step)
      | some p1 =>
        match p1 (i1 current) with
        | none =>
          let step := min remaining (2 ^ 18 - (current &&& (2 ^ 18 - 1)))
          clearLoop fuel pm (current + step) (remaining - step)
        | some p2 =>
          match p2 (i2 current) with
          | none =>
            let step := min remaining (2 ^ 9 - (current &&& (2 ^ 9 - 1)))
            clearLoop fuel pm (current + step) (remaining - step)
          | some p3 =>
            let cnt := min remaining (radixNodeSize - i3 current)
            clearLoop fuel (pm.storeLeaf current (storeRange p3 (i3 current) cnt none))
              (current + cnt) (remaining - cnt)

/-- `PageMap::ClearRange`. -/
def clearRange (pm : PageMap) (startPageId pageNum : ℕ) : PageMap :=
  if pm.root = none then pm else clearLoop pageNum pm startPageId pageNum

/-- Skipping `step` pages that look up to nothing. -/
lemma getSpan_skip {pm pm' : PageMap} {current remaining step : ℕ} (hstep : step ≤ remaining)
    (hnone : ∀ q, current ≤ q → q < current + step → pm.getSpan q = none)
    (h : ∀ q, pm'.getSpan q = if current + step ≤ q ∧ q < current + step + (remaining - step)
      then none else pm.getSpan q) (q : ℕ) :
    pm'.getSpan q = if current ≤ q ∧ q < current + remaining then none else pm.getSpan q := by
  rw [h q]
  by_cases hlow : current ≤ q ∧ q < current + step
  · rw [if_neg (by omega), if_pos (by omega), hnone q hlow.1 hlow.2]
  · split_ifs <;> first | rfl | omega

/-- The clearing loop. The invariant is only about lookups: a missing node makes every lookup
under it null already. -/
lemma getSpan_clearLoop {fuel : ℕ} {pm : PageMap} {current remaining : ℕ}
    (hfuel : remaining ≤ fuel) (q : ℕ) :
    (clearLoop fuel pm current remaining).getSpan q =
      if current ≤ q ∧ q < current + remaining then none else pm.getSpan q := by
  induction fuel generalizing pm current remaining q with
  | zero => rw [if_neg (by omega)]; rfl
  | succ fuel ih =>
    unfold clearLoop
    split
    · rw [if_neg (by omega)]
    split
    · rename_i hge
      -- everything from here on is past the radix capacity
      by_cases hin : current ≤ q ∧ q < current + remaining
      · rw [if_pos hin]
        have hq : i0 q ≥ radixRootSize := by
          rw [i0_eq] at hge ⊢
          have := Nat.div_le_div_right (c := 2 ^ 27) hin.1
          omega
        simp [getSpan, leafOf_eq_none_of_ge hq]
      · rw [if_neg hin]
    rename_i hr hi0
    have hroot := pm.leafOf_eq_root
    have hand : ∀ m, current &&& (2 ^ m - 1) = current % 2 ^ m :=
      fun m => Nat.and_two_pow_sub_one_eq_mod current m
    split
    · rename_i h0
      rw [hand]
      have hmod := Nat.mod_lt current (show 0 < 2 ^ 27 by norm_num)
      refine getSpan_skip (min_le_left _ _) (fun q' h₁ h₂ => ?_) (fun q' => ih (by omega) q') q
      have hsame : i0 q' = i0 current := by simp only [i0_eq]; omega
      simp only [getSpan, hroot q', hsame, h0]
      split <;> rfl
    · rename_i p1 h0
      split
      · rename_i h1
        rw [hand]
        have hmod := Nat.mod_lt current (show 0 < 2 ^ 18 by norm_num)
        refine getSpan_skip (min_le_left _ _) (fun q' h₁ h₂ => ?_) (fun q' => ih (by omega) q') q
        have hs0 : i0 q' = i0 current := by simp only [i0_eq]; omega
        have hs1 : i1 q' = i1 current := by simp only [i1_eq]; omega
        simp only [getSpan, hroot q', hs0, h0, hs1, Option.bind_some, h1]
        split <;> rfl
      · rename_i p2 h1
        split
        · rename_i h2
          rw [hand]
          have hmod := Nat.mod_lt current (show 0 < 2 ^ 9 by norm_num)
          refine getSpan_skip (min_le_left _ _) (fun q' h₁ h₂ => ?_)
            (fun q' => ih (by omega) q') q
          have hs0 : i0 q' = i0 current := by simp only [i0_eq]; omega
          have hs1 : i1 q' = i1 current := by simp only [i1_eq]; omega
          have hs2 : i2 q' = i2 current := by simp only [i2_eq]; omega
          simp only [getSpan, hroot q', hs0, h0, hs1, Option.bind_some, h1, hs2, h2]
          split <;> rfl
        · rename_i p3 h2
          have hleaf : pm.leafOf current = some p3 := by
            rw [hroot current, if_neg hi0, h0, Option.bind_some, h1, Option.bind_some, h2]
          have hi3 : i3 current < radixNodeSize := by
            rw [i3_eq]; exact Nat.mod_lt _ (by norm_num)
          simp only
          rw [ih (by omega), getSpan_storeRange hleaf (by omega)]
          split_ifs <;> first | rfl | omega

/-- **`ClearRange` changes exactly the lookups of its range**, to null. -/
theorem getSpan_clearRange (pm : PageMap) (start n q : ℕ) :
    (pm.clearRange start n).getSpan q =
      if start ≤ q ∧ q < start + n then none else pm.getSpan q := by
  unfold clearRange
  split
  · rename_i h
    have : pm.getSpan q = none := by simp [getSpan, leafOf, h]
    rw [this]
    simp
  · exact getSpan_clearLoop le_rfl q

end PageMap

end Ammalloc
