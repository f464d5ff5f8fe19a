import Ammalloc.Lib.RelyGuarantee
import Ammalloc.PageMap.Memory

set_option relaxedAutoImplicit false
set_option autoImplicit false

/-!
# The protocol of the page map

What a thread may do to the memory of the radix tree in a call, as one relation: load, attach a node
under `structure_mutex_`, or store to the slot of a page in the range of the call. From this follow
all facts that a thread may rely on while others run: no node is moved or detached, the holder of
the mutex finds the upper nodes as it left them, and a slot changes only in a call that writes its
page.

`PageMap` itself does not keep writers of one page apart; that is left to the locks of the callers.
The protocol is therefore stated twice, for callers that keep them apart and for any callers.

## Main definitions

* `Ammalloc.PageMap.RadixMemory.nodeAt` — the node at a path.
* `Ammalloc.PageMap.RadixMemory.Ok` — the invariant of the memory.
* `Ammalloc.PageMap.RadixMemory.Step`, `Ammalloc.PageMap.RadixMemory.protocol` — what a thread may
  do.

## Main results

* `Ammalloc.PageMap.RadixMemory.Step.ok` — every step keeps the invariant.
* `Ammalloc.PageMap.RadixMemory.Step.nodeAt`, `Ammalloc.PageMap.RadixMemory.Step.locked`,
  `Ammalloc.PageMap.RadixMemory.Step.getSpan` — what a step leaves alone.
-/

namespace Ammalloc

namespace PageMap

namespace RadixMemory

/-! ## Nodes and their places -/

/-- The node at a path. The indices are listed from the bottom up. -/
def nodeAt (m : RadixMemory) : List ℕ → Option ℕ
  | [] => some rootStorage
  | i :: π => (m.nodeAt π).bind fun n => m.children n i

/-- The path to the bottom node of a page id. -/
def path (q : ℕ) : List ℕ := [i2 q, i1 q, i0 q]

/-- The node at a path with one index more is a child of the node at the path. -/
lemma nodeAt_cons {m : RadixMemory} {i p : ℕ} {π : List ℕ} (h : m.nodeAt π = some p) :
    m.nodeAt (i :: π) = m.children p i := by
  simp only [nodeAt, h, Option.bind_some]

/-- The bottom node of a page id, in the memory and in its tree. -/
lemma leafOf_tree {m : RadixMemory} {q : ℕ} (hroot : m.root = true) (hq : i0 q < radixRootSize) :
    m.tree.leafOf q = (m.nodeAt (path q)).map m.children := by
  simp only [leafOf, tree, hroot, if_true, Option.bind_some, if_neg (not_le.mpr hq), path, nodeAt]
  cases m.children rootStorage (i0 q) with
  | none => rfl
  | some p1 =>
    simp only [Option.map_some, Option.bind_some]
    cases m.children p1 (i1 q) with
    | none => rfl
    | some p2 => simp only [Option.map_some, Option.bind_some]

/-- Without a root there is no leaf. -/
lemma leafOf_tree_of_not_root {m : RadixMemory} (hroot : m.root = false) (q : ℕ) :
    m.tree.leafOf q = none := by
  simp [leafOf, tree, hroot]

/-- The slot of a page, in the memory and in its tree. -/
lemma getSpan_tree {m : RadixMemory} {q p : ℕ} (hroot : m.root = true) (hq : i0 q < radixRootSize)
    (hp : m.nodeAt (path q) = some p) : m.tree.getSpan q = m.children p (i3 q) := by
  rw [getSpan, leafOf_tree hroot hq, hp]
  rfl

/-- **The nodes form a tree**: no two paths meet, and every node below the root comes from the
pool. -/
structure Shaped (m : RadixMemory) : Prop where
  distinct : ∀ π π' n, π.length ≤ 3 → π'.length ≤ 3 → m.nodeAt π = some n →
    m.nodeAt π' = some n → π = π'
  owned : ∀ i π n, π.length ≤ 2 → m.nodeAt (i :: π) = some n → n ∈ m.nodes

/-- The invariant of the memory. -/
structure Ok (m : RadixMemory) : Prop where
  alive : m.fatal = none
  rootStorage_not_mem : rootStorage ∉ m.nodes
  root_width : ∀ i, radixRootSize ≤ i → m.children rootStorage i = none
  shaped : m.root = true → m.Shaped

/-- A process with the invariant is alive. -/
lemma Ok.not_dead {m : RadixMemory} (h : m.Ok) : ¬ m.fatal.isSome = true := by
  simp [h.alive]

/-! ## What a thread may do -/

/-- The node is not in the tree yet. -/
structure Unlinked (m : RadixMemory) (n : ℕ) : Prop where
  mem : n ∈ m.nodes
  not_reached : ∀ π : List ℕ, π.length ≤ 3 → m.nodeAt π ≠ some n
  empty : ∀ i, m.children n i = none

/-- The steps of thread `t` in a call of `op`. -/
inductive Step (t : ℕ) (op : RadixCall) (m : RadixMemory) : RadixMemory → Prop
  | load : Step t op m m
  | lock (h : m.mutex = none) : Step t op m { m with mutex := some t }
  | unlock (h : m.mutex = some t) : Step t op m { m with mutex := none }
  | clearRoot (i : ℕ) (h : m.mutex = some t) (hroot : m.root = false) :
      Step t op m (m.store rootStorage i none)
  | publishRoot (h : m.mutex = some t) (hroot : m.root = false)
      (hclear : ∀ i, m.children rootStorage i = none) : Step t op m { m with root := true }
  | newNode (n : ℕ) (h : m.mutex = some t) (hroot : m.root = true) (hn : n ∉ m.nodes)
      (hne : n ≠ rootStorage) : Step t op m { m with
        nodes := n :: m.nodes
        children := Function.update m.children n fun _ => none }
  | attach (π : List ℕ) (i p n : ℕ) (h : m.mutex = some t) (hroot : m.root = true)
      (hπ : π.length ≤ 2) (hp : m.nodeAt π = some p) (hi : m.children p i = none)
      (hwidth : p = rootStorage → i < radixRootSize)
      (hn : m.Unlinked n) : Step t op m (m.store p i (some n))
  | storeLeaf (q p : ℕ) (v : Option ℕ) (hroot : m.root = true) (hq : i0 q < radixRootSize)
      (hp : m.nodeAt (path q) = some p) (hwrites : q ∈ op.writes) :
      Step t op m (m.store p (i3 q) v)

/-- The protocol of the page map. If it is `exclusive`, then calls in progress are apart. -/
def protocol (exclusive : Prop) : Protocol RadixCall RadixMemory where
  inv := Ok
  step := Step
  together op op' := exclusive → op.Apart op'

/-! ## Stores -/

/-- A store changes the child pointer that it writes, and no other. -/
lemma store_children (m : RadixMemory) (p i : ℕ) (v : Option ℕ) (n j : ℕ) :
    (m.store p i v).children n j = if n = p ∧ j = i then v else m.children n j := by
  unfold store
  by_cases hn : n = p
  · subst hn
    by_cases hj : j = i
    · simp [hj]
    · simp [hj]
  · simp [hn]

/-- The children decide where the nodes are. -/
lemma nodeAt_congr {m m' : RadixMemory} (h : m'.children = m.children) (π : List ℕ) :
    m'.nodeAt π = m.nodeAt π := by
  induction π with
  | nil => rfl
  | cons i π ih => simp only [nodeAt, ih, h]

/-- A store to a bottom node moves no node. -/
lemma Shaped.nodeAt_storeLeaf {m : RadixMemory} (h : m.Shaped) {ρ : List ℕ} {p : ℕ}
    (hρ : ρ.length = 3) (hp : m.nodeAt ρ = some p) (i : ℕ) (v : Option ℕ) {π : List ℕ}
    (hπ : π.length ≤ 3) : (m.store p i v).nodeAt π = m.nodeAt π := by
  induction π with
  | nil => rfl
  | cons j π ih =>
    rw [List.length_cons] at hπ
    simp only [nodeAt, ih (by omega)]
    cases hn : m.nodeAt π with
    | none => rfl
    | some n =>
      have hne : n ≠ p := by
        rintro rfl
        have heq := h.distinct π ρ n (by omega) (by omega) hn hp
        rw [heq] at hπ
        omega
      simp only [Option.bind_some, store_children, hne, false_and, if_false]

/-- A node that is attached is the only change to the places of the nodes. -/
lemma Shaped.nodeAt_attach {m : RadixMemory} (h : m.Shaped) {π : List ℕ} {i p n : ℕ}
    (hπ : π.length ≤ 2) (hp : m.nodeAt π = some p) (hi : m.children p i = none)
    (hn : m.Unlinked n) {ρ : List ℕ} (hρ : ρ.length ≤ 3) :
    (m.store p i (some n)).nodeAt ρ = if ρ = i :: π then some n else m.nodeAt ρ := by
  induction ρ with
  | nil => rfl
  | cons j ρ ih =>
    rw [List.length_cons] at hρ
    have ih := ih (by omega)
    by_cases hext : ρ = i :: π
    · -- below the new node there is nothing yet
      have hne : n ≠ p := fun heq => hn.not_reached π (by omega) (heq ▸ hp)
      have hold : m.nodeAt ρ = none := by
        rw [hext, nodeAt_cons hp, hi]
      have hlen : j :: ρ ≠ i :: π := by
        intro heq
        have hsame : ρ = π := (List.cons.inj heq).2
        have hlong : (i :: π).length = π.length := congrArg List.length (hext.symm.trans hsame)
        simp at hlong
      rw [if_pos hext] at ih
      rw [if_neg hlen]
      simp only [nodeAt, ih, hold, Option.bind_some, Option.bind_none, store_children, hne,
        false_and, if_false, hn.empty j]
    · rw [if_neg hext] at ih
      simp only [nodeAt, ih]
      cases hr : m.nodeAt ρ with
      | none =>
        have hne : ¬ j :: ρ = i :: π := by
          intro heq
          rw [(List.cons.inj heq).2, hp] at hr
          cases hr
        simp only [Option.bind_none, if_neg hne]
      | some r =>
        simp only [Option.bind_some, store_children]
        by_cases hrp : r = p
        · have hρπ : ρ = π := h.distinct ρ π p (by omega) (by omega) (hrp ▸ hr) hp
          subst hrp hρπ
          simp only [true_and, List.cons.injEq, and_true]
        · have hne : ¬ j :: ρ = i :: π := by
            intro heq
            rw [(List.cons.inj heq).2, hp] at hr
            exact hrp (Option.some.inj hr).symm
          simp only [hrp, false_and, if_false, if_neg hne]

/-- A node out of the tree may be rewritten. -/
lemma nodeAt_newNode {m : RadixMemory} {n : ℕ} {c : ℕ → Option ℕ} (nodes : List ℕ)
    (hn : ∀ π : List ℕ, π.length ≤ 2 → m.nodeAt π ≠ some n) {ρ : List ℕ} (hρ : ρ.length ≤ 3) :
    ({ m with nodes := nodes, children := Function.update m.children n c } : RadixMemory).nodeAt ρ =
      m.nodeAt ρ := by
  induction ρ with
  | nil => rfl
  | cons j ρ ih =>
    rw [List.length_cons] at hρ
    simp only [nodeAt, ih (by omega)]
    cases hr : m.nodeAt ρ with
    | none => rfl
    | some r =>
      have hne : r ≠ n := fun heq => hn ρ (by omega) (heq ▸ hr)
      simp only [Option.bind_some, Function.update_of_ne hne]

/-- A node that the pool has not handed out is not in the tree. -/
lemma Ok.not_reached {m : RadixMemory} (h : m.Ok) (hroot : m.root = true) {n : ℕ}
    (hn : n ∉ m.nodes) (hne : n ≠ rootStorage) {π : List ℕ} (hπ : π.length ≤ 3) :
    m.nodeAt π ≠ some n := by
  cases π with
  | nil =>
    intro heq
    exact hne (Option.some.inj heq).symm
  | cons i π =>
    intro heq
    rw [List.length_cons] at hπ
    exact hn ((h.shaped hroot).owned i π n (by omega) heq)

/-! ## What a step changes -/

variable {t u : ℕ} {op : RadixCall} {m m' : RadixMemory}

/-- The root stays published. -/
lemma Step.root (h : Step t op m m') (hroot : m.root = true) : m'.root = true := by
  cases h <;> first | exact hroot | rfl

/-- The holder of the mutex keeps it. -/
lemma Step.mutex (h : Step u op m m') (hu : u ≠ t) (ht : m.mutex = some t) : m'.mutex = some t := by
  cases h with
  | lock h => rw [h] at ht; cases ht
  | unlock h => exact absurd (Option.some.inj (h.symm.trans ht)) hu
  | _ => exact ht

/-- **No node is moved or detached.** -/
lemma Step.nodeAt (h : Step t op m m') (hok : m.Ok) (hroot : m.root = true) {π : List ℕ} {n : ℕ}
    (hπ : π.length ≤ 3) (hn : m.nodeAt π = some n) : m'.nodeAt π = some n := by
  have hshaped := hok.shaped hroot
  cases h with
  | clearRoot i h hroot' => rw [hroot] at hroot'; cases hroot'
  | newNode k h _ hk hne =>
    rw [nodeAt_newNode _ (fun ρ hρ => hok.not_reached hroot hk hne (by omega)) hπ]
    exact hn
  | attach ρ i p k h _ hρ hp hi hwidth hk =>
    rw [hshaped.nodeAt_attach hρ hp hi hk hπ]
    split
    next heq =>
      rw [heq, nodeAt_cons hp, hi] at hn
      cases hn
    next => exact hn
  | storeLeaf q p v _ hq hp _ =>
    rw [hshaped.nodeAt_storeLeaf rfl hp _ _ hπ]
    exact hn
  | _ =>
    refine Eq.trans (nodeAt_congr ?_ π) hn
    rfl

/-- What another thread leaves alone while thread `t` holds the mutex: which nodes there are and
where, and the pointers in every node that is not a bottom node. -/
lemma Step.locked (h : Step u op m m') (hok : m.Ok) (hu : u ≠ t) (ht : m.mutex = some t) :
    m'.root = m.root ∧ m'.nodes = m.nodes ∧
      (m.root = true → ∀ π : List ℕ, π.length ≤ 3 → m'.nodeAt π = m.nodeAt π) ∧
      ∀ n, (m.root = true → ∀ q, m.nodeAt (path q) ≠ some n) →
        m'.children n = m.children n := by
  have hfalse : m.mutex ≠ some u := fun h => hu (Option.some.inj (h.symm.trans ht))
  cases h with
  | lock h => rw [h] at ht; cases ht
  | unlock h => exact absurd h hfalse
  | clearRoot i h _ => exact absurd h hfalse
  | publishRoot h _ _ => exact absurd h hfalse
  | newNode k h _ _ _ => exact absurd h hfalse
  | attach ρ i p k h _ _ _ _ _ _ => exact absurd h hfalse
  | storeLeaf q p v hroot hq hp _ =>
    refine ⟨rfl, rfl, fun _ π hπ => (hok.shaped hroot).nodeAt_storeLeaf rfl hp _ _ hπ,
      fun n hn => funext fun i => ?_⟩
    have hne : n ≠ p := fun heq => hn hroot q (heq ▸ hp)
    rw [store_children, if_neg fun h => hne h.1]
  | _ =>
    refine ⟨rfl, rfl, fun _ π _ => nodeAt_congr ?_ π, fun _ _ => rfl⟩
    rfl

/-- Memories with the same root and pointers represent the same tree. -/
lemma tree_congr (hroot : m'.root = m.root) (h : m'.children = m.children) : m'.tree = m.tree := by
  unfold tree
  rw [hroot, h]

/-- A page with a path has one after any step. -/
lemma Step.hasPath (h : Step t op m m') (hok : m.Ok) {q : ℕ} (hq : m.tree.hasPath q = true) :
    m'.tree.hasPath q = true := by
  have hi0 := i0_lt_of_hasPath hq
  cases hr : m.root with
  | false =>
    rw [PageMap.hasPath, leafOf_tree_of_not_root hr] at hq
    cases hq
  | true =>
    rw [PageMap.hasPath, leafOf_tree hr hi0, Option.isSome_map, Option.isSome_iff_exists] at hq
    obtain ⟨p, hp⟩ := hq
    rw [PageMap.hasPath, leafOf_tree (h.root hr) hi0, h.nodeAt hok hr (by simp [path]) hp]
    rfl

/-- Two page ids with one path and one index are one. -/
lemma eq_of_path_eq {q q' : ℕ} (hpath : path q = path q') (h3 : i3 q = i3 q') : q = q' := by
  simp only [path, List.cons.injEq, and_true] at hpath
  have hdiv : q / 512 = q' / 512 :=
    (path_eq_iff q q').mp ⟨hpath.2.2, hpath.2.1, hpath.1⟩
  rw [i3_eq, i3_eq] at h3
  omega

/-- The lookups after a store to the slot of a page. -/
lemma Ok.getSpan_store (hok : m.Ok) (hroot : m.root = true) {q p : ℕ} (hq : i0 q < radixRootSize)
    (hp : m.nodeAt (path q) = some p) (v : Option ℕ) (q' : ℕ) :
    (m.store p (i3 q) v).tree.getSpan q' = if q' = q then v else m.tree.getSpan q' := by
  by_cases hq' : i0 q' < radixRootSize
  swap
  · have hne : q' ≠ q := fun heq => hq' (heq ▸ hq)
    simp only [PageMap.getSpan, leafOf_eq_none_of_ge (not_lt.mp hq'), if_neg hne]
  have hlen : (path q').length ≤ 3 := by simp [path]
  have hat := (hok.shaped hroot).nodeAt_storeLeaf (ρ := path q) rfl hp (i3 q) v hlen
  rw [PageMap.getSpan, PageMap.getSpan, leafOf_tree hroot hq',
    leafOf_tree (m := m.store p (i3 q) v) hroot hq', hat]
  split
  next heq =>
    rw [heq, hp]
    simp [store_children]
  next hne =>
    cases hl : m.nodeAt (path q') with
    | none => rfl
    | some l =>
      have hslot : ¬ (l = p ∧ i3 q' = i3 q) := by
        rintro ⟨rfl, h3⟩
        have hsame := (hok.shaped hroot).distinct _ _ _ hlen (by simp [path]) hl hp
        exact hne (eq_of_path_eq hsame h3)
      simp only [Option.map_some, Option.bind_some, store_children, if_neg hslot]

/-- **The lookups after a step**: only a page that the call writes may change. -/
lemma Step.getSpan (h : Step t op m m') (hok : m.Ok) {q : ℕ} (hwrites : q ∉ op.writes) :
    m'.tree.getSpan q = m.tree.getSpan q := by
  by_cases hq : i0 q < radixRootSize
  swap
  · simp only [PageMap.getSpan, leafOf_eq_none_of_ge (not_lt.mp hq)]
  have hlen : (path q).length ≤ 3 := by simp [path]
  cases h with
  | clearRoot i h hroot =>
    rw [PageMap.getSpan, PageMap.getSpan, leafOf_tree_of_not_root (m := m.store _ _ _) hroot,
      leafOf_tree_of_not_root hroot]
  | publishRoot h hroot hclear =>
    rw [PageMap.getSpan, PageMap.getSpan, leafOf_tree_of_not_root hroot,
      leafOf_tree (m := { m with root := true }) rfl hq]
    simp [path, RadixMemory.nodeAt, hclear]
  | newNode k h hroot hk hne =>
    have hreach : ∀ π : List ℕ, π.length ≤ 3 → m.nodeAt π ≠ some k :=
      fun π hπ => hok.not_reached hroot hk hne hπ
    rw [PageMap.getSpan, PageMap.getSpan, leafOf_tree hroot hq,
      leafOf_tree (m := { m with nodes := k :: m.nodes, children := _ }) hroot hq,
      nodeAt_newNode _ (fun π hπ => hreach π (by omega)) hlen]
    cases hp : m.nodeAt (path q) with
    | none => rfl
    | some p =>
      have hpk : p ≠ k := fun heq => hreach _ hlen (heq ▸ hp)
      simp only [Option.map_some, Option.bind_some, Function.update_of_ne hpk]
  | attach ρ i p k h hroot hρ hp hi hwidth hk =>
    have hat := (hok.shaped hroot).nodeAt_attach hρ hp hi hk hlen
    rw [PageMap.getSpan, PageMap.getSpan, leafOf_tree hroot hq,
      leafOf_tree (m := m.store p i (some k)) hroot hq, hat]
    split
    next heq =>
      -- the new bottom node is empty, and before there was none
      have hkp : k ≠ p := fun hkp => hk.not_reached ρ (by omega) (hkp ▸ hp)
      rw [heq, nodeAt_cons hp, hi]
      simp only [Option.map_some, Option.bind_some, Option.map_none, Option.bind_none,
        store_children, hkp, false_and, if_false, hk.empty]
    next heq =>
      cases hl : m.nodeAt (path q) with
      | none => rfl
      | some l =>
        have hlp : l ≠ p := by
          rintro rfl
          have hsame := (hok.shaped hroot).distinct _ _ _ hlen (by omega) hl hp
          rw [← hsame] at hρ
          simp [path] at hρ
        simp only [Option.map_some, Option.bind_some, store_children, hlp, false_and, if_false]
  | storeLeaf q' p v hroot hq' hp hwrites' =>
    rw [hok.getSpan_store hroot hq' hp, if_neg fun heq : q = q' => hwrites (heq ▸ hwrites')]
  | _ => exact congrArg (fun pm => PageMap.getSpan pm q) (tree_congr rfl rfl)

/-! ## Every step keeps the invariant -/

/-- The tree with a cleared root has no node but the root. -/
lemma nodeAt_of_clear (hclear : ∀ i, m.children rootStorage i = none) (i : ℕ) (π : List ℕ) :
    m.nodeAt (i :: π) = none := by
  induction π generalizing i with
  | nil => exact hclear i
  | cons j π ih =>
    show (m.nodeAt (j :: π)).bind _ = none
    rw [ih j]
    rfl

/-- The shape is that of the places of the nodes. -/
lemma Shaped.congr (h : m.Shaped) (hat : ∀ π : List ℕ, π.length ≤ 3 → m'.nodeAt π = m.nodeAt π)
    (hnodes : m.nodes ⊆ m'.nodes) : m'.Shaped where
  distinct π π' n hπ hπ' hn hn' :=
    h.distinct π π' n hπ hπ' ((hat π hπ).symm.trans hn) ((hat π' hπ').symm.trans hn')
  owned i π n hπ hn := by
    have hlen : (i :: π).length ≤ 3 := by
      rw [List.length_cons]
      omega
    exact hnodes (h.owned i π n hπ ((hat _ hlen).symm.trans hn))

/-- **Every step keeps the invariant.** -/
lemma Step.ok (h : Step t op m m') (hok : m.Ok) : m'.Ok := by
  obtain ⟨halive, hstorage, hwidth, hshaped⟩ := id hok
  cases h with
  | clearRoot i h hroot =>
    refine ⟨halive, hstorage, fun j hj => ?_, fun h => absurd (h.symm.trans hroot) (by simp)⟩
    rw [store_children]
    split
    · rfl
    · exact hwidth j hj
  | publishRoot h hroot hclear =>
    have hnone : ∀ i π, { m with root := true }.nodeAt (i :: π) = none :=
      nodeAt_of_clear (m := { m with root := true }) hclear
    refine ⟨halive, hstorage, hwidth, fun _ => ⟨fun π π' n _ _ hn hn' => ?_, fun i π n _ hn => ?_⟩⟩
    · cases π with
      | nil =>
        cases π' with
        | nil => rfl
        | cons j π' => rw [hnone] at hn'; cases hn'
      | cons i π => rw [hnone] at hn; cases hn
    · rw [hnone] at hn
      cases hn
  | newNode n h hroot hn hne =>
    refine ⟨halive, ?_, fun i hi => ?_, fun _ => (hshaped hroot).congr (fun π hπ => ?_)
      (List.subset_cons_self n m.nodes)⟩
    · rw [List.mem_cons, not_or]
      exact ⟨hne.symm, hstorage⟩
    · show Function.update m.children n _ rootStorage i = none
      rw [Function.update_of_ne hne.symm]
      exact hwidth i hi
    · exact nodeAt_newNode _ (fun ρ hρ => hok.not_reached hroot hn hne (by omega)) hπ
  | attach π i p n h hroot hπ hp hi hwidth' hn =>
    refine ⟨halive, hstorage, fun j hj => ?_, fun _ => ⟨?_, ?_⟩⟩
    · rw [store_children, if_neg]
      · exact hwidth j hj
      · intro heq
        have := hwidth' heq.1.symm
        omega
    · intro ρ ρ' k hρ hρ' hk hk'
      rw [(hshaped hroot).nodeAt_attach hπ hp hi hn hρ] at hk
      rw [(hshaped hroot).nodeAt_attach hπ hp hi hn hρ'] at hk'
      split at hk
      next heq =>
        split at hk'
        next heq' => rw [heq, heq']
        next => exact absurd (Option.some.inj hk ▸ hk') (hn.not_reached ρ' hρ')
      next =>
        split at hk'
        next => exact absurd (Option.some.inj hk' ▸ hk) (hn.not_reached ρ hρ)
        next => exact (hshaped hroot).distinct ρ ρ' k hρ hρ' hk hk'
    · intro j ρ k hρ hk
      have hlen : (j :: ρ).length ≤ 3 := by
        rw [List.length_cons]
        omega
      rw [(hshaped hroot).nodeAt_attach hπ hp hi hn hlen] at hk
      split at hk
      next => exact Option.some.inj hk ▸ hn.mem
      next => exact (hshaped hroot).owned j ρ k hρ hk
  | storeLeaf q p v hroot hq hp _ =>
    refine ⟨halive, hstorage, fun j hj => ?_, fun _ => (hshaped hroot).congr
      (fun π hπ => (hshaped hroot).nodeAt_storeLeaf rfl hp _ _ hπ) (fun _ h => h)⟩
    have hne : rootStorage ≠ p := by
      intro heq
      have hsame := (hshaped hroot).distinct [] (path q) p (by simp) (by simp [path])
        (congrArg some heq) hp
      cases hsame
    rw [store_children, if_neg fun h => hne h.1]
    exact hwidth j hj
  | _ =>
    refine ⟨halive, hstorage, hwidth,
      fun hroot => (hshaped hroot).congr (fun π _ => nodeAt_congr ?_ π)
      (fun _ h => h)⟩
    rfl

end RadixMemory

end PageMap

end Ammalloc
