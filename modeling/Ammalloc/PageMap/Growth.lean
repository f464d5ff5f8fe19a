import Ammalloc.PageMap.Protocol

set_option relaxedAutoImplicit false
set_option autoImplicit false

/-!
# Readers and growth of the page map

`GetSpan`, `HasPath` and `EnsureRange` keep to the protocol. Their programs are followed access by
access; what they know between two accesses is stable under the steps of the other threads.

## Main definitions

* `Ammalloc.PageMap.Keeps`, `Ammalloc.PageMap.StableFor` — programs that keep to the protocol, and
  assertions that others do not break.
* `Ammalloc.PageMap.Holding` — what is known under `structure_mutex_`.

## Main results

* `Ammalloc.PageMap.keeps_getSpan` — a lookup of some moment of the call.
* `Ammalloc.PageMap.keeps_childOrNew` — a node is attached where there is none.
* `Ammalloc.PageMap.keeps_ensureRange` — the paths of a range.
-/

namespace Ammalloc

namespace PageMap

/-! ## The rules of the accesses -/

open SharedCode (Meets meets_bind meets_perform)

open RadixMemory (protocol Step path)

section Rules

variable {x : Prop} {t : ℕ} {op : RadixCall} {α : Type} {H : Set RadixMemory} {m : RadixMemory}
  {J : RadixMemory → Prop}

/-- The programs of `PageMap` keep to the protocol in a call of `op` by thread `t`. -/
abbrev Keeps (x : Prop) (t : ℕ) (op : RadixCall) (Q : α → Set RadixMemory → RadixMemory → Prop) :
    Prog.Program α → Set RadixMemory → RadixMemory → Prop :=
  Meets (protocol x) RadixMemory.answer t op Q

/-- What no step of another thread changes during a call of `op`. -/
def StableFor (x : Prop) (t : ℕ) (op : RadixCall) (J : RadixMemory → Prop) : Prop :=
  ∀ u op' m m', u ≠ t → (x → op.Apart op') → J m → m.Ok → Step u op' m m' → J m'

/-- Such assertions are stable under the protocol. -/
lemma StableFor.stable (hJ : StableFor x t op J) : (protocol x).Stable t op fun _ m => J m :=
  Protocol.stable_of_step fun u op' m m' hu hx hj hm _ hstep => hJ u op' m m' hu hx hj hm hstep

/-- Two assertions that no other thread changes. -/
lemma StableFor.and {J' : RadixMemory → Prop} (h : StableFor x t op J) (h' : StableFor x t op J') :
    StableFor x t op fun m => J m ∧ J' m :=
  fun u op' m m' hu hx hj hm hstep =>
    ⟨h u op' m m' hu hx hj.1 hm hstep, h' u op' m m' hu hx hj.2 hm hstep⟩

/-- An access, made in a state of which a stable `J` holds. -/
lemma keeps_access {e : RadixAccess} {Q : e.Answer → Set RadixMemory → RadixMemory → Prop}
    (hJ : StableFor x t op J) (hm : m.Ok) (hj : J m)
    (h : ∀ H m i b m', J m → m.Ok → RadixMemory.answer t e i m = some (b, m') →
      Step t op m m' ∧ Q b (insert m' H) m') : Keeps x t op Q (Prog.access e) H m := by
  refine meets_perform hJ.stable hm hj fun H m i b m' hj hm hb => ?_
  obtain ⟨hstep, hQ⟩ := h H m i b m' hj hm hb
  exact ⟨hstep.ok hm, hstep, hQ⟩

/-- **The rule of a load** of the root pointer. -/
lemma keeps_loadRoot {Q : Option ℕ → Set RadixMemory → RadixMemory → Prop} (hJ : StableFor x t op J)
    (hm : m.Ok) (hj : J m)
    (h : ∀ H m, J m → m.Ok → Q (if m.root then some rootStorage else none) (insert m H) m) :
    Keeps x t op Q Prog.loadRoot H m := by
  refine keeps_access hJ hm hj fun H m i b m' hj hm hb => ?_
  simp only [RadixMemory.answer, if_neg hm.not_dead] at hb
  cases hb
  exact ⟨.load, h H m hj hm⟩

/-- **The rule of a load** of a child pointer. -/
lemma keeps_loadChild {Q : Option ℕ → Set RadixMemory → RadixMemory → Prop} {node i : ℕ}
    (hJ : StableFor x t op J) (hm : m.Ok) (hj : J m)
    (h : ∀ H m, J m → m.Ok → Q (m.children node i) (insert m H) m) :
    Keeps x t op Q (Prog.loadChild node i) H m := by
  refine keeps_access hJ hm hj fun H m _ b m' hj hm hb => ?_
  simp only [RadixMemory.answer, if_neg hm.not_dead] at hb
  cases hb
  exact ⟨.load, h H m hj hm⟩

/-- **The rule of a store** to a child pointer. -/
lemma keeps_storeChild {Q : Unit → Set RadixMemory → RadixMemory → Prop} {node i : ℕ}
    {v : Option ℕ} (hJ : StableFor x t op J) (hm : m.Ok) (hj : J m)
    (h : ∀ H m, J m → m.Ok → Step t op m (m.store node i v) ∧
      Q () (insert (m.store node i v) H) (m.store node i v)) :
    Keeps x t op Q (Prog.storeChild node i v) H m := by
  refine keeps_access hJ hm hj fun H m _ b m' hj hm hb => ?_
  simp only [RadixMemory.answer, if_neg hm.not_dead] at hb
  cases hb
  exact h H m hj hm

end Rules

/-! ## Readers -/

section Readers

variable {x : Prop} {t q : ℕ} {op : RadixCall} {H : Set RadixMemory} {m : RadixMemory}
  {F : RadixMemory → Prop}

/-- The trivial assertion is stable. -/
lemma stableFor_true : StableFor x t op fun _ => True := fun _ _ _ _ _ _ _ _ _ => trivial

/-- The root stays published. -/
lemma stableFor_root : StableFor x t op fun m => m.root = true :=
  fun _ _ _ _ _ _ hroot _ hstep => hstep.root hroot

/-- A node that a reader has reached stays where it is. -/
lemma stableFor_nodeAt {π : List ℕ} (hπ : π.length ≤ 3) (n : ℕ) :
    StableFor x t op fun m => m.root = true ∧ m.nodeAt π = some n :=
  fun _ _ _ _ _ _ hn hm hstep => ⟨hstep.root hn.1, hstep.nodeAt hm hn.1 hπ hn.2⟩

/-- A null pointer on the way: the page has no bottom node at this moment. -/
lemma leafOf_eq_none_of_nodeAt (hroot : m.root = true) (hq : i0 q < radixRootSize) {π ρ : List ℕ}
    (hpath : path q = ρ ++ π) (hnone : m.nodeAt π = none) : m.tree.leafOf q = none := by
  rw [RadixMemory.leafOf_tree hroot hq, hpath]
  have hall : m.nodeAt (ρ ++ π) = none := by
    clear hpath
    induction ρ with
    | nil => exact hnone
    | cons i ρ ih =>
      show (m.nodeAt (ρ ++ π)).bind _ = none
      rw [ih]
      rfl
  rw [hall]
  rfl

/-- The walk to a bottom node. If it ends early, then there is no bottom node at that moment. -/
lemma keeps_leafOf {Q : Option ℕ → Set RadixMemory → RadixMemory → Prop} (hF : StableFor x t op F)
    (hm : m.Ok) (hf : F m) (hroot : m.root = true) (hq : i0 q < radixRootSize)
    (hnone : ∀ H m, F m → m.Ok → m.tree.leafOf q = none → Q none (insert m H) m)
    (hsome : ∀ H m p, F m → m.Ok → m.root = true → m.nodeAt (path q) = some p →
      Q (some p) H m) : Keeps x t op Q (Prog.leafOf rootStorage q) H m := by
  unfold Prog.leafOf
  refine (meets_bind _ _).mpr (keeps_loadChild (hF.and stableFor_root) hm ⟨hf, hroot⟩ ?_)
  intro H m hfr hm
  obtain ⟨hf, hroot⟩ := hfr
  have h1 : m.nodeAt [i0 q] = m.children rootStorage (i0 q) := rfl
  cases hp1 : m.children rootStorage (i0 q) with
  | none =>
    exact hnone H m hf hm (leafOf_eq_none_of_nodeAt hroot hq (ρ := [i2 q, i1 q]) rfl (h1.trans hp1))
  | some p1 =>
    refine (meets_bind _ _).mpr (keeps_loadChild (hF.and (stableFor_nodeAt (by simp) p1)) hm
      ⟨hf, hroot, h1.trans hp1⟩ ?_)
    intro H m hfr hm
    obtain ⟨hf, hroot, h1⟩ := hfr
    have h2 : m.nodeAt [i1 q, i0 q] = m.children p1 (i1 q) := RadixMemory.nodeAt_cons h1
    cases hp2 : m.children p1 (i1 q) with
    | none =>
      exact hnone H m hf hm (leafOf_eq_none_of_nodeAt hroot hq (ρ := [i2 q]) rfl (h2.trans hp2))
    | some p2 =>
      refine keeps_loadChild (hF.and (stableFor_nodeAt (by simp) p2)) hm
        ⟨hf, hroot, h2.trans hp2⟩ ?_
      intro H m hfr hm
      obtain ⟨hf, hroot, h2⟩ := hfr
      have h3 : m.nodeAt (path q) = m.children p2 (i2 q) := RadixMemory.nodeAt_cons h2
      cases hp3 : m.children p2 (i2 q) with
      | none =>
        exact hnone H m hf hm (leafOf_eq_none_of_nodeAt hroot hq (ρ := []) rfl (h3.trans hp3))
      | some p3 => exact hsome _ m p3 hf hm hroot (h3.trans hp3)

/-- **`GetSpan` returns a lookup of some moment of the call.** -/
lemma keeps_getSpan (hm : m.Ok) :
    Keeps x t op (fun v H _ => ∃ x ∈ H, v = x.tree.getSpan q) (Prog.getSpan q) H m := by
  unfold Prog.getSpan
  refine (meets_bind _ _).mpr (keeps_loadRoot stableFor_true hm trivial ?_)
  intro H m _ hm
  cases hroot : m.root with
  | false =>
    refine ⟨m, Set.mem_insert m H, ?_⟩
    rw [PageMap.getSpan, RadixMemory.leafOf_tree_of_not_root hroot]
    rfl
  | true =>
    show Keeps x t op _ (if i0 q ≥ radixRootSize then pure none else _) _ _
    split
    next hge =>
      refine ⟨m, Set.mem_insert m H, ?_⟩
      rw [PageMap.getSpan, leafOf_eq_none_of_ge hge]
      rfl
    next hlt =>
      have hq := not_le.mp hlt
      refine (meets_bind _ _).mpr (keeps_leafOf stableFor_true hm trivial hroot hq ?_ ?_)
      · intro H m _ _ hleaf
        refine ⟨m, Set.mem_insert m H, ?_⟩
        rw [PageMap.getSpan, hleaf]
        rfl
      · intro H m p _ hm hroot hp
        refine keeps_loadChild (stableFor_nodeAt (by simp [path]) p) hm ⟨hroot, hp⟩ ?_
        intro H m hfr hm
        exact ⟨m, Set.mem_insert m H, (RadixMemory.getSpan_tree hfr.1 hq hfr.2).symm⟩

/-- `HasPath` answers true only if there is a path. -/
lemma keeps_hasPath {Q : Bool → Set RadixMemory → RadixMemory → Prop} (hF : StableFor x t op F)
    (hm : m.Ok) (hf : F m)
    (hfalse : ∀ H m, F m → m.Ok → Q false H m)
    (htrue : ∀ H m, F m → m.Ok → m.tree.hasPath q = true → Q true H m) :
    Keeps x t op Q (Prog.hasPath q) H m := by
  unfold Prog.hasPath
  refine (meets_bind _ _).mpr (keeps_loadRoot hF hm hf ?_)
  intro H m hf hm
  cases hroot : m.root with
  | false => exact hfalse _ m hf hm
  | true =>
    show Keeps x t op _ (if i0 q ≥ radixRootSize then pure false else _) _ _
    split
    next => exact hfalse _ m hf hm
    next hlt =>
      have hq := not_le.mp hlt
      refine (meets_bind _ _).mpr (keeps_leafOf hF hm hf hroot hq ?_ ?_)
      · intro H m hf hm _
        exact hfalse _ m hf hm
      · intro H m p hf hm hroot hp
        refine htrue _ m hf hm ?_
        rw [PageMap.hasPath, RadixMemory.leafOf_tree hroot hq, hp]
        rfl

end Readers

/-! ## Growth -/

section Growth

variable {x : Prop} {t q : ℕ} {op : RadixCall} {S : Set ℕ} {H : Set RadixMemory} {m : RadixMemory}

/-- The pages of `S` have a path. -/
def Paths (S : Set ℕ) (m : RadixMemory) : Prop := ∀ q ∈ S, m.tree.hasPath q = true

/-- Paths stay, whoever makes a step. -/
lemma Paths.step (h : Paths S m) (hm : m.Ok) {u : ℕ} {m' : RadixMemory} (hstep : Step u op m m') :
    Paths S m' := fun q hq => hstep.hasPath hm (h q hq)

/-- No other thread removes a path. -/
lemma stableFor_paths : StableFor x t op (Paths S) := fun _ _ _ _ _ _ h hm hstep => h.step hm hstep

/-- What is known while the thread holds `structure_mutex_`. -/
structure Holding (t : ℕ) (S : Set ℕ) (m : RadixMemory) : Prop where
  ok : m.Ok
  mutex : m.mutex = some t
  paths : Paths S m

/-- No other thread takes the mutex away. -/
lemma stableFor_holding : StableFor x t op (Holding t S) :=
  fun _ _ _ _ hu _ h hm hstep => ⟨hstep.ok hm, hstep.mutex hu h.mutex, h.paths.step hm hstep⟩

/-- The root is not published, and the first `n` of its pointers are null. -/
lemma stableFor_clearing (n : ℕ) : StableFor x t op fun m => Holding t S m ∧ m.root = false ∧
    ∀ i < n, m.children rootStorage i = none := by
  intro u op' m m' hu hx h hm hstep
  obtain ⟨hhold, hroot, hclear⟩ := h
  obtain ⟨hroot', -, -, hchildren⟩ := hstep.locked hm hu hhold.mutex
  refine ⟨stableFor_holding u op' m m' hu hx hhold hm hstep, hroot'.trans hroot, fun i hi => ?_⟩
  rw [hchildren rootStorage fun h => absurd (h.symm.trans hroot) (by simp)]
  exact hclear i hi

/-- The loop that clears the new root keeps to the protocol and leaves it empty. -/
lemma keeps_clearRoot (hhold : Holding t S m) (hroot : m.root = false) (n : ℕ) :
    Keeps x t op (fun _ _ m => Holding t S m ∧ m.root = false ∧
      ∀ i < n, m.children rootStorage i = none) (Prog.clearRoot n) H m := by
  induction n with
  | zero =>
    rw [Prog.clearRoot_zero]
    exact ⟨hhold, hroot, fun i hi => absurd hi (Nat.not_lt_zero i)⟩
  | succ n ih =>
    rw [Prog.clearRoot_succ]
    refine (meets_bind _ _).mpr (ih.mono fun _ H m h => ?_)
    refine keeps_storeChild (stableFor_clearing n) h.1.ok h fun H m h hm => ?_
    obtain ⟨hhold, hroot, hclear⟩ := h
    have hstep : Step t op m (m.store rootStorage n none) := .clearRoot n hhold.mutex hroot
    refine ⟨hstep, ⟨hstep.ok hm, hhold.mutex, hhold.paths.step hm hstep⟩, hroot, fun i hi => ?_⟩
    rw [RadixMemory.store_children]
    split
    next => rfl
    next hne => exact hclear i (by grind)

/-- **The root**: it is cleared before it is published, and only once. -/
lemma keeps_ensureRoot (hhold : Holding t S m) :
    Keeps x t op (fun r _ m => r = rootStorage ∧ Holding t S m ∧ m.root = true)
      Prog.ensureRoot H m := by
  unfold Prog.ensureRoot
  refine (meets_bind _ _).mpr (keeps_loadRoot stableFor_holding hhold.ok hhold ?_)
  intro H m hhold hm
  cases hroot : m.root with
  | true => exact ⟨rfl, hhold, hroot⟩
  | false =>
    refine (meets_bind _ _).mpr ((keeps_clearRoot hhold hroot radixRootSize).mono fun _ H m h => ?_)
    refine (meets_bind _ _).mpr (keeps_access (stableFor_clearing radixRootSize) h.1.ok h ?_)
    intro H m _ b m' h hm hb
    obtain ⟨hhold, hroot, hclear⟩ := h
    simp only [RadixMemory.answer, if_neg hm.not_dead] at hb
    cases hb
    have hstep : Step t op m { m with root := true } := by
      refine .publishRoot hhold.mutex hroot fun i => ?_
      rcases Nat.lt_or_ge i radixRootSize with hi | hi
      · exact hclear i hi
      · exact hm.root_width i hi
    exact ⟨hstep, rfl, ⟨hstep.ok hm, hhold.mutex, hhold.paths.step hm hstep⟩, rfl⟩

/-- Where the holder of the mutex is in the tree. -/
lemma stableFor_at {π ρ : List ℕ} (hπ : π.length ≤ 3) (hρ : ρ.length ≤ 3) (r r' : Option ℕ) :
    StableFor x t op fun m => Holding t S m ∧ m.root = true ∧ m.nodeAt π = r ∧ m.nodeAt ρ = r' := by
  intro u op' m m' hu hx h hm hstep
  obtain ⟨hhold, hroot, hr, hr'⟩ := h
  obtain ⟨-, -, hat, -⟩ := hstep.locked hm hu hhold.mutex
  exact ⟨stableFor_holding u op' m m' hu hx hhold hm hstep, hstep.root hroot,
    (hat hroot π hπ).trans hr, (hat hroot ρ hρ).trans hr'⟩

/-- A new node that the holder of the mutex has not attached yet. -/
lemma stableFor_unlinked {π ρ : List ℕ} (hπ : π.length ≤ 3) (hρ : ρ.length ≤ 3) (r r' : Option ℕ)
    (n : ℕ) : StableFor x t op fun m => (Holding t S m ∧ m.root = true ∧ m.nodeAt π = r ∧
      m.nodeAt ρ = r') ∧ m.Unlinked n := by
  intro u op' m m' hu hx h hm hstep
  obtain ⟨h, hn⟩ := h
  obtain ⟨-, hnodes, hat, hchildren⟩ := hstep.locked hm hu h.1.mutex
  refine ⟨stableFor_at hπ hρ r r' u op' m m' hu hx h hm hstep, ?_, fun ν hν => ?_, fun i => ?_⟩
  · rw [hnodes]
    exact hn.mem
  · rw [hat h.2.1 ν hν]
    exact hn.not_reached ν hν
  · rw [hchildren n fun _ q => hn.not_reached (path q) (by simp [path])]
    exact hn.empty i

/-- **A child that is attached if it is not there.** No one else attaches nodes meanwhile, so
the null pointer is still null when the new node is stored. -/
lemma keeps_childOrNew {π : List ℕ} {node i : ℕ} (hπ : π.length ≤ 2) (hhold : Holding t S m)
    (hroot : m.root = true) (hnode : m.nodeAt π = some node)
    (hwidth : node = rootStorage → i < radixRootSize) :
    Keeps x t op (fun r _ m => Holding t S m ∧ m.root = true ∧
      ∀ child, r = some child → m.nodeAt (i :: π) = some child) (Prog.childOrNew node i) H m := by
  have hπ' : π.length ≤ 3 := by omega
  have hcons : (i :: π).length ≤ 3 := by
    rw [List.length_cons]
    omega
  unfold Prog.childOrNew
  refine (meets_bind _ _).mpr (keeps_loadChild (stableFor_at hπ' hπ' (some node) (some node))
    hhold.ok ⟨hhold, hroot, hnode, hnode⟩ ?_)
  intro H m h hm
  obtain ⟨hhold, hroot, hnode, -⟩ := h
  have hslot : m.nodeAt (i :: π) = m.children node i := RadixMemory.nodeAt_cons hnode
  cases hc : m.children node i with
  | some child =>
    refine ⟨hhold, hroot, fun c hc' => ?_⟩
    rw [hslot, hc, hc']
  | none =>
    refine (meets_bind _ _).mpr (keeps_access (stableFor_at hπ' hcons (some node) none) hm
      ⟨hhold, hroot, hnode, hslot.trans hc⟩ ?_)
    intro H m n b m' h hm hb
    obtain ⟨hhold, hroot, hnode, hnull⟩ := h
    have hfail : Keeps x t op (fun r _ m => Holding t S m ∧ m.root = true ∧
        ∀ child, r = some child → m.nodeAt (i :: π) = some child)
        (pure none : Prog.Program (Option ℕ)) (insert m H) m :=
      ⟨hhold, hroot, fun c hc => by cases hc⟩
    simp only [RadixMemory.answer, if_neg hm.not_dead] at hb
    split at hb
    · cases hb
      exact ⟨.load, hfail⟩
    next n =>
      split at hb
      · cases hb
        exact ⟨.load, hfail⟩
      next hfresh =>
        cases hb
        rw [not_or] at hfresh
        have hreach : ∀ ν : List ℕ, ν.length ≤ 3 → m.nodeAt ν ≠ some n :=
          fun ν hν => hm.not_reached hroot hfresh.2 hfresh.1 hν
        have hstep : Step t op m { m with
            nodes := n :: m.nodes
            children := Function.update m.children n fun _ => none } :=
          .newNode n hhold.mutex hroot hfresh.2 hfresh.1
        have hat : ∀ ν : List ℕ, ν.length ≤ 3 → ({ m with
            nodes := n :: m.nodes
            children := Function.update m.children n fun _ => none } : RadixMemory).nodeAt ν =
              m.nodeAt ν :=
          fun ν hν => RadixMemory.nodeAt_newNode _ (fun ρ hρ => hreach ρ (by omega)) hν
        refine ⟨hstep, ?_⟩
        refine (meets_bind _ _).mpr (keeps_storeChild
          (stableFor_unlinked hπ' hcons (some node) none n) (hstep.ok hm)
          ⟨⟨⟨hstep.ok hm, hhold.mutex, hhold.paths.step hm hstep⟩, hroot,
            (hat π hπ').trans hnode, (hat _ hcons).trans hnull⟩, ?_⟩ ?_)
        · refine ⟨List.mem_cons_self, fun ν hν => ?_, fun j => ?_⟩
          · rw [hat ν hν]
            exact hreach ν hν
          · show Function.update m.children n (fun _ => none) n j = none
            rw [Function.update_self]
        · intro H m h hm
          obtain ⟨⟨hhold, hroot, hnode, hnull⟩, hn⟩ := h
          have hslot : m.children node i = none :=
            (RadixMemory.nodeAt_cons hnode).symm.trans hnull
          have hstep : Step t op m (m.store node i (some n)) :=
            .attach π i node n hhold.mutex hroot hπ hnode hslot hwidth hn
          refine ⟨hstep, ⟨hstep.ok hm, hhold.mutex, hhold.paths.step hm hstep⟩, hroot,
            fun c hc => ?_⟩
          rw [(hm.shaped hroot).nodeAt_attach hπ hnode hslot hn hcons, if_pos rfl]
          exact hc

/-- **`EnsurePathLocked`** on success leaves a path. -/
lemma keeps_ensurePathLocked (hhold : Holding t S m) :
    Keeps x t op (fun ok _ m => Holding t S m ∧ (ok = true → m.tree.hasPath q = true))
      (Prog.ensurePathLocked q) H m := by
  unfold Prog.ensurePathLocked
  split
  · exact ⟨hhold, by simp⟩
  rename_i hlt
  have hq := not_le.mp hlt
  refine (meets_bind _ _).mpr ((keeps_ensureRoot hhold).mono fun r H m h => ?_)
  obtain ⟨rfl, hhold, hroot⟩ := h
  refine (meets_bind _ _).mpr ((keeps_childOrNew (π := []) (by simp) hhold hroot rfl
    fun _ => hq).mono fun r H m h => ?_)
  obtain ⟨hhold, hroot, h1⟩ := h
  -- below the root the index is not bounded by the width of the root
  have hbelow : ∀ {i p : ℕ} {π : List ℕ} {m : RadixMemory}, m.Ok → m.root = true →
      π.length ≤ 2 → m.nodeAt (i :: π) = some p → p ≠ rootStorage := by
    intro i p π m hm hroot hπ hp heq
    exact hm.rootStorage_not_mem (heq ▸ (hm.shaped hroot).owned i π p hπ hp)
  cases r with
  | none => exact ⟨hhold, by simp⟩
  | some p1 =>
    refine (meets_bind _ _).mpr ((keeps_childOrNew (π := [i0 q]) (by simp) hhold hroot (h1 p1 rfl)
      fun heq => absurd heq (hbelow hhold.ok hroot (by simp) (h1 p1 rfl))).mono fun r H m h => ?_)
    obtain ⟨hhold, hroot, h2⟩ := h
    cases r with
    | none => exact ⟨hhold, by simp⟩
    | some p2 =>
      refine (meets_bind _ _).mpr ((keeps_childOrNew (π := [i1 q, i0 q]) (by simp) hhold hroot
        (h2 p2 rfl) fun heq => absurd heq (hbelow hhold.ok hroot (by simp) (h2 p2 rfl))).mono
        fun r H m h => ?_)
      obtain ⟨hhold, hroot, h3⟩ := h
      refine ⟨hhold, fun hok => ?_⟩
      obtain ⟨p3, rfl⟩ := Option.isSome_iff_exists.mp hok
      rw [PageMap.hasPath, RadixMemory.leafOf_tree hroot hq]
      show (Option.map m.children (m.nodeAt (i2 q :: [i1 q, i0 q]))).isSome = true
      rw [h3 p3 rfl]
      rfl

/-- The section under `structure_mutex_`. -/
lemma keeps_ensurePath (hm : m.Ok) (hS : Paths S m) :
    Keeps x t op (fun ok _ m => m.Ok ∧ Paths S m ∧ (ok = true → m.tree.hasPath q = true))
      (Prog.ensurePath q) H m := by
  unfold Prog.ensurePath
  refine (meets_bind _ _).mpr (keeps_access stableFor_paths hm hS ?_)
  intro H m _ b m' hS hm hb
  simp only [RadixMemory.answer, if_neg hm.not_dead] at hb
  split at hb
  swap
  · cases hb
  rename_i hfree
  cases hb
  have hstep : Step t op m { m with mutex := some t } := .lock hfree
  refine ⟨hstep, (meets_bind _ _).mpr ((keeps_ensurePathLocked (q := q)
    ⟨hstep.ok hm, rfl, hS.step hm hstep⟩).mono fun ok H m h => ?_)⟩
  have hstable : StableFor x t op fun m => Holding t S m ∧ (ok = true → m.tree.hasPath q = true) :=
    fun u op' m m' hu hx h hm hstep => ⟨stableFor_holding u op' m m' hu hx h.1 hm hstep,
      fun hok => hstep.hasPath hm (h.2 hok)⟩
  refine (meets_bind _ _).mpr (keeps_access hstable h.1.ok h ?_)
  intro H m _ b m' h hm hb
  simp only [RadixMemory.answer, if_neg hm.not_dead] at hb
  cases hb
  have hstep : Step t op m { m with mutex := none } := .unlock h.1.mutex
  exact ⟨hstep, hstep.ok hm, h.1.paths.step hm hstep, fun hok => hstep.hasPath hm (h.2 hok)⟩

/-- The pages of one pass of a loop share their bottom node. -/
lemma hasPath_of_pass {pm : PageMap} {current remaining p : ℕ} (hpath : pm.hasPath current = true)
    (h₁ : current ≤ p) (h₂ : p < current + min remaining (radixNodeSize - i3 current)) :
    pm.hasPath p = true := by
  have hsame : p / 512 = current / 512 := by
    rw [i3_eq] at h₂
    unfold radixNodeSize at h₂
    omega
  rw [PageMap.hasPath, leafOf_congr pm hsame]
  exact hpath

/-- The paths of a range, from those of its first pages and those of the rest. -/
lemma Paths.append {a n k : ℕ} (hk : k ≤ n) (h : Paths (pages a k) m)
    (h' : Paths (pages (a + k) (n - k)) m) : Paths (pages a n) m := by
  intro q hq
  obtain ⟨h₁, h₂⟩ := hq
  rcases Nat.lt_or_ge q (a + k) with hlt | hge
  · exact h q ⟨h₁, hlt⟩
  · exact h' q ⟨hge, by omega⟩

/-- **The loop of `EnsureRange`** on success leaves all paths of the range. -/
lemma keeps_ensureLoop {fuel current remaining : ℕ} (hfuel : remaining ≤ fuel) (hm : m.Ok)
    (hS : Paths S m) :
    Keeps x t op (fun ok _ m => m.Ok ∧ Paths S m ∧ (ok = true → Paths (pages current remaining) m))
      (Prog.ensureLoop fuel current remaining) H m := by
  induction fuel generalizing S H m current remaining with
  | zero => exact ⟨hm, hS, fun _ q hq => by obtain ⟨_, _⟩ := hq; omega⟩
  | succ fuel ih =>
    unfold Prog.ensureLoop
    split
    · exact ⟨hm, hS, fun _ q hq => by obtain ⟨_, _⟩ := hq; omega⟩
    split
    · exact ⟨hm, hS, by simp⟩
    rename_i hr hi0
    have hi3 : i3 current < radixNodeSize := by rw [i3_eq]; exact Nat.mod_lt _ (by norm_num)
    -- the rest of the loop, once the first page of the pass has a path
    have hrest : ∀ H m, Paths S m → m.Ok → m.tree.hasPath current = true →
        Keeps x t op
          (fun ok _ m => m.Ok ∧ Paths S m ∧ (ok = true → Paths (pages current remaining) m))
          (Prog.ensureLoop fuel (current + min remaining (radixNodeSize - i3 current))
            (remaining - min remaining (radixNodeSize - i3 current))) H m := by
      intro H m hS hm hpath
      have hpass : Paths (pages current (min remaining (radixNodeSize - i3 current))) m :=
        fun p hp => hasPath_of_pass hpath hp.1 hp.2
      refine (ih (S := S ∪ pages current (min remaining (radixNodeSize - i3 current)))
        (by omega) hm fun p hp => hp.elim (hS p) (hpass p)).mono fun ok H m h => ?_
      obtain ⟨hm, hS', hok⟩ := h
      exact ⟨hm, fun p hp => hS' p (Or.inl hp), fun h => Paths.append (min_le_left _ _)
        (fun p hp => hS' p (Or.inr hp)) (hok h)⟩
    refine (meets_bind _ _).mpr (keeps_hasPath stableFor_paths hm hS ?_ hrest)
    intro H m hS hm
    refine (meets_bind _ _).mpr ((keeps_ensurePath (q := current) hm hS).mono fun ok H m h => ?_)
    obtain ⟨hm, hS, hok⟩ := h
    cases ok with
    | true => exact hrest H m hS hm (hok rfl)
    | false => exact ⟨hm, hS, by simp⟩

/-- **`EnsureRange`** on success leaves all paths of the range. -/
lemma keeps_ensureRange (hm : m.Ok) (a n : ℕ) :
    Keeps x t op (fun ok _ m => ok = true → Paths (pages a n) m) (Prog.ensureRange a n) H m := by
  unfold Prog.ensureRange
  split
  · intro _ q hq
    obtain ⟨_, _⟩ := hq
    omega
  split
  · intro h
    cases h
  · refine (keeps_ensureLoop (S := ∅) le_rfl hm fun q hq => hq.elim).mono fun ok H m h => ?_
    exact h.2.2

end Growth

end PageMap

end Ammalloc
