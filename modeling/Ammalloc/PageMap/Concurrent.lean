import Ammalloc.PageMap.Growth

set_option relaxedAutoImplicit false
set_option autoImplicit false

/-!
# Lookups without a lock

Any number of threads call `GetSpan`, `EnsureRange`, `SetSpan` and `ClearRange`, interleaved at
every load and store of a pointer. Only the holder of `structure_mutex_` attaches nodes, and no node
is ever detached, so a node that a reader has reached stays where it is. The last load of a
`GetSpan` therefore reads the slot that its page has at that moment.

`SetSpan` and `ClearRange` take no lock. What a whole call does to its range can be said only if no
other call writes a page of it meanwhile; the header leaves that to the callers, who hold the lock
of the shard that owns the range. Readers need no such condition.

`PageMap::Reset` is not among the calls: the source asks that nothing else runs then.

## Main definitions

* `Ammalloc.PageMap.Writing` — what is known while a range is written.
* `Ammalloc.PageMap.Clears` — what the loop of `ClearRange` does with the passes that are left.
* `Ammalloc.PageMap.radixCode` — the calls, as shared code.
* `Ammalloc.PageMap.PreparedRun`, `Ammalloc.PageMap.ApartRun` — the conditions on the callers.

## Main results

* `Ammalloc.PageMap.getSpan_returns_lookup` — `GetSpan` returns what its page looks up to at some
  moment of the call.
* `Ammalloc.PageMap.writers_take_effect` — what `SetSpan`, `ClearRange` and `EnsureRange` have done
  when they return.
-/

namespace Ammalloc

namespace PageMap

open SharedCode (meets_bind)

open RadixMemory (protocol Step path)

/-! ## Writers -/

section Writers

variable {x : Prop} {t a n : ℕ} {op : RadixCall} {v : Option ℕ} {S done : Set ℕ}
  {H : Set RadixMemory} {m : RadixMemory}

/-- What is known while a call writes `v`: the pages of `S` have paths and, if calls in progress are
apart, the pages of `done` have been written. -/
structure Writing (x : Prop) (v : Option ℕ) (S done : Set ℕ) (m : RadixMemory) : Prop where
  ok : m.Ok
  paths : Paths S m
  written : x → ∀ q ∈ done, m.tree.getSpan q = v

/-- A call that is apart from this one does not write its pages. -/
lemma stableFor_writing (hdone : done ⊆ op.writes) : StableFor x t op (Writing x v S done) := by
  intro u op' m m' hu hapart h hm hstep
  refine ⟨hstep.ok hm, h.paths.step hm hstep, fun hx q hq => ?_⟩
  rw [hstep.getSpan hm (hapart hx q (hdone hq))]
  exact h.written hx q hq

/-- The pages of one pass have their slots side by side in one bottom node. -/
lemma slot_of_pass {current k : ℕ} (hk : k < radixNodeSize - i3 current) :
    path (current + k) = path current ∧ i3 (current + k) = i3 current + k ∧
      i0 (current + k) = i0 current := by
  rw [i3_eq] at hk
  unfold radixNodeSize at hk
  have hsame : (current + k) / 512 = current / 512 := by omega
  obtain ⟨h0, h1, h2⟩ := (path_eq_iff _ _).mpr hsame
  refine ⟨by rw [path, path, h0, h1, h2], ?_, h0⟩
  rw [i3_eq, i3_eq]
  omega

/-- **The stores to one bottom node.** -/
lemma keeps_storeRange {current p count : ℕ} (hdone : done ⊆ op.writes)
    (hrange : pages current count ⊆ op.writes) (hcount : count ≤ radixNodeSize - i3 current)
    (hi0 : i0 current < radixRootSize) (hw : Writing x v S done m) (hroot : m.root = true)
    (hp : m.nodeAt (path current) = some p) :
    Keeps x t op (fun _ _ m => (Writing x v S (done ∪ pages current count) m ∧ m.root = true) ∧
      m.nodeAt (path current) = some p) (Prog.storeRange p (i3 current) v count) H m := by
  induction count with
  | zero =>
    refine ⟨⟨⟨hw.ok, hw.paths, fun hx q hq => ?_⟩, hroot⟩, hp⟩
    rcases hq with hq | ⟨h₁, h₂⟩
    · exact hw.written hx q hq
    · omega
  | succ k ih =>
    have hpre : pages current k ⊆ op.writes := fun q hq => hrange ⟨hq.1, by
      have := hq.2
      omega⟩
    refine (meets_bind _ _).mpr ((ih hpre (by omega)).mono fun _ H m h => ?_)
    have hstable : StableFor x t op fun m =>
        (Writing x v S (done ∪ pages current k) m ∧ m.root = true) ∧
          m.nodeAt (path current) = some p := by
      intro u op' m m' hu hx h hm hstep
      exact ⟨⟨stableFor_writing (Set.union_subset hdone hpre) u op' m m' hu hx h.1.1 hm hstep,
        hstep.root h.1.2⟩, hstep.nodeAt hm h.1.2 (by simp [path]) h.2⟩
    refine keeps_storeChild hstable h.1.1.ok h fun H m h hm => ?_
    obtain ⟨⟨hw, hroot⟩, hp⟩ := h
    have hk : k < radixNodeSize - i3 current := by omega
    obtain ⟨hpath, hi3, hi0'⟩ := slot_of_pass hk
    have hp' : m.nodeAt (path (current + k)) = some p := hpath ▸ hp
    have hlt : i0 (current + k) < radixRootSize := hi0' ▸ hi0
    have hstep : Step t op m (m.store p (i3 (current + k)) v) :=
      .storeLeaf (current + k) p v hroot hlt hp' (hrange ⟨by omega, by omega⟩)
    rw [← hi3]
    refine ⟨hstep, ⟨⟨hstep.ok hm, hw.paths.step hm hstep, fun hx q hq => ?_⟩, hroot⟩,
      hstep.nodeAt hm hroot (by simp [path]) hp⟩
    rw [hm.getSpan_store hroot hlt hp']
    split
    next => rfl
    next hne =>
      refine hw.written hx q ?_
      rcases hq with hq | ⟨h₁, h₂⟩
      · exact Or.inl hq
      · exact Or.inr ⟨h₁, by omega⟩

/-- A loop ends when no page is left. -/
lemma Writing.of_none_left (h : Writing x v S done m) {current remaining : ℕ}
    (h0 : remaining = 0) : Writing x v S (done ∪ pages current remaining) m := by
  refine ⟨h.ok, h.paths, fun hx q hq => ?_⟩
  rcases hq with hq | ⟨h₁, h₂⟩
  · exact h.written hx q hq
  · omega

/-- A loop goes on behind the pages of a pass. -/
lemma Writing.append {current k remaining : ℕ} (hk : k ≤ remaining)
    (h : Writing x v S ((done ∪ pages current k) ∪ pages (current + k) (remaining - k)) m) :
    Writing x v S (done ∪ pages current remaining) m := by
  refine ⟨h.ok, h.paths, fun hx q hq => h.written hx q ?_⟩
  rcases hq with hq | ⟨h₁, h₂⟩
  · exact Or.inl (Or.inl hq)
  · rcases Nat.lt_or_ge q (current + k) with hlt | hge
    · exact Or.inl (Or.inr ⟨h₁, hlt⟩)
    · exact Or.inr ⟨hge, by omega⟩

/-- The pages of a pass and those behind it are pages of the range. -/
lemma pages_split {current k remaining : ℕ} (hk : k ≤ remaining)
    (h : pages current remaining ⊆ op.writes) :
    pages current k ⊆ op.writes ∧ pages (current + k) (remaining - k) ⊆ op.writes := by
  constructor
  · intro q hq
    exact h ⟨hq.1, by have := hq.2; omega⟩
  · intro q hq
    exact h ⟨by have := hq.1; omega, by have := hq.2; omega⟩

/-- **The loop of `SetSpan`** on a prepared range writes every page of it. -/
lemma keeps_setLoop {id fuel current remaining : ℕ} (hfuel : remaining ≤ fuel)
    (hdone : done ⊆ op.writes) (hrange : pages current remaining ⊆ op.writes)
    (hw : Writing x (some id) op.writes done m) (hroot : m.root = true) :
    Keeps x t op (fun _ _ m => Writing x (some id) op.writes (done ∪ pages current remaining) m)
      (Prog.setLoop id rootStorage fuel current remaining) H m := by
  induction fuel generalizing H m current remaining done with
  | zero => exact hw.of_none_left (by omega)
  | succ fuel ih =>
    unfold Prog.setLoop
    split
    next h0 => exact hw.of_none_left h0
    next hr =>
      have hpath : ∀ m, Writing x (some id) op.writes done m →
          m.tree.hasPath current = true :=
        fun m hw => hw.paths current (hrange ⟨le_rfl, by omega⟩)
      have hi0 := i0_lt_of_hasPath (hpath m hw)
      have hi3 : i3 current < radixNodeSize := by rw [i3_eq]; exact Nat.mod_lt _ (by norm_num)
      rw [if_neg (not_le.mpr hi0)]
      refine (meets_bind _ _).mpr (keeps_leafOf (stableFor_writing hdone) hw.ok hw hroot hi0 ?_ ?_)
      · intro H m hw _ hnone
        have := hpath m hw
        rw [PageMap.hasPath, hnone] at this
        cases this
      · intro H m p hw hm hroot hp
        have hmin : min remaining (radixNodeSize - i3 current) ≤ remaining := min_le_left _ _
        obtain ⟨hpass, hrest⟩ := pages_split hmin hrange
        refine (meets_bind _ _).mpr ((keeps_storeRange hdone hpass (min_le_right _ _) hi0 hw hroot
          hp).mono fun _ H m h => ?_)
        obtain ⟨⟨hw, hroot⟩, -⟩ := h
        exact (ih (by omega) (Set.union_subset hdone hpass) hrest hw hroot).mono
          fun _ H m h => h.append hmin

/-- **`SetSpan`** on a prepared range does not die, and in the end every page of the range looks up
to the descriptor. -/
lemma keeps_setSpan {id : ℕ} (hn : 0 < n) (hop : op.writes = pages a n)
    (hw : Writing x (some id) op.writes ∅ m) :
    Keeps x t op (fun _ _ m => Writing x (some id) op.writes (pages a n) m)
      (Prog.setSpan id a n) H m := by
  unfold Prog.setSpan
  rw [if_neg (by omega)]
  refine (meets_bind _ _).mpr (keeps_loadRoot (stableFor_writing (Set.empty_subset _)) hw.ok hw ?_)
  intro H m hw hm
  cases hroot : m.root with
  | false =>
    have hpath := hw.paths a (hop ▸ ⟨le_rfl, by omega⟩)
    rw [PageMap.hasPath, RadixMemory.leafOf_tree_of_not_root hroot] at hpath
    cases hpath
  | true =>
    refine (keeps_setLoop le_rfl (Set.empty_subset _) hop.ge hw hroot).mono fun _ H m h => ?_
    rw [Set.empty_union] at h
    exact h

/-- Pages that look up to nothing need not be written. -/
lemma Writing.skip (h : Writing x none S done m) {current k : ℕ}
    (hnone : ∀ q ∈ pages current k, m.tree.leafOf q = none) :
    Writing x none S (done ∪ pages current k) m := by
  refine ⟨h.ok, h.paths, fun hx q hq => ?_⟩
  rcases hq with hq | hq
  · exact h.written hx q hq
  · rw [PageMap.getSpan, hnone q hq]
    rfl

/-- The pages from `current` to the end of its block of `2 ^ k` pages lie in this block. -/
lemma div_eq_of_mem_pages {k current q : ℕ} (hq : q ∈ pages current (2 ^ k - current % 2 ^ k)) :
    q / 2 ^ k = current / 2 ^ k := by
  obtain ⟨h₁, h₂⟩ := hq
  have hmod := Nat.mod_lt current (Nat.two_pow_pos k)
  have hdiv := Nat.div_add_mod current (2 ^ k)
  have hend : q < (current / 2 ^ k + 1) * 2 ^ k := by
    rw [Nat.add_mul, Nat.one_mul, Nat.mul_comm]
    omega
  exact le_antisymm (Nat.le_of_lt_succ (Nat.div_lt_of_lt_mul (by rwa [Nat.mul_comm])))
    (Nat.div_le_div_right h₁)

/-- Under a null pointer of the root no page has a bottom node. -/
lemma leafOf_eq_none_of_null₀ {current q : ℕ} (hroot : m.root = true)
    (hi0 : i0 current < radixRootSize) (hnull : m.nodeAt [i0 current] = none)
    (hq : q ∈ pages current (2 ^ 27 - current % 2 ^ 27)) : m.tree.leafOf q = none := by
  have hs0 : i0 q = i0 current := by rw [i0_eq, i0_eq, div_eq_of_mem_pages hq]
  refine leafOf_eq_none_of_nodeAt (ρ := [i2 q, i1 q]) hroot (hs0 ▸ hi0) ?_ hnull
  rw [path, hs0]
  rfl

/-- Under a null pointer of the first level no page has a bottom node. -/
lemma leafOf_eq_none_of_null₁ {current q : ℕ} (hroot : m.root = true)
    (hi0 : i0 current < radixRootSize) (hnull : m.nodeAt [i1 current, i0 current] = none)
    (hq : q ∈ pages current (2 ^ 18 - current % 2 ^ 18)) : m.tree.leafOf q = none := by
  have hdiv := div_eq_of_mem_pages hq
  have hs0 : i0 q = i0 current := by simp only [i0_eq]; omega
  have hs1 : i1 q = i1 current := by rw [i1_eq, i1_eq, hdiv]
  refine leafOf_eq_none_of_nodeAt (ρ := [i2 q]) hroot (hs0 ▸ hi0) ?_ hnull
  rw [path, hs0, hs1]
  rfl

/-- Under a null pointer of the second level no page has a bottom node. -/
lemma leafOf_eq_none_of_null₂ {current q : ℕ} (hroot : m.root = true)
    (hi0 : i0 current < radixRootSize) (hnull : m.nodeAt (path current) = none)
    (hq : q ∈ pages current (2 ^ 9 - current % 2 ^ 9)) : m.tree.leafOf q = none := by
  obtain ⟨hs0, hs1, hs2⟩ := (path_eq_iff q current).mpr (div_eq_of_mem_pages hq)
  refine leafOf_eq_none_of_nodeAt (ρ := []) hroot (hs0 ▸ hi0) ?_ hnull
  rw [path, hs0, hs1, hs2]
  rfl

/-- The loop of `ClearRange`, with `fuel` passes left, leaves no page of its range. -/
def Clears (x : Prop) (t : ℕ) (op : RadixCall) (fuel : ℕ) : Prop :=
  ∀ {H : Set RadixMemory} {m : RadixMemory} {done : Set ℕ} {current remaining : ℕ},
    remaining ≤ fuel → done ⊆ op.writes → pages current remaining ⊆ op.writes →
    Writing x none ∅ done m → m.root = true →
    Keeps x t op (fun _ _ m => Writing x none ∅ (done ∪ pages current remaining) m)
      (Prog.clearLoop rootStorage fuel current remaining) H m

/-- A pass that ends at a null pointer skips the rest of the block of `2 ^ k` pages. -/
lemma Clears.skip {fuel current remaining k : ℕ} (h : Clears x t op fuel)
    (hfuel : remaining ≤ fuel + 1) (hdone : done ⊆ op.writes)
    (hrange : pages current remaining ⊆ op.writes) (hw : Writing x none ∅ done m)
    (hroot : m.root = true)
    (hnone : ∀ q ∈ pages current (2 ^ k - current % 2 ^ k), m.tree.leafOf q = none) :
    Keeps x t op (fun _ _ m => Writing x none ∅ (done ∪ pages current remaining) m)
      (Prog.clearLoop rootStorage fuel
        (current + min remaining (2 ^ k - (current &&& (2 ^ k - 1))))
        (remaining - min remaining (2 ^ k - (current &&& (2 ^ k - 1))))) H m := by
  have hmod := Nat.mod_lt current (Nat.two_pow_pos k)
  rw [Nat.and_two_pow_sub_one_eq_mod]
  have hmin : min remaining (2 ^ k - current % 2 ^ k) ≤ remaining := min_le_left _ _
  obtain ⟨hpass, hrest⟩ := pages_split hmin hrange
  refine (h (by omega) (Set.union_subset hdone hpass) hrest
    (hw.skip fun q hq => hnone q ⟨hq.1, ?_⟩) hroot).mono fun _ H m h => h.append hmin
  have := hq.2
  omega

/-- A pass that reaches a bottom node writes its slots and goes on behind them. -/
lemma Clears.store {fuel current remaining p : ℕ} (h : Clears x t op fuel)
    (hfuel : remaining ≤ fuel + 1) (hdone : done ⊆ op.writes)
    (hrange : pages current remaining ⊆ op.writes) (hw : Writing x none ∅ done m)
    (hroot : m.root = true) (hi0 : i0 current < radixRootSize)
    (hp : m.nodeAt (path current) = some p) :
    Keeps x t op (fun _ _ m => Writing x none ∅ (done ∪ pages current remaining) m)
      (Prog.storeRange p (i3 current) none (min remaining (radixNodeSize - i3 current)) >>= fun _ =>
        Prog.clearLoop rootStorage fuel
          (current + min remaining (radixNodeSize - i3 current))
          (remaining - min remaining (radixNodeSize - i3 current))) H m := by
  have hi3 : i3 current < radixNodeSize := by
    rw [i3_eq]
    exact Nat.mod_lt _ (by norm_num)
  have hmin : min remaining (radixNodeSize - i3 current) ≤ remaining := min_le_left _ _
  obtain ⟨hpass, hrest⟩ := pages_split hmin hrange
  refine (meets_bind _ _).mpr ((keeps_storeRange hdone hpass (min_le_right _ _) hi0 hw
    hroot hp).mono fun _ H m h' => ?_)
  obtain ⟨⟨hw, hroot⟩, -⟩ := h'
  exact (h (by omega) (Set.union_subset hdone hpass) hrest hw hroot).mono
    fun _ H m h => h.append hmin

/-- **One pass of `ClearRange`**: down the levels, to a null pointer or to a bottom node. -/
lemma Clears.pass {fuel : ℕ} (ih : Clears x t op fuel) : Clears x t op (fuel + 1) := by
  intro H m done current remaining hfuel hdone hrange hw hroot
  unfold Prog.clearLoop
  split
  next h0 => exact hw.of_none_left h0
  next =>
    split
    next hge =>
      refine hw.skip fun q hq => leafOf_eq_none_of_ge ?_
      rw [i0_eq] at hge ⊢
      have := Nat.div_le_div_right (c := 2 ^ 27) hq.1
      omega
    next hlt =>
      have hi0 := not_le.mp hlt
      -- a loaded pointer stays where it is while the other threads go on
      have hstable : ∀ {π : List ℕ} {p : ℕ}, π.length ≤ 3 → StableFor x t op fun m =>
          Writing x none ∅ done m ∧ m.root = true ∧ m.nodeAt π = some p :=
        fun hπ => (stableFor_writing hdone).and (stableFor_nodeAt hπ _)
      refine (meets_bind _ _).mpr (keeps_loadChild (hstable (π := []) (by simp)) hw.ok
        ⟨hw, hroot, rfl⟩ ?_)
      intro H m h hm
      obtain ⟨hw, hroot, -⟩ := h
      have h1 : m.nodeAt [i0 current] = m.children rootStorage (i0 current) := rfl
      cases hp1 : m.children rootStorage (i0 current) with
      | none =>
        exact ih.skip hfuel hdone hrange hw hroot
          fun q => leafOf_eq_none_of_null₀ hroot hi0 (h1.trans hp1)
      | some p1 =>
        refine (meets_bind _ _).mpr (keeps_loadChild (hstable (by simp)) hm
          ⟨hw, hroot, h1.trans hp1⟩ ?_)
        intro H m h hm
        obtain ⟨hw, hroot, h1⟩ := h
        have h2 : m.nodeAt [i1 current, i0 current] = m.children p1 (i1 current) :=
          RadixMemory.nodeAt_cons h1
        cases hp2 : m.children p1 (i1 current) with
        | none =>
          exact ih.skip hfuel hdone hrange hw hroot
            fun q => leafOf_eq_none_of_null₁ hroot hi0 (h2.trans hp2)
        | some p2 =>
          refine (meets_bind _ _).mpr (keeps_loadChild (hstable (by simp)) hm
            ⟨hw, hroot, h2.trans hp2⟩ ?_)
          intro H m h hm
          obtain ⟨hw, hroot, h2⟩ := h
          have h3 : m.nodeAt (path current) = m.children p2 (i2 current) :=
            RadixMemory.nodeAt_cons h2
          cases hp3 : m.children p2 (i2 current) with
          | none =>
            exact ih.skip hfuel hdone hrange hw hroot
              fun q => leafOf_eq_none_of_null₂ hroot hi0 (h3.trans hp3)
          | some p3 => exact ih.store hfuel hdone hrange hw hroot hi0 (h3.trans hp3)

/-- **The loop of `ClearRange`** leaves no page of the range, whether it has a path or not. -/
lemma clears (x : Prop) (t : ℕ) (op : RadixCall) (fuel : ℕ) : Clears x t op fuel := by
  induction fuel with
  | zero =>
    intro H m done current remaining hfuel _ _ hw _
    exact hw.of_none_left (by omega)
  | succ fuel ih => exact ih.pass

/-- **`ClearRange`**: in the end no page of the range looks up to anything. -/
lemma keeps_clearRange (hop : op.writes = pages a n) (hw : Writing x none ∅ ∅ m) :
    Keeps x t op (fun _ _ m => Writing x none ∅ (pages a n) m) (Prog.clearRange a n) H m := by
  unfold Prog.clearRange
  refine (meets_bind _ _).mpr (keeps_loadRoot (stableFor_writing (Set.empty_subset _)) hw.ok hw ?_)
  intro H m hw hm
  cases hroot : m.root with
  | false =>
    have h : Writing x none ∅ (∅ ∪ pages a n) m :=
      hw.skip fun q _ => RadixMemory.leafOf_tree_of_not_root hroot q
    rw [Set.empty_union] at h
    exact h
  | true =>
    refine (clears x t op n le_rfl (Set.empty_subset _) hop.ge hw hroot).mono fun _ H m h => ?_
    rw [Set.empty_union] at h
    exact h

end Writers

/-! ## The system -/

/-- The page map as shared code. -/
def radixCode : SharedCode RadixCall RadixAccess RadixAccess.Answer RadixResult RadixMemory
    (Option ℕ) where
  body := RadixCall.body
  answer := RadixMemory.answer

/-- `SetSpan` is called on page ranges whose radix paths exist. -/
def RadixCall.Prepared : RadixCall → RadixMemory → Prop
  | .setSpan _ startPageIdx pageNum, m => 0 < pageNum ∧ Paths (pages startPageIdx pageNum) m
  | _, _ => True

/-- The postconditions; those of writers hold if calls in progress are apart. `H` are the states
since the call began. -/
def RadixCall.Post (x : Prop) : RadixCall → RadixResult → Set RadixMemory → RadixMemory → Prop
  | .getSpan q, r, H, _ => ∃ m ∈ H, r = .span (m.tree.getSpan q)
  | .ensureRange a n, r, _, m => r = .grown true → Paths (pages a n) m
  | .setSpan id a n, _, H, _ => ∃ m ∈ H, x → ∀ q ∈ pages a n, m.tree.getSpan q = some id
  | .clearRange a n, _, H, _ => ∃ m ∈ H, x → ∀ q ∈ pages a n, m.tree.getSpan q = none

/-- **Every call keeps to the protocol.** -/
theorem radixCode_verified (x : Prop) :
    radixCode.Verified (protocol x) RadixCall.Prepared fun _ => RadixCall.Post x where
  body t op m hm hpre := by
    cases op with
    | getSpan q =>
      refine (meets_bind _ _).mpr ((keeps_getSpan hm).mono fun v H m h => ?_)
      obtain ⟨x, hx, rfl⟩ := h
      exact ⟨x, hx, rfl⟩
    | ensureRange a n =>
      refine (meets_bind _ _).mpr ((keeps_ensureRange hm a n).mono fun ok H m h hok => ?_)
      exact h (RadixResult.grown.inj hok)
    | setSpan id a n =>
      have hset := keeps_setSpan (t := t) (H := {m}) hpre.1 rfl
        (⟨hm, hpre.2, fun _ q hq => hq.elim⟩ :
          Writing x (some id) (RadixCall.setSpan id a n).writes ∅ m)
      exact (meets_bind _ _).mpr ((hset.mem rfl).mono fun _ H m h => ⟨m, h.1, h.2.written⟩)
    | clearRange a n =>
      have hclear := keeps_clearRange (t := t) (H := {m})
        (rfl : (RadixCall.clearRange a n).writes = pages a n)
        (⟨hm, fun q hq => hq.elim, fun _ q hq => hq.elim⟩ : Writing x none ∅ ∅ m)
      exact (meets_bind _ _).mpr ((hclear.mem rfl).mono fun _ H m h => ⟨m, h.1, h.2.written⟩)

/-! ## Results -/

section Results

variable {m : RadixMemory} {t : ℕ} {as bs : List (CallAction RadixCall (Option ℕ))}

/-- The calls of the page map in progress. -/
abbrev RadixSystem := CallSystem RadixCall RadixAccess RadixAccess.Answer RadixResult RadixMemory

/-- The runs of the page map from a memory, with no call in progress. -/
abbrev radixRun (m : RadixMemory) (as : List (CallAction RadixCall (Option ℕ))) : RadixSystem :=
  (radixCode.machine {m}).run { shared := m } as

/-- A `SetSpan` is called on a prepared range. -/
def CallPrepared (st : RadixSystem) : CallAction RadixCall (Option ℕ) → Prop
  | .call _ op => op.Prepared st.shared
  | .step _ _ => True

/-- A call begins when no other call in progress writes a page that it writes: the callers of
`SetSpan` and `ClearRange` hold the lock of the shard that owns the range. -/
def CallApart (st : RadixSystem) : CallAction RadixCall (Option ℕ) → Prop
  | .call t op => ∀ u op' p, u ≠ t → st.running u = some (op', p) → op.Apart op'
  | .step _ _ => True

/-- Every `SetSpan` of the run is called on a prepared range. -/
abbrev PreparedRun (m : RadixMemory) (as : List (CallAction RadixCall (Option ℕ))) : Prop :=
  (radixCode.machine {m}).Guarded CallPrepared { shared := m } as

/-- Writers of one page exclude each other during the run. -/
abbrev ApartRun (m : RadixMemory) (as : List (CallAction RadixCall (Option ℕ))) : Prop :=
  (radixCode.machine {m}).Guarded CallApart { shared := m } as

/-- Two calls are apart, whichever comes first. -/
lemma RadixCall.Apart.symm {op op' : RadixCall} (h : op.Apart op') : op'.Apart op :=
  fun q hq' hq => h q hq hq'

/-- Callers that prepare their ranges respect the protocol for any callers. -/
lemma PreparedRun.respects (h : PreparedRun m as) :
    (radixCode.machine {m}).Guarded (SharedCode.Respects (protocol False) RadixCall.Prepared)
      { shared := m } as := by
  refine h.imp₂ h fun st a ha _ => ?_
  cases a with
  | call t op => exact ⟨ha, fun _ _ _ _ _ => ⟨False.elim, False.elim⟩⟩
  | step t i => trivial

/-- Callers that also keep writers apart respect the protocol for such callers. -/
lemma PreparedRun.respects_of_apart (h : PreparedRun m as) (h' : ApartRun m as) :
    (radixCode.machine {m}).Guarded (SharedCode.Respects (protocol True) RadixCall.Prepared)
      { shared := m } as := by
  refine h.imp₂ h' fun st a ha ha' => ?_
  cases a with
  | call t op =>
    exact ⟨ha, fun u op' p hu hp => ⟨fun _ => ha' u op' p hu hp, fun _ => (ha' u op' p hu hp).symm⟩⟩
  | step t i => trivial

/-- The call of thread `t` that begins after `as` is still in progress during `bs`. -/
def InProgress (m : RadixMemory) (as : List (CallAction RadixCall (Option ℕ))) (t : ℕ)
    (op : RadixCall) (bs : List (CallAction RadixCall (Option ℕ))) : Prop :=
  (radixRun m as).running t = none ∧
    ∀ cs, cs <+: bs → (radixRun m (as ++ .call t op :: cs)).running t ≠ none

/-- What is known after a call is stable. -/
lemma post_stable (x : Prop) (op : RadixCall) (r : RadixResult) :
    (protocol x).Stable t op (op.Post x r) := by
  cases op with
  | getSpan q => exact Protocol.stable_seen _
  | ensureRange a n =>
    exact Protocol.stable_of_step fun u op' m m' _ _ h hm _ hstep hr => (h hr).step hm hstep
  | setSpan id a n => exact Protocol.stable_seen _
  | clearRange a n => exact Protocol.stable_seen _

/-- A call that returns has its postcondition, for the states since it began. -/
lemma post_of_returns {x : Prop} (hm : m.Ok) {op : RadixCall} {r : RadixResult}
    (hg : (radixCode.machine {m}).Guarded (SharedCode.Respects (protocol x) RadixCall.Prepared)
      { shared := m } (as ++ .call t op :: bs)) (hin : InProgress m as t op bs)
    (hret : (radixRun m (as ++ .call t op :: bs)).running t = some (op, .ret r)) :
    op.Post x r { y | ∃ cs, cs <+: bs ∧ y = (radixRun m (as ++ .call t op :: cs)).shared }
      (radixRun m (as ++ .call t op :: bs)).shared := by
  have hrun : ∀ cs, radixRun m (as ++ .call t op :: cs) =
      (radixCode.machine {m}).run (radixCode.next (radixRun m as) (.call t op)) cs := by
    intro cs
    rw [radixRun, Machine.run_append]
    rfl
  rw [Machine.guarded_append] at hg
  obtain ⟨hgas, hop, hgbs⟩ := hg
  have hverified := radixCode_verified x
  simp only [hrun] at hret ⊢
  exact hverified.returns {m} (hverified.run (SharedCode.kept_init hm) hgas) hin.1 hop hgbs
    (fun cs hcs => by rw [← hrun]; exact hin.2 cs hcs) hret (post_stable x op r)

/-- A memory in which the first 512 pages have a path. -/
def firstPath : RadixMemory where
  root := true
  children node i := if i = 0 ∧ node < 3 then some (node + 1) else none
  nodes := [1, 2, 3]

/-- The nodes of `firstPath` are those along the path of page zero. -/
lemma nodeAt_firstPath {π : List ℕ} {n : ℕ} (hπ : π.length ≤ 3) (h : firstPath.nodeAt π = some n) :
    n = π.length ∧ π = List.replicate n 0 := by
  induction π generalizing n with
  | nil =>
    obtain rfl := Option.some.inj h
    exact ⟨rfl, rfl⟩
  | cons i π ih =>
    rw [List.length_cons] at hπ
    simp only [RadixMemory.nodeAt, Option.bind_eq_some_iff] at h
    obtain ⟨p, hp, hi⟩ := h
    obtain ⟨hlen, hrep⟩ := ih (by omega) hp
    simp only [firstPath] at hi
    split at hi
    next hcond =>
      obtain rfl := Option.some.inj hi
      refine ⟨by rw [List.length_cons, hlen], ?_⟩
      rw [List.replicate_succ, hcond.1, ← hrep]
    next => cases hi

/-- The memory `firstPath` satisfies the invariant. -/
lemma ok_firstPath : firstPath.Ok where
  alive := rfl
  rootStorage_not_mem := by decide
  root_width i hi := by
    have : i ≠ 0 := by
      rintro rfl
      exact absurd hi (by decide)
    simp [firstPath, this]
  shaped _ := by
    refine ⟨fun π π' n hπ hπ' h h' => ?_, fun i π n hπ h => ?_⟩
    · rw [(nodeAt_firstPath hπ h).2, (nodeAt_firstPath hπ' h').2]
    · have hlen : (i :: π).length ≤ 3 := by
        rw [List.length_cons]
        omega
      obtain ⟨rfl, -⟩ := nodeAt_firstPath hlen h
      rw [List.length_cons]
      have hcases : π.length = 0 ∨ π.length = 1 ∨ π.length = 2 := by omega
      rcases hcases with h | h | h <;> rw [h] <;> decide

/-- **A lookup without a lock returns what its page looks up to at some moment of the call**,
whatever other threads attach, publish and clear meanwhile, also if several of them write the same
page.

**Proof sketch.** Only the holder of `structure_mutex_` attaches nodes, and it stores a node where
it has found a null pointer under the mutex. So a node that the reader has reached keeps its place,
and the last load of the reader reads the slot of its page, or a null pointer under which the page
has no slot. -/
theorem getSpan_returns_lookup (hm : m.Ok) {q : ℕ} {r : RadixResult}
    (hg : PreparedRun m (as ++ .call t (.getSpan q) :: bs))
    (hin : InProgress m as t (.getSpan q) bs)
    (hret : (radixRun m (as ++ .call t (.getSpan q) :: bs)).running t =
      some (.getSpan q, .ret r)) :
    ∃ cs, cs <+: bs ∧
      r = .span ((radixRun m (as ++ .call t (.getSpan q) :: cs)).shared.tree.getSpan q) := by
  obtain ⟨x, ⟨cs, hcs, rfl⟩, hr⟩ := post_of_returns hm hg.respects hin hret
  exact ⟨cs, hcs, hr⟩

/-- Two calls of `SetSpan` of page 3, which are not apart. -/
def racingWriters : List (CallAction RadixCall (Option ℕ)) :=
  [.call 0 (.setSpan 7 3 1), .call 2 (.setSpan 8 3 1)]

/-- A reader of page 3 has loaded the bottom node before the two stores, and its slot between
them. -/
def racingReader : List (CallAction RadixCall (Option ℕ)) :=
  List.replicate 4 (.step 1 none) ++ List.replicate 5 (.step 0 none) ++ [.step 1 none] ++
    List.replicate 5 (.step 2 none)

/-- The first pages of the first path are prepared. -/
lemma paths_firstPath {a : ℕ} (ha : a < 8) : Paths (pages a 1) firstPath := by
  have hall : ∀ q < 8, firstPath.tree.hasPath q = true := by decide
  intro q hq
  exact hall q (by have := hq.2; omega)

/-- The reader returns the first of the two descriptors. -/
theorem getSpan_returns_lookup_racingReader : ∃ cs, cs <+: racingReader ∧
    RadixResult.span (some 7) = .span ((radixRun firstPath
      (racingWriters ++ .call 1 (.getSpan 3) :: cs)).shared.tree.getSpan 3) := by
  refine getSpan_returns_lookup (t := 1) ok_firstPath
    ⟨⟨by decide, paths_firstPath (by decide)⟩, ⟨by decide, paths_firstPath (by decide)⟩,
      trivial, ?_⟩ ⟨rfl, ?_⟩ rfl
  · simp [racingReader, List.replicate, Machine.Guarded, CallPrepared]
  · have hall : ∀ cs ∈ racingReader.inits, ((radixRun firstPath
        (racingWriters ++ .call 1 (.getSpan 3) :: cs)).running 1).isSome = true := by
      decide
    intro cs hcs
    exact Option.isSome_iff_ne_none.mp (hall cs ((List.mem_inits cs _).mpr hcs))

/-- **Writers under concurrency.** If every `SetSpan` is called on a prepared range, then the
process never dies in one, and a path that exists stays. After an `EnsureRange` that returns true
all pages of its range have their paths, whoever attached the nodes. If the callers also keep
writers of one page apart, as the header asks them to, then a `SetSpan` or `ClearRange` that returns
has made all its pages look up to its descriptor, or to null, at one moment of the call. -/
theorem writers_take_effect (hm : m.Ok) (hg : PreparedRun m as) :
    (radixRun m as).shared.fatal = none ∧
      (∀ bs, bs <+: as → ∀ q, (radixRun m bs).shared.tree.hasPath q = true →
        (radixRun m as).shared.tree.hasPath q = true) ∧
      ∀ bs t op cs r, as = bs ++ .call t op :: cs → InProgress m bs t op cs →
        (radixRun m as).running t = some (op, .ret r) →
        (∀ a n, op = .ensureRange a n → r = .grown true → ∀ q ∈ pages a n,
          (radixRun m as).shared.tree.hasPath q = true) ∧
        (ApartRun m as →
          (∀ id a n, op = .setSpan id a n → ∃ ds, ds <+: cs ∧ ∀ q ∈ pages a n,
            (radixRun m (bs ++ .call t op :: ds)).shared.tree.getSpan q = some id) ∧
          ∀ a n, op = .clearRange a n → ∃ ds, ds <+: cs ∧ ∀ q ∈ pages a n,
            (radixRun m (bs ++ .call t op :: ds)).shared.tree.getSpan q = none) := by
  have hverified := radixCode_verified False
  have hkept := hverified.run (SharedCode.kept_init hm) hg.respects
  refine ⟨hkept.inv.alive, ?_, ?_⟩
  · intro bs hbs q hq
    obtain ⟨cs, rfl⟩ := hbs
    have hrespects := hg.respects
    rw [Machine.guarded_append] at hrespects
    rw [radixRun, Machine.run_append]
    exact hverified.run_of_step (p := fun m => m.tree.hasPath q = true)
      (fun t op m m' hm hstep h => hstep.hasPath hm h)
      (hverified.run (SharedCode.kept_init hm) hrespects.1) hq hrespects.2
  · intro bs t op cs r has hin hret
    subst has
    refine ⟨?_, fun hapart => ⟨?_, ?_⟩⟩
    · rintro a n rfl hr
      exact post_of_returns hm hg.respects hin hret hr
    · rintro id a n rfl
      obtain ⟨x, ⟨ds, hds, rfl⟩, hx⟩ :=
        post_of_returns hm (hg.respects_of_apart hapart) hin hret
      exact ⟨ds, hds, hx trivial⟩
    · rintro a n rfl
      obtain ⟨x, ⟨ds, hds, rfl⟩, hx⟩ :=
        post_of_returns hm (hg.respects_of_apart hapart) hin hret
      exact ⟨ds, hds, hx trivial⟩

/-- While a `SetSpan` of page 3 runs to its end, another thread clears page 4. -/
def publishing : List (CallAction RadixCall (Option ℕ)) :=
  .call 1 (.clearRange 4 1) ::
    (List.replicate 3 (.step 0 none) ++ List.replicate 5 (.step 1 none) ++
      List.replicate 2 (.step 0 none))

/-- Both calls take effect: they write different pages of one bottom node. -/
theorem writers_take_effect_publishing :
    (radixRun firstPath (.call 0 (.setSpan 7 3 1) :: publishing)).shared.fatal = none ∧
      ∃ ds, ds <+: publishing ∧ ∀ q ∈ pages 3 1,
        (radixRun firstPath (.call 0 (.setSpan 7 3 1) :: ds)).shared.tree.getSpan q = some 7 := by
  have hprepared : PreparedRun firstPath (.call 0 (.setSpan 7 3 1) :: publishing) := by
    refine ⟨⟨by decide, paths_firstPath (by decide)⟩, trivial, ?_⟩
    simp [List.replicate, Machine.Guarded, CallPrepared]
  have hapart : ApartRun firstPath (.call 0 (.setSpan 7 3 1) :: publishing) := by
    refine ⟨fun u op' p _ hp => absurd hp (by simp), fun u op' p hu hp => ?_, ?_⟩
    · -- the only call in progress is the other one
      have hrun : Function.update (fun _ : ℕ => none) 0
          (some (RadixCall.setSpan 7 3 1, (RadixCall.setSpan 7 3 1).body)) u = some (op', p) := hp
      by_cases h0 : u = 0
      · rw [h0, Function.update_self] at hrun
        obtain ⟨rfl, -⟩ := Prod.mk.inj (Option.some.inj hrun)
        rintro q ⟨h₁, h₂⟩ ⟨h₃, h₄⟩
        omega
      · rw [Function.update_of_ne h0] at hrun
        cases hrun
    · simp [List.replicate, Machine.Guarded, CallApart]
  obtain ⟨halive, -, hpost⟩ := writers_take_effect ok_firstPath hprepared
  have hall : ∀ cs ∈ publishing.inits, ((radixRun firstPath
      (.call 0 (.setSpan 7 3 1) :: cs)).running 0).isSome = true := by
    decide
  refine ⟨halive, ((hpost [] 0 (.setSpan 7 3 1) publishing .done rfl ⟨rfl, fun cs hcs => ?_⟩ rfl).2
    hapart).1 7 3 1 rfl⟩
  exact Option.isSome_iff_ne_none.mp (hall cs ((List.mem_inits cs _).mpr hcs))

/-- The invariant holds in the beginning, when the page map is empty. -/
example : ({} : RadixMemory).Ok :=
  ⟨rfl, by simp, fun _ _ => rfl, fun h => absurd h (by simp)⟩

end Results

end PageMap

end Ammalloc
