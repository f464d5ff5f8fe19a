import Ammalloc.Lib.Machine
import Ammalloc.PageCache.Shards
import Ammalloc.Scavenger

set_option relaxedAutoImplicit false
set_option autoImplicit false

/-!
# The page cache with any routing

Runs of `AllocSpan` and `ReleaseSpan` in which every `AllocSpan` may go to any of the
`kMaxShardCount` shards. The state records for every descriptor the pool that made it, and the
history of what the merge loops unlinked and what was deleted into which pool.

Shard ownership does not hold for every routing. A refill of shard `k ≠ 0` marks the new span as
owned by shard 0 and links it in the lists of shard `k`; `AllocSpan` corrects the owner of what it
returns, and not that of the remainder. Ownership holds along a run exactly as long as no such
remainder is left.

## Main definitions

* `Ammalloc.ShardSystem`, `Ammalloc.ShardSystem.machine`.
* `Ammalloc.ShardSystem.Owned` — shard ownership.
* `Ammalloc.ShardSystem.Fits` — the condition on a call.

## Main results

* `Ammalloc.ShardSystem.owned_iff` — when ownership holds along a run.
* `Ammalloc.ShardSystem.not_owned_secondShard` — a run in which it does not.
-/

namespace Ammalloc

open PageCache

/-- The calls, each with the answers of the callees. -/
inductive ShardAction where
  /-- `AllocSpan(n)`, with `k` as the answer of `SelectShardForAlloc`. -/
  | allocSpan (k n : ℕ) (env : PageEnv)
  /-- `ReleaseSpan` of a span that is handed out. -/
  | releaseSpan (i : ℕ) (env : PageEnv)

/-- The page cache with its history, newest first. -/
structure ShardSystem where
  pc : PageCache := {}
  /-- The spans that are handed out. -/
  held : List ℕ := []
  /-- The shard whose `span_pool_` made the descriptor. -/
  pool : ℕ → ℕ := fun _ => 0
  /-- What the merge loops unlinked, with the bucket from which they did. -/
  unlinked : List (ℕ × List ℕ) := []
  /-- The pools of the deleted descriptors: that which made it, that into which it went. -/
  deleted : List (ℕ × ℕ) := []
  fault : Option Fault := none

namespace ShardSystem

/-- One call. A shard that is not active is not chosen. -/
def next (st : ShardSystem) : ShardAction → ShardSystem
  | .allocSpan k n env =>
    if k < kMaxShardCount then
      match (st.pc.load env).allocSpanOn k n with
      | .error e => { st with fault := some e }
      | .ok (r, pc) =>
        { st with
          pc := pc
          held := r.toList ++ st.held
          pool := fun i => if (st.pc.spans i).isNone then k else st.pool i }
    else st
  | .releaseSpan i env =>
    if i ∈ st.held then
      match st.pc.deref i with
      | .error e => { st with fault := some e }
      | .ok s =>
        match (st.pc.load env).releaseSpan i with
        | .error e => { st with fault := some e }
        | .ok pc =>
          { st with
            pc := pc
            held := st.held.erase i
            unlinked := pc.env.trace.filterMap erased ++ st.unlinked
            -- `span_pool_` is that of the shard on which `ReleaseSpanLocked` runs
            deleted := (pc.env.trace.filterMap PageCache.deleted).map
              (fun j => (st.pool j, s.ownerShardId)) ++ st.deleted }
    else st

/-- Nothing is mapped in the beginning. -/
def machine : Machine ShardSystem ShardAction where
  init := {{}}
  next := next

/-- **Shard ownership**: a span in the lists of shard `k` is owned by shard `k`, the neighbours
that a release unlinked were linked in the lists of its shard, and every deleted descriptor went
back to the pool that made it. -/
def Owned (st : ShardSystem) : Prop :=
  (∀ k n, ∀ i ∈ st.pc.spanLists k n, ∃ s, st.pc.spans i = some s ∧ s.ownerShardId = k) ∧
    (∀ u ∈ st.unlinked, u.1 ∈ u.2) ∧ ∀ d ∈ st.deleted, d.1 = d.2

/-- A call after which the owners are still right. -/
def Fits (st : ShardSystem) : ShardAction → Prop
  | .allocSpan k n env => k < kMaxShardCount → (st.pc.load env).RefillFits k n
  | .releaseSpan _ _ => True

/-- The invariant: every shard sees a page cache in order, and the pools agree with the owners. -/
structure Inv (st : ShardSystem) : Prop where
  shards : ∀ k, (view k st.pc).Inv []
  held : ∀ i ∈ st.held, ∃ s, st.pc.spans i = some s ∧ s.used = true
  held_nodup : st.held.Nodup
  pool : ∀ i s, st.pc.spans i = some s → st.pool i = s.ownerShardId
  unlinked : ∀ u ∈ st.unlinked, u.1 ∈ u.2
  deleted : ∀ d ∈ st.deleted, d.1 = d.2

variable {st : ShardSystem}

/-- The invariant gives ownership. -/
lemma Inv.owned (h : st.Inv) : st.Owned := by
  refine ⟨fun k n i hi => ?_, h.unlinked, h.deleted⟩
  obtain ⟨s, hs, -, ho, -⟩ := (mem_spanLists_iff (h.shards k)).mp hi
  exact ⟨s, hs, ho⟩

/-- The empty page cache. -/
lemma init_inv : Inv {} where
  shards k := by
    have hview : view k {} = {} := by
      simp only [view, Option.map_none, PageCache.mk.injEq, and_true, true_and]
      exact Function.update_eq_self 0 _
    rw [hview]
    exact ScavInv.empty.inv
  held := by simp
  held_nodup := List.nodup_nil
  pool i s hs := absurd hs (by simp)
  unlinked := by simp
  deleted := by simp

/-- **A call of `AllocSpan`** whose refill fits. -/
lemma Inv.allocSpan (h : st.Inv) {k n : ℕ} {env : PageEnv} (hk : k < kMaxShardCount)
    (hfits : (st.pc.load env).RefillFits k n) : (next st (.allocSpan k n env)).Inv := by
  have hview : ∀ j, (view j (st.pc.load env)).Inv [] := fun j => (h.shards j).load env
  obtain ⟨r, pc', hrun, hpost⟩ := allocSpanOn_spec (hview k) hfits
  have hlocal : ShardLocal k (st.pc.load env) pc' none r := hpost.shardLocal
  have hgot : ∀ i s, r = some i → pc'.spans i = some s → s.used = true ∧ s.ownerShardId = k := by
    intro i s hi hs
    obtain ⟨t, ht, hu, ho⟩ := hpost.got i hi
    rw [hs] at ht
    obtain rfl := Option.some.inj ht
    exact ⟨hu, ho⟩
  simp only [next, if_pos hk, hrun]
  constructor
  · intro j
    by_cases hj : j = k
    · rw [hj]
      exact hpost.inv
    · exact hlocal.inv hj (by simp) (fun i s hi hs => (hgot i s hi hs).1) (hview j) hpost.inv
  · intro i hi
    rcases List.mem_append.mp hi with hi | hi
    · obtain ⟨s, hs, hu, -⟩ := hpost.got i (Option.mem_toList.mp hi)
      exact ⟨s, hs, hu⟩
    · obtain ⟨s, hs, hu⟩ := h.held i hi
      exact ⟨s, hlocal.keep i s hs (Or.inl hu) (by simp), hu⟩
  · refine List.Nodup.append (Option.toList_nodup r) h.held_nodup fun i hi hh => ?_
    obtain ⟨s, hs, hu⟩ := h.held i hh
    have := hpost.fresh i s (Option.mem_toList.mp hi) hs
    rw [hu] at this
    exact absurd this (by simp)
  · intro i s hs
    dsimp only at hs ⊢
    cases hold : st.pc.spans i with
    | none =>
      -- a descriptor of this call is owned by the shard
      simp only [Option.isNone_none, if_true]
      by_contra hne
      by_cases hr : r = some i
      · exact hne (hgot i s hr hs).2.symm
      · have := hlocal.back i s hs (Or.inr (Ne.symm hne)) hr
        rw [show (st.pc.load env).spans i = none from hold] at this
        exact absurd this (by simp)
    | some t =>
      simp only [Option.isNone_some, Bool.false_eq_true, if_false]
      rw [h.pool i t hold]
      exact (hlocal.owner_eq (by simp) (fun i s hi hs => (hgot i s hi hs).2) hold hs).symm
  · exact h.unlinked
  · exact h.deleted

/-- **A call of `ReleaseSpan`.** -/
lemma Inv.releaseSpan (h : st.Inv) (i : ℕ) (env : PageEnv) :
    (next st (.releaseSpan i env)).Inv := by
  by_cases hheld : i ∈ st.held
  swap
  · simpa only [next, if_neg hheld] using h
  obtain ⟨s, hs, hu⟩ := h.held i hheld
  have hview : ∀ j, (view j (st.pc.load env)).Inv [] := fun j => (h.shards j).load env
  obtain ⟨pc', hrun, hpost⟩ := releaseSpan_shard (hview s.ownerShardId)
    (fun k n hk j hj => by
      obtain ⟨t, ht, -, ho, -⟩ := (mem_spanLists_iff (hview k)).mp hj
      exact ⟨t, ht, ho.trans_ne hk⟩) hs hu rfl
  -- the trace of the call begins empty
  obtain ⟨evs, hlogs, hlinked, hdeleted⟩ := hpost.events
  have htrace : pc'.env.trace = evs := hlogs.trace
  have hderef : st.pc.deref i = .ok s := by simp only [deref, hs]
  have hrel : ∀ j t, some i = some j → st.pc.spans j = some t → t = s := by
    intro j t hj ht
    obtain rfl := Option.some.inj hj
    rw [hs] at ht
    exact (Option.some.inj ht).symm
  have hlocal := hpost.shardLocal
  simp only [next, if_pos hheld, hderef, hrun]
  constructor
  · intro j
    by_cases hj : j = s.ownerShardId
    · rw [hj]
      exact hpost.inv
    · exact hlocal.inv hj (fun j t hj ht => by rw [hrel j t hj ht]; exact hu) (by simp) (hview j)
        hpost.inv
  · intro j hj
    obtain ⟨hne, hj⟩ := h.held_nodup.mem_erase_iff.mp hj
    obtain ⟨t, ht, hut⟩ := h.held j hj
    exact ⟨t, hlocal.keep j t ht (Or.inl hut) (by simpa using Ne.symm hne), hut⟩
  · exact h.held_nodup.erase i
  · intro j t ht
    obtain ⟨t₀, ht₀⟩ := hpost.live j t ht
    rw [show st.pool j = t₀.ownerShardId from h.pool j t₀ ht₀]
    exact (hlocal.owner_eq (fun j t hj ht => by rw [hrel j t hj ht]) (by simp) ht₀ ht).symm
  · intro u hu
    rcases List.mem_append.mp hu with hu | hu
    · exact hlinked u (htrace ▸ hu)
    · exact h.unlinked u hu
  · intro d hd
    rcases List.mem_append.mp hd with hd | hd
    · obtain ⟨j, hj, rfl⟩ := List.mem_map.mp hd
      obtain ⟨t, ht, ho⟩ := hdeleted j (htrace ▸ hj)
      exact (h.pool j t ht).trans ho
    · exact h.deleted d hd

/-- **Every call that fits keeps the invariant.** -/
lemma Inv.next (h : st.Inv) {a : ShardAction} (ha : Fits st a) : (next st a).Inv := by
  cases a with
  | allocSpan k n env =>
    by_cases hk : k < kMaxShardCount
    · exact h.allocSpan hk (ha hk)
    · simpa only [ShardSystem.next, if_neg hk] using h
  | releaseSpan i env => exact h.releaseSpan i env

/-- **A call that does not fit** leaves a span in the lists of a shard that does not own it. -/
lemma Inv.not_owned (h : st.Inv) {a : ShardAction} (ha : ¬ Fits st a) :
    ¬ (ShardSystem.next st a).Owned := by
  cases a with
  | allocSpan k n env =>
    obtain ⟨hk, hfits⟩ := Classical.not_imp.mp ha
    have hview : (view k (st.pc.load env)).Inv [] := (h.shards k).load env
    obtain ⟨r, pc', hrun, m, j, s, hj, hs, ho⟩ := allocSpanOn_misowned hview hfits
    simp only [ShardSystem.next, if_pos hk, hrun]
    rintro ⟨howned, -⟩
    obtain ⟨t, ht, hot⟩ := howned k m j hj
    rw [hs] at ht
    obtain rfl := Option.some.inj ht
    exact ho hot
  | releaseSpan i env => exact absurd trivial ha

/-- **Shard ownership along a run**: it holds after every prefix of a run of `AllocSpan` and
`ReleaseSpan` with any routing exactly if every `AllocSpan` of the run fits, that is, goes to shard
0, asks for no page or for at least `MAX_PAGE_NUM` pages, finds a bucket with a span, or fails to
map a new one. -/
theorem owned_iff (as : List ShardAction) :
    (∀ bs, bs <+: as → Owned (machine.run {} bs)) ↔ Machine.Guarded machine Fits {} as :=
  Machine.forall_prefix_iff_guarded (I := Inv) (fun _ h => h.owned) (fun _ _ h ha => h.next ha)
    (fun _ _ h ha => h.not_owned ha) init_inv as

/-- One page from shard 1, on a new mapping. -/
def secondShardRun : List ShardAction :=
  [.allocSpan 1 1
    { sysAlloc := [some 1024], tryNew := [some 1, some 2], radixNode := [true, true, true] }]

/-- The remainder of 127 pages stays in the lists of shard 1, and shard 0 owns it. -/
theorem not_owned_secondShard : ¬ Owned (machine.run {} secondShardRun) := by
  rintro ⟨howned, -⟩
  obtain ⟨s, hs, ho⟩ := howned 1 127 1 (by decide +kernel)
  have howner : ((machine.run {} secondShardRun).pc.spans 1).map Span.ownerShardId = some 0 := by
    decide +kernel
  rw [hs] at howner
  exact absurd (ho.symm.trans (Option.some.inj howner)) (by simp)

end ShardSystem

end Ammalloc
