import Ammalloc.CentralCache.FetchProgress
import Ammalloc.CentralSystem.Callers
import Ammalloc.FreeList.Chains

set_option relaxedAutoImplicit false
set_option autoImplicit false

/-!
# The links that the central cache writes

`FetchBatch` and `DrainTransferCaches` chain their objects through the first word of each. The
frames of `CentralSystem` hold these chains as lists; here they are in memory. Every step of a call
writes the links that the source writes in it, and the callers overwrite the objects in their
possession as they like. The chain of a `FetchBatch` is built in several lock sections, with
anything in between; it is sound because no one else possesses its nodes.

## Main definitions

* `Ammalloc.Intrusive.FreeChain.linkAll` — the loop that links objects at the head.
* `Ammalloc.LinkedSystem`, `Ammalloc.LinkedSystem.machine` — the central cache with its links.
* `Ammalloc.LinkedSystem.Inv` — the chains in memory are those of the frames.

## Main results

* `Ammalloc.LinkedSystem.next_inv`.
-/

namespace Ammalloc

open SizeClass (kNumSizeClasses)

/-! ## Linking at the head -/

namespace Intrusive

namespace FreeChain

/-- The body of the linking loops of `FetchBatch`: the object becomes the head, and the first one
is the tail. The count stays below `kMaxBatchSize`. -/
def linkHead (r : Heap × FreeChain) (obj : ℕ) : Heap × FreeChain :=
  (Function.update r.1 obj r.2.head,
    ⟨obj, if r.2.head = 0 then obj else r.2.tail, r.2.count + 1⟩)

/-- A linking loop. -/
def linkAll (heap : Heap) (chain : FreeChain) (objs : List ℕ) : Heap × FreeChain :=
  objs.foldl linkHead (heap, chain)

variable {heap : Heap} {chain : FreeChain} {xs objs : List ℕ} {k : ℕ}

/-- One object more at the head. -/
lemma linkHead_holds (h : chain.descriptor.Holds heap ⟨xs, k⟩) {obj : ℕ} (hne : obj ≠ 0)
    (hmem : obj ∉ xs) :
    (linkHead (heap, chain) obj).2.descriptor.Holds (linkHead (heap, chain) obj).1
      ⟨obj :: xs, k⟩ := by
  have hchain : LinkedStack.Chain heap 0 chain.head xs := h.chain
  have hcount : chain.count = xs.length := h.count
  refine holds ?_ ?_ ?_
  · refine LinkedStack.Chain.push (hchain.congr fun x hx => ?_) hne
      (Function.update_self obj _ heap)
    refine Function.update_of_ne ?_ _ _
    rintro rfl
    exact hmem hx
  · show (if chain.head = 0 then obj else chain.tail) = (obj :: xs).getLastD 0
    rw [List.getLastD_cons]
    split_ifs with hhead
    · rw [hhead] at hchain
      rw [hchain.eq_nil]
      rfl
    · have htail : chain.tail = xs.getLastD 0 := h.tail chain.tail rfl
      rw [htail]
      cases xs with
      | nil => exact absurd hchain hhead
      | cons x xs => rw [List.getLastD_cons, List.getLastD_cons]
  · show chain.count + 1 = xs.length + 1
    rw [hcount]

/-- **The linking loop** puts the objects in front of the chain, last one first. -/
lemma linkAll_holds (h : chain.descriptor.Holds heap ⟨xs, k⟩) (hne : ∀ x ∈ objs, x ≠ 0)
    (hnd : (objs.reverse ++ xs).Nodup) :
    (linkAll heap chain objs).2.descriptor.Holds (linkAll heap chain objs).1
      ⟨objs.reverse ++ xs, k⟩ := by
  induction objs generalizing heap chain xs with
  | nil => exact h
  | cons obj objs ih =>
    rw [List.reverse_cons, List.append_assoc, List.singleton_append] at hnd ⊢
    have hmem : obj ∉ xs := (List.nodup_cons.mp (List.nodup_append.mp hnd).2.1).1
    exact ih (linkHead_holds h (hne obj List.mem_cons_self) hmem)
      (fun x hx => hne x (List.mem_cons_of_mem obj hx)) hnd

/-- Other objects keep their links. -/
lemma linkAll_of_notMem {x : ℕ} (hx : x ∉ objs) : (linkAll heap chain objs).1 x = heap x := by
  induction objs generalizing heap chain with
  | nil => rfl
  | cons obj objs ih =>
    rw [List.mem_cons, not_or] at hx
    show (linkAll (Function.update heap obj chain.head) _ objs).1 x = heap x
    rw [ih hx.2, Function.update_of_ne hx.1]

end FreeChain

end Intrusive

/-! ## Addresses in the books -/

namespace CentralCache

variable {c : CentralCache} {det : List ℕ} {out : Multiset (ℕ × ℕ)} {spansOut : Multiset ℕ}

/-- No object is at the null pointer. -/
lemma Inv.address_ne_zero (h : c.Inv det out spansOut none) {p : ℕ × ℕ} (hp : c.Allocated p) :
    p.2 ≠ 0 := by
  obtain ⟨-, i, -, s, hs, k, -, -, hk⟩ := hp
  have hbase := h.pages.getPageBaseAddr_pos hs
  rw [← hk, Span.slotAddr, Span.getDataBasePtr]
  omega

/-- An address belongs to one class. -/
lemma Inv.eq_of_address (h : c.Inv det out spansOut none) {p q : ℕ × ℕ} (hp : c.Allocated p)
    (hq : c.Allocated q) (heq : p.2 = q.2) : p = q := by
  obtain ⟨hp₁, i, hi, s, hs, k, hk, -, hka⟩ := hp
  obtain ⟨hq₁, j, hj, t, ht, l, hl, -, hla⟩ := hq
  obtain ⟨s', hs', hcs, -⟩ := h.listed p.1 hp₁ i hi
  obtain ⟨t', ht', hct, -⟩ := h.listed q.1 hq₁ j hj
  obtain rfl : s' = s := Option.some.inj (hs'.spans.symm.trans hs)
  obtain rfl : t' = t := Option.some.inj (ht'.spans.symm.trans ht)
  -- the page of the address has one span
  have hgi := (h.pages.getSpan_iff (p.2 >>> pageShift) i).mpr ⟨s', hs, hka ▸ hcs.covers_slot hk⟩
  have hgj := (h.pages.getSpan_iff (q.2 >>> pageShift) j).mpr ⟨t', ht, hla ▸ hct.covers_slot hl⟩
  rw [heq, hgj] at hgi
  obtain rfl : j = i := Option.some.inj hgi
  exact Prod.ext (h.list_unique hp₁ hq₁ hi hj) heq

end CentralCache

namespace CentralSystem

variable {n t u : ℕ} {st : CentralSystem}

/-- The buffers of a call belong to its caller. -/
lemma mem_objs_of_call {f : CentralFrame} (hf : (st.clients t).call = some f) {p : ℕ × ℕ}
    (hp : p ∈ f.objs) : p ∈ (st.clients t).objs := by
  rw [Client.objs, Client.inFlight, hf]
  exact Multiset.mem_add.mpr (Or.inl hp)

/-- What a caller has is in the books. -/
lemma Inv.allocated_of_mem (h : Inv n st) (ht : t < n) {p : ℕ × ℕ}
    (hp : p ∈ (st.clients t).objs) : st.central.Allocated p := by
  refine (h.central.allocated p).mp (Multiset.mem_add.mpr (Or.inr ?_))
  rw [outObjs_eq ht]
  exact Multiset.mem_add.mpr (Or.inl hp)

/-- What a caller has, it has once. -/
lemma Inv.objs_nodup (h : Inv n st) (ht : t < n) : (st.clients t).objs.Nodup := by
  have hbooks := (Multiset.nodup_add.mp h.central.books).2.1
  rw [outObjs_eq ht] at hbooks
  exact (Multiset.nodup_add.mp hbooks).1

/-- **Two callers have no address in common.** -/
lemma Inv.address_ne (h : Inv n st) (ht : t < n) (hu : u < n) (hne : t ≠ u) {p q : ℕ × ℕ}
    (hp : p ∈ (st.clients t).objs) (hq : q ∈ (st.clients u).objs) : p.2 ≠ q.2 := by
  intro heq
  obtain rfl := h.central.eq_of_address (h.allocated_of_mem ht hp) (h.allocated_of_mem hu hq) heq
  have hbooks := (Multiset.nodup_add.mp h.central.books).2.1
  rw [outObjs_eq ht] at hbooks
  refine Multiset.disjoint_left.mp (Multiset.nodup_add.mp hbooks).2.2 hp ?_
  have hle : (st.clients u).objs ≤ restObjs n t st :=
    Finset.single_le_sum (fun _ _ => Multiset.zero_le _)
      (Finset.mem_erase.mpr ⟨hne.symm, Finset.mem_range.mpr hu⟩)
  exact Multiset.mem_of_le hle hq

/-- The buffers of a call are apart from the other possessions of its caller. -/
lemma Inv.held_ne (h : Inv n st) (ht : t < n) {f : CentralFrame}
    (hf : (st.clients t).call = some f) {p q : ℕ × ℕ} (hp : p ∈ f.objs)
    (hq : q ∈ (st.clients t).held) : p.2 ≠ q.2 := by
  have hobjs : (st.clients t).objs = (f.objs : Multiset (ℕ × ℕ)) + (st.clients t).held := by
    simp [Client.objs, Client.inFlight, hf]
  have hpm : p ∈ (st.clients t).objs := mem_objs_of_call hf hp
  have hqm : q ∈ (st.clients t).objs := Multiset.mem_add.mpr (Or.inr hq)
  intro heq
  obtain rfl := h.central.eq_of_address (h.allocated_of_mem ht hpm) (h.allocated_of_mem ht hqm) heq
  have hnd := h.objs_nodup ht
  rw [hobjs] at hnd
  exact Multiset.disjoint_left.mp (Multiset.nodup_add.mp hnd).2.2 hp hq

/-- The buffers of a `FetchBatch` hold distinct objects, none of them null. -/
lemma Inv.fetch_objs (h : Inv n st) (ht : t < n) {f : FetchFrame}
    (hf : (st.clients t).call = some (.fetch f)) : f.objs.Nodup ∧ ∀ x ∈ f.objs, x ≠ 0 := by
  have hobjs : (st.clients t).objs = tag f.idx f.objs + (st.clients t).held := by
    simp only [Client.objs, Client.inFlight, hf, Option.elim_some]
    rfl
  have hnd := h.objs_nodup ht
  rw [hobjs] at hnd
  have htag := (Multiset.nodup_add.mp hnd).1
  refine ⟨List.Nodup.of_map _ (Multiset.coe_nodup.mp htag), fun x hx => ?_⟩
  have hmem : (f.idx, x) ∈ (st.clients t).objs :=
    mem_objs_of_call hf (List.mem_map_of_mem hx)
  exact h.central.address_ne_zero (h.allocated_of_mem ht hmem)

end CentralSystem

/-! ## The links of a step -/

open Intrusive (Heap FreeChain ObjectBatch)

/-- The links that a step of `FetchBatch` from `f` to `f'` writes, and the chain for the caller
after it. -/
def FetchFrame.link (heap : Heap) (chain : FreeChain) (f f' : FetchFrame) : Heap × FreeChain :=
  match f.pc with
  -- the grabbed objects, the last one first
  | .grab => FreeChain.linkAll heap {} f'.grabbed.reverse
  -- what the section extracts, up to `need_for_thread` objects in all
  | .scan =>
    FreeChain.linkAll heap chain ((f'.extracted.take f.needForThread).drop f.extracted.length)
  | .install _ =>
    FreeChain.linkAll heap chain ((f'.extracted.take f.needForThread).drop f.extracted.length)
  -- the leftovers become a batch of their own
  | .publish =>
    match f'.pc with
    | .rollback pc => ((FreeChain.linkAll heap {} pc.objs.reverse).1, chain)
    | _ => (heap, chain)
  | _ => (heap, chain)

/-- The links that a step of `DrainTransferCaches` writes: the detached objects become a batch. -/
def DrainFrame.link (heap : Heap) (f f' : DrainFrame) : Heap :=
  match f.pc, f'.pc with
  | .detach _ _, .release _ _ _ pc => (FreeChain.linkAll heap {} pc.objs.reverse).1
  | _, _ => heap

/-- The links that a step of a call writes. -/
def CentralFrame.link (heap : Heap) (chain : FreeChain) :
    CentralFrame → CentralFrame → Heap × FreeChain
  | .fetch f, .fetch f' => f.link heap chain f'
  | .drain f, .drain f' => (f.link heap f', chain)
  | _, _ => (heap, chain)

namespace FetchFrame

variable {heap : Heap} {chain : FreeChain} {f f' : FetchFrame}

/-- The chain for the caller is part of the buffers. -/
lemma chain_subset_objs (f : FetchFrame) : f.chain ⊆ f.objs := by
  intro x hx
  have hmem : x ∈ f.extracted ∨ x ∈ f.grabbed := by
    rcases List.mem_append.mp hx with hx | hx
    · exact Or.inl (List.mem_of_mem_take (List.mem_reverse.mp hx))
    · exact Or.inr hx
  unfold objs
  split
  · exact List.mem_append_left _ hx
  · exact hx
  · exact List.mem_append.mpr hmem.symm

/-- Only links of objects in the buffers are written. -/
lemma link_of_notMem {x : ℕ}
    (hx : x ∉ f'.objs) (hneed : f.pc ≠ .grab → f'.needForThread = f.needForThread) :
    (link heap chain f f').1 x = heap x := by
  have hchain : x ∉ f'.chain := fun h => hx (f'.chain_subset_objs h)
  simp only [FetchFrame.chain, List.mem_append, List.mem_reverse, not_or] at hchain
  unfold link
  split
  · exact FreeChain.linkAll_of_notMem fun h => hchain.2 (List.mem_reverse.mp h)
  · rename_i hpc
    refine FreeChain.linkAll_of_notMem fun h => hchain.1 ?_
    rw [hneed (by simp [hpc])]
    exact List.mem_of_mem_drop h
  · rename_i i hpc
    refine FreeChain.linkAll_of_notMem fun h => hchain.1 ?_
    rw [hneed (by simp [hpc])]
    exact List.mem_of_mem_drop h
  · split
    · rename_i pc hpc
      refine FreeChain.linkAll_of_notMem fun h => hx ?_
      simp only [FetchFrame.objs, hpc]
      exact List.mem_append_right _ (List.mem_reverse.mp h)
    · rfl
  · rfl

/-- What more is extracted comes in front of the chain. -/
lemma take_extend {l l' : List ℕ} (h : l <+: l') (k : ℕ) :
    l'.take k = l.take k ++ (l'.take k).drop l.length := by
  obtain ⟨m, rfl⟩ := h
  rw [List.take_append, List.drop_append]
  rcases Nat.lt_or_ge l.length k with hlt | hge
  · rw [List.take_of_length_le hlt.le, List.drop_length, Nat.sub_self, List.drop_zero,
      List.nil_append]
  · rw [Nat.sub_eq_zero_of_le hge, List.take_zero, List.drop_nil, List.append_nil, List.append_nil,
      List.drop_of_length_le (by rw [List.length_take]; omega), List.append_nil]

/-- A chain of distinct objects. -/
lemma chain_nodup (h : f.objs.Nodup) : f.chain.Nodup := by
  have hbuffers : (f.grabbed ++ f.extracted).Nodup → f.chain.Nodup := by
    intro hnd
    obtain ⟨hg, he, hdis⟩ := List.nodup_append.mp hnd
    refine List.nodup_append.mpr ⟨List.nodup_reverse.mpr (he.sublist (List.take_sublist _ _)), hg,
      fun a ha b hb hab => hdis b hb a ?_ hab.symm⟩
    exact List.mem_of_mem_take (List.mem_reverse.mp ha)
  unfold objs at h
  split at h
  · exact (List.nodup_append.mp h).1
  · exact h
  · exact hbuffers h

/-- **The links of a step make the chain of the frame after it.** -/
lemma link_holds {hardened : Bool} {env : PageEnv} {c c' : CentralCache}
    (h : chain.descriptor.Holds heap { nodes := f.chain }) (hok : CentralCache.FetchOk c f)
    (hstep : c.fetchStep hardened env f = .ok (c', f')) (hnd : f'.objs.Nodup)
    (hne : ∀ x ∈ f'.objs, x ≠ 0) :
    (link heap chain f f').2.descriptor.Holds (link heap chain f f').1 { nodes := f'.chain } := by
  have hchain := chain_nodup hnd
  have hnull : ∀ x ∈ f'.chain, x ≠ 0 := fun x hx => hne x (f'.chain_subset_objs hx)
  cases CentralCache.fetchStep_cases hstep with
  | returned hf =>
    simp only [link, hf]
    exact h
  | @grab objs r hf hrun =>
    obtain ⟨-, hempty⟩ := hok.unstarted hf
    simp only [link, hf]
    simp only [FetchFrame.chain, hempty, List.take_nil, List.reverse_nil, List.nil_append] at *
    have hstart : ({} : FreeChain).descriptor.Holds heap { nodes := [] } :=
      FreeChain.holds rfl rfl rfl
    have hlink := FreeChain.linkAll_holds hstart (fun x hx => hnull x (List.mem_reverse.mp hx))
      (by simpa using hchain)
    simpa using hlink
  | @scan c₁ _ extracted needSpan entered hrun =>
    have hpre := CentralCache.scanLoop_extends hrun
    have hlink : link heap chain f
        { f with extracted := extracted, pc := if needSpan then .allocSpan else .publish } =
        FreeChain.linkAll heap chain
          ((extracted.take f.needForThread).drop f.extracted.length) := by
      rcases entered with ⟨hf, -⟩ | ⟨i, hf, -⟩ <;> simp only [link, hf]
    have hsplit : FetchFrame.chain
        { f with extracted := extracted, pc := if needSpan then .allocSpan else .publish } =
        ((extracted.take f.needForThread).drop f.extracted.length).reverse ++ f.chain := by
      have htake := congrArg List.reverse (take_extend hpre f.needForThread)
      rw [List.reverse_append] at htake
      rw [FetchFrame.chain, FetchFrame.chain, ← List.append_assoc, ← htake]
      rfl
    rw [hsplit] at hchain hnull ⊢
    rw [hlink]
    exact FreeChain.linkAll_holds h (fun x hx => hnull x (by simp [hx])) hchain
  | refused hf hrun =>
    simp only [link, hf]
    exact h
  | granted hf hrun =>
    simp only [link, hf]
    exact h
  | carved hf =>
    simp only [link, hf]
    exact h
  | published hf hrun =>
    simp only [link, hf]
    exact h
  | @overflow r left hf hrun hleft =>
    -- the leftovers are no nodes of the chain
    simp only [link, hf, ReleasePc.objs, List.reverse_reverse]
    refine h.congr fun x hx => FreeChain.linkAll_of_notMem fun hmem => ?_
    exact (List.nodup_append.mp hnd).2.2 x hx x (List.mem_reverse.mpr hmem) rfl
  | rollingBack hf hrun hmore =>
    simp only [link, hf]
    exact h
  | rolledBack hf hrun =>
    simp only [link, hf]
    exact h

end FetchFrame

/-- Only links of detached objects are written. -/
lemma DrainFrame.link_of_notMem {heap : Heap} {f f' : DrainFrame} {x : ℕ}
    (hx : ∀ p ∈ f'.objs, p.2 ≠ x) : f.link heap f' x = heap x := by
  cases hpc : f.pc with
  | detach idx remaining =>
    cases hpc' : f'.pc with
    | release idx' remaining' detached pc =>
      simp only [link, hpc, hpc']
      refine FreeChain.linkAll_of_notMem fun h => hx (idx', x) ?_ rfl
      simp only [DrainFrame.objs, hpc']
      exact List.mem_map_of_mem (List.mem_reverse.mp h)
    | _ => simp only [link, hpc, hpc']
  | _ => simp only [link, hpc]

/-! ## The system -/

/-- The central cache with the links of all objects, and for every caller the chain that its
`FetchBatch` has built so far: the local variables `head`, `tail` and `fetched`. -/
structure LinkedSystem where
  sys : CentralSystem
  heap : Heap
  chains : ℕ → FreeChain := fun _ => {}

/-- What happens in memory. -/
inductive LinkedAction where
  /-- A move of a caller or of the scavenger. -/
  | act (a : CentralAction)
  /-- Caller `u` overwrites the first word of an object in its possession. -/
  | write (u : ℕ) (obj : ℕ × ℕ) (v : ℕ)

namespace LinkedSystem

/-- One action of a system with `n` callers. -/
def next (n : ℕ) (hardened : Bool) (s : LinkedSystem) : LinkedAction → LinkedSystem
  | .act a =>
    let sys := CentralSystem.next n hardened s.sys a
    match a with
    | .fetchBatch t _ _ =>
      { s with
        sys := sys
        chains :=
          if (s.sys.clients t).call = none then Function.update s.chains t {} else s.chains }
    | .step t _ =>
      if t < n then
        match (s.sys.clients t).call, (sys.clients t).call with
        | some f, some f' =>
          let r := f.link s.heap (s.chains t) f'
          { sys := sys, heap := r.1, chains := Function.update s.chains t r.2 }
        | _, _ => { s with sys := sys }
      else { s with sys := sys }
    | _ => { s with sys := sys }
  | .write u obj v =>
    if u < n ∧ obj ∈ (s.sys.clients u).held then
      { s with heap := Function.update s.heap obj.2 v }
    else s

/-- The start, over any memory. -/
def create (backed : Bool) (heap : Heap) : LinkedSystem := { sys := .create backed, heap := heap }

/-- The system with `n` callers. -/
def machine (n : ℕ) (hardened : Bool) : Machine LinkedSystem LinkedAction where
  init := { s | ∃ backed heap, s = create backed heap }
  next := next n hardened

/-- The invariant: the books are in order, and the chain of every `FetchBatch` in progress is in
memory. -/
structure Inv (n : ℕ) (s : LinkedSystem) : Prop where
  sys : CentralSystem.Inv n s.sys
  chains : ∀ t < n, ∀ f, (s.sys.clients t).call = some (.fetch f) →
    (s.chains t).descriptor.Holds s.heap { nodes := f.chain }

variable {n t : ℕ} {hardened : Bool} {s : LinkedSystem}

/-- The central cache does not look at the links. -/
lemma next_sys (s : LinkedSystem) (a : CentralAction) :
    (next n hardened s (.act a)).sys = CentralSystem.next n hardened s.sys a := by
  cases a with
  | step t env =>
    simp only [next]
    split_ifs
    · split <;> rfl
    · rfl
  | _ => rfl

/-- A move that writes no link and starts no `FetchBatch`. -/
lemma Inv.quiet (h : Inv n s) {sys : CentralSystem} (hsys : CentralSystem.Inv n sys)
    (hcalls : ∀ t < n, ∀ f, (sys.clients t).call = some (.fetch f) →
      (s.sys.clients t).call = some (.fetch f)) : Inv n { s with sys := sys } :=
  ⟨hsys, fun t ht f hf => h.chains t ht f (hcalls t ht f hf)⟩

/-- A caller overwrites an object that it possesses. -/
lemma Inv.write (h : Inv n s) {u : ℕ} (hu : u < n) {obj : ℕ × ℕ}
    (hobj : obj ∈ (s.sys.clients u).held) (v : ℕ) :
    Inv n { s with heap := Function.update s.heap obj.2 v } := by
  refine ⟨h.sys, fun t ht f hf => (h.chains t ht f hf).congr fun x hx => ?_⟩
  have hmem : (f.idx, x) ∈ (CentralFrame.fetch f).objs :=
    List.mem_map_of_mem (f.chain_subset_objs hx)
  refine Function.update_of_ne ?_ _ _
  by_cases htu : t = u
  · subst htu
    exact h.sys.held_ne ht hf hmem hobj
  · exact h.sys.address_ne ht hu htu (CentralSystem.mem_objs_of_call hf hmem)
      (Multiset.mem_add.mpr (Or.inr hobj))

/-- The links of a step are links of the buffers after it. -/
lemma link_of_notMem {heap : Heap} {chain : FreeChain} {f f' : CentralFrame} {c c' : CentralCache}
    {env : PageEnv} (hstep : c.step hardened env f = .ok (c', f')) {x : ℕ}
    (hx : ∀ p ∈ f'.objs, p.2 ≠ x) : (f.link heap chain f').1 x = heap x := by
  cases f with
  | fetch f =>
    obtain ⟨⟨c₁, f₁⟩, hfetch, heq⟩ := exists_ok_of_bind hstep
    obtain ⟨rfl, rfl⟩ := Prod.mk.inj (Except.ok.inj heq)
    refine FetchFrame.link_of_notMem (fun hmem => hx (f₁.idx, x) (List.mem_map_of_mem hmem) rfl) ?_
    intro hpc
    cases CentralCache.fetchStep_cases hfetch with
    | grab hf _ => exact absurd hf hpc
    | _ => rfl
  | release idx mode pc =>
    obtain ⟨⟨c₁, pc₁⟩, -, heq⟩ := exists_ok_of_bind hstep
    obtain ⟨rfl, rfl⟩ := Prod.mk.inj (Except.ok.inj heq)
    rfl
  | drain f =>
    obtain ⟨⟨c₁, f₁⟩, -, heq⟩ := exists_ok_of_bind hstep
    obtain ⟨rfl, rfl⟩ := Prod.mk.inj (Except.ok.inj heq)
    exact DrainFrame.link_of_notMem hx

/-- **A step of a call** builds its own chain and leaves those of the others alone. -/
lemma Inv.step (h : Inv n s) (ht : t < n) {f : CentralFrame}
    (hf : (s.sys.clients t).call = some f) (hret : f.returned = false) (env : PageEnv) :
    Inv n (next n hardened s (.act (.step t env))) := by
  obtain ⟨central, f', hstep, hnext⟩ := CentralSystem.next_own h.sys hardened ht hf hret env
  have hsys : CentralSystem.Inv n (CentralSystem.next n hardened s.sys (.step t env)) :=
    CentralSystem.next_inv h.sys _
  have hcall := CentralSystem.startCall_client { s.sys with central := central } t
  rw [hnext] at hsys
  have hf' := (hcall t f').2
  rw [if_pos rfl] at hf'
  simp only [next, if_pos ht, hf, hnext, hf']
  refine ⟨hsys, fun u hu g hg => ?_⟩
  show (Function.update s.chains t (f.link s.heap (s.chains t) f').2 u).descriptor.Holds
    (f.link s.heap (s.chains t) f').1 _
  by_cases hut : u = t
  · subst hut
    rw [Function.update_self]
    obtain rfl : f' = .fetch g := Option.some.inj (hf'.symm.trans hg)
    cases f with
    | fetch f =>
      obtain ⟨⟨c₁, f₁⟩, hfetch, heq⟩ := exists_ok_of_bind hstep
      obtain ⟨rfl, hfg⟩ := Prod.mk.inj (Except.ok.inj heq)
      obtain rfl := CentralFrame.fetch.inj hfg
      obtain ⟨hnd, hne⟩ := hsys.fetch_objs hu hf'
      exact FetchFrame.link_holds (h.chains u hu f hf) (h.sys.calls u hu _ hf) hfetch hnd hne
    | release idx mode pc =>
      obtain ⟨⟨c₁, pc₁⟩, -, heq⟩ := exists_ok_of_bind hstep
      exact absurd (Prod.mk.inj (Except.ok.inj heq)).2 (by simp)
    | drain f =>
      obtain ⟨⟨c₁, f₁⟩, -, heq⟩ := exists_ok_of_bind hstep
      exact absurd (Prod.mk.inj (Except.ok.inj heq)).2 (by simp)
  · rw [Function.update_of_ne hut]
    have hold := (hcall u f').2
    rw [if_neg hut] at hold
    have hg' := hg
    rw [hold] at hg'
    refine (h.chains u hu g hg').congr fun x hx => link_of_notMem hstep fun p hp => ?_
    exact hsys.address_ne ht hu (Ne.symm hut) (CentralSystem.mem_objs_of_call hf' hp)
      (CentralSystem.mem_objs_of_call hg (List.mem_map_of_mem (g.chain_subset_objs hx)))

/-- The start of a call: its chain is empty. -/
lemma Inv.start (h : Inv n s) (idx m : ℕ) :
    Inv n (next n hardened s (.act (.fetchBatch t idx m))) := by
  have hsys : CentralSystem.Inv n (CentralSystem.next n hardened s.sys (.fetchBatch t idx m)) :=
    CentralSystem.next_inv h.sys _
  refine ⟨hsys, fun u hu f hf => ?_⟩
  show ((if (s.sys.clients t).call = none then Function.update s.chains t {} else s.chains)
    u).descriptor.Holds s.heap _
  change ((CentralSystem.next n hardened s.sys (.fetchBatch t idx m)).clients u).call = _ at hf
  simp only [CentralSystem.next] at hf
  split_ifs at hf with hg
  · rw [if_pos hg.2.1]
    rw [(CentralSystem.startCall_client s.sys t u _).2] at hf
    by_cases hut : u = t
    · subst hut
      rw [if_pos rfl] at hf
      obtain rfl := CentralFrame.fetch.inj (Option.some.inj hf)
      have hempty : (FetchFrame.start idx m).chain = [] := by
        simp [FetchFrame.start, FetchFrame.chain]
      rw [Function.update_self, hempty]
      exact FreeChain.holds rfl rfl rfl
    · rw [if_neg hut] at hf
      rw [Function.update_of_ne hut]
      exact h.chains u hu f hf
  · have hold := h.chains u hu f hf
    split_ifs with hidle
    · by_cases hut : u = t
      · subst hut
        rw [hidle] at hf
        exact absurd hf (by simp)
      · rwa [Function.update_of_ne hut]
    · exact hold

/-- **Every action keeps the invariant.** -/
theorem next_inv (h : Inv n s) (a : LinkedAction) : Inv n (next n hardened s a) := by
  -- a caller with another call than a `FetchBatch`, or with none
  have hset : ∀ (st : CentralSystem) (t : ℕ) (cl : Client), (∀ f, cl.call ≠ some (.fetch f)) →
      st.clients = s.sys.clients → ∀ u < n, ∀ f,
        ((st.setClient t cl).clients u).call = some (.fetch f) →
          (s.sys.clients u).call = some (.fetch f) := by
    intro st t cl hcl hst u _ f hf
    by_cases hut : u = t
    · subst hut
      simp only [CentralSystem.setClient, Function.update_self] at hf
      exact absurd hf (hcl f)
    · simpa only [CentralSystem.setClient, Function.update_of_ne hut, hst] using hf
  cases a with
  | write u obj v =>
    simp only [next]
    split_ifs with hg
    · exact h.write hg.1 hg.2 v
    · exact h
  | act a =>
    have hsys : CentralSystem.Inv n (CentralSystem.next n hardened s.sys a) :=
      CentralSystem.next_inv h.sys a
    cases a with
    | step t env =>
      by_cases ht : t < n
      · cases hf : (s.sys.clients t).call with
        | none =>
          have hstay : CentralSystem.next n hardened s.sys (.step t env) = s.sys := by
            simp only [CentralSystem.next, if_pos ht, hf]
          simp only [next, if_pos ht, hf, hstay]
          exact h
        | some f =>
          cases hret : f.returned with
          | false => exact h.step ht hf hret env
          | true =>
            have hdone : CentralSystem.next n hardened s.sys (.step t env) = s.sys.setClient t
                { held := (f.objs : Multiset (ℕ × ℕ)) + (s.sys.clients t).held } := by
              simp only [CentralSystem.next, if_pos ht, hf, hret, if_true]
            rw [hdone] at hsys
            have hnone : ((s.sys.setClient t
                { held := (f.objs : Multiset (ℕ × ℕ)) + (s.sys.clients t).held }).clients t).call =
                none := by
              simp [CentralSystem.setClient]
            simp only [next, if_pos ht, hf, hdone, hnone]
            exact h.quiet hsys (hset s.sys t _ (by simp) rfl)
      · simp only [next, if_neg ht]
        refine h.quiet hsys fun u _ f hf => ?_
        simpa only [CentralSystem.next, if_neg ht] using hf
    | fetchBatch t idx m => exact h.start idx m
    | releaseBatch t idx objs mode =>
      refine h.quiet hsys fun u hu f hf => ?_
      simp only [CentralSystem.next] at hf
      split_ifs at hf
      · exact hset s.sys t _ (by simp) rfl u hu f hf
      · exact hf
    | drainTransferCaches t m =>
      refine h.quiet hsys fun u hu f hf => ?_
      simp only [CentralSystem.next] at hf
      split_ifs at hf
      · exact hset s.sys t _ (by simp) rfl u hu f hf
      · exact hf
    | handOver t u obj =>
      refine h.quiet hsys fun v _ f hf => ?_
      simp only [CentralSystem.next] at hf
      split_ifs at hf
      · rwa [CentralSystem.handOver_call] at hf
      · exact hf
    | scavenge env ok =>
      refine h.quiet hsys fun u _ f hf => ?_
      simp only [CentralSystem.next] at hf
      split at hf <;> exact hf

/-- The invariant holds at the start. -/
lemma create_inv (n : ℕ) (backed : Bool) (heap : Heap) : Inv n (create backed heap) :=
  ⟨CentralSystem.create_inv backed, fun _ _ _ hf =>
    absurd hf (by simp [create, CentralSystem.create])⟩

/-- Every run keeps the invariant. -/
lemma Inv.run (h : Inv n s) (hardened : Bool) (as : List LinkedAction) :
    Inv n ((machine n hardened).run s as) :=
  Machine.run_invariant (M := machine n hardened) (I := Inv n) (fun _ a hs => next_inv hs a) h as

end LinkedSystem

end Ammalloc
