import Ammalloc.HugePageCache
import Ammalloc.Lib.FamilySum
import Ammalloc.Lib.Machine

set_option relaxedAutoImplicit false
set_option autoImplicit false

/-!
# The cache of 2 MiB mappings under concurrent use

`Get` and `Put` access by access: every load, store and compare-exchange of `Pop` and `Push`, and
every access to the pointer of a slot, is one step, and any number of threads interleave. A
compare-exchange may fail spuriously.

The two stacks share the links of the slots, so a `Pop` that stalls may read the link of a slot that
has moved to the other stack. Its compare-exchange then fails because of the tag, unless the head
has been updated `2 ^ 48` times in between. The ghost field `versions` counts the updates, and a
thread remembers in `seen` the version of the head it read.

## Main definitions

* `Ammalloc.HugePageCache.System`, `Ammalloc.HugePageCache.machine` — threads on a shared cache.
* `Ammalloc.HugePageCache.FewUpdates` — the condition on the tags.
* `Ammalloc.HugePageCache.Inv` — slots and pointers are shared out.

## Main results

* `Ammalloc.HugePageCache.Inv.step` — every access keeps the invariant.
* `Ammalloc.HugePageCache.dual_stack` — the slots are partitioned, and no pointer is lost,
  duplicated or made up.
-/

namespace Ammalloc

namespace HugePageCache

open LinkedStack

/-! ## The accesses of the operations -/

/-- A call of the cache. -/
inductive Call where
  | get
  | put (ptr : ℕ)
  deriving DecidableEq, Repr

/-- The stack that a call pops from. -/
def Call.source : Call → Head
  | .get => .used
  | .put _ => .free

/-- Where a thread is: the access that it makes next. In a push, `ptr` is the pointer that `Get` is
going to return or that `Put` has stored. -/
inductive Pc where
  | idle
  /-- `Pop`: load the head. -/
  | popLoad (call : Call)
  /-- `Pop`: test the index and load the link. -/
  | popNext (call : Call) (oldVal seen : ℕ)
  /-- `Pop`: compare and exchange. -/
  | popCas (call : Call) (oldVal seen next : ℕ)
  /-- Read or write the pointer of the slot. -/
  | access (call : Call) (index : ℕ)
  /-- `Push`: load the head. -/
  | pushLoad (h : Head) (index ptr : ℕ)
  /-- `Push`: store the link. -/
  | pushStore (h : Head) (index ptr oldVal seen : ℕ)
  /-- `Push`: compare and exchange. -/
  | pushCas (h : Head) (index ptr oldVal seen : ℕ)
  deriving DecidableEq, Repr

/-- Threads on a shared cache. -/
structure System where
  cache : HugePageCache := create
  pcs : ℕ → Pc := fun _ => .idle
  /-- The successful updates of each head. -/
  versions : Head → ℕ := fun _ => 0
  /-- The pointers of the calls of `Put` that returned true. -/
  accepted : List ℕ := []
  /-- The pointers that calls of `Get` returned. -/
  returned : List ℕ := []

namespace System

/-- The next access of thread `t`. -/
def setPc (st : System) (t : ℕ) (pc : Pc) : System :=
  { st with pcs := Function.update st.pcs t pc }

/-- A compare-exchange that succeeds. -/
def exchange (st : System) (h : Head) (newVal : ℕ) : System :=
  { st with
    cache := st.cache.setHead h newVal
    versions := Function.update st.versions h (st.versions h + 1) }

/-- The end of a call: `Get` pushes to the free stack and returns `p`, `Put` pushes to the used
stack and returns true. -/
def finish (st : System) (p : ℕ) : Head → System
  | .free => { st with returned := p :: st.returned }
  | .used => { st with accepted := p :: st.accepted }

/-- One access by thread `t`; `spurious` makes a compare-exchange fail in any case. -/
def step (st : System) (t : ℕ) (spurious : Bool) : System :=
  match st.pcs t with
  | .idle => st
  | .popLoad call =>
    st.setPc t (.popNext call (st.cache.heads call.source) (st.versions call.source))
  | .popNext call oldVal seen =>
    if index oldVal = kInvalid then st.setPc t .idle
    else st.setPc t (.popCas call oldVal seen (st.cache.next (index oldVal)))
  | .popCas call oldVal _ next =>
    if st.cache.heads call.source = oldVal ∧ spurious = false then
      (st.exchange call.source (pack next (tag oldVal + 1))).setPc t (.access call (index oldVal))
    else st.setPc t (.popNext call (st.cache.heads call.source) (st.versions call.source))
  | .access .get i => st.setPc t (.pushLoad .free i (st.cache.ptr i))
  | .access (.put p) i =>
    { st with cache := st.cache.setPtr i p }.setPc t (.pushLoad .used i p)
  | .pushLoad h i p => st.setPc t (.pushStore h i p (st.cache.heads h) (st.versions h))
  | .pushStore h i p oldVal seen =>
    { st with cache := st.cache.setNext i (index oldVal) }.setPc t (.pushCas h i p oldVal seen)
  | .pushCas h i p oldVal _ =>
    if st.cache.heads h = oldVal ∧ spurious = false then
      ((st.exchange h (pack i (tag oldVal + 1))).finish p h).setPc t .idle
    else st.setPc t (.pushStore h i p (st.cache.heads h) (st.versions h))

end System

/-- What a thread does. -/
inductive Action where
  | call (t : ℕ) (c : Call)
  | step (t : ℕ) (spurious : Bool)

/-- The cache with `n` threads. -/
def machine (n : ℕ) : Machine System Action where
  init := {{}}
  next st
    | .call t c => if t < n ∧ st.pcs t = .idle then st.setPc t (.popLoad c) else st
    | .step t spurious => if t < n then st.step t spurious else st

/-- At a compare-exchange, its head has been updated fewer than `2 ^ 48` times since the thread
read it. -/
def FewUpdates (st : System) : Action → Prop
  | .call _ _ => True
  | .step t _ =>
    match st.pcs t with
    | .popCas call _ seen _ => st.versions call.source < seen + 2 ^ 48
    | .pushCas h _ _ _ seen => st.versions h < seen + 2 ^ 48
    | _ => True

/-! ## A call that runs alone -/

section Alone

variable {n t : ℕ} {st : System}

/-- **A `Get` that no other thread interrupts** does what `Ammalloc.HugePageCache.get` does. -/
lemma get_alone (ht : t < n) (hidle : st.pcs t = .idle) :
    ((machine n).run st (.call t .get :: List.replicate 7 (.step t false))).cache =
      st.cache.get.2 := by
  by_cases hnull : index (st.cache.heads .used) = kInvalid
  · simp [machine, ht, hidle, List.replicate, System.step, System.setPc, Call.source, get, pop,
      hnull]
  · simp [machine, ht, hidle, List.replicate, System.step, System.setPc, System.exchange,
      System.finish, Call.source, get, pop, push, hnull]

/-- **A `Put` that no other thread interrupts** does what `Ammalloc.HugePageCache.put` does. -/
lemma put_alone (ht : t < n) (hidle : st.pcs t = .idle) (p : ℕ) :
    ((machine n).run st (.call t (.put p) :: List.replicate 7 (.step t false))).cache =
      (st.cache.put p).2 := by
  by_cases hnull : index (st.cache.heads .free) = kInvalid
  · simp [machine, ht, hidle, List.replicate, System.step, System.setPc, Call.source, put, pop,
      hnull]
  · simp [machine, ht, hidle, List.replicate, System.step, System.setPc, System.exchange,
      System.finish, Call.source, put, pop, push, hnull]

end Alone

/-! ## The invariant -/

/-- The slot that an operation in progress has to itself. -/
def Pc.held : Pc → Multiset ℕ
  | .access _ i | .pushLoad _ i _ | .pushStore _ i _ _ _ | .pushCas _ i _ _ _ => {i}
  | _ => 0

/-- The pointer that a `Get` in progress has taken out of the cache. -/
def Pc.carried (c : HugePageCache) : Pc → Multiset ℕ
  | .access .get i => {c.ptr i}
  | .pushLoad .free _ p | .pushStore .free _ p _ _ | .pushCas .free _ p _ _ => {p}
  | _ => 0

namespace System

/-- `oldVal` is what version `seen` of head `h` was. -/
def Read (st : System) (h : Head) (oldVal seen : ℕ) : Prop :=
  seen ≤ st.versions h ∧ tag oldVal = seen % 2 ^ 48 ∧
    (seen = st.versions h → oldVal = st.cache.heads h)

/-- What a thread knows. Its copy of a head, and of the link of the top slot, is right as long as
the head has not moved. -/
def PcOk (st : System) : Pc → Prop
  | .popNext call oldVal seen => st.Read call.source oldVal seen
  | .popCas call oldVal seen next =>
    st.Read call.source oldVal seen ∧ index oldVal ≠ kInvalid ∧
      (seen = st.versions call.source → next = st.cache.next (index oldVal))
  | .pushLoad h i p => h = .used → st.cache.ptr i = p
  | .pushStore h i p oldVal seen => st.Read h oldVal seen ∧ (h = .used → st.cache.ptr i = p)
  | .pushCas h i p oldVal seen =>
    st.Read h oldVal seen ∧ st.cache.next i = index oldVal ∧ (h = .used → st.cache.ptr i = p)
  | _ => True

end System

/-- The slots are shared out to the two stacks and the operations in progress, and the accepted
pointers to the used stack, to the operations in progress and to those that got them. -/
structure Inv (n : ℕ) (st : System) (chain : Head → List ℕ) : Prop where
  linked : st.cache.Linked chain
  tags : ∀ h, tag (st.cache.heads h) = st.versions h % 2 ^ 48
  slots : (chain .free : Multiset ℕ) + (chain .used : Multiset ℕ) +
    ∑ t ∈ Finset.range n, (st.pcs t).held = Multiset.range kCapacity
  known : ∀ t < n, st.PcOk (st.pcs t)
  books : (st.accepted : Multiset ℕ) = (st.returned : Multiset ℕ) +
    ((chain .used).map st.cache.ptr : Multiset ℕ) +
      ∑ t ∈ Finset.range n, (st.pcs t).carried st.cache

variable {n t : ℕ} {st st' : System} {chain chain' : Head → List ℕ} {h : Head} {pc : Pc}

/-- A new cache. -/
lemma inv_create (n : ℕ) : Inv n {} fun
    | .free => List.range kCapacity
    | .used => [] where
  linked := linked_create
  tags h := by cases h <;> decide
  slots := by simp [Pc.held, Multiset.range]
  known _ _ := trivial
  books := by simp [Pc.carried]

/-- A slot held by an operation is on no stack and held by no other operation. -/
lemma Inv.held_private (hinv : Inv n st chain) (ht : t < n) {i : ℕ}
    (hi : i ∈ (st.pcs t).held) :
    i < kCapacity ∧ (∀ h, i ∉ chain h) ∧ ∀ u < n, u ≠ t → i ∉ (st.pcs u).held := by
  have hnodup := Multiset.nodup_range kCapacity
  rw [← hinv.slots] at hnodup
  obtain ⟨hstacks, hheld, hdisj⟩ := Multiset.nodup_add.mp hnodup
  have hmem : i ∈ ∑ u ∈ Finset.range n, (st.pcs u).held :=
    Multiset.mem_sum.mpr ⟨t, Finset.mem_range.mpr ht, hi⟩
  have hout := Multiset.disjoint_right.mp hdisj hmem
  refine ⟨?_, fun h hc => hout ?_, fun u hu hne hiu => hne ?_⟩
  · rw [← Multiset.mem_range, ← hinv.slots]
    exact Multiset.mem_add.mpr (Or.inr hmem)
  · rw [Multiset.mem_add]
    cases h with
    | free => exact Or.inl hc
    | used => exact Or.inr hc
  · exact FamilySum.eq_of_mem_of_nodup_sum hheld (Finset.mem_range.mpr hu)
      (Finset.mem_range.mpr ht) hiu hi

/-! ## What the other threads notice -/

/-- Each head is as it was, and so is the link of its top slot, or it has moved on. -/
def Moves (st st' : System) : Prop :=
  ∀ h, (st'.versions h = st.versions h ∧ st'.cache.heads h = st.cache.heads h ∧
      (index (st.cache.heads h) ≠ kInvalid →
        st'.cache.next (index (st.cache.heads h)) = st.cache.next (index (st.cache.heads h)))) ∨
    st.versions h < st'.versions h

/-- An access that leaves the cache alone moves no head. -/
lemma Moves.of_eq (hcache : st'.cache = st.cache) (hversions : st'.versions = st.versions) :
    Moves st st' := fun h => Or.inl ⟨by rw [hversions], by rw [hcache], fun _ => by rw [hcache]⟩

/-- **What a thread knows stays true** while others move the heads and write to their own slots. -/
lemma System.PcOk.mono (hok : st.PcOk pc) (hmoves : Moves st st')
    (hslots : ∀ j ∈ pc.held,
      st'.cache.next j = st.cache.next j ∧ st'.cache.ptr j = st.cache.ptr j) : st'.PcOk pc := by
  have hread : ∀ {h : Head} {oldVal seen : ℕ}, st.Read h oldVal seen → st'.Read h oldVal seen := by
    rintro h oldVal seen ⟨hle, htag, hcur⟩
    rcases hmoves h with ⟨hv, hh, -⟩ | hlt
    · exact ⟨hv ▸ hle, htag, fun heq => hh ▸ hcur (heq.trans hv)⟩
    · exact ⟨by omega, htag, fun heq => by omega⟩
  cases pc with
  | idle | popLoad | access => trivial
  | popNext call oldVal seen => exact hread hok
  | popCas call oldVal seen next =>
    obtain ⟨hr, hne, hnext⟩ := hok
    refine ⟨hread hr, hne, fun heq => ?_⟩
    rcases hmoves call.source with ⟨hv, -, hlink⟩ | hlt
    · have hcur : seen = st.versions call.source := heq.trans hv
      rw [hr.2.2 hcur] at hne hnext ⊢
      rw [hnext hcur, hlink hne]
    · have := hr.1
      omega
  | pushLoad h i p =>
    intro hu
    rw [(hslots i (Multiset.mem_singleton_self i)).2]
    exact hok hu
  | pushStore h i p oldVal seen =>
    refine ⟨hread hok.1, fun hu => ?_⟩
    rw [(hslots i (Multiset.mem_singleton_self i)).2]
    exact hok.2 hu
  | pushCas h i p oldVal seen =>
    obtain ⟨hnext, hptr⟩ := hslots i (Multiset.mem_singleton_self i)
    refine ⟨hread hok.1, hnext.trans hok.2.1, fun hu => ?_⟩
    rw [hptr]
    exact hok.2.2 hu

/-- What an operation carries stands in the slot that it holds. -/
lemma Pc.carried_congr {c c' : HugePageCache} (h : ∀ j ∈ pc.held, c'.ptr j = c.ptr j) :
    pc.carried c' = pc.carried c := by
  cases pc with
  | access call i =>
    cases call with
    | get => simp only [Pc.carried, h i (Multiset.mem_singleton_self i)]
    | put p => rfl
  | pushLoad hd | pushStore hd | pushCas hd => cases hd <;> rfl
  | idle | popLoad | popNext | popCas => rfl

/-- **The change rule.** A thread moves on, changing the heads and its own slot only. The invariant
is kept if the stacks are linked as `chain'` says, and what they and the thread have gained balances
what they have lost. -/
lemma Inv.change (hinv : Inv n st chain) (ht : t < n)
    (hpcs : st'.pcs = Function.update st.pcs t pc) (hlinked : st'.cache.Linked chain')
    (htags : ∀ h, tag (st'.cache.heads h) = st'.versions h % 2 ^ 48) (hmoves : Moves st st')
    (hown : ∀ j, j ∉ (st.pcs t).held →
      st'.cache.next j = st.cache.next j ∧ st'.cache.ptr j = st.cache.ptr j)
    (hslots : (chain' .free : Multiset ℕ) + (chain' .used : Multiset ℕ) + pc.held =
      (chain .free : Multiset ℕ) + (chain .used : Multiset ℕ) + (st.pcs t).held)
    (hok : st'.PcOk pc)
    (hbooks : (st'.accepted : Multiset ℕ) + ((st.returned : Multiset ℕ) +
        ((chain .used).map st.cache.ptr : Multiset ℕ) + (st.pcs t).carried st.cache) =
      (st.accepted : Multiset ℕ) + ((st'.returned : Multiset ℕ) +
        ((chain' .used).map st'.cache.ptr : Multiset ℕ) + pc.carried st'.cache)) :
    Inv n st' chain' := by
  have hmem := Finset.mem_range.mpr ht
  have hother : ∀ u < n, u ≠ t → ∀ j ∈ (st.pcs u).held,
      st'.cache.next j = st.cache.next j ∧ st'.cache.ptr j = st.cache.ptr j := by
    intro u hu hne j hj
    exact hown j fun hjt => (hinv.held_private ht hjt).2.2 u hu hne hj
  refine ⟨hlinked, htags, ?_, fun u hu => ?_, ?_⟩
  · rw [hpcs, FamilySum.sum_update_erase _ _ Pc.held hmem, ← add_assoc, hslots, add_assoc,
      Finset.add_sum_erase _ (fun u => (st.pcs u).held) hmem, hinv.slots]
  · rw [hpcs]
    by_cases hut : u = t
    · rw [hut, Function.update_self]
      exact hok
    · rw [Function.update_of_ne hut]
      exact (hinv.known u hu).mono hmoves (hother u hu hut)
  · have hrest : ∑ u ∈ (Finset.range n).erase t, (st.pcs u).carried st'.cache =
        ∑ u ∈ (Finset.range n).erase t, (st.pcs u).carried st.cache := by
      refine Finset.sum_congr rfl fun u hu => Pc.carried_congr fun j hj => ?_
      obtain ⟨hne, hu⟩ := Finset.mem_erase.mp hu
      exact (hother u (Finset.mem_range.mp hu) hne j hj).2
    have hold := hinv.books
    rw [← Finset.add_sum_erase _ (fun u => (st.pcs u).carried st.cache) hmem, ← add_assoc] at hold
    rw [hpcs, FamilySum.sum_update_erase _ _ (Pc.carried st'.cache) hmem, hrest]
    rw [hold] at hbooks
    -- both sides of the balance contain what the thread had, which cancels
    refine add_right_cancel (b := (st.returned : Multiset ℕ) +
      ((chain .used).map st.cache.ptr : Multiset ℕ) + (st.pcs t).carried st.cache) ?_
    rw [hbooks]
    abel

/-- A thread moves on without writing to shared memory. -/
lemma Inv.setPc (hinv : Inv n st chain) (ht : t < n) (hheld : pc.held = (st.pcs t).held)
    (hcarried : pc.carried st.cache = (st.pcs t).carried st.cache) (hok : st.PcOk pc) :
    Inv n (st.setPc t pc) chain := by
  have hmoves : Moves st (st.setPc t pc) := Moves.of_eq rfl rfl
  refine hinv.change ht rfl hinv.linked hinv.tags hmoves (fun _ _ => ⟨rfl, rfl⟩) (by rw [hheld])
    (hok.mono hmoves fun _ _ => ⟨rfl, rfl⟩) ?_
  rw [← hcarried]
  rfl

/-! ## The accesses that write -/

/-- The slots on the stacks after a slot has been taken off one of them. -/
lemma stacks_pop {i : ℕ} {l : List ℕ} (heq : chain h = i :: l) :
    (Function.update chain h l .free : Multiset ℕ) +
    (Function.update chain h l .used : Multiset ℕ) +
      {i} = (chain .free : Multiset ℕ) + (chain .used : Multiset ℕ) := by
  cases h with
  | free =>
    rw [Function.update_self, Function.update_of_ne (by decide), heq, ← Multiset.cons_coe,
      ← Multiset.singleton_add]
    abel
  | used =>
    rw [Function.update_self, Function.update_of_ne (by decide), heq, ← Multiset.cons_coe,
      ← Multiset.singleton_add]
    abel

/-- The slots on the stacks after a slot has been put on one of them. -/
lemma stacks_push (chain : Head → List ℕ) (h : Head) (i : ℕ) :
    (Function.update chain h (i :: chain h) .free : Multiset ℕ) +
        (Function.update chain h (i :: chain h) .used : Multiset ℕ) =
      (chain .free : Multiset ℕ) + (chain .used : Multiset ℕ) + {i} := by
  have heq : Function.update chain h (i :: chain h) h = i :: chain h := by
    rw [Function.update_self]
  rw [← stacks_pop heq, Function.update_idem, Function.update_eq_self]

/-- A head that has just been read. -/
lemma Inv.read (hinv : Inv n st chain) (h : Head) :
    st.Read h (st.cache.heads h) (st.versions h) := ⟨le_rfl, hinv.tags h, fun _ => rfl⟩

/-- The tag of a head after a successful compare-exchange. -/
lemma Inv.tags_exchange (hinv : Inv n st chain) (h : Head) {i : ℕ} (hi : i < 2 ^ 16) (h' : Head) :
    tag ((st.cache.setHead h (pack i (tag (st.cache.heads h) + 1))).heads h') =
      Function.update st.versions h (st.versions h + 1) h' % 2 ^ 48 := by
  rw [heads_setHead]
  by_cases hh : h' = h
  · subst hh
    rw [Function.update_self, Function.update_self, tag_pack hi, hinv.tags h']
    omega
  · rw [Function.update_of_ne hh, Function.update_of_ne hh, hinv.tags h']

/-- A successful compare-exchange moves its head on. -/
lemma moves_exchange (st : System) (h : Head) (v : ℕ) : Moves st (st.exchange h v) := by
  intro h'
  by_cases hh : h' = h
  · subst hh
    exact Or.inr (by simp [System.exchange])
  · exact Or.inl (by simp [System.exchange, hh])

/-- **The pop**: a compare-exchange that succeeds in time takes the top slot. -/
lemma Inv.popCas (hinv : Inv n st chain) (ht : t < n) {call : Call} {oldVal seen next : ℕ}
    (hpc : st.pcs t = .popCas call oldVal seen next)
    (hcas : st.cache.heads call.source = oldVal)
    (hfew : st.versions call.source < seen + 2 ^ 48) :
    ∃ chain', Inv n ((st.exchange call.source (pack next (tag oldVal + 1))).setPc t
      (.access call (index oldVal))) chain' := by
  obtain ⟨⟨hle, htag, -⟩, hne, hnext⟩ : st.PcOk (.popCas call oldVal seen next) :=
    hpc ▸ hinv.known t ht
  -- the head has the tag it had when it was read, less than a turn ago: it has not moved
  have hseen : seen = st.versions call.source :=
    version_eq hle hfew (by rw [← htag, ← hinv.tags, hcas])
  subst hcas
  rw [hnext hseen]
  obtain ⟨l, heq, hlinked⟩ := hinv.linked.pop hne (tag (st.cache.heads call.source) + 1)
  refine ⟨_, hinv.change ht rfl hlinked (hinv.tags_exchange _ (hinv.linked.next_lt hne))
    (moves_exchange st _ _) (fun _ _ => ⟨rfl, rfl⟩) ?_ trivial ?_⟩
  · rw [hpc]
    simp only [Pc.held, add_zero]
    exact stacks_pop heq
  · rw [hpc]
    cases call with
    | get =>
      have hused : chain .used = index (st.cache.heads .used) :: l := heq
      simp only [Pc.carried, Call.source, System.setPc, System.exchange, ptr_setHead, hused,
        Function.update_self, List.map_cons, ← Multiset.cons_coe, ← Multiset.singleton_add]
      abel
    | put p =>
      simp only [Pc.carried, Call.source, System.setPc, System.exchange, ptr_setHead,
        Function.update_of_ne (show Head.used ≠ Head.free by decide)]

/-- `Put` writes the pointer of the slot that it has popped. -/
lemma Inv.accessPut (hinv : Inv n st chain) (ht : t < n) {i p : ℕ}
    (hpc : st.pcs t = .access (.put p) i) :
    Inv n ({ st with cache := st.cache.setPtr i p }.setPc t (.pushLoad .used i p)) chain := by
  have hheld : (st.pcs t).held = {i} := by rw [hpc, Pc.held]
  obtain ⟨-, hout, -⟩ := hinv.held_private ht (hheld ▸ Multiset.mem_singleton_self i)
  refine hinv.change ht rfl (hinv.linked.setPtr i p) hinv.tags
    (fun h => Or.inl ⟨rfl, rfl, fun _ => by simp [System.setPc]⟩) (fun j hj => ?_)
    (by rw [hheld, Pc.held]) (fun _ => by simp [System.setPc]) ?_
  · rw [hheld, Multiset.mem_singleton] at hj
    simp [System.setPc, hj]
  · have hmap : (chain .used).map (Function.update st.cache.ptr i p) =
        (chain .used).map st.cache.ptr := by
      refine List.map_congr_left fun j hj => Function.update_of_ne ?_ _ _
      rintro rfl
      exact hout .used hj
    rw [hpc]
    simp only [System.setPc, ptr_setPtr, hmap, Pc.carried]

/-- `Push` stores the link of the slot that it holds. -/
lemma Inv.pushStore (hinv : Inv n st chain) (ht : t < n) {i p oldVal seen : ℕ}
    (hpc : st.pcs t = .pushStore h i p oldVal seen) :
    Inv n ({ st with cache := st.cache.setNext i (index oldVal) }.setPc t
      (.pushCas h i p oldVal seen)) chain := by
  have hheld : (st.pcs t).held = {i} := by rw [hpc, Pc.held]
  obtain ⟨-, hout, -⟩ := hinv.held_private ht (hheld ▸ Multiset.mem_singleton_self i)
  obtain ⟨hread, hptr⟩ : st.PcOk (.pushStore h i p oldVal seen) := hpc ▸ hinv.known t ht
  refine hinv.change ht rfl (hinv.linked.setNext hout _) hinv.tags
    (fun h => Or.inl ⟨rfl, rfl, fun hne => ?_⟩) (fun j hj => ?_) (by rw [hheld, Pc.held])
    ⟨hread, by simp [System.setPc], fun hu => ?_⟩ ?_
  · -- the top slot of a stack is not the one that the thread holds
    obtain ⟨l, heq, -⟩ := (hinv.linked.links h).pop hne
    have htop : index (st.cache.heads h) ≠ i := by
      rintro rfl
      exact hout h (heq ▸ List.mem_cons_self)
    simp [System.setPc, Function.update_of_ne htop]
  · rw [hheld, Multiset.mem_singleton] at hj
    simp [System.setPc, hj]
  · simpa [System.setPc] using hptr hu
  · rw [hpc]
    cases h <;> simp only [System.setPc, ptr_setNext, Pc.carried]

/-- **The push**: a compare-exchange that succeeds puts the slot on the stack, and the call
returns. -/
lemma Inv.pushCas (hinv : Inv n st chain) (ht : t < n) {i p oldVal seen : ℕ}
    (hpc : st.pcs t = .pushCas h i p oldVal seen) (hcas : st.cache.heads h = oldVal) :
    ∃ chain', Inv n (((st.exchange h (pack i (tag oldVal + 1))).finish p h).setPc t .idle)
      chain' := by
  have hheld : (st.pcs t).held = {i} := by rw [hpc, Pc.held]
  obtain ⟨hlt, -, -⟩ := hinv.held_private ht (hheld ▸ Multiset.mem_singleton_self i)
  obtain ⟨-, hnext, hptr⟩ : st.PcOk (.pushCas h i p oldVal seen) := hpc ▸ hinv.known t ht
  subst hcas
  have hlinked := hinv.linked.push hlt hnext (tag (st.cache.heads h) + 1)
  have hsmall : i < 2 ^ 16 := by
    unfold kCapacity at hlt
    omega
  have hslots : (Function.update chain h (i :: chain h) .free : Multiset ℕ) +
      (Function.update chain h (i :: chain h) .used : Multiset ℕ) + Pc.idle.held =
        (chain .free : Multiset ℕ) + (chain .used : Multiset ℕ) + (st.pcs t).held := by
    rw [hheld, stacks_push]
    simp only [Pc.held, add_zero]
  have htags := hinv.tags_exchange h hsmall
  have hmoves := moves_exchange st h (pack i (tag (st.cache.heads h) + 1))
  cases h with
  | free =>
    refine ⟨_, hinv.change ht rfl hlinked htags hmoves (fun _ _ => ⟨rfl, rfl⟩) hslots trivial ?_⟩
    rw [hpc]
    simp only [Pc.carried, System.setPc, System.finish, System.exchange, ptr_setHead,
      Function.update_of_ne (show Head.used ≠ Head.free by decide), ← Multiset.cons_coe,
      ← Multiset.singleton_add]
    abel
  | used =>
    refine ⟨_, hinv.change ht rfl hlinked htags hmoves (fun _ _ => ⟨rfl, rfl⟩) hslots trivial ?_⟩
    rw [hpc]
    simp only [Pc.carried, System.setPc, System.finish, System.exchange, ptr_setHead,
      Function.update_self, List.map_cons, hptr rfl, ← Multiset.cons_coe,
      ← Multiset.singleton_add]
    abel

/-! ## Runs -/

/-- **One access keeps the invariant**, unless it is a compare-exchange that comes a full turn of
the tag too late. -/
lemma Inv.step (hinv : Inv n st chain) (ht : t < n) (spurious : Bool)
    (hfew : FewUpdates st (.step t spurious)) : ∃ chain', Inv n (st.step t spurious) chain' := by
  have hk := hinv.known t ht
  unfold System.step
  unfold FewUpdates at hfew
  cases hpc : st.pcs t with
  | idle => exact ⟨chain, hinv⟩
  | popLoad call =>
    exact ⟨chain, hinv.setPc ht (by rw [hpc]; rfl) (by rw [hpc]; rfl) (hinv.read _)⟩
  | popNext call oldVal seen =>
    rw [hpc] at hk
    simp only
    split
    · exact ⟨chain, hinv.setPc ht (by rw [hpc]; rfl) (by rw [hpc]; rfl) trivial⟩
    · rename_i hne
      exact ⟨chain, hinv.setPc ht (by rw [hpc]; rfl) (by rw [hpc]; rfl) ⟨hk, hne, fun _ => rfl⟩⟩
  | popCas call oldVal seen next =>
    simp only [hpc] at hfew ⊢
    split
    · rename_i hcas
      exact hinv.popCas ht hpc hcas.1 hfew
    · exact ⟨chain, hinv.setPc ht (by rw [hpc]; rfl) (by rw [hpc]; rfl) (hinv.read _)⟩
  | access call i =>
    cases call with
    | get =>
      exact ⟨chain, hinv.setPc ht (by rw [hpc]; rfl) (by rw [hpc]; rfl) (by simp [System.PcOk])⟩
    | put p => exact ⟨chain, hinv.accessPut ht hpc⟩
  | pushLoad h i p =>
    rw [hpc] at hk
    exact ⟨chain, hinv.setPc ht (by rw [hpc]; rfl) (by rw [hpc]; cases h <;> rfl)
      ⟨hinv.read h, hk⟩⟩
  | pushStore h i p oldVal seen => exact ⟨chain, hinv.pushStore ht hpc⟩
  | pushCas h i p oldVal seen =>
    rw [hpc] at hk
    simp only
    split
    · rename_i hcas
      exact hinv.pushCas ht hpc hcas.1
    · exact ⟨chain, hinv.setPc ht (by rw [hpc]; rfl) (by rw [hpc]; cases h <;> rfl)
        ⟨hinv.read h, hk.2.2⟩⟩

/-- An access updates a head at most once. -/
lemma System.versions_step_le (st : System) (t : ℕ) (spurious : Bool) (h : Head) :
    (st.step t spurious).versions h ≤ st.versions h + 1 := by
  have hexchange : ∀ h' v, (st.exchange h' v).versions h ≤ st.versions h + 1 := by
    intro h' v
    by_cases hh : h = h'
    · subst hh
      simp [exchange]
    · simp [exchange, hh]
  have hfinish : ∀ (st : System) p h', (st.finish p h').versions = st.versions := by
    intro st p h'
    cases h' <;> rfl
  unfold step
  cases st.pcs t with
  | popNext call oldVal seen =>
    simp only
    split <;> exact Nat.le_succ _
  | popCas call oldVal seen next =>
    simp only
    split
    · exact hexchange call.source (pack next (tag oldVal + 1))
    · exact Nat.le_succ _
  | access call i => cases call <;> exact Nat.le_succ _
  | pushCas h' i p oldVal seen =>
    simp only
    split
    · show ((st.exchange _ _).finish _ _).versions h ≤ _
      rw [hfinish]
      exact hexchange h' (pack i (tag oldVal + 1))
    · exact Nat.le_succ _
  | idle | popLoad | pushLoad | pushStore => exact Nat.le_succ _

/-- Runs of at most `2 ^ 48` accesses meet the condition on the tags. -/
lemma guarded_of_length {as : List Action} (hlen : ∀ h, st.versions h + as.length ≤ 2 ^ 48) :
    (machine n).Guarded FewUpdates st as := by
  induction as generalizing st with
  | nil => trivial
  | cons a as ih =>
    simp only [List.length_cons] at hlen
    refine ⟨?_, ih fun h => ?_⟩
    · cases a with
      | call t c => trivial
      | step t spurious =>
        simp only [FewUpdates]
        have hfree := hlen .free
        have hused := hlen .used
        have hall : ∀ h seen, st.versions h < seen + 2 ^ 48 := by
          intro h seen
          cases h <;> omega
        split
        · exact hall _ _
        · exact hall _ _
        · trivial
    · have hstep : ((machine n).next st a).versions h ≤ st.versions h + 1 := by
        cases a with
        | call t c =>
          simp only [machine]
          split <;> exact Nat.le_succ _
        | step t spurious =>
          simp only [machine]
          split
          · exact st.versions_step_le t spurious h
          · exact Nat.le_succ _
      have := hlen h
      omega

/-- The slots that operations in progress have to themselves. -/
def System.held (st : System) (n : ℕ) : Multiset ℕ := ∑ t ∈ Finset.range n, (st.pcs t).held

/-- The pointers that calls of `Get` in progress have taken out. -/
def System.carried (st : System) (n : ℕ) : Multiset ℕ :=
  ∑ t ∈ Finset.range n, (st.pcs t).carried st.cache

/-- **The dual stack.** In every interleaving of `Get` and `Put` by any number of threads in which
no compare-exchange comes a full turn of the tag after its read, the slots are shared out to the
chain of the free stack, the chain of the used stack and the operations in progress, each slot to
one of them. The accepted pointers are, with multiplicity, the returned ones, those on the used
stack and those that a `Get` in progress is about to return. -/
theorem dual_stack (n : ℕ) (as : List Action) (hfew : (machine n).Guarded FewUpdates {} as) :
    let st := (machine n).run {} as
    ∃ free used : List ℕ,
      Chain st.cache.next kInvalid (index (st.cache.heads .free)) free ∧
      Chain st.cache.next kInvalid (index (st.cache.heads .used)) used ∧
      (free : Multiset ℕ) + (used : Multiset ℕ) + st.held n = Multiset.range kCapacity ∧
      (st.accepted : Multiset ℕ) =
        (st.returned : Multiset ℕ) + (used.map st.cache.ptr : Multiset ℕ) + st.carried n ∧
      (st.returned : Multiset ℕ) ≤ (st.accepted : Multiset ℕ) := by
  intro st
  obtain ⟨chain, hinv⟩ : ∃ chain, Inv n st chain := by
    refine Machine.run_invariant_of_guard (I := fun st => ∃ chain, Inv n st chain)
      (fun st a hst hg => ?_) ⟨_, inv_create n⟩ hfew
    obtain ⟨chain, hinv⟩ := hst
    cases a with
    | call t c =>
      simp only [machine]
      split
      · rename_i hcall
        exact ⟨chain, hinv.setPc hcall.1 (by rw [hcall.2]; rfl) (by rw [hcall.2]; rfl) trivial⟩
      · exact ⟨chain, hinv⟩
    | step t spurious =>
      simp only [machine]
      split
      · rename_i ht
        exact hinv.step ht spurious hg
      · exact ⟨chain, hinv⟩
  refine ⟨chain .free, chain .used, hinv.linked.links .free, hinv.linked.links .used, hinv.slots,
    hinv.books, ?_⟩
  rw [hinv.books, add_assoc]
  exact Multiset.le_add_right _ _

/-- Thread 0 puts a mapping into the cache, with one spurious failure; thread 1 pops its slot. -/
def handoff : List Action :=
  [.call 0 (.put 0x200000), .step 0 false, .step 0 false, .step 0 true, .step 0 false,
    .step 0 false,
    .step 0 false, .step 0 false, .step 0 false, .step 0 false, .call 1 .get, .step 1 false,
    .step 1 false, .step 1 false]

/-- The mapping goes from thread 0 through the cache to thread 1. -/
theorem dual_stack_handoff :
    let st := (machine 2).run {} handoff
    st.accepted = [0x200000] ∧ ∃ free used : List ℕ,
      (free : Multiset ℕ) + (used : Multiset ℕ) + st.held 2 = Multiset.range kCapacity ∧
      (st.accepted : Multiset ℕ) =
        (st.returned : Multiset ℕ) + (used.map st.cache.ptr : Multiset ℕ) + st.carried 2 := by
  intro st
  obtain ⟨free, used, -, -, hslots, hbooks, -⟩ :=
    dual_stack 2 handoff (guarded_of_length fun h => by norm_num [handoff])
  exact ⟨by decide, free, used, hslots, hbooks⟩

end HugePageCache

end Ammalloc
