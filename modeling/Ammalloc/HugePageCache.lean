import Ammalloc.Config
import Ammalloc.Lib.LinkedStack

set_option relaxedAutoImplicit false
set_option autoImplicit false

/-!
# The cache of 2 MiB mappings

`HugePageCache` of `src/page_allocator.cpp`: sixteen slots on two stacks, the slots that hold a
mapping and the free ones. A head packs the index of the top slot with a 48-bit tag.

This file has the data and the operations of a caller that runs alone, whose compare-exchange
succeeds in the end with the value it loaded; `Ammalloc.HugePageCache.Concurrent` has the
operations access by access.

## Main definitions

* `Ammalloc.HugePageCache`, `Ammalloc.HugePageCache.get`, `Ammalloc.HugePageCache.put`.
* `Ammalloc.HugePageCache.Linked` — the slots of the two stacks.
* `Ammalloc.HugePageCache.entries` — the mappings in the cache.

## Main results

* `Ammalloc.HugePageCache.Linked.pop`, `Ammalloc.HugePageCache.Linked.push` — what a successful
  compare-exchange does to the stacks.
* `Ammalloc.HugePageCache.get_spec`, `Ammalloc.HugePageCache.put_spec` — the cache is a stack of
  mappings.
-/

namespace Ammalloc

open LinkedStack

/-- `HugePageCache::Slot`. -/
structure Slot where
  ptr : ℕ := 0
  next : ℕ

/-- The two stacks, `free_head_` and `used_head_`. -/
inductive Head where
  | free
  | used
  deriving DecidableEq, Repr

/-- `HugePageCache`. -/
structure HugePageCache where
  heads : Head → ℕ
  slots : ℕ → Slot

namespace HugePageCache

/-- `kInvalid`, the null index. -/
def kInvalid : ℕ := 0xFFFF

/-- `kCapacity`, which is `PageConfig::HUGE_PAGE_CACHE_SIZE`. -/
def kCapacity : ℕ := 16

/-- `kIndexMask`: the bits of the slot index. -/
def kIndexMask : ℕ := 0xFFFF

/-- `kTagMask`: the bits of the tag, once shifted down. -/
def kTagMask : ℕ := (1 <<< 48) - 1

/-! ## Heads -/

/-- `Pack`. -/
def pack (index tag : ℕ) : ℕ := ((tag &&& kTagMask) <<< 16) ||| index

/-- `Index`. -/
def index (head : ℕ) : ℕ := head &&& kIndexMask

/-- `Tag`. -/
def tag (head : ℕ) : ℕ := head >>> 16

/-- An index has 16 bits. -/
lemma index_lt (head : ℕ) : index head < 2 ^ 16 := by
  rw [index, show kIndexMask = 2 ^ 16 - 1 from rfl, Nat.and_two_pow_sub_one_eq_mod]
  exact Nat.mod_lt _ (by norm_num)

/-- A packed head as a number: the tag modulo `2 ^ 48` above the index. -/
lemma pack_eq {i : ℕ} (hi : i < 2 ^ 16) (t : ℕ) : pack i t = t % 2 ^ 48 * 2 ^ 16 + i := by
  rw [pack, show kTagMask = 2 ^ 48 - 1 from rfl, Nat.and_two_pow_sub_one_eq_mod,
    ← Nat.shiftLeft_add_eq_or_of_lt hi, Nat.shiftLeft_eq]

@[simp] lemma index_pack {i : ℕ} (hi : i < 2 ^ 16) (t : ℕ) : index (pack i t) = i := by
  rw [index, show kIndexMask = 2 ^ 16 - 1 from rfl, Nat.and_two_pow_sub_one_eq_mod, pack_eq hi]
  omega

/-- The tag of a packed head, which wraps at `2 ^ 48`. -/
lemma tag_pack {i : ℕ} (hi : i < 2 ^ 16) (t : ℕ) : tag (pack i t) = t % 2 ^ 48 := by
  rw [tag, pack_eq hi, Nat.shiftRight_eq_div_pow]
  omega

/-! ## Operations of a caller that runs alone -/

/-- The constructor: all slots are on the free stack. -/
def create : HugePageCache where
  heads
    | .free => pack 0 0
    | .used => pack kInvalid 0
  slots i := { next := if i + 1 < kCapacity then i + 1 else kInvalid }

/-- `slots_[i].next`. -/
def next (c : HugePageCache) (i : ℕ) : ℕ := (c.slots i).next

/-- `slots_[i].ptr`. -/
def ptr (c : HugePageCache) (i : ℕ) : ℕ := (c.slots i).ptr

/-- Store a head. -/
def setHead (c : HugePageCache) (h : Head) (v : ℕ) : HugePageCache :=
  { c with heads := Function.update c.heads h v }

/-- Store `slots_[i].next`. -/
def setNext (c : HugePageCache) (i v : ℕ) : HugePageCache :=
  { c with slots := Function.update c.slots i { c.slots i with next := v } }

/-- Store `slots_[i].ptr`. -/
def setPtr (c : HugePageCache) (i v : ℕ) : HugePageCache :=
  { c with slots := Function.update c.slots i { c.slots i with ptr := v } }

/-- `Pop`. -/
def pop (c : HugePageCache) (h : Head) : Option ℕ × HugePageCache :=
  let oldVal := c.heads h
  if index oldVal = kInvalid then (none, c)
  else (some (index oldVal), c.setHead h (pack (c.next (index oldVal)) (tag oldVal + 1)))

/-- `Push`. -/
def push (c : HugePageCache) (h : Head) (i : ℕ) : HugePageCache :=
  let oldVal := c.heads h
  (c.setNext i (index oldVal)).setHead h (pack i (tag oldVal + 1))

/-- `Get`; zero is the null pointer. -/
def get (c : HugePageCache) : ℕ × HugePageCache :=
  match c.pop .used with
  | (none, c) => (0, c)
  | (some i, c) => (c.ptr i, c.push .free i)

/-- `Put`. -/
def put (c : HugePageCache) (p : ℕ) : Bool × HugePageCache :=
  match c.pop .free with
  | (none, c) => (false, c)
  | (some i, c) => (true, (c.setPtr i p).push .used i)

section Stores

variable (c : HugePageCache) (h h' : Head) (i j v : ℕ)

@[simp] lemma next_setHead : (c.setHead h v).next = c.next := rfl

@[simp] lemma ptr_setHead : (c.setHead h v).ptr = c.ptr := rfl

@[simp] lemma heads_setNext : (c.setNext i v).heads = c.heads := rfl

@[simp] lemma heads_setPtr : (c.setPtr i v).heads = c.heads := rfl

@[simp] lemma heads_setHead : (c.setHead h v).heads = Function.update c.heads h v := rfl

@[simp] lemma next_setNext : (c.setNext i v).next = Function.update c.next i v := by
  funext j
  by_cases hj : j = i
  · subst hj; simp [next, setNext]
  · simp [next, setNext, hj]

@[simp] lemma ptr_setNext : (c.setNext i v).ptr = c.ptr := by
  funext j
  by_cases hj : j = i
  · subst hj; simp [ptr, setNext]
  · simp [ptr, setNext, hj]

@[simp] lemma next_setPtr : (c.setPtr i v).next = c.next := by
  funext j
  by_cases hj : j = i
  · subst hj; simp [next, setPtr]
  · simp [next, setPtr, hj]

@[simp] lemma ptr_setPtr : (c.setPtr i v).ptr = Function.update c.ptr i v := by
  funext j
  by_cases hj : j = i
  · subst hj; simp [ptr, setPtr]
  · simp [ptr, setPtr, hj]

end Stores

/-! ## The two stacks -/

/-- `chain h` lists the slots of stack `h`, from the top; all are slots of the cache. -/
structure Linked (c : HugePageCache) (chain : Head → List ℕ) : Prop where
  links : ∀ h, Chain c.next kInvalid (index (c.heads h)) (chain h)
  lt : ∀ h, ∀ i ∈ chain h, i < kCapacity

variable {c : HugePageCache} {chain : Head → List ℕ} {h : Head} {i : ℕ}

/-- A link of a slot on a stack is an index. -/
lemma Linked.next_lt (hl : c.Linked chain) (hne : index (c.heads h) ≠ kInvalid) :
    c.next (index (c.heads h)) < 2 ^ 16 := by
  obtain ⟨l, heq, hrest⟩ := (hl.links h).pop hne
  rcases hrest.head_mem with hnull | hmem
  · rw [hnull]
    norm_num [kInvalid]
  · have := hl.lt h _ (heq ▸ List.mem_cons_of_mem _ hmem)
    unfold kCapacity at this
    omega

/-- **A successful pop** takes the top slot off its stack. -/
lemma Linked.pop (hl : c.Linked chain) (hne : index (c.heads h) ≠ kInvalid) (t : ℕ) :
    ∃ l, chain h = index (c.heads h) :: l ∧
      (c.setHead h (pack (c.next (index (c.heads h))) t)).Linked (Function.update chain h l) := by
  obtain ⟨l, heq, hrest⟩ := (hl.links h).pop hne
  refine ⟨l, heq, fun h' => ?_, fun h' j hj => ?_⟩
  · by_cases hh : h' = h
    · subst hh
      rw [heads_setHead, Function.update_self, Function.update_self,
        index_pack (hl.next_lt hne), next_setHead]
      exact hrest
    · rw [heads_setHead, Function.update_of_ne hh, Function.update_of_ne hh, next_setHead]
      exact hl.links h'
  · by_cases hh : h' = h
    · subst hh
      rw [Function.update_self] at hj
      exact hl.lt h' j (heq ▸ List.mem_cons_of_mem _ hj)
    · rw [Function.update_of_ne hh] at hj
      exact hl.lt h' j hj

/-- The link of a slot on neither stack may change. -/
lemma Linked.setNext (hl : c.Linked chain) (hi : ∀ h, i ∉ chain h) (v : ℕ) :
    (c.setNext i v).Linked chain := by
  refine ⟨fun h' => (hl.links h').congr fun j hj => ?_, hl.lt⟩
  have hji : j ≠ i := fun heq => hi h' (heq ▸ hj)
  rw [next_setNext, Function.update_of_ne hji]

/-- The pointers of the slots do not matter to the links. -/
lemma Linked.setPtr (hl : c.Linked chain) (i v : ℕ) : (c.setPtr i v).Linked chain := by
  refine ⟨fun h' => ?_, hl.lt⟩
  rw [next_setPtr]
  exact hl.links h'

/-- **A successful push** of a slot that links to the old top puts it on the stack. -/
lemma Linked.push (hl : c.Linked chain) (hi : i < kCapacity)
    (hnext : c.next i = index (c.heads h)) (t : ℕ) :
    (c.setHead h (pack i t)).Linked (Function.update chain h (i :: chain h)) := by
  have hsmall : i < 2 ^ 16 := by
    unfold kCapacity at hi
    omega
  have hne : i ≠ kInvalid := by
    unfold kCapacity at hi
    unfold kInvalid
    omega
  refine ⟨fun h' => ?_, fun h' j hj => ?_⟩
  · by_cases hh : h' = h
    · subst hh
      rw [heads_setHead, Function.update_self, Function.update_self, index_pack hsmall,
        next_setHead]
      exact (hl.links h').push hne hnext
    · rw [heads_setHead, Function.update_of_ne hh, Function.update_of_ne hh, next_setHead]
      exact hl.links h'
  · by_cases hh : h' = h
    · subst hh
      rw [Function.update_self] at hj
      rcases List.mem_cons.mp hj with rfl | hj
      · exact hi
      · exact hl.lt h' j hj
    · rw [Function.update_of_ne hh] at hj
      exact hl.lt h' j hj

/-- The stacks of a new cache. -/
lemma linked_create : create.Linked fun
    | .free => List.range kCapacity
    | .used => [] := by
  constructor
  · intro h
    cases h with
    | free =>
      rw [show index (create.heads .free) = 0 from by decide,
        show List.range kCapacity = [0, 1, 2, 3, 4, 5, 6, 7, 8, 9, 10, 11, 12, 13, 14, 15] from rfl]
      simp [Chain, next, create, kInvalid, kCapacity]
    | used =>
      show index (create.heads .used) = kInvalid
      decide
  · intro h i hi
    cases h with
    | free => exact List.mem_range.mp hi
    | used => simp at hi

/-! ## The cache as a stack of mappings -/

/-- The mappings in the cache, from the top of the used stack. -/
def entries (c : HugePageCache) : List ℕ :=
  (walk c.next kInvalid kCapacity (index (c.heads .used))).map c.ptr

/-- With no operation in progress the stacks share out the slots. -/
def WellFormed (c : HugePageCache) : Prop :=
  ∃ chain, c.Linked chain ∧ (chain .free ++ chain .used).Perm (List.range kCapacity)

/-- The cache is well formed at the start. -/
lemma wellFormed_create : create.WellFormed := ⟨_, linked_create, by simp⟩

/-- The cache holds no mapping at the start. -/
lemma entries_create : create.entries = [] := by decide

/-- The entries are the pointers of the used stack. -/
lemma Linked.entries_eq (hl : c.Linked chain)
    (hperm : (chain .free ++ chain .used).Perm (List.range kCapacity)) :
    c.entries = (chain .used).map c.ptr := by
  have hlen := hperm.length_eq
  rw [List.length_append, List.length_range] at hlen
  rw [entries, (hl.links .used).walk_eq (by omega)]

/-- The cache holds at most `kCapacity` mappings. -/
lemma WellFormed.length_entries_le (hc : c.WellFormed) : c.entries.length ≤ kCapacity := by
  obtain ⟨chain, hl, hperm⟩ := hc
  have hlen := hperm.length_eq
  rw [List.length_append, List.length_range] at hlen
  rw [hl.entries_eq hperm, List.length_map]
  omega

/-- The top of one stack goes to the other. -/
lemma Linked.move (hl : c.Linked chain)
    (hperm : (chain .free ++ chain .used).Perm (List.range kCapacity)) {src dst : Head}
    (hne : src ≠ dst) (hsrc : index (c.heads src) ≠ kInvalid) (p : ℕ) :
    let i := index (c.heads src)
    let popped := c.setHead src (pack (c.next i) (tag (c.heads src) + 1))
    ∃ l, chain src = i :: l ∧ i ∉ l ∧ i ∉ chain dst ∧
      (popped.push dst i).Linked
        (Function.update (Function.update chain src l) dst (i :: chain dst)) ∧
      ((popped.setPtr i p).push dst i).Linked
        (Function.update (Function.update chain src l) dst (i :: chain dst)) := by
  intro i popped
  obtain ⟨l, heq, hpop⟩ := hl.pop hsrc (tag (c.heads src) + 1)
  have hnodup : (chain .free ++ chain .used).Nodup := hperm.nodup_iff.mpr List.nodup_range
  obtain ⟨hfree, hused, hdisj⟩ := List.nodup_append'.mp hnodup
  have hmem : i ∈ chain src := heq ▸ List.mem_cons_self
  have hnodupSrc : (chain src).Nodup := by
    cases src with
    | free => exact hfree
    | used => exact hused
  have hl' : i ∉ l := by
    rw [heq] at hnodupSrc
    exact (List.nodup_cons.mp hnodupSrc).1
  have hdst : i ∉ chain dst := by
    cases src <;> cases dst
    · exact absurd rfl hne
    · exact List.disjoint_left.mp hdisj hmem
    · exact List.disjoint_right.mp hdisj hmem
    · exact absurd rfl hne
  have hout : ∀ h, i ∉ Function.update chain src l h := by
    intro h
    by_cases hh : h = src
    · subst hh
      rw [Function.update_self]
      exact hl'
    · have hhd : h = dst := by
        cases h <;> cases src <;> cases dst <;> simp_all
      rw [Function.update_of_ne hh, hhd]
      exact hdst
  have hlt := hl.lt src i hmem
  have hdstEq : Function.update chain src l dst = chain dst := Function.update_of_ne hne.symm _ _
  -- the push, on a cache whose popped slot may have been written
  have hpush : ∀ c' : HugePageCache, c'.Linked (Function.update chain src l) →
      (c'.push dst i).Linked
        (Function.update (Function.update chain src l) dst (i :: chain dst)) := by
    intro c' hc'
    have hlinked := hc'.setNext hout (index (c'.heads dst))
    have := hlinked.push (h := dst) hlt (by simp) (tag (c'.heads dst) + 1)
    rw [hdstEq] at this
    exact this
  exact ⟨l, heq, hl', hdst, hpush _ hpop, hpush _ (hpop.setPtr i p)⟩

/-- **`Get` of a caller that runs alone** takes the top entry, if there is one. -/
lemma get_spec (hc : c.WellFormed) :
    (c.entries = [] ∧ c.get = (0, c)) ∨
      ∃ p rest, c.entries = p :: rest ∧ c.get.1 = p ∧ c.get.2.WellFormed ∧
        c.get.2.entries = rest := by
  obtain ⟨chain, hl, hperm⟩ := hc
  by_cases hnull : index (c.heads .used) = kInvalid
  · have hnil : chain .used = [] := by
      have := hl.links .used
      rw [hnull] at this
      exact this.eq_nil
    refine Or.inl ⟨?_, ?_⟩
    · rw [hl.entries_eq hperm, hnil]
      rfl
    · simp [get, HugePageCache.pop, hnull]
  · have hne : Head.used ≠ Head.free := by decide
    obtain ⟨l, heq, -, -, hpush, -⟩ := hl.move hperm hne hnull 0
    set i := index (c.heads .used) with hi
    have hget : c.get = (c.ptr i,
        (c.setHead .used (pack (c.next i) (tag (c.heads .used) + 1))).push .free i) := by
      simp [get, HugePageCache.pop, ← hi, hnull]
    have hperm' : (i :: chain .free ++ l).Perm (List.range kCapacity) := by
      refine List.Perm.trans ?_ hperm
      rw [heq, List.cons_append]
      exact List.perm_middle.symm
    refine Or.inr ⟨c.ptr i, l.map c.ptr, ?_, ?_, ?_, ?_⟩
    · rw [hl.entries_eq hperm, heq, List.map_cons]
    · rw [hget]
    · rw [hget]
      exact ⟨_, hpush, by simpa using hperm'⟩
    · rw [hget, hpush.entries_eq (by simpa using hperm')]
      simp [HugePageCache.push]

/-- **`Put` of a caller that runs alone** fails or adds an entry. -/
lemma put_spec (hc : c.WellFormed) (p : ℕ) :
    c.put p = (false, c) ∨
      (c.put p).1 = true ∧ (c.put p).2.WellFormed ∧ (c.put p).2.entries = p :: c.entries := by
  obtain ⟨chain, hl, hperm⟩ := hc
  by_cases hnull : index (c.heads .free) = kInvalid
  · exact Or.inl (by simp [put, HugePageCache.pop, hnull])
  · have hne : Head.free ≠ Head.used := by decide
    obtain ⟨l, heq, -, hid, -, hpush⟩ := hl.move hperm hne hnull p
    set i := index (c.heads .free) with hi
    have hput : c.put p = (true,
        ((c.setHead .free (pack (c.next i) (tag (c.heads .free) + 1))).setPtr i p).push
          .used i) := by
      simp [put, HugePageCache.pop, ← hi, hnull]
    have hperm' : (l ++ i :: chain .used).Perm (List.range kCapacity) := by
      refine List.Perm.trans List.perm_middle ?_
      rw [← List.cons_append, ← heq]
      exact hperm
    refine Or.inr ⟨by rw [hput], ?_, ?_⟩
    · rw [hput]
      exact ⟨_, hpush, by simpa using hperm'⟩
    · rw [hput, hpush.entries_eq (by simpa using hperm'), hl.entries_eq hperm]
      have hmap : (chain .used).map (Function.update c.ptr i p) = (chain .used).map c.ptr := by
        refine List.map_congr_left fun j hj => Function.update_of_ne ?_ _ _
        rintro rfl
        exact hid hj
      simp [HugePageCache.push, hmap]

end HugePageCache

end Ammalloc
