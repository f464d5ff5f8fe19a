import Ammalloc.Lib.Machine
import Ammalloc.PageMap

set_option relaxedAutoImplicit false
set_option autoImplicit false

/-!
# The page map refines a plain map

A caller of `PageMap` sees lookups only. Whatever sequence of `EnsureRange`, `SetSpan`,
`ClearRange` and `Reset` it makes, and wherever the allocation of radix nodes fails, `GetSpan` is
the plain map from page ids to descriptors that the same calls update.

## Main definitions

* `Ammalloc.PageMap.MapCall`, `Ammalloc.PageMap.machine` — the calls on the radix tree.
* `Ammalloc.PlainMap.machine` — the same calls on a plain map.
* `Ammalloc.PageMap.Prepared` — the precondition of `SetSpan`.

## Main results

* `Ammalloc.PageMap.call_cases` — what one call does to the lookups.
* `Ammalloc.PageMap.refines_plainMap` — the lookups after any sequence of calls.
-/

namespace Ammalloc

namespace PageMap

/-! ## Calls on the radix tree -/

/-- The page ids below this one have a slot in the root. -/
def radixCapacity : ℕ := radixRootSize * 2 ^ (radixNodeBits * 3)

/-- Only these page ids have an entry in the root. -/
lemma i0_lt_iff (q : ℕ) : i0 q < radixRootSize ↔ q < radixCapacity := by
  rw [i0_eq, radixCapacity, show 2 ^ (radixNodeBits * 3) = 2 ^ 27 from rfl,
    Nat.div_lt_iff_lt_mul (by norm_num)]

/-- `PageMap::Reset`: the nodes go back to their pool. -/
def reset (_ : PageMap) : PageMap := ⟨none⟩

/-- The calls of the page map. `nodes` are the answers of the radix-node allocator. -/
inductive MapCall where
  | ensureRange (nodes : List Bool) (startPageId pageNum : ℕ)
  | setSpan (id startPageIdx pageNum : ℕ)
  | clearRange (startPageId pageNum : ℕ)
  | reset

/-- The page map after a call, unless the call aborts. -/
def call (pm : PageMap) : MapCall → Except Fault PageMap
  | .ensureRange nodes startPageId pageNum => .ok (pm.ensureRange nodes startPageId pageNum).2.1
  | .setSpan id startPageIdx pageNum => pm.setSpan id startPageIdx pageNum
  | .clearRange startPageId pageNum => .ok (pm.clearRange startPageId pageNum)
  | .reset => .ok pm.reset

/-- The page map under a sequence of calls; an abort ends it. -/
def machine : Machine (Except Fault PageMap) MapCall where
  init := {.ok {}}
  next st c := st.bind fun pm => pm.call c

/-- `SetSpan` is called on ranges whose radix paths exist. -/
def Prepared : Except Fault PageMap → MapCall → Prop
  | .ok pm, .setSpan _ startPageIdx pageNum =>
    ∀ q, startPageIdx ≤ q → q < startPageIdx + pageNum → pm.hasPath q = true
  | _, _ => True

end PageMap

/-! ## Calls on a plain map -/

/-- A partial function from page ids to descriptors. -/
abbrev PlainMap := ℕ → Option ℕ

namespace PlainMap

open PageMap (MapCall radixCapacity)

/-- What a call means for the lookups. -/
def update (m : PlainMap) : MapCall → PlainMap
  | .ensureRange _ _ _ => m
  | .setSpan id startPageIdx pageNum =>
    fun q => if startPageIdx ≤ q ∧ q < startPageIdx + pageNum then some id else m q
  | .clearRange startPageId pageNum =>
    fun q => if (startPageId ≤ q ∧ q < startPageId + pageNum) ∧ q < radixCapacity then none
      else m q
  | .reset => fun _ => none

/-- The plain map under a sequence of calls. -/
def machine : Machine PlainMap MapCall where
  init := {fun _ => none}
  next := update

end PlainMap

namespace PageMap

/-! ## The refinement -/

/-- Ids beyond the radix capacity look up to null. -/
lemma getSpan_of_radixCapacity_le (pm : PageMap) {q : ℕ} (h : radixCapacity ≤ q) :
    pm.getSpan q = none := by
  have hge : i0 q ≥ radixRootSize := by
    rw [ge_iff_le, ← not_lt, i0_lt_iff]
    exact not_lt.mpr h
  simp only [getSpan, leafOf_eq_none_of_ge hge, Option.bind_none]

/-- **One call**: it updates the lookups as it updates a plain map, or it is a `SetSpan` of no
pages, which aborts. -/
lemma call_cases {pm : PageMap} {c : MapCall} (h : Prepared (.ok pm) c) :
    (∃ pm', pm.call c = .ok pm' ∧ pm'.getSpan = PlainMap.update pm.getSpan c) ∨
      ∃ id start, c = .setSpan id start 0 ∧
        pm.call c = .error (.fatal "PageMap::SetSpan received invalid Span") := by
  cases c with
  | ensureRange nodes start n =>
    exact Or.inl ⟨_, rfl, funext fun q => getSpan_ensureRange pm nodes start n q⟩
  | setSpan id start n =>
    rcases Nat.eq_zero_or_pos n with rfl | hn
    · exact Or.inr ⟨id, start, rfl, rfl⟩
    · obtain ⟨pm', hset, hget, -⟩ := setSpan_ok id hn h
      exact Or.inl ⟨pm', hset, funext hget⟩
  | clearRange start n =>
    refine Or.inl ⟨_, rfl, funext fun q => ?_⟩
    rw [getSpan_clearRange]
    simp only [PlainMap.update]
    by_cases hin : start ≤ q ∧ q < start + n
    · by_cases hcap : q < radixCapacity
      · rw [if_pos hin, if_pos ⟨hin, hcap⟩]
      · rw [if_pos hin, if_neg (by tauto), pm.getSpan_of_radixCapacity_le (not_lt.mp hcap)]
    · rw [if_neg hin, if_neg (by tauto)]
  | reset => exact Or.inl ⟨_, rfl, rfl⟩

/-- **The page map is a plain map.** After every sequence of calls, in which radix nodes could or
could not be allocated, the lookups are those of the plain map under the same calls, and null
beyond the radix capacity. Only a `SetSpan` of no pages can abort a sequence. -/
theorem refines_plainMap (cs : List MapCall) (h : machine.Guarded Prepared (.ok {}) cs) :
    (∀ pm, machine.run (.ok {}) cs = .ok pm → ∀ q,
      pm.getSpan q = PlainMap.machine.run (fun _ => none) cs q ∧
        (radixCapacity ≤ q → pm.getSpan q = none)) ∧
      ((∀ id start, MapCall.setSpan id start 0 ∉ cs) →
        ∃ pm, machine.run (.ok {}) cs = .ok pm) := by
  constructor
  · -- the relation: as long as nothing aborted, the lookups are the plain map
    have hsim := Machine.run_simulation (N := PlainMap.machine)
      (R := fun st m => ∀ pm, st = .ok pm → pm.getSpan = m)
      (fun st m c hR hp pm' hnext => ?_) (t := fun _ => none)
      (fun pm hpm => by cases hpm; rfl) h
    · intro pm hpm q
      exact ⟨congrFun (hsim pm hpm) q, pm.getSpan_of_radixCapacity_le⟩
    · cases st with
      | error e => cases hnext
      | ok pm =>
        rcases call_cases hp with ⟨pm'', hcall, hget⟩ | ⟨id, start, -, hcall⟩
        · have heq : pm'' = pm' := Except.ok.inj (hcall.symm.trans hnext)
          rw [← heq, hget, hR pm rfl]
          rfl
        · exact absurd (hcall.symm.trans hnext) (by simp)
  · intro hpages
    refine Machine.run_invariant_of_guard (I := fun st => ∃ pm, st = .ok pm)
      (fun st c hst hg => ?_) ⟨_, rfl⟩
      (h.and_of_mem (P := fun c => ∀ id start, c ≠ .setSpan id start 0)
        fun c hc id start heq => hpages id start (heq ▸ hc))
    obtain ⟨pm, rfl⟩ := hst
    rcases call_cases hg.1 with ⟨pm', hcall, -⟩ | ⟨id, start, heq, -⟩
    · exact ⟨pm', hcall⟩
    · exact absurd heq (hg.2 id start)

/-- Four pages over the end of a leaf are published, and the middle two cleared. -/
def crossingCalls : List MapCall :=
  [.ensureRange [true, true, true, true] 510 4, .setSpan 7 510 4, .clearRange 511 2]

/-- A run with spans on both sides of the border between two leaves. -/
theorem refines_plainMap_crossingCalls : ∃ pm, machine.run (.ok {}) crossingCalls = .ok pm ∧
    [509, 510, 511, 512, 513, 514].map pm.getSpan = [none, some 7, none, none, some 7, none] := by
  have hprepared : machine.Guarded Prepared (.ok {}) crossingCalls := by
    refine ⟨trivial, fun q h₁ h₂ => ?_, trivial, trivial⟩
    interval_cases q <;> decide +kernel
  obtain ⟨hget, hok⟩ := refines_plainMap crossingCalls hprepared
  obtain ⟨pm, hpm⟩ := hok (by simp [crossingCalls])
  refine ⟨pm, hpm, ?_⟩
  simp only [List.map_cons, List.map_nil, (hget pm hpm _).1]
  decide

end PageMap

end Ammalloc
