import Ammalloc.Span.Objects

set_option relaxedAutoImplicit false
set_option autoImplicit false

/-!
# The hardened `FreeObject`

With `AM_HCHECK` active, `Span::FreeObject` may be called with any address: it either ends the
program with a failed check or takes back an object that is out. `ObjectSlotOf`, which the front end
asks first, divides by the object size only where there are objects.

## Main definitions

* `Ammalloc.Span.checkedSlotOf` — `ObjectSlotOf` on checked words.
* `Ammalloc.Span.hardenedMachine` — a span under calls with arbitrary addresses.

## Main results

* `Ammalloc.Span.checkedSlotOf_eq` — `ObjectSlotOf` neither wraps nor divides by zero.
* `Ammalloc.Span.Carved.freeObject_iff` — the addresses that `FreeObject` accepts.
* `Ammalloc.Span.freeObject_exact` — the same after any sequence of calls.
-/

namespace Ammalloc

namespace Span

variable {s : Span} {idx ptr : ℕ}

/-! ## `ObjectSlotOf` -/

/-- `Span::ObjectSlotOf` on checked words. -/
def checkedSlotOf (s : Span) (ptr : ℕ) : Option ℕ := do
  let base := s.getDataBasePtr
  let spanBytes ← Checked.fit 64 (s.capacity * s.alignedObjSize)
  if ptr < base then return sizeMax
  else
    let offset ← Checked.sub ptr base
    if offset ≥ spanBytes then return sizeMax
    else
      let rest ← Checked.mod offset s.alignedObjSize
      if rest ≠ 0 then return sizeMax else Checked.div offset s.alignedObjSize

/-- **`ObjectSlotOf` neither wraps nor divides by zero**: an offset below `span_bytes` leaves an
object size above zero. -/
lemma checkedSlotOf_eq (hcap : s.capacity ≤ uint32Max) (hsize : s.alignedObjSize ≤ uint32Max)
    (ptr : ℕ) : s.checkedSlotOf ptr = some (s.objectSlotOf ptr) := by
  have hfit : s.capacity * s.alignedObjSize < 2 ^ 64 :=
    lt_of_le_of_lt (Nat.mul_le_mul hcap hsize) (by norm_num [uint32Max])
  simp only [checkedSlotOf, objectSlotOf, Checked.fit_of_lt hfit, Option.bind_eq_bind,
    Option.bind_some]
  by_cases hbase : ptr < s.getDataBasePtr
  · rw [if_pos hbase, if_pos (Or.inl hbase)]
    rfl
  rw [if_neg hbase, Checked.sub_of_le (not_lt.mp hbase), Option.bind_some]
  by_cases hend : ptr - s.getDataBasePtr ≥ s.capacity * s.alignedObjSize
  · rw [if_pos hend, if_pos (Or.inr hend)]
    rfl
  have hpos : 0 < s.alignedObjSize := by
    refine Nat.pos_of_ne_zero fun h₀ => hend ?_
    rw [h₀, Nat.mul_zero]
    exact Nat.zero_le _
  rw [if_neg hend, if_neg (not_or.mpr ⟨hbase, hend⟩), Checked.mod_of_pos _ hpos, Option.bind_some,
    Checked.div_of_pos _ hpos]
  split <;> rfl

/-- `ObjectSlotOf` returns a slot or `SIZE_MAX`. -/
lemma objectSlotOf_cases (s : Span) (ptr : ℕ) :
    s.objectSlotOf ptr = sizeMax ∨ ∃ k < s.capacity, ptr = s.slotAddr k := by
  by_cases hrange : ptr < s.getDataBasePtr ∨
      ptr - s.getDataBasePtr ≥ s.capacity * s.alignedObjSize
  · exact Or.inl (by simp only [objectSlotOf, if_pos hrange])
  by_cases hmod : (ptr - s.getDataBasePtr) % s.alignedObjSize ≠ 0
  · exact Or.inl (by simp only [objectSlotOf, if_neg hrange, if_pos hmod])
  push Not at hrange hmod
  refine Or.inr ⟨(ptr - s.getDataBasePtr) / s.alignedObjSize, ?_, ?_⟩
  · exact Nat.div_lt_of_lt_mul (by rw [Nat.mul_comm]; exact hrange.2)
  · rw [slotAddr, Nat.div_mul_cancel (Nat.dvd_of_mod_eq_zero hmod)]
    omega

/-! ## `FreeObject` -/

/-- What `FreeObject` writes once its checks have passed. -/
lemma freeObject_eq {hardened : Bool} {s' : Span} (h : s.freeObject hardened ptr = .ok s') :
    let k := s.globalObjIdx (subU64 ptr s.getDataBasePtr)
    s' = { s with
      bitmap := WordBitmap.set s.bitmap (k >>> 6) (k &&& 63)
      useCount := (s.useCount + uint32Max) % 2 ^ 32
      scanCursor := min s.scanCursor (k >>> 6) } := by
  unfold freeObject at h
  obtain ⟨-, -, h⟩ := exists_ok_of_bind h
  obtain ⟨-, -, h⟩ := exists_ok_of_bind h
  obtain ⟨-, -, h⟩ := exists_ok_of_bind h
  obtain ⟨-, -, h⟩ := exists_ok_of_bind h
  obtain ⟨-, -, h⟩ := exists_ok_of_bind h
  obtain ⟨-, -, h⟩ := exists_ok_of_bind h
  exact (Except.ok.inj h).symm

/-- The slot index that `FreeObject` computes for the start of a slot. -/
lemma Carved.globalObjIdx_slotAddr (h : s.Carved idx) {k : ℕ} (haddr : s.slotAddr k < 2 ^ 64) :
    s.globalObjIdx (subU64 (s.slotAddr k) s.getDataBasePtr) = k := by
  rw [subU64_of_le haddr (Nat.le_add_right _ _), globalObjIdx_eq h.idx_lt h.obj_size, slotAddr,
    Nat.add_sub_cancel_left, Nat.mul_div_cancel _ h.size_pos]

/-- A slot that is free already fails the double-free check. -/
lemma Carved.freeObject_of_free (h : s.Carved idx) {k : ℕ} (haddr : s.slotAddr k < 2 ^ 64)
    (hfree : s.freeSlot k = true) : ∀ s', s.freeObject true (s.slotAddr k) ≠ .ok s' := by
  intro s' hrun
  unfold freeObject at hrun
  obtain ⟨-, -, hrun⟩ := exists_ok_of_bind hrun
  obtain ⟨-, -, hrun⟩ := exists_ok_of_bind hrun
  obtain ⟨-, -, hrun⟩ := exists_ok_of_bind hrun
  obtain ⟨-, -, hrun⟩ := exists_ok_of_bind hrun
  obtain ⟨_, htest, -⟩ := exists_ok_of_bind hrun
  rw [h.globalObjIdx_slotAddr haddr] at htest
  have hbit : WordBitmap.testBit s.bitmap k = true := hfree
  simp [hcheck, hbit] at htest

/-- **The addresses that `FreeObject` accepts** are the slots that are not free. -/
theorem Carved.freeObject_iff (h : s.Carved idx) (hptr : ptr < 2 ^ 64) :
    (∃ s', s.freeObject true ptr = .ok s') ↔
      ∃ k < s.capacity, s.freeSlot k = false ∧ ptr = s.slotAddr k := by
  constructor
  · rintro ⟨s', hrun⟩
    rcases s.objectSlotOf_cases ptr with hnone | ⟨k, hk, rfl⟩
    · obtain ⟨m, hm⟩ := freeObject_of_not_slot h.idx_lt h.obj_size hptr hnone
      rw [hm] at hrun
      exact absurd hrun (by simp)
    · cases hfree : s.freeSlot k with
      | true => exact absurd hrun (h.freeObject_of_free hptr hfree s')
      | false => exact ⟨k, hk, hfree, rfl⟩
  · rintro ⟨k, hk, hfree, rfl⟩
    obtain ⟨s', hrun, -⟩ := h.freeObject_ok true hk hfree hptr
    exact ⟨s', hrun⟩

/-! ## Sequences of calls -/

/-- A carved span under calls of the hardened build with any 64-bit address. A failed check ends
the program. -/
def hardenedMachine (s : Span) : Machine Objects ObjectCall where
  init := {{ span := s }}
  next st
    | .allocObject =>
      if st.fault.isSome then st
      else
        match st.span.allocObject with
        | some (a, s') => { st with span := s', live := a :: st.live }
        | none => st
    | .freeObject ptr =>
      if st.fault.isSome ∨ 2 ^ 64 ≤ ptr then st
      else
        match st.span.freeObject true ptr with
        | .ok s' => { st with span := s', live := st.live.erase ptr }
        | .error e => { st with fault := some e }

/-- The books up to a failed check. -/
def HardenedOk (s : Span) (idx : ℕ) (st : Objects) : Prop :=
  ObjectsOk s idx { st with fault := none }

/-- The books and `FreeObject`: the objects that are out are those it accepts. -/
lemma HardenedOk.freeObject_iff {st : Objects} (h : HardenedOk s idx st) (hptr : ptr < 2 ^ 64) :
    (∃ s', st.span.freeObject true ptr = .ok s') ↔ ptr ∈ st.live := by
  have hcarved : st.span.Carved idx := h.carved
  rw [hcarved.freeObject_iff hptr]
  exact (h.mem ptr).symm

/-- **One call of the hardened build** keeps the books, whatever the address. -/
lemma HardenedOk.next {s₀ : Span} {st : Objects} (h : HardenedOk s idx st) (c : ObjectCall) :
    HardenedOk s idx ((hardenedMachine s₀).next st c) := by
  cases c with
  | allocObject =>
    simp only [hardenedMachine]
    split
    · exact h
    split
    · exact ObjectsOk.alloc h ‹_›
    · exact h
  | freeObject ptr =>
    simp only [hardenedMachine]
    split
    · exact h
    rename_i hgo
    have hptr : ptr < 2 ^ 64 := not_le.mp (not_or.mp hgo).2
    split
    · rename_i s' hrun
      -- the check that it passed says that the object is out
      obtain ⟨s'', hrun', hok⟩ := ObjectsOk.free h true ((h.freeObject_iff hptr).mp ⟨s', hrun⟩) hptr
      rw [hrun] at hrun'
      obtain rfl := Except.ok.inj hrun'
      exact hok
    · exact h

/-- **The hardened `FreeObject` accepts exactly the allocated objects.** Let `Init` accept a span
and let any calls of `AllocObject` and `FreeObject` with any addresses follow. `FreeObject` of an
address passes all checks exactly if the address is that of an object that is out, which is a slot
whose bit is clear. It then sets exactly the bit of that slot, and writes no other field than the
two counters; the slot index it computes is that of `ObjectSlotOf`. `ObjectSlotOf` gives `SIZE_MAX`
for all other addresses than the starts of slots. For no descriptor does it wrap or divide by zero,
and without slots it gives `SIZE_MAX`. -/
theorem freeObject_exact {s s₀ : Span} {size : ℕ} (hinit : s.init size = .ok s₀)
    (cs : List ObjectCall) :
    let st := (hardenedMachine s₀).run { span := s₀ } cs
    (∀ ptr < 2 ^ 64,
      ((∃ s', st.span.freeObject true ptr = .ok s') ↔ ptr ∈ st.live) ∧
      (ptr ∈ st.live ↔
        ∃ k < st.span.capacity, st.span.freeSlot k = false ∧ ptr = st.span.slotAddr k) ∧
      (∀ s', st.span.freeObject true ptr = .ok s' →
        ∃ k < st.span.capacity, ptr = st.span.slotAddr k ∧
          (∀ j, s'.freeSlot j = (st.span.freeSlot j || decide (j = k))) ∧
          s'.bitmap.length = st.span.bitmap.length ∧
          s' = { st.span with
            bitmap := s'.bitmap, useCount := st.span.useCount - 1, scanCursor := s'.scanCursor }) ∧
      (∀ k < st.span.capacity, ptr = st.span.slotAddr k →
        st.span.globalObjIdx (subU64 ptr st.span.getDataBasePtr) = k ∧
          st.span.objectSlotOf ptr = k) ∧
      ((∀ k < st.span.capacity, ptr ≠ st.span.slotAddr k) → st.span.objectSlotOf ptr = sizeMax)) ∧
    ∀ t : Span, t.capacity ≤ uint32Max → t.alignedObjSize ≤ uint32Max → ∀ ptr,
      t.checkedSlotOf ptr = some (t.objectSlotOf ptr) ∧
        (t.capacity = 0 → t.objectSlotOf ptr = sizeMax) := by
  intro st
  obtain ⟨idx, hcarved, -, rfl⟩ := init_eq_ok hinit
  have hst : HardenedOk s idx st := by
    refine ((Machine.Reachable.init (M := hardenedMachine _) rfl).run cs).invariant
      (I := HardenedOk s idx) (fun st₀ hst₀ => ?_) fun st c h => h.next c
    rw [Set.mem_singleton_iff.mp hst₀]
    exact hcarved.objectsOk rfl rfl
  have hc : st.span.Carved idx := hst.carved
  refine ⟨fun ptr hptr => ⟨hst.freeObject_iff hptr, hst.mem ptr, fun s' hrun => ?_,
    fun k hk haddr => ?_, fun hnone => ?_⟩, fun t hcap hsize ptr => ⟨?_, fun h₀ => ?_⟩⟩
  · obtain ⟨k, hk, hused, rfl⟩ := (hc.freeObject_iff hptr).mp ⟨s', hrun⟩
    obtain ⟨s'', hrun', -, hbits, heq⟩ := hc.freeObject_ok true hk hused hptr
    rw [hrun] at hrun'
    obtain rfl := Except.ok.inj hrun'
    exact ⟨k, hk, rfl, hbits, by rw [freeObject_eq hrun]; simp, heq⟩
  · subst haddr
    exact ⟨hc.globalObjIdx_slotAddr hptr, hc.objectSlotOf_slotAddr hk⟩
  · rcases st.span.objectSlotOf_cases ptr with h | ⟨k, hk, haddr⟩
    · exact h
    · exact absurd haddr (hnone k hk)
  · exact checkedSlotOf_eq hcap hsize ptr
  · rcases t.objectSlotOf_cases ptr with h | ⟨k, hk, -⟩
    · exact h
    · omega

/-- A page of 48-byte objects: the second object can be freed, and an address inside it cannot. -/
theorem freeObject_exact_onePage : ∃ s₀,
    ({ startPageIdx := 7, pageNum := 1 } : Span).init 48 = .ok s₀ ∧
      let st := (hardenedMachine s₀).run { span := s₀ } [.allocObject, .allocObject]
      (∃ s', st.span.freeObject true (7 * 4096 + 64) = .ok s') ∧
        ¬ ∃ s', st.span.freeObject true (7 * 4096 + 65) = .ok s' := by
  obtain ⟨s₀, h⟩ : ∃ s₀, ({ startPageIdx := 7, pageNum := 1 } : Span).init 48 = .ok s₀ :=
    ⟨_, init_of_capacity_pos (show 2 < SizeClass.kNumSizeClasses by decide) (by decide)⟩
  have hcall := (freeObject_exact h [.allocObject, .allocObject]).1
  have hlive : ((hardenedMachine s₀).run { span := s₀ } [.allocObject, .allocObject]).live =
      [7 * 4096 + 64, 7 * 4096 + 16] := by
    obtain rfl := Except.ok.inj (h.symm.trans (init_of_capacity_pos
      (show 2 < SizeClass.kNumSizeClasses by decide) (by decide)))
    decide +kernel
  refine ⟨s₀, h, (hcall _ (by norm_num)).1.mpr ?_, fun hno => ?_⟩
  · rw [hlive]
    decide
  · have := (hcall _ (by norm_num)).1.mp hno
    rw [hlive] at this
    exact absurd this (by decide)

end Span

end Ammalloc
