import Ammalloc.CentralCache.Progress
import Ammalloc.Lib.Machine

set_option relaxedAutoImplicit false
set_option autoImplicit false

/-!
# The TransferCache as a bounded double-ended sequence

Three functions write the TransferCache of a bucket, each with its own index arithmetic, under
`transfer_cache_lock`: `FetchBatch` takes objects from the hot end and puts prefetched ones there,
`ReleaseBatch` puts objects there, `DrainTransferCaches` takes objects from the cold end. Under any
sequence of these sections the valid slots are a list, cold end first.

## Main definitions

* `Ammalloc.RingUpdate`, `Ammalloc.RingUpdate.run` — a section and what it does to the ring.
* `Ammalloc.RingUpdate.apply`, `Ammalloc.RingUpdate.indices` — the ring and the local buffer
  afterwards, and the values of `TransferIndex`.
* `Ammalloc.RingUpdate.applyList` — what it is meant to do to a list.

## Main results

* `Ammalloc.RingUpdate.apply_spec` — one section.
* `Ammalloc.RingUpdate.ring_refines_list` — any sequence of sections.
* `Ammalloc.CentralCache.step_ring` — the steps of the calls write the rings by such sections only.
-/

namespace Ammalloc

/-- A section under `transfer_cache_lock` that writes the TransferCache. -/
inductive RingUpdate where
  /-- `FetchBatch` takes up to `fetchNum` objects. -/
  | grab (fetchNum : ℕ)
  /-- `FetchBatch` puts the prefetched objects, as far as they fit. -/
  | publish (prefetched : List ℕ)
  /-- `ReleaseBatch` puts a chunk of its chain, as far as it fits. -/
  | release (localPtrs : List ℕ)
  /-- `DrainTransferCaches` takes up to `batchLimit` objects. -/
  | drain (batchLimit : ℕ)
  deriving DecidableEq, Repr

namespace RingUpdate

/-- The section on the ring: the ring afterwards with the objects in the local buffer, and the
values of `TransferIndex`. -/
def run (r : RingBuffer ℕ) : RingUpdate → (RingBuffer ℕ × List ℕ) × List ℕ
  | .grab fetchNum =>
    let ((objs, r), slots) := r.grabTraced (min fetchNum r.size)
    ((r, objs), slots)
  | .publish prefetched => r.appendTraced prefetched
  | .release localPtrs => r.appendTraced localPtrs
  | .drain batchLimit =>
    let detached := min batchLimit r.size
    if detached = 0 then ((r, []), [])
    else
      let ((objs, r), slots) := r.detachTraced detached
      ((r, objs), slots)

/-- The ring after the section, and the objects in the local buffer. -/
def apply (r : RingBuffer ℕ) (u : RingUpdate) : RingBuffer ℕ × List ℕ := (u.run r).1

/-- The values of `TransferIndex` in the section. -/
def indices (r : RingBuffer ℕ) (u : RingUpdate) : List ℕ := (u.run r).2

/-- The section on a list with at most `capacity` entries, cold end first. -/
def applyList (capacity : ℕ) (l : List ℕ) : RingUpdate → List ℕ × List ℕ
  | .grab fetchNum => (l.take (l.length - fetchNum), (l.drop (l.length - fetchNum)).reverse)
  | .publish objs => (l ++ objs.take (capacity - l.length), objs.drop (capacity - l.length))
  | .release objs => (l ++ objs.take (capacity - l.length), objs.drop (capacity - l.length))
  | .drain batchLimit => (l.drop batchLimit, l.take batchLimit)

variable {r : RingBuffer ℕ}

@[simp] lemma apply_grab (fetchNum : ℕ) :
    apply r (.grab fetchNum) =
      ((r.grab (min fetchNum r.size)).2, (r.grab (min fetchNum r.size)).1) := rfl

@[simp] lemma apply_publish (objs : List ℕ) : apply r (.publish objs) = r.append objs := rfl

@[simp] lemma apply_release (objs : List ℕ) : apply r (.release objs) = r.append objs := rfl

/-- A drain that finds objects. -/
lemma apply_drain {batchLimit : ℕ} (h : min batchLimit r.size ≠ 0) :
    apply r (.drain batchLimit) =
      ((r.detach (min batchLimit r.size)).2, (r.detach (min batchLimit r.size)).1) := by
  simp only [apply, run, if_neg h]
  rfl

/-- A drain that finds none. -/
lemma run_drain_zero {batchLimit : ℕ} (h : min batchLimit r.size = 0) :
    run r (.drain batchLimit) = ((r, []), []) := if_pos h

/-- What a section is meant to do: the ring stays within its bounds and keeps its capacity, no slot
beyond it is computed, and the contents change as the list does. -/
structure Refines (r : RingBuffer ℕ) (u : RingUpdate) : Prop where
  wf : (u.apply r).1.WF
  capacity : (u.apply r).1.capacity = r.capacity
  indices_lt : ∀ i ∈ u.indices r, i < r.capacity
  contents : (u.apply r).1.contents = (u.applyList r.capacity r.contents).1
  objs : (u.apply r).2 = (u.applyList r.capacity r.contents).2

/-- The section of `FetchBatch` at the hot end. -/
lemma grab_refines (h : r.WF) (fetchNum : ℕ) : Refines r (.grab fetchNum) := by
  have hle : min fetchNum r.size ≤ r.size := Nat.min_le_right _ _
  have hcut := RingBuffer.contents_grab hle
  have hkept : (r.grab (min fetchNum r.size)).2.contents.length = r.size - fetchNum := by
    have hlen := congrArg List.length hcut
    rw [List.length_append, List.length_reverse, RingBuffer.length_grab,
      RingBuffer.length_contents] at hlen
    omega
  refine ⟨h.grab _, RingBuffer.capacity_grab _ _, h.grabTraced_lt hle, ?_, ?_⟩
  · simp only [apply_grab, applyList]
    rw [RingBuffer.length_contents, ← hkept, hcut, List.take_left]
  · simp only [apply_grab, applyList]
    rw [RingBuffer.length_contents, ← hkept, hcut, List.drop_left, List.reverse_reverse]

/-- The section of `FetchBatch` or `ReleaseBatch` that puts objects. -/
lemma append_refines (h : r.WF) (objs : List ℕ) :
    Refines r (.publish objs) ∧ Refines r (.release objs) := by
  obtain ⟨hcontents, hleft⟩ := RingBuffer.contents_append_take h objs
  have hlen := r.length_contents
  have hr : Refines r (.publish objs) :=
    ⟨h.append objs, RingBuffer.capacity_append r objs, h.appendTraced_lt objs,
      by simp only [apply_publish, applyList, hlen, hcontents],
      by simp only [apply_publish, applyList, hlen, hleft]⟩
  exact ⟨hr, hr.wf, hr.capacity, hr.indices_lt, hr.contents, hr.objs⟩

/-- The section of `DrainTransferCaches` at the cold end. -/
lemma drain_refines (h : r.WF) (batchLimit : ℕ) : Refines r (.drain batchLimit) := by
  have hle : min batchLimit r.size ≤ r.size := Nat.min_le_right _ _
  have hcut := RingBuffer.contents_detach h hle
  have hout : (r.detach (min batchLimit r.size)).1.length = min batchLimit r.contents.length := by
    simp
  have hdrop : r.contents.drop batchLimit = (r.detach (min batchLimit r.size)).2.contents := by
    rw [List.drop_eq_drop_min, ← hout, hcut, List.drop_left]
  have htake : r.contents.take batchLimit = (r.detach (min batchLimit r.size)).1 := by
    rw [List.take_eq_take_min, ← hout, hcut, List.take_left]
  by_cases hzero : min batchLimit r.size = 0
  · have hrun := run_drain_zero hzero
    refine ⟨?_, ?_, ?_, ?_, ?_⟩
    all_goals simp only [apply, indices, applyList, hrun]
    · exact h
    · simp
    · rw [List.drop_eq_drop_min, RingBuffer.length_contents, hzero, List.drop_zero]
    · rw [List.take_eq_take_min, RingBuffer.length_contents, hzero, List.take_zero]
  · refine ⟨?_, ?_, ?_, ?_, ?_⟩
    · rw [apply_drain hzero]
      exact h.detach hle
    · rw [apply_drain hzero]
      exact RingBuffer.capacity_detach _ _
    · simp only [indices, run, if_neg hzero]
      exact h.detachTraced_lt hle
    · rw [apply_drain hzero]
      exact hdrop.symm
    · rw [apply_drain hzero]
      exact htake.symm

/-- **One section.** -/
theorem apply_spec (h : r.WF) (u : RingUpdate) : Refines r u := by
  cases u with
  | grab fetchNum => exact grab_refines h fetchNum
  | publish objs => exact (append_refines h objs).1
  | release objs => exact (append_refines h objs).2
  | drain batchLimit => exact drain_refines h batchLimit

/-! ## Sequences of sections -/

/-- The ring under sections. -/
def ringMachine : Machine (RingBuffer ℕ) RingUpdate where
  init := {r | r.first = 0 ∧ r.size = 0}
  next r u := (u.apply r).1

/-- The list under sections. -/
def listMachine (capacity : ℕ) : Machine (List ℕ) RingUpdate where
  init := {[]}
  next l u := (u.applyList capacity l).1

/-- **The TransferCache refines a bounded double-ended sequence.** Let `r` be the ring of a bucket
after any sequence of sections, with any capacity, and `l` the list after the same sequence. Then
the size is at most the capacity, the cold end is a slot unless there are none, and the valid slots
read from the cold end are `l`. In the next section, whatever it is, every value of `TransferIndex`
is a slot, the local buffer holds what the list gives, and the contents become those of the list:
what is put goes to the hot end until the ring is full, a grab takes the last entries, hottest
first, a drain takes the first entries, and the others keep their order. -/
theorem ring_refines_list (slots : ℕ → ℕ) (capacity : ℕ) (us : List RingUpdate) :
    let r := ringMachine.run { slots := slots, first := 0, size := 0, capacity := capacity } us
    let l := (listMachine capacity).run [] us
    r.size ≤ capacity ∧ (r.first < capacity ∨ (r.first = 0 ∧ capacity = 0)) ∧
      r.capacity = capacity ∧ r.contents = l ∧
      ∀ u : RingUpdate, (∀ i ∈ u.indices r, i < capacity) ∧
        (u.apply r).2 = (u.applyList capacity l).2 ∧
        (u.apply r).1.contents = (u.applyList capacity l).1 := by
  intro r l
  have hrun : r.WF ∧ r.capacity = capacity ∧ r.contents = l := by
    refine Machine.run_simulation (M := ringMachine) (N := listMachine capacity)
      (R := fun r l => r.WF ∧ r.capacity = capacity ∧ r.contents = l) (G := fun _ _ => True)
      (fun r l u ⟨hwf, hcap, hl⟩ _ => ?_) ⟨⟨Nat.zero_le _, ?_⟩, rfl, rfl⟩
      (Machine.guarded_of_forall (fun _ _ => trivial) _ us)
    · have hu := apply_spec hwf u
      refine ⟨hu.wf, hu.capacity.trans hcap, ?_⟩
      rw [← hcap, ← hl]
      exact hu.contents
    · dsimp only
      omega
  obtain ⟨hwf, hcap, hl⟩ := hrun
  refine ⟨hcap ▸ hwf.size_le, hcap ▸ hwf.first_lt, hcap, hl, fun u => ?_⟩
  have hu := apply_spec hwf u
  refine ⟨hcap ▸ hu.indices_lt, ?_, ?_⟩
  · rw [hu.objs, hcap, hl]
  · rw [hu.contents, hcap, hl]

/-- A ring of three slots whose cold end has moved: the next entries wrap around. -/
example : (ringMachine.run { slots := fun _ => 0, first := 0, size := 0, capacity := 3 }
    [.release [1, 2, 3], .drain 2, .publish [4, 5, 6], .grab 1]).contents = [3, 4] := by decide

end RingUpdate

/-! ## The sections of the calls -/

namespace CentralCache

variable {c c' : CentralCache} {hardened : Bool} {env : PageEnv} {idx : ℕ}

/-- Every ring is as before or has undergone one section. -/
def RingStep (c c' : CentralCache) : Prop :=
  ∀ j, (c'.buckets j).transferCache = (c.buckets j).transferCache ∨
    ∃ u : RingUpdate, (c'.buckets j).transferCache = (u.apply (c.buckets j).transferCache).1

/-- A section that leaves the rings alone is a step of each ring. -/
lemma SameRings.ringStep (h : SameRings c c') : RingStep c c' := fun j => Or.inl (h j)

/-- A section on the ring of one class. -/
lemma ringStep_setRing (c : CentralCache) (idx : ℕ) (u : RingUpdate) :
    RingStep c (c.setRing idx (u.apply (c.buckets idx).transferCache).1) := by
  intro j
  by_cases hj : j = idx
  · subst hj
    exact Or.inr ⟨u, by simp [setRing]⟩
  · exact Or.inl (by simp [setRing, hj])

/-- The rotation of a full span leaves the rings alone. -/
lemma rotateIfFull_sameRings (h : c.rotateIfFull idx = .ok c') : SameRings c c' := by
  unfold rotateIfFull at h
  split at h
  · obtain rfl := Except.ok.inj h
    exact fun _ => rfl
  obtain ⟨s, -, h⟩ := exists_ok_of_bind h
  split at h
  · obtain rfl := Except.ok.inj h
    exact sameRings_setSpanList c idx _
  · obtain rfl := Except.ok.inj h
    exact fun _ => rfl

/-- The scan of the span list writes no ring. -/
lemma scanLoop_sameRings {target fuel : ℕ} {extracted : List ℕ} {r : List ℕ × Bool}
    (h : scanLoop idx target fuel c extracted = .ok (c', r)) : SameRings c c' := by
  induction fuel generalizing c extracted with
  | zero =>
    obtain ⟨rfl, -⟩ := Prod.mk.inj (Except.ok.inj h)
    exact fun _ => rfl
  | succ fuel ih =>
    unfold scanLoop at h
    split at h
    swap
    · obtain ⟨rfl, -⟩ := Prod.mk.inj (Except.ok.inj h)
      exact fun _ => rfl
    split at h
    · obtain ⟨rfl, -⟩ := Prod.mk.inj (Except.ok.inj h)
      exact fun _ => rfl
    rename_i i rest hlist
    obtain ⟨s, -, h⟩ := exists_ok_of_bind h
    split at h
    · obtain ⟨rfl, -⟩ := Prod.mk.inj (Except.ok.inj h)
      exact fun _ => rfl
    obtain ⟨c₁, hrot, h⟩ := exists_ok_of_bind h
    refine SameRings.trans (SameRings.trans ?_ (rotateIfFull_sameRings hrot)) (ih h)
    exact sameRings_setSpanList (c.storeSpan i _) idx _

/-- The SpanList section writes no ring. -/
lemma scanSection_sameRings {f f' : FetchFrame} (h : c.scanSection f = .ok (c', f')) :
    SameRings c c' := by
  obtain ⟨⟨c₁, extracted, needSpan⟩, hscan, h⟩ := exists_ok_of_bind h
  obtain ⟨rfl, -⟩ := Prod.mk.inj (Except.ok.inj h)
  exact scanLoop_sameRings hscan

/-- The steps of `ReleaseBatch`. -/
lemma releaseStep_ring {mode : CentralReleaseMode} {pc pc' : ReleasePc}
    (h : c.releaseStep hardened env idx mode pc = .ok (c', pc')) : RingStep c c' := by
  unfold releaseStep at h
  split at h
  · obtain ⟨rfl, -⟩ := Prod.mk.inj (Except.ok.inj h)
    exact fun _ => Or.inl rfl
  · rename_i obj objs
    have happend := ringStep_setRing c idx
      (.release ((obj :: objs).take SizeClass.kMaxBatchSize))
    cases mode with
    | kTransferCache =>
      simp only [RingUpdate.apply_release] at happend
      dsimp only at h
      split at h
      all_goals
        rename_i hr
        rw [hr] at happend
        obtain ⟨rfl, -⟩ := Prod.mk.inj (Except.ok.inj h)
        exact happend
    | kSpanBitmap =>
      obtain ⟨rfl, -⟩ := Prod.mk.inj (Except.ok.inj h)
      exact fun _ => Or.inl rfl
  · obtain ⟨⟨c₁, empty⟩, hloop, h⟩ := exists_ok_of_bind h
    obtain ⟨rfl, -⟩ := Prod.mk.inj (Except.ok.inj h)
    exact (freeLoop_progress hloop).1.ringStep
  · obtain ⟨rfl, -⟩ := Prod.mk.inj (Except.ok.inj h)
    exact fun _ => Or.inl rfl
  · obtain ⟨pages, -, h⟩ := exists_ok_of_bind h
    obtain ⟨rfl, -⟩ := Prod.mk.inj (Except.ok.inj h)
    exact fun _ => Or.inl rfl

/-- The steps of `FetchBatch`. -/
lemma fetchStep_ring {f f' : FetchFrame} (h : c.fetchStep hardened env f = .ok (c', f')) :
    RingStep c c' := by
  unfold fetchStep at h
  split at h
  · obtain ⟨rfl, -⟩ := Prod.mk.inj (Except.ok.inj h)
    exact ringStep_setRing c f.idx (.grab f.fetchNum)
  · exact (scanSection_sameRings h).ringStep
  · obtain ⟨⟨span, pages⟩, -, h⟩ := exists_ok_of_bind h
    cases span with
    | none =>
      obtain ⟨rfl, -⟩ := Prod.mk.inj (Except.ok.inj h)
      exact fun _ => Or.inl rfl
    | some i =>
      obtain ⟨rfl, -⟩ := Prod.mk.inj (Except.ok.inj h)
      exact fun _ => Or.inl rfl
  · obtain ⟨s, -, h⟩ := exists_ok_of_bind h
    obtain ⟨s', -, h⟩ := exists_ok_of_bind h
    obtain ⟨rfl, -⟩ := Prod.mk.inj (Except.ok.inj h)
    exact fun _ => Or.inl rfl
  · exact ((sameRings_setSpanList c f.idx _).trans (scanSection_sameRings h)).ringStep
  · have happend := ringStep_setRing c f.idx (.publish f.prefetched)
    simp only [RingUpdate.apply_publish] at happend
    split at h
    all_goals
      rename_i hr
      rw [hr] at happend
      obtain ⟨rfl, -⟩ := Prod.mk.inj (Except.ok.inj h)
      exact happend
  · obtain ⟨⟨c₁, pc⟩, hrun, h⟩ := exists_ok_of_bind h
    obtain ⟨rfl, -⟩ := Prod.mk.inj (Except.ok.inj h)
    exact releaseStep_ring hrun
  · obtain ⟨rfl, -⟩ := Prod.mk.inj (Except.ok.inj h)
    exact fun _ => Or.inl rfl

/-- The steps of `DrainTransferCaches`. -/
lemma drainStep_ring {f f' : DrainFrame} (h : c.drainStep hardened env f = .ok (c', f')) :
    RingStep c c' := by
  cases drainStep_cases h with
  | returned => exact fun _ => Or.inl rfl
  | skip => exact fun _ => Or.inl rfl
  | snapshot => exact fun _ => Or.inl rfl
  | exhausted => exact fun _ => Or.inl rfl
  | @detach idx remaining detached _ hcount hpos =>
    have hdetach := ringStep_setRing c idx
      (.drain (min SizeClass.kMaxBatchSize remaining))
    rw [RingUpdate.apply_drain (by omega), ← hcount] at hdetach
    exact hdetach
  | releasing _ hrun => exact releaseStep_ring hrun
  | released _ hrun => exact releaseStep_ring hrun

/-- **The steps of the calls write the rings by sections only.** -/
theorem step_ring {f f' : CentralFrame} (h : c.step hardened env f = .ok (c', f')) :
    RingStep c c' := by
  cases f with
  | fetch f =>
    obtain ⟨⟨c₁, f₁⟩, hrun, h⟩ := exists_ok_of_bind h
    obtain ⟨rfl, -⟩ := Prod.mk.inj (Except.ok.inj h)
    exact fetchStep_ring hrun
  | release idx mode pc =>
    obtain ⟨⟨c₁, pc₁⟩, hrun, h⟩ := exists_ok_of_bind h
    obtain ⟨rfl, -⟩ := Prod.mk.inj (Except.ok.inj h)
    exact releaseStep_ring hrun
  | drain f =>
    obtain ⟨⟨c₁, f₁⟩, hrun, h⟩ := exists_ok_of_bind h
    obtain ⟨rfl, -⟩ := Prod.mk.inj (Except.ok.inj h)
    exact drainStep_ring hrun

end CentralCache

end Ammalloc
