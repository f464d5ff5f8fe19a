import Ammalloc.CentralCache

set_option relaxedAutoImplicit false
set_option autoImplicit false

/-!
# A drain with nothing else running

A `ReleaseBatch` to the bitmaps leaves the TransferCaches alone and ends after a number of steps
that its frame determines. An unbounded `DrainTransferCaches` that nobody disturbs empties class
after class, and ends as well.

## Main definitions

* `Ammalloc.ReleasePc.steps`, `Ammalloc.CentralCache.drainSteps` — how many steps are left at most.
* `Ammalloc.CentralCache.DrainStep` — what a step of `DrainTransferCaches` can do.
* `Ammalloc.CentralCache.Drained` — the classes behind the drain are empty.

## Main results

* `Ammalloc.CentralCache.releaseStep_steps_lt` — a step of a `ReleaseBatch`.
* `Ammalloc.CentralCache.releaseStep_progress` — a step of a `ReleaseBatch` to the bitmaps.
* `Ammalloc.CentralCache.drainStep_progress` — a step of an unbounded drain.
-/

namespace Ammalloc

open SizeClass (kNumSizeClasses)

/-- A bound on the remaining steps of a `ReleaseBatch`. -/
def ReleasePc.steps : ReleasePc → ℕ
  | .chunk rest => 4 * rest.length
  | .bitmap objs rest => objs.length + 2 + 4 * rest.length
  | .returning spans rest => spans.length + 1 + 4 * rest.length

/-- A release that has not returned has a step to go. -/
lemma ReleasePc.steps_pos {pc : ReleasePc} (h : pc ≠ .chunk []) : 0 < pc.steps := by
  cases pc with
  | chunk rest =>
    cases rest with
    | nil => exact absurd rfl h
    | cons obj objs => simp [steps]
  | bitmap objs rest => simp [steps]
  | returning spans rest => simp [steps]

namespace CentralCache

variable {c c' : CentralCache} {hardened : Bool} {env : PageEnv} {idx : ℕ}

/-- The TransferCaches are the same. -/
def SameRings (c c' : CentralCache) : Prop :=
  ∀ j, (c'.buckets j).transferCache = (c.buckets j).transferCache

/-- Two sections that leave the rings alone do so together. -/
lemma SameRings.trans {c'' : CentralCache} (h : SameRings c c') (h' : SameRings c' c'') :
    SameRings c c'' := fun j => (h' j).trans (h j)

/-- A write of a span list leaves the rings alone. -/
lemma sameRings_setSpanList (c : CentralCache) (idx : ℕ) (l : List ℕ) :
    SameRings c (c.setSpanList idx l) := by
  intro j
  by_cases hj : j = idx
  · subst hj
    simp [setSpanList]
  · simp [setSpanList, hj]

/-! ## `ReleaseBatch` -/

/-- The bitmap section writes no TransferCache, and collects at most one span per object. -/
lemma freeLoop_progress {objs empty empty' : List ℕ}
    (h : freeLoop hardened idx objs c empty = .ok (c', empty')) :
    SameRings c c' ∧ empty'.length ≤ empty.length + objs.length := by
  induction objs generalizing c empty with
  | nil =>
    obtain ⟨rfl, rfl⟩ := Prod.mk.inj (Except.ok.inj h)
    exact ⟨fun _ => rfl, le_rfl⟩
  | cons obj objs ih =>
    unfold freeLoop at h
    split at h
    · obtain ⟨hrings, hlen⟩ := ih h
      exact ⟨hrings, hlen.trans (by simp)⟩
    · rename_i i _
      cases hs : c.pageCache.deref i with
      | error e => simp [hs, bind, Except.bind] at h
      | ok s =>
        cases hs' : s.freeObject hardened obj with
        | error e => simp [hs, hs', bind, Except.bind] at h
        | ok s' =>
          simp only [hs, hs', bind, Except.bind] at h
          split_ifs at h
          · obtain ⟨hrings, hlen⟩ := ih h
            refine ⟨SameRings.trans (sameRings_setSpanList (c.storeSpan i s') idx _) hrings, ?_⟩
            simp only [List.length_cons] at hlen ⊢
            omega
          · obtain ⟨hrings, hlen⟩ := ih h
            refine ⟨SameRings.trans (sameRings_setSpanList (c.storeSpan i s') idx _) hrings, ?_⟩
            simp only [List.length_cons] at hlen ⊢
            omega
          · obtain ⟨hrings, hlen⟩ := ih h
            refine ⟨hrings, ?_⟩
            simp only [List.length_cons] at hlen ⊢
            omega

/-- **Every step of a `ReleaseBatch`** brings its end nearer. -/
theorem releaseStep_steps_lt {mode : CentralReleaseMode} {pc pc' : ReleasePc} (hpc : pc ≠ .chunk [])
    (h : c.releaseStep hardened env idx mode pc = .ok (c', pc')) : pc'.steps < pc.steps := by
  cases pc with
  | chunk rest =>
    cases rest with
    | nil => exact absurd rfl hpc
    | cons obj objs =>
      have hmax : 0 < SizeClass.kMaxBatchSize := by decide
      cases mode with
      | kTransferCache =>
        have hleft := ((c.buckets idx).transferCache.append_suffix
          ((obj :: objs).take SizeClass.kMaxBatchSize)).length_le
        rw [List.length_take, List.length_cons] at hleft
        simp only [releaseStep] at h
        split at h
        · obtain ⟨-, rfl⟩ := Prod.mk.inj (Except.ok.inj h)
          simp only [ReleasePc.steps, List.length_drop, List.length_cons]
          omega
        · rename_i r left _ hr
          obtain ⟨-, rfl⟩ := Prod.mk.inj (Except.ok.inj h)
          rw [hr] at hleft
          change left.length ≤ _ at hleft
          simp only [ReleasePc.steps, List.length_drop, List.length_cons]
          omega
      | kSpanBitmap =>
        obtain ⟨-, rfl⟩ := Prod.mk.inj (Except.ok.inj h)
        simp only [ReleasePc.steps, List.length_take, List.length_drop, List.length_cons]
        omega
  | bitmap objs rest =>
    obtain ⟨⟨c₁, empty⟩, hloop, h⟩ := exists_ok_of_bind h
    obtain ⟨-, rfl⟩ := Prod.mk.inj (Except.ok.inj h)
    have hlen := (freeLoop_progress hloop).2
    simp only [List.length_nil] at hlen
    simp only [ReleasePc.steps]
    omega
  | returning spans rest =>
    cases spans with
    | nil =>
      obtain ⟨-, rfl⟩ := Prod.mk.inj (Except.ok.inj h)
      simp [ReleasePc.steps]
    | cons i spans =>
      obtain ⟨pc, -, h⟩ := exists_ok_of_bind h
      obtain ⟨-, rfl⟩ := Prod.mk.inj (Except.ok.inj h)
      simp only [ReleasePc.steps, List.length_cons]
      omega

/-- A `ReleaseBatch` to the bitmaps writes no TransferCache. -/
lemma releaseStep_sameRings {pc pc' : ReleasePc}
    (h : c.releaseStep hardened env idx .kSpanBitmap pc = .ok (c', pc')) : SameRings c c' := by
  cases pc with
  | chunk rest =>
    cases rest with
    | nil =>
      obtain ⟨rfl, -⟩ := Prod.mk.inj (Except.ok.inj h)
      exact fun _ => rfl
    | cons obj objs =>
      obtain ⟨rfl, -⟩ := Prod.mk.inj (Except.ok.inj h)
      exact fun _ => rfl
  | bitmap objs rest =>
    obtain ⟨⟨c₁, empty⟩, hloop, h⟩ := exists_ok_of_bind h
    obtain ⟨rfl, -⟩ := Prod.mk.inj (Except.ok.inj h)
    exact (freeLoop_progress hloop).1
  | returning spans rest =>
    cases spans with
    | nil =>
      obtain ⟨rfl, -⟩ := Prod.mk.inj (Except.ok.inj h)
      exact fun _ => rfl
    | cons i spans =>
      obtain ⟨pc, -, h⟩ := exists_ok_of_bind h
      obtain ⟨rfl, -⟩ := Prod.mk.inj (Except.ok.inj h)
      exact fun _ => rfl

/-- **A step of a `ReleaseBatch` to the bitmaps** writes no TransferCache, and brings its end
nearer. -/
theorem releaseStep_progress {pc pc' : ReleasePc} (hpc : pc ≠ .chunk [])
    (h : c.releaseStep hardened env idx .kSpanBitmap pc = .ok (c', pc')) :
    SameRings c c' ∧ pc'.steps < pc.steps :=
  ⟨releaseStep_sameRings h, releaseStep_steps_lt hpc h⟩

/-! ## The drain -/

/-- What a step of `DrainTransferCaches` can do. -/
inductive DrainStep (hardened : Bool) (env : PageEnv) (c : CentralCache) (f : DrainFrame) :
    CentralCache → DrainFrame → Prop
  /-- No class is left. -/
  | returned (pc : f.pc = .next 0) : DrainStep hardened env c f c f
  /-- The budget is below the size of the class. -/
  | skip {idx : ℕ} (pc : f.pc = .next (idx + 1)) (bounded : f.unbounded = false)
      (low : f.maxBytes < SizeClass.size idx) :
      DrainStep hardened env c f c { f with pc := .next idx }
  /-- The snapshot of a class. -/
  | snapshot {idx : ℕ} (pc : f.pc = .next (idx + 1))
      (room : f.unbounded = false → SizeClass.size idx ≤ f.maxBytes) :
      DrainStep hardened env c f c
        { f with
          pc := .detach idx (if f.unbounded then (c.buckets idx).transferCache.size
            else min (c.buckets idx).transferCache.size (f.maxBytes / SizeClass.size idx)) }
  /-- The snapshot is used up, or the ring is empty. -/
  | exhausted {idx remaining : ℕ} (pc : f.pc = .detach idx remaining)
      (none : remaining = 0 ∨ (c.buckets idx).transferCache.size = 0) :
      DrainStep hardened env c f c { f with pc := .next idx }
  /-- A batch leaves the cold end. -/
  | detach {idx remaining detached : ℕ} (pc : f.pc = .detach idx remaining)
      (count : detached =
        min (min SizeClass.kMaxBatchSize remaining) (c.buckets idx).transferCache.size)
      (pos : 0 < detached) :
      DrainStep hardened env c f
        (c.setRing idx ((c.buckets idx).transferCache.detach detached).2)
        { f with
          pc := .release idx remaining detached
            (.chunk ((c.buckets idx).transferCache.detach detached).1.reverse) }
  /-- A step of the `ReleaseBatch` of the batch. -/
  | releasing {idx remaining detached : ℕ} {pc pc' : ReleasePc} {c' : CentralCache}
      (pc_eq : f.pc = .release idx remaining detached pc)
      (run : c.releaseStep hardened env idx .kSpanBitmap pc = .ok (c', pc'))
      (more : pc' ≠ .chunk []) :
      DrainStep hardened env c f c' { f with pc := .release idx remaining detached pc' }
  /-- Its last step: the bytes are accounted for. -/
  | released {idx remaining detached : ℕ} {pc : ReleasePc} {c' : CentralCache}
      (pc_eq : f.pc = .release idx remaining detached pc)
      (run : c.releaseStep hardened env idx .kSpanBitmap pc = .ok (c', .chunk [])) :
      DrainStep hardened env c f c'
        { f with
          drainedBytes := addU64 f.drainedBytes (detached * SizeClass.size idx % 2 ^ 64)
          maxBytes := if f.unbounded then f.maxBytes
            else subU64 f.maxBytes (detached * SizeClass.size idx % 2 ^ 64)
          pc := .detach idx (remaining - detached) }

/-- **The steps of `DrainTransferCaches`**, one by one. -/
theorem drainStep_cases {f f' : DrainFrame} (h : c.drainStep hardened env f = .ok (c', f')) :
    DrainStep hardened env c f c' f' := by
  cases hf : f.pc with
  | next i =>
    cases i with
    | zero =>
      simp only [drainStep, hf] at h
      obtain ⟨rfl, rfl⟩ := Prod.mk.inj (Except.ok.inj h)
      exact .returned hf
    | succ idx =>
      simp only [drainStep, hf] at h
      by_cases hskip : f.unbounded = false ∧ f.maxBytes < SizeClass.size idx
      · rw [if_pos hskip] at h
        obtain ⟨rfl, rfl⟩ := Prod.mk.inj (Except.ok.inj h)
        exact .skip hf hskip.1 hskip.2
      · rw [if_neg hskip] at h
        obtain ⟨rfl, rfl⟩ := Prod.mk.inj (Except.ok.inj h)
        exact .snapshot hf fun hb => not_lt.mp fun hlt => hskip ⟨hb, hlt⟩
  | detach idx remaining =>
    simp only [drainStep, hf] at h
    have hmax : 0 < SizeClass.kMaxBatchSize := by decide
    split at h
    · obtain ⟨rfl, rfl⟩ := Prod.mk.inj (Except.ok.inj h)
      exact .exhausted hf (by omega)
    · obtain ⟨rfl, rfl⟩ := Prod.mk.inj (Except.ok.inj h)
      exact .detach hf rfl (Nat.pos_of_ne_zero ‹_›)
  | release idx remaining detached pc =>
    simp only [drainStep, hf] at h
    obtain ⟨⟨c₁, pc₁⟩, hrun, h⟩ := exists_ok_of_bind h
    by_cases hend : pc₁ = .chunk []
    · subst hend
      obtain ⟨rfl, rfl⟩ := Prod.mk.inj (Except.ok.inj h)
      exact .released hf hrun
    · simp only [if_neg hend] at h
      obtain ⟨rfl, rfl⟩ := Prod.mk.inj (Except.ok.inj h)
      exact .releasing hf hrun hend

/-- A bound on the steps of a drain for the classes below `i`. -/
def drainBelow (c : CentralCache) (i : ℕ) : ℕ :=
  ∑ j ∈ Finset.range i, (5 * (c.buckets j).transferCache.size + 2)

/-- A bound on the remaining steps of a drain. -/
def drainSteps (c : CentralCache) (f : DrainFrame) : ℕ :=
  match f.pc with
  | .next i => c.drainBelow i
  | .detach idx _ => 5 * (c.buckets idx).transferCache.size + 1 + c.drainBelow idx
  | .release idx _ _ pc =>
    pc.steps + 5 * (c.buckets idx).transferCache.size + 1 + c.drainBelow idx

/-- The TransferCaches from class `i` on are empty. -/
def EmptyFrom (c : CentralCache) (i : ℕ) : Prop :=
  ∀ j, i ≤ j → j < kNumSizeClasses → (c.buckets j).transferCache.size = 0

/-- What an undisturbed unbounded drain has behind it: the classes above the current one are
empty, and the current one holds no more than the snapshot says. -/
def Drained (c : CentralCache) (f : DrainFrame) : Prop :=
  match f.pc with
  | .next i => c.EmptyFrom i
  | .detach idx remaining =>
    c.EmptyFrom (idx + 1) ∧ (c.buckets idx).transferCache.size ≤ remaining
  | .release idx remaining detached pc =>
    c.EmptyFrom (idx + 1) ∧ (c.buckets idx).transferCache.size ≤ remaining - detached ∧
      pc ≠ .chunk []

/-- The bound depends on the sizes of the rings only. -/
lemma drainBelow_congr {i : ℕ}
    (h : ∀ j < i, (c'.buckets j).transferCache.size = (c.buckets j).transferCache.size) :
    c'.drainBelow i = c.drainBelow i :=
  Finset.sum_congr rfl fun j hj => by rw [h j (Finset.mem_range.mp hj)]

/-- The bound of a drain with one class more. -/
lemma drainBelow_succ (c : CentralCache) (i : ℕ) :
    c.drainBelow (i + 1) = c.drainBelow i + (5 * (c.buckets i).transferCache.size + 2) :=
  Finset.sum_range_succ _ i

/-- Empty rings that nobody touches stay empty. -/
lemma EmptyFrom.congr {i : ℕ} (h : c.EmptyFrom i)
    (hsame : ∀ j, i ≤ j → (c'.buckets j).transferCache = (c.buckets j).transferCache) :
    c'.EmptyFrom i := fun j hij hj => by rw [hsame j hij, h j hij hj]

/-- **A step of an unbounded drain** keeps what is behind it empty, and brings its end nearer. -/
theorem drainStep_progress {f f' : DrainFrame} (hunbounded : f.unbounded = true)
    (hpc : f.pc ≠ .next 0) (hdrained : c.Drained f)
    (h : c.drainStep hardened env f = .ok (c', f')) :
    f'.unbounded = true ∧ c'.Drained f' ∧ c'.drainSteps f' < c.drainSteps f := by
  cases drainStep_cases h with
  | returned hf => exact absurd hf hpc
  | skip hf hbounded => exact absurd (hunbounded.symm.trans hbounded) (by simp)
  | snapshot hf =>
    simp only [Drained, hf] at hdrained
    rw [hunbounded]
    refine ⟨rfl, ⟨hdrained, le_rfl⟩, ?_⟩
    simp only [drainSteps, hf, drainBelow_succ]
    omega
  | @exhausted idx remaining hf hnone =>
    simp only [Drained, hf] at hdrained
    obtain ⟨hempty, hle⟩ := hdrained
    refine ⟨hunbounded, ?_, ?_⟩
    · -- the snapshot is used up, or the class is empty: in both cases it is empty
      intro j hij hj
      rcases Nat.eq_or_lt_of_le hij with rfl | hlt
      · omega
      · exact hempty j hlt hj
    · simp only [drainSteps, hf]
      omega
  | @detach idx remaining d hf hd hpos =>
    simp only [Drained, hf] at hdrained
    obtain ⟨hempty, hle⟩ := hdrained
    set r := (c.buckets idx).transferCache with hr
    have hring : ((c.setRing idx (r.detach d).2).buckets idx).transferCache.size = r.size - d := by
      simp [setRing]
    have hother : ∀ j, j ≠ idx → ((c.setRing idx (r.detach d).2).buckets j).transferCache =
        (c.buckets j).transferCache := by
      intro j hj
      simp [setRing, hj]
    have hlen : (r.detach d).1.length = d := by simp
    refine ⟨hunbounded, ⟨hempty.congr fun j hj => hother j (by omega), ?_, ?_⟩, ?_⟩
    · rw [hring]
      omega
    · intro hnil
      have := congrArg List.length (ReleasePc.chunk.inj hnil)
      simp only [List.length_reverse, hlen, List.length_nil] at this
      omega
    · have hbelow : (c.setRing idx (r.detach d).2).drainBelow idx = c.drainBelow idx :=
        drainBelow_congr fun j hj => by rw [hother j hj.ne]
      simp only [drainSteps, hf, hring, hbelow, ReleasePc.steps, List.length_reverse, hlen, ← hr]
      omega
  | @releasing idx remaining detached pc pc' c' hf hrun hmore =>
    simp only [Drained, hf] at hdrained
    obtain ⟨hempty, hle, hne⟩ := hdrained
    obtain ⟨hrings, hsteps⟩ := releaseStep_progress hne hrun
    have hbelow : c'.drainBelow idx = c.drainBelow idx :=
      drainBelow_congr fun j _ => by rw [hrings j]
    refine ⟨hunbounded, ⟨hempty.congr fun j _ => hrings j, ?_, hmore⟩, ?_⟩
    · rw [hrings idx]
      exact hle
    · simp only [drainSteps, hf, hrings idx, hbelow]
      omega
  | @released idx remaining detached pc c' hf hrun =>
    simp only [Drained, hf] at hdrained
    obtain ⟨hempty, hle, hne⟩ := hdrained
    obtain ⟨hrings, hsteps⟩ := releaseStep_progress hne hrun
    have hbelow : c'.drainBelow idx = c.drainBelow idx :=
      drainBelow_congr fun j _ => by rw [hrings j]
    refine ⟨hunbounded, ⟨hempty.congr fun j _ => hrings j, ?_⟩, ?_⟩
    · rw [hrings idx]
      exact hle
    · simp only [drainSteps, hf, hrings idx, hbelow]
      omega

end CentralCache

end Ammalloc
