import Ammalloc.Allocator

set_option relaxedAutoImplicit false
set_option autoImplicit false

/-!
# What the actions of a thread leave alone

Every call of the API and every step of a call belongs to one thread. Whatever it does to the caches
that all threads share, the other threads stay where they are, with their own ThreadCaches, and the
pass of the scavenger stays where it is.

## Main definitions

* `Ammalloc.Allocator.AllocAction.thread` — the thread that acts.
* `Ammalloc.Allocator.OnlyMoves` — nobody but one thread has moved.

## Main results

* `Ammalloc.Allocator.onlyMoves_threadStep` — a step of a call.
* `Ammalloc.Allocator.onlyMoves_next` — every action of a thread.
-/

namespace Ammalloc

namespace Allocator

/-- The thread that acts, if the action is one of a thread. -/
def AllocAction.thread : AllocAction → Option ℕ
  | .malloc t _ _ | .free t _ _ | .trim t | .purge t => some t
  | .requestPurge t | .exit t | .step t _ => some t
  | .publishTrim _ | .scavenge _ _ => none

/-- Nobody but thread `t` has moved. -/
structure OnlyMoves (t : ℕ) (st st' : Allocator) : Prop where
  threads : ∀ u, u ≠ t → st'.threads u = st.threads u
  scav : st'.scav = st.scav

variable {n t : ℕ} {st st' : Allocator} {hardened : Bool}

namespace OnlyMoves

/-- Nobody moves. -/
lemma refl (t : ℕ) (st : Allocator) : OnlyMoves t st st := ⟨fun _ _ => rfl, rfl⟩

/-- The thread moves twice. -/
lemma trans {st'' : Allocator} (h : OnlyMoves t st st') (h' : OnlyMoves t st' st'') :
    OnlyMoves t st st'' :=
  ⟨fun u hu => (h'.threads u hu).trans (h.threads u hu), h'.scav.trans h.scav⟩

/-- What happens to the shared caches does not matter. -/
lemma of_eq (hthreads : st'.threads = st.threads) (hscav : st'.scav = st.scav) :
    OnlyMoves t st st' :=
  ⟨fun u _ => congrFun hthreads u, hscav⟩

/-- The thread is replaced. -/
lemma setThread (st : Allocator) (t : ℕ) (th : Thread) : OnlyMoves t st (st.setThread t th) :=
  ⟨fun _ hu => Function.update_of_ne hu _ _, rfl⟩

/-- The thread goes on elsewhere. -/
lemma setPc (st : Allocator) (t : ℕ) (pc : ThreadPc) : OnlyMoves t st (st.setPc t pc) :=
  setThread st t _

/-- A section of the CentralCache, and where the thread stands after it. -/
lemma setCentral (st : Allocator) (t : ℕ) (central : CentralCache) (pc : ThreadPc) :
    OnlyMoves t st ({ st with central := central }.setPc t pc) :=
  ⟨fun _ hu => Function.update_of_ne hu _ _, rfl⟩

/-- A local step of the ThreadCache of the thread. -/
lemma commit (st : Allocator) (t : ℕ) (caller : TcCaller) (out : TcOut) :
    OnlyMoves t st (st.commit t caller out) :=
  ⟨fun _ hu => Function.update_of_ne hu _ _, rfl⟩

end OnlyMoves

/-! ## The beginnings of the calls -/

/-- `am_malloc` begins. -/
lemma onlyMoves_amMalloc (st : Allocator) (t m : ℕ) (mapped : Bool) :
    OnlyMoves t st (st.amMalloc t m mapped) := by
  have hslow : OnlyMoves t st (st.amMallocSlowPath t m mapped) := by
    unfold amMallocSlowPath
    split_ifs
    · exact .refl t st
    · exact .setPc st t _
    · cases st.createThreadCache t mapped with
      | none => exact .refl t st
      | some r => exact .commit st t _ _
  unfold amMalloc
  cases (st.threads t).ptls with
  | none => exact hslow
  | some tc =>
    simp only
    split_ifs
    · exact hslow
    · exact .commit st t _ _

/-- `Deallocate` begins. -/
lemma onlyMoves_deallocate {tc : ThreadCache} {stat ptr idx : ℕ}
    (h : st.deallocate hardened t tc stat ptr idx = .ok st') : OnlyMoves t st st' := by
  obtain ⟨-, -, hst⟩ := exists_ok_of_bind h
  obtain rfl := Except.ok.inj hst
  exact .commit st t _ _

/-- `am_free_slow_path` begins. -/
lemma onlyMoves_amFreeSlowPath {ptr span alignedSize idx : ℕ} {s : Span} {mapped : Bool}
    (h : st.amFreeSlowPath hardened t ptr span s alignedSize idx mapped = .ok st') :
    OnlyMoves t st st' := by
  unfold amFreeSlowPath at h
  split_ifs at h
  · obtain ⟨-, -, hst⟩ := exists_ok_of_bind h
    obtain rfl := Except.ok.inj hst
    exact .setPc st t _
  · cases hcreate : st.createThreadCache t mapped with
    | none =>
      rw [hcreate] at h
      obtain rfl := Except.ok.inj h
      exact .setPc st t _
    | some r =>
      rw [hcreate] at h
      exact onlyMoves_deallocate h

/-- `am_free` begins. -/
lemma onlyMoves_amFree {ptr : ℕ} {mapped : Bool}
    (h : st.amFree hardened t ptr mapped = .ok st') : OnlyMoves t st st' := by
  unfold amFree at h
  split_ifs at h
  · obtain rfl := Except.ok.inj h
    exact .refl t st
  · split at h
    · obtain rfl := Except.ok.inj h
      exact .refl t st
    · -- the checks of the hardened build come first
      obtain ⟨s, -, h⟩ := exists_ok_of_bind h
      obtain ⟨-, -, h⟩ := exists_ok_of_bind h
      obtain ⟨-, -, h⟩ := exists_ok_of_bind h
      obtain ⟨-, -, h⟩ := exists_ok_of_bind h
      split at h
      · exact onlyMoves_amFreeSlowPath h
      · split_ifs at h
        · exact onlyMoves_amFreeSlowPath h
        · obtain ⟨-, -, h⟩ := exists_ok_of_bind h
          exact onlyMoves_deallocate h

/-- The destructor of `tc_cleaner` begins. -/
lemma onlyMoves_threadCacheCleaner (st : Allocator) (t : ℕ) :
    OnlyMoves t st (st.threadCacheCleaner t) := by
  have hflag := OnlyMoves.setThread st t { st.threads t with threadCacheAlreadyDestructed := true }
  unfold threadCacheCleaner
  dsimp only
  split
  · exact hflag
  · exact hflag.trans (.commit _ t _ _)

/-! ## The steps of the calls -/

/-- **A step of a call** moves its own thread only. -/
lemma onlyMoves_threadStep {env : PageEnv} (h : st.threadStep hardened t env = .ok st') :
    OnlyMoves t st st' := by
  cases hpc : (st.threads t).pc with
  | idle =>
    simp only [threadStep, hpc] at h
    obtain rfl := Except.ok.inj h
    exact .refl t st
  | allocSpan m =>
    simp only [threadStep, hpc] at h
    obtain ⟨⟨span, pc⟩, -, h⟩ := exists_ok_of_bind h
    cases span with
    | none =>
      obtain rfl := Except.ok.inj h
      exact .setCentral st t _ _
    | some i =>
      obtain ⟨s, -, h⟩ := exists_ok_of_bind h
      obtain rfl := Except.ok.inj h
      exact (OnlyMoves.setCentral st t _ _).trans (.of_eq rfl rfl)
  | releaseSpan i =>
    simp only [threadStep, hpc] at h
    obtain ⟨pc, -, h⟩ := exists_ok_of_bind h
    obtain rfl := Except.ok.inj h
    exact .setCentral st t _ _
  | central f =>
    simp only [threadStep, hpc] at h
    split_ifs at h
    · obtain rfl := Except.ok.inj h
      exact .setPc st t _
    · obtain ⟨⟨c', f'⟩, -, h⟩ := exists_ok_of_bind h
      obtain rfl := Except.ok.inj h
      exact .setCentral st t _ _
  | cache caller pc call =>
    simp only [threadStep, hpc] at h
    split at h
    · obtain rfl := Except.ok.inj h
      exact .refl t st
    · obtain rfl := Except.ok.inj h
      exact .commit st t _ _
    · split_ifs at h
      · obtain rfl := Except.ok.inj h
        exact .commit st t _ _
      · obtain ⟨⟨c', f'⟩, -, h⟩ := exists_ok_of_bind h
        obtain rfl := Except.ok.inj h
        exact .setCentral st t _ _
  | trim =>
    simp only [threadStep, hpc] at h
    split at h
    · obtain rfl := Except.ok.inj h
      exact .refl t st
    · obtain rfl := Except.ok.inj h
      exact .commit st t _ _
  | destroy =>
    simp only [threadStep, hpc] at h
    split at h
    · obtain rfl := Except.ok.inj h
      exact .refl t st
    · obtain rfl := Except.ok.inj h
      exact (OnlyMoves.setThread st t _).trans (.of_eq rfl rfl)

/-- A part of a call that may abort. -/
lemma onlyMoves_settle {r : Except Fault Allocator} (h : ∀ st', r = .ok st' → OnlyMoves t st st') :
    OnlyMoves t st (st.settle r) := by
  cases r with
  | error e => exact .of_eq rfl rfl
  | ok st' => exact h st' rfl

/-- **Every action of a thread** moves this thread only. -/
theorem onlyMoves_next {a : AllocAction} (ha : a.thread = some t) :
    OnlyMoves t st (next n hardened st a) := by
  cases a with
  | malloc u m mapped =>
    obtain rfl := Option.some.inj ha
    simp only [next]
    split_ifs
    · exact onlyMoves_amMalloc st u m mapped
    · exact .refl u st
  | free u ptr mapped =>
    obtain rfl := Option.some.inj ha
    simp only [next]
    split_ifs
    · -- the block leaves the books first
      refine onlyMoves_settle fun st' h => OnlyMoves.trans (.of_eq ?_ ?_) (onlyMoves_amFree h)
      all_goals rfl
    · exact .refl u st
  | trim u =>
    obtain rfl := Option.some.inj ha
    simp only [next, amThreadCacheTrim]
    split_ifs
    · cases (st.threads u).ptls with
      | none => exact .refl u st
      | some tc => exact .setPc st u _
    · exact .refl u st
  | purge u =>
    obtain rfl := Option.some.inj ha
    simp only [next, amThreadCachePurge]
    split_ifs
    · cases (st.threads u).ptls with
      | none => exact .setPc st u _
      | some tc => exact .commit st u _ _
    · exact .refl u st
  | requestPurge u =>
    obtain rfl := Option.some.inj ha
    simp only [next, amRequestThreadCachePurge]
    split_ifs
    · exact .setPc st u _
    · exact .refl u st
  | exit u =>
    obtain rfl := Option.some.inj ha
    simp only [next]
    split_ifs
    · exact onlyMoves_threadCacheCleaner st u
    · exact .refl u st
  | step u env =>
    obtain rfl := Option.some.inj ha
    simp only [next]
    split_ifs
    · exact onlyMoves_settle fun st' h => onlyMoves_threadStep h
    · exact .refl u st
  | publishTrim word => exact absurd ha (by simp [AllocAction.thread])
  | scavenge env ok => exact absurd ha (by simp [AllocAction.thread])

end Allocator

end Ammalloc
