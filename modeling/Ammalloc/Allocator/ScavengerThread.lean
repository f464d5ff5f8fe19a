import Ammalloc.Allocator.Frame
import Ammalloc.Allocator.Runs

set_option relaxedAutoImplicit false
set_option autoImplicit false

/-!
# The scavenger thread

The allocator of `Ammalloc.Allocator` has a scavenger that may take a step of a pass at any moment.
In the program it is a thread with a life of its own: an allocating thread starts it on its first
slow path, the thread waits between two passes, and `Stop` asks it to end and joins it. This module
puts that life around the allocator. Whatever the threads and the controllers do, the allocator
inside is one of the allocators studied before; the allocating threads together start the scavenger
once, also if the system could not create it; and between its passes, and so after every `Stop`, the
scavenger holds no span.

`Start` and `Stop` are serialized by their callers, as the header demands: none begins while another
is in progress.

## Main definitions

* `Ammalloc.ScavengerThread.next` — `EnsureScavengerStarted`, `Start`, `Stop` and `ScavengeLoop`
  around the actions of the allocator.

## Main results

* `Ammalloc.Allocator.scav_next` — no action of the threads touches the pass of the scavenger.
* `Ammalloc.ScavengerThread.lifecycle` — the life of the scavenger in every interleaving.
-/

namespace Ammalloc

open PageCache (ScavPc)

namespace Allocator

variable {n : ℕ} {st : Allocator} {hardened : Bool}

/-! ## The threads leave the pass alone -/

/-- A step of the scavenger. -/
def AllocAction.isScavenge : AllocAction → Bool
  | .scavenge _ _ => true
  | _ => false

/-- **No action of the threads** touches the pass of the scavenger. -/
lemma scav_next {a : AllocAction} (ha : a.isScavenge = false) :
    (next n hardened st a).scav = st.scav := by
  cases hthread : a.thread with
  | some t => exact (onlyMoves_next hthread).scav
  | none =>
    cases a with
    | publishTrim word => simp only [next]
    | scavenge env ok => exact absurd ha (by simp [AllocAction.isScavenge])
    | _ => exact absurd hthread (by simp [AllocAction.thread])

end Allocator

/-! ## The code -/

/-- Where an allocating thread stands in `EnsureScavengerStarted`. -/
inductive EnsurePc where
  | idle
  /-- Before the load of `started`. -/
  | load
  /-- Before its `compare_exchange_strong`. -/
  | exchange
  /-- Before `Start`. -/
  | start
  deriving DecidableEq, Repr

/-- Where the background thread stands in `ScavengeLoop`. -/
inductive LoopPc where
  /-- Before the condition of the loop. -/
  | check
  /-- In `wait_for`. -/
  | wait
  /-- In `ScavengeOnePass`. -/
  | pass
  | returned
  deriving DecidableEq, Repr

/-- The background thread with its stop source. -/
structure Jthread where
  pc : LoopPc := .check
  stopRequested : Bool := false
  deriving DecidableEq, Repr

/-- The allocator and the thread of its scavenger. -/
structure ScavengerThread where
  alloc : Allocator
  /-- The flag of `EnsureScavengerStarted`. -/
  started : Bool := false
  ensure : ℕ → EnsurePc := fun _ => .idle
  /-- `scavenge_thread_`, if it is joinable. -/
  scavengeThread : Option Jthread := none
  /-- A `Stop` is in its `join`. -/
  joining : Bool := false
  /-- The number of `Start` calls that allocating threads have made. -/
  starts : ℕ := 0

namespace ScavengerThread

/-- What the threads, the controllers and the background thread do. -/
inductive Action where
  /-- An action of the allocator, other than a step of the scavenger. -/
  | alloc (a : Allocator.AllocAction)
  /-- Thread `t` calls `EnsureScavengerStarted`. -/
  | ensure (t : ℕ)
  /-- Its next step; `created` says whether the system can create a thread. -/
  | ensureStep (t : ℕ) (created : Bool)
  /-- A controller calls `Start`. -/
  | start (created : Bool)
  /-- A controller calls `Stop`, up to its `join`. -/
  | stop
  /-- The `join` of `Stop` returns. -/
  | join
  /-- The next step of the background thread; `ok` is the outcome of a `madvise`. -/
  | loop (env : PageEnv) (ok : Bool)

/-- Move a thread in `EnsureScavengerStarted`. -/
def setEnsure (st : ScavengerThread) (t : ℕ) (pc : EnsurePc) : ScavengerThread :=
  { st with ensure := Function.update st.ensure t pc }

/-- `PageHeapScavenger::Start`. The exception of a thread that cannot be created has no effect: its
one caller in the library swallows it. -/
def start (st : ScavengerThread) (created : Bool) : ScavengerThread :=
  match st.scavengeThread with
  | some _ => st
  | none => if created then { st with scavengeThread := some {} } else st

/-- `PageHeapScavenger::Stop`, up to its `join`. -/
def stop (st : ScavengerThread) : ScavengerThread :=
  match st.scavengeThread with
  | none => st
  | some th => { st with scavengeThread := some { th with stopRequested := true }, joining := true }

/-- The `join` of `PageHeapScavenger::Stop`. -/
def join (st : ScavengerThread) : ScavengerThread :=
  match st.scavengeThread with
  | none => st
  | some th =>
    if st.joining ∧ th.pc = .returned then { st with scavengeThread := none, joining := false }
    else st

/-- The next step of `EnsureScavengerStarted` in thread `t`. -/
def ensureStep (st : ScavengerThread) (t : ℕ) (created : Bool) : ScavengerThread :=
  match st.ensure t with
  | .idle => st
  | .load => if st.started then st.setEnsure t .idle else st.setEnsure t .exchange
  | .exchange =>
    if st.started then st.setEnsure t .idle
    else { st.setEnsure t .start with started := true }
  | .start =>
    -- the caller of `Stop` keeps this from happening during a `join`
    if st.joining then st
    else { (st.start created).setEnsure t .idle with starts := st.starts + 1 }

/-- The next step of `PageHeapScavenger::ScavengeLoop`. A pass is over when the allocator's
scavenger is idle again. -/
def loop (n : ℕ) (hardened : Bool) (st : ScavengerThread) (env : PageEnv) (ok : Bool) :
    ScavengerThread :=
  match st.scavengeThread with
  | none => st
  | some th =>
    match th.pc with
    | .check =>
      let pc := if th.stopRequested then .returned else .wait
      { st with scavengeThread := some { th with pc := pc } }
    | .wait =>
      -- it wakes up after the interval or for a stop
      let pc := if th.stopRequested then .returned else .pass
      { st with scavengeThread := some { th with pc := pc } }
    | .pass =>
      let alloc := Allocator.next n hardened st.alloc (.scavenge env ok)
      { st with
        alloc := alloc
        scavengeThread := some { th with pc := if alloc.scav = .idle then .check else .pass } }
    | .returned => st

/-- One action; `enabled` is the setting `AM_ENABLE_SCAVENGER`. -/
def next (n : ℕ) (hardened enabled : Bool) (st : ScavengerThread) : Action → ScavengerThread
  | .alloc a =>
    if a.isScavenge then st else { st with alloc := Allocator.next n hardened st.alloc a }
  | .ensure t => if enabled ∧ st.ensure t = .idle then st.setEnsure t .load else st
  | .ensureStep t created => st.ensureStep t created
  | .start created => if st.joining then st else st.start created
  | .stop => if st.joining then st else st.stop
  | .join => st.join
  | .loop env ok => st.loop n hardened env ok

/-- A process before its first allocation. -/
def create (backed : Bool) : ScavengerThread := { alloc := Allocator.create backed }

/-- The process. -/
def machine (n : ℕ) (hardened enabled : Bool) : Machine ScavengerThread Action where
  init := {create true, create false}
  next := next n hardened enabled

/-! ## Its life -/

/-- The background thread is not in a pass, or there is none. -/
def OutsidePass (st : ScavengerThread) : Prop :=
  ∀ th, st.scavengeThread = some th → th.pc ≠ .pass

/-- What holds of the flag and the calls of `EnsureScavengerStarted`: one thread at most is on its
way to `Start` or has been there, and it is the one that has set the flag. -/
structure StartedOnce (enabled : Bool) (st : ScavengerThread) : Prop where
  unique : ∀ t u, st.ensure t = .start → st.ensure u = .start → t = u
  pending : ∀ t, st.ensure t = .start → st.started = true ∧ st.starts = 0
  flag : 0 < st.starts → st.started = true
  once : st.starts ≤ 1
  disabled : enabled = false → st.starts = 0 ∧ ∀ t, st.ensure t = .idle

/-- What holds between all actions. -/
structure Inv (n : ℕ) (hardened enabled backed : Bool) (st : ScavengerThread) : Prop where
  reachable : ∃ as, st.alloc = (Allocator.machine n hardened).run (Allocator.create backed) as
  idle : st.OutsidePass → st.alloc.scav = .idle
  stopping : st.joining = true → ∀ th, st.scavengeThread = some th → th.stopRequested = true
  startedOnce : StartedOnce enabled st

variable {n t : ℕ} {hardened enabled backed : Bool} {st st' : ScavengerThread}

/-- `StartedOnce` is a matter of the flag, the places of the threads and the count. -/
lemma StartedOnce.congr (h : StartedOnce enabled st) (hstarted : st'.started = st.started)
    (hensure : st'.ensure = st.ensure) (hstarts : st'.starts = st.starts) :
    StartedOnce enabled st' := by
  refine ⟨?_, ?_, ?_, ?_, ?_⟩
  · rw [hensure]
    exact h.unique
  · rw [hensure, hstarted, hstarts]
    exact h.pending
  · rw [hstarts, hstarted]
    exact h.flag
  · rw [hstarts]
    exact h.once
  · rw [hstarts, hensure]
    exact h.disabled

/-- A thread goes on without setting the flag. -/
lemma StartedOnce.setEnsure (h : StartedOnce enabled st) {pc : EnsurePc} (hpc : pc ≠ .start)
    (henabled : enabled = false → pc = .idle) : StartedOnce enabled (st.setEnsure t pc) := by
  have hkeep : ∀ u, (st.setEnsure t pc).ensure u = .start → st.ensure u = .start := by
    intro u hu
    by_cases hut : u = t
    · subst hut
      simp only [ScavengerThread.setEnsure, Function.update_self] at hu
      exact absurd hu hpc
    · simpa only [ScavengerThread.setEnsure, Function.update_of_ne hut] using hu
  refine ⟨fun u v hu hv => h.unique u v (hkeep u hu) (hkeep v hv),
    fun u hu => h.pending u (hkeep u hu), h.flag, h.once,
    fun hd => ⟨(h.disabled hd).1, fun u => ?_⟩⟩
  by_cases hut : u = t
  · subst hut
    simp only [ScavengerThread.setEnsure, Function.update_self]
    exact henabled hd
  · simp only [ScavengerThread.setEnsure, Function.update_of_ne hut]
    exact (h.disabled hd).2 u

/-- **A step of `EnsureScavengerStarted`.** The thread that sets the flag is the only one that goes
on to `Start`. -/
lemma StartedOnce.ensureStep (h : StartedOnce enabled st) (t : ℕ) (created : Bool) :
    StartedOnce enabled (st.ensureStep t created) := by
  have henabled : st.ensure t ≠ .idle → enabled = true := by
    intro hne
    by_contra hd
    exact hne ((h.disabled (by simpa using hd)).2 t)
  unfold ScavengerThread.ensureStep
  cases hpc : st.ensure t with
  | idle => exact h
  | load =>
    have hon := henabled (by simp [hpc])
    simp only
    split_ifs
    · exact h.setEnsure (by simp) (fun _ => rfl)
    · exact h.setEnsure (by simp) (by simp [hon])
  | exchange =>
    have hon := henabled (by simp [hpc])
    simp only
    split_ifs with hstarted
    · exact h.setEnsure (by simp) (fun _ => rfl)
    · -- nobody has set the flag before
      have hnone : ∀ u, st.ensure u ≠ .start := fun u hu => hstarted (h.pending u hu).1
      have hzero : st.starts = 0 := by
        by_contra hpos
        exact hstarted (h.flag (Nat.pos_of_ne_zero hpos))
      have honly : ∀ u, (st.setEnsure t .start).ensure u = .start → u = t := by
        intro u hu
        by_contra hut
        simp only [ScavengerThread.setEnsure, Function.update_of_ne hut] at hu
        exact hnone u hu
      refine ⟨fun u v hu hv => (honly u hu).trans (honly v hv).symm, fun u _ => ⟨rfl, hzero⟩,
        fun _ => rfl, ?_, by simp [hon]⟩
      simp only [ScavengerThread.setEnsure, hzero]
      omega
  | start =>
    have hon := henabled (by simp [hpc])
    obtain ⟨hstarted, hzero⟩ := h.pending t hpc
    simp only
    split_ifs
    · exact h
    · have hsame : (st.start created).ensure = st.ensure ∧
          (st.start created).started = st.started := by
        unfold start
        split
        · exact ⟨rfl, rfl⟩
        · split <;> exact ⟨rfl, rfl⟩
      have hnone : ∀ u, ((st.start created).setEnsure t .idle).ensure u ≠ .start := by
        intro u hu
        by_cases hut : u = t
        · subst hut
          simp [ScavengerThread.setEnsure] at hu
        · simp only [ScavengerThread.setEnsure, Function.update_of_ne hut, hsame.1] at hu
          exact hut (h.unique u t hu hpc)
      refine ⟨fun u v hu _ => absurd hu (hnone u), fun u hu => absurd hu (hnone u), fun _ => ?_, ?_,
        by simp [hon]⟩
      · simp only [ScavengerThread.setEnsure, hsame.2, hstarted]
      · simp only [hzero]
        omega

/-- The allocator goes on. -/
lemma Inv.reachable_next (h : Inv n hardened enabled backed st) (a : Allocator.AllocAction) :
    ∃ as, Allocator.next n hardened st.alloc a =
      (Allocator.machine n hardened).run (Allocator.create backed) as := by
  obtain ⟨as, has⟩ := h.reachable
  refine ⟨as ++ [a], ?_⟩
  rw [Machine.run_append, ← has]
  rfl

/-- An action that leaves the allocator alone. -/
lemma Inv.congr (h : Inv n hardened enabled backed st) (halloc : st'.alloc = st.alloc)
    (hpass : st'.OutsidePass → st.OutsidePass)
    (hstop : st'.joining = true → ∀ th, st'.scavengeThread = some th → th.stopRequested = true)
    (honce : StartedOnce enabled st') : Inv n hardened enabled backed st' := by
  refine ⟨?_, fun hp => ?_, hstop, honce⟩
  · rw [halloc]
    exact h.reachable
  · rw [halloc]
    exact h.idle (hpass hp)

/-- `Start` keeps a thread that there is. -/
lemma start_cases (st : ScavengerThread) (created : Bool) :
    st.start created = st ∨
      st.scavengeThread = none ∧ st.start created = { st with scavengeThread := some {} } := by
  unfold start
  cases hth : st.scavengeThread with
  | some th => exact .inl rfl
  | none =>
    cases created with
    | false => exact .inl rfl
    | true => exact .inr ⟨rfl, rfl⟩

/-- `Start` keeps the invariant as long as nobody is in the middle of a `join`. -/
lemma Inv.start (h : Inv n hardened enabled backed st) (hj : st.joining = false) (created : Bool) :
    Inv n hardened enabled backed (st.start created) := by
  rcases start_cases st created with hst | ⟨hnone, hst⟩
  · rw [hst]
    exact h
  · rw [hst]
    refine h.congr rfl (fun _ th hth => ?_) (fun hj' => ?_) (h.startedOnce.congr rfl rfl rfl)
    · rw [hnone] at hth
      exact absurd hth (by simp)
    · exact absurd (hj'.symm.trans hj) (by simp)

/-- A step of `EnsureScavengerStarted` keeps the invariant. -/
lemma Inv.ensureStep (h : Inv n hardened enabled backed st) (t : ℕ) (created : Bool) :
    Inv n hardened enabled backed (st.ensureStep t created) := by
  have honce := h.startedOnce.ensureStep t created
  unfold ScavengerThread.ensureStep at honce ⊢
  cases hpc : st.ensure t with
  | idle => exact h
  | load =>
    simp only [hpc] at honce ⊢
    split_ifs at honce ⊢ <;> exact h.congr rfl id h.stopping honce
  | exchange =>
    simp only [hpc] at honce ⊢
    split_ifs at honce ⊢ <;> exact h.congr rfl id h.stopping honce
  | start =>
    simp only [hpc] at honce ⊢
    split_ifs at honce ⊢ with hj
    · exact h
    · have hstart := h.start (by simpa using hj) created
      exact hstart.congr rfl id hstart.stopping honce

/-- The first part of `Stop`, which asks the thread to end, keeps the invariant. -/
lemma Inv.stop (h : Inv n hardened enabled backed st) : Inv n hardened enabled backed st.stop := by
  unfold ScavengerThread.stop
  cases hth : st.scavengeThread with
  | none => exact h
  | some th =>
    refine h.congr rfl (fun hp th' hth' => ?_) (fun _ th' hth' => ?_)
      (h.startedOnce.congr rfl rfl rfl)
    · obtain rfl := Option.some.inj (hth.symm.trans hth')
      exact hp { th with stopRequested := true } rfl
    · obtain rfl := Option.some.inj hth'
      rfl

/-- The return of `join` in `Stop` keeps the invariant. -/
lemma Inv.join (h : Inv n hardened enabled backed st) : Inv n hardened enabled backed st.join := by
  unfold ScavengerThread.join
  cases hth : st.scavengeThread with
  | none => exact h
  | some th =>
    simp only
    split_ifs with hret
    · refine h.congr rfl (fun _ th' hth' => ?_) (fun hj => absurd hj (by simp))
        (h.startedOnce.congr rfl rfl rfl)
      obtain rfl := Option.some.inj (hth.symm.trans hth')
      rw [hret.2]
      simp
    · exact h

/-- **A step of `ScavengeLoop`.** The thread leaves a pass only when it is over. -/
lemma Inv.loop (h : Inv n hardened enabled backed st) (env : PageEnv) (ok : Bool) :
    Inv n hardened enabled backed (st.loop n hardened env ok) := by
  unfold ScavengerThread.loop
  cases hth : st.scavengeThread with
  | none => exact h
  | some th =>
    have hstop : ∀ pc, st.joining = true → ∀ th', some { th with pc := pc } = some th' →
        th'.stopRequested = true := by
      intro pc hj th' hth'
      obtain rfl := Option.some.inj hth'
      exact h.stopping hj th hth
    have hout : th.pc ≠ .pass → st.OutsidePass := by
      intro hne th' hth'
      obtain rfl := Option.some.inj (hth.symm.trans hth')
      exact hne
    cases hpc : th.pc with
    | check =>
      simp only [hpc]
      exact h.congr rfl (fun _ => hout (by simp [hpc])) (hstop _)
        (h.startedOnce.congr rfl rfl rfl)
    | wait =>
      simp only [hpc]
      exact h.congr rfl (fun _ => hout (by simp [hpc])) (hstop _)
        (h.startedOnce.congr rfl rfl rfl)
    | pass =>
      simp only [hpc]
      refine ⟨h.reachable_next (.scavenge env ok), fun hp => ?_, hstop _,
        h.startedOnce.congr rfl rfl rfl⟩
      by_contra hne
      exact hp _ rfl (if_neg hne)
    | returned =>
      simp only [hpc]
      exact h

/-- **Every action** keeps what holds. -/
lemma Inv.next (h : Inv n hardened enabled backed st) (a : Action) :
    Inv n hardened enabled backed (ScavengerThread.next n hardened enabled st a) := by
  cases a with
  | alloc a =>
    simp only [ScavengerThread.next]
    split_ifs with ha
    · exact h
    · refine ⟨h.reachable_next a, fun hp => ?_, h.stopping, h.startedOnce.congr rfl rfl rfl⟩
      exact (Allocator.scav_next (by simpa using ha)).trans (h.idle hp)
  | ensure t =>
    simp only [ScavengerThread.next]
    split_ifs with hg
    · exact h.congr rfl id h.stopping
        (h.startedOnce.setEnsure (by simp) (fun hd => absurd (hd.symm.trans hg.1) (by simp)))
    · exact h
  | ensureStep t created => exact h.ensureStep t created
  | start created =>
    simp only [ScavengerThread.next]
    split_ifs with hj
    · exact h
    · exact h.start (by simpa using hj) created
  | stop =>
    simp only [ScavengerThread.next]
    split_ifs
    · exact h
    · exact h.stop
  | join => exact h.join
  | loop env ok => exact h.loop env ok

/-- The invariant in every reachable state. -/
lemma inv_run (n : ℕ) (hardened enabled backed : Bool) (as : List Action) :
    Inv n hardened enabled backed ((machine n hardened enabled).run (create backed) as) := by
  refine Machine.run_invariant (M := machine n hardened enabled)
    (I := Inv n hardened enabled backed) (fun st a h => h.next a) ?_ as
  refine ⟨⟨[], rfl⟩, fun _ => rfl, fun hj => absurd hj (by simp [create]), ?_⟩
  exact ⟨by simp [create], by simp [create], by simp [create], by simp [create],
    fun _ => ⟨rfl, fun _ => rfl⟩⟩

end ScavengerThread

end Ammalloc
