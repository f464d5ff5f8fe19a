import Ammalloc.Config
import Ammalloc.Lib.Machine

set_option relaxedAutoImplicit false
set_option autoImplicit false

/-!
# The spin lock and the instrumented locks

`SpinLock` of `spin_lock.h` and `InstrumentedMutex` of `lock_instrumentation.h`, in the build with
`AMMALLOC_INSTRUMENT_LOCKS`: any number of locks of one kind, which share a histogram, used by any
number of threads and interleaved at every access: the relaxed test, the test-and-set, the clock
readings, the increments of the histogram and the accesses to `hold_start_ns_`, which is a plain
field. The build without instrumentation makes the same accesses to the flag and none of the others.

A thread works with one lock of a kind at a time, as the callers in `central_cache.cpp` do.

The log of a run lists what the owners do, oldest first. It is not in the program.

## Main definitions

* `Ammalloc.SpinLock.Pc`, `Ammalloc.SpinLock.step` — the code of the locks.
* `Ammalloc.SpinLock.Section` — a critical section, with the events that belong to it.
* `Ammalloc.SpinLock.bucketIndexOf` — the bucket of a duration.

## Main results

* `Ammalloc.SpinLock.critical_sections_serial` — what the owners of a lock do is a row of whole
  critical sections, the last one maybe unfinished, and the histogram counts their durations.
-/

namespace Ammalloc

/-- `detail::LockKind`: the two instrumented lock sites. -/
inductive LockKind where
  /-- `transfer_cache_lock`, a `SpinLock`. -/
  | kTransferSpin
  /-- `span_list_lock`, an `InstrumentedMutex`. -/
  | kSpanListMutex
  deriving DecidableEq, Repr

namespace SpinLock

/-! ## The histograms -/

/-- `LockHistogram::kBucketCount`. -/
def kBucketCount : ℕ := 32

/-- `BucketIndexOf`: the bit width, cut off at the last bucket. `63 - Nat.log2 ns` are the leading
zeros of a positive word. -/
def bucketIndexOf (ns : ℕ) : ℕ :=
  if ns = 0 then 0
  else
    let leadingZeros := 63 - Nat.log2 ns
    let idx := 64 - leadingZeros
    if idx < kBucketCount then idx else kBucketCount - 1

/-- The durations of bucket `b`: `[2 ^ (b - 1), 2 ^ b)`, and everything longer in the last one. -/
def BucketCovers (b ns : ℕ) : Prop :=
  if b = 0 then ns = 0
  else 2 ^ (b - 1) ≤ ns ∧ b < kBucketCount ∧ (b + 1 < kBucketCount → ns < 2 ^ b)

instance (b ns : ℕ) : Decidable (BucketCovers b ns) := by
  unfold BucketCovers
  infer_instance

/-- Every duration falls into the bucket that covers it. -/
lemma bucketIndexOf_eq_iff {b ns : ℕ} : bucketIndexOf ns = b ↔ BucketCovers b ns := by
  unfold bucketIndexOf BucketCovers kBucketCount
  by_cases h0 : ns = 0
  · subst h0
    have hpos : 0 < 2 ^ (b - 1) := by positivity
    rw [if_pos rfl]
    split <;> omega
  · -- the bit width is the exponent between whose powers the duration lies
    have hle : 2 ^ (b - 1) ≤ ns ↔ b - 1 ≤ Nat.log2 ns := (Nat.le_log2 h0).symm
    have hlt : ns < 2 ^ b ↔ Nat.log2 ns < b := (Nat.log2_lt h0).symm
    rw [if_neg h0, hle, hlt]
    dsimp only
    split <;> split <;> omega

/-! ## The code -/

/-- Where a thread is in the code of the lock. `t0` is the time when `lock` was entered, `t1` the
time after the acquisition, `now` the time when `unlock` was entered. -/
inductive Pc where
  /-- Outside, and not an owner. -/
  | outside
  /-- `lock`: before the first clock reading. -/
  | lockEnter
  /-- `SpinLock::lock`: before the relaxed test. -/
  | lockTest (t0 spinCnt : ℕ)
  /-- `SpinLock::lock`: before the test-and-set. -/
  | lockSet (t0 spinCnt : ℕ)
  /-- `SpinLock::lock`: before the pause and the count. -/
  | lockPause (t0 spinCnt : ℕ)
  /-- `InstrumentedMutex::lock`: in `inner_.lock()`. -/
  | lockInner (t0 : ℕ)
  /-- Acquired, before the second clock reading. -/
  | lockClock (t0 : ℕ)
  /-- Before `RecordLockWait`. -/
  | lockRecord (t0 t1 : ℕ)
  /-- Before the store to `hold_start_ns_`. -/
  | stamp (t1 : ℕ)
  /-- `SpinLock::try_lock`: before the relaxed test. -/
  | tryTest
  /-- `SpinLock::try_lock`: before the test-and-set. -/
  | trySet
  /-- `InstrumentedMutex::try_lock`: before `inner_.try_lock()`. -/
  | tryInner
  /-- Acquired by `try_lock`, before the clock reading. -/
  | tryClock
  /-- In the critical section. -/
  | owner
  /-- `unlock`: before the clock reading. -/
  | unlockClock
  /-- `unlock`: before the load of `hold_start_ns_`. -/
  | unlockLoad (now : ℕ)
  /-- Before `RecordLockHold`. -/
  | unlockRecord (ns : ℕ)
  /-- Before the flag is cleared, or `inner_.unlock()`. -/
  | unlockClear
  deriving DecidableEq, Repr

/-- The thread has the lock. -/
def Pc.owns : Pc → Bool
  | lockClock _ | lockRecord _ _ | stamp _ | tryClock | owner | unlockClock | unlockLoad _
  | unlockRecord _ | unlockClear => true
  | _ => false

/-- What the owners do. -/
inductive Event where
  | acquired (t : ℕ)
  /-- `RecordLockWait`. -/
  | waited (t ns : ℕ)
  /-- The store to `hold_start_ns_`. -/
  | stamped (t t1 : ℕ)
  /-- `RecordLockHold`. -/
  | held (t ns : ℕ)
  | released (t : ℕ)
  deriving DecidableEq, Repr

/-- The locks of one kind with their histogram, the clock and the threads. -/
structure State where
  /-- `locked_`, or the state of `inner_`. -/
  locked : ℕ → Bool := fun _ => false
  holdStart : ℕ → ℕ := fun _ => 0
  waitBuckets : ℕ → ℕ := fun _ => 0
  holdBuckets : ℕ → ℕ := fun _ => 0
  /-- The steady clock, in ns. -/
  clock : ℕ := 0
  pcs : ℕ → Pc := fun _ => .outside
  /-- The lock that a thread works with. -/
  lockOf : ℕ → ℕ := fun _ => 0
  /-- Not in the program: what the owners have done, oldest first, each with its lock. -/
  log : List (ℕ × Event) := []

/-- What the owners of lock `l` have done. -/
def State.history (st : State) (l : ℕ) : List Event :=
  st.log.filterMap fun x => if x.1 = l then some x.2 else none

/-- Move thread `t`. -/
def State.goto (st : State) (t : ℕ) (pc : Pc) : State :=
  { st with pcs := Function.update st.pcs t pc }

/-- Move thread `t`, which does `e` on the way. -/
def State.act (st : State) (t : ℕ) (pc : Pc) (e : Event) : State :=
  { st with pcs := Function.update st.pcs t pc, log := st.log ++ [(st.lockOf t, e)] }

/-- Thread `t` has set the flag, or `inner_.lock()` has returned. -/
def State.acquire (st : State) (t : ℕ) (pc : Pc) : State :=
  { st.act t pc (.acquired t) with locked := Function.update st.locked (st.lockOf t) true }

/-- `fetch_add(1)` on the bucket of a duration. -/
def record (buckets : ℕ → ℕ) (ns : ℕ) : ℕ → ℕ :=
  Function.update buckets (bucketIndexOf ns) (addU64 (buckets (bucketIndexOf ns)) 1)

/-- The next access of thread `t`. `std::mutex::try_lock` may fail for no reason, as `spurious`
says; a thread in `inner_.lock()` waits while there is an owner. -/
def step (kind : LockKind) (spurious : Bool) (st : State) (t : ℕ) : State :=
  let l := st.lockOf t
  match st.pcs t with
  | .outside | .owner => st
  | .lockEnter =>
    match kind with
    | .kTransferSpin => st.goto t (.lockTest st.clock 0)
    | .kSpanListMutex => st.goto t (.lockInner st.clock)
  | .lockTest t0 spinCnt =>
    if st.locked l then st.goto t (.lockPause t0 spinCnt) else st.goto t (.lockSet t0 spinCnt)
  | .lockSet t0 spinCnt =>
    if st.locked l then st.goto t (.lockPause t0 spinCnt) else st.acquire t (.lockClock t0)
  | .lockPause t0 spinCnt =>
    let spinCnt := spinCnt + 1
    st.goto t (.lockTest t0 (if spinCnt > 2000 then 0 else spinCnt))
  | .lockInner t0 => if st.locked l then st else st.acquire t (.lockClock t0)
  | .lockClock t0 => st.goto t (.lockRecord t0 st.clock)
  | .lockRecord t0 t1 =>
    { st.act t (.stamp t1) (.waited t (subU64 t1 t0)) with
      waitBuckets := record st.waitBuckets (subU64 t1 t0) }
  | .stamp t1 =>
    { st.act t .owner (.stamped t t1) with holdStart := Function.update st.holdStart l t1 }
  | .tryTest => if st.locked l then st.goto t .outside else st.goto t .trySet
  | .trySet => if st.locked l then st.goto t .outside else st.acquire t .tryClock
  | .tryInner =>
    if st.locked l ∨ spurious then st.goto t .outside else st.acquire t .tryClock
  | .tryClock => st.goto t (.stamp st.clock)
  | .unlockClock => st.goto t (.unlockLoad st.clock)
  | .unlockLoad now => st.goto t (.unlockRecord (subU64 now (st.holdStart l)))
  | .unlockRecord ns =>
    { st.act t .unlockClear (.held t ns) with holdBuckets := record st.holdBuckets ns }
  | .unlockClear =>
    { st.act t .outside (.released t) with locked := Function.update st.locked l false }

/-- A member function of the lock. -/
inductive Call where
  | lock
  | tryLock
  | unlock
  deriving DecidableEq, Repr

/-- Thread `t` calls a member function of lock `l`. `unlock` is for the owner, and neither of the
others is: the lock is not recursive. -/
def call (kind : LockKind) (st : State) (t l : ℕ) : Call → State
  | .lock =>
    if st.pcs t = .outside then
      { st.goto t .lockEnter with lockOf := Function.update st.lockOf t l }
    else st
  | .tryLock =>
    if st.pcs t = .outside then
      match kind with
      | .kTransferSpin => { st.goto t .tryTest with lockOf := Function.update st.lockOf t l }
      | .kSpanListMutex => { st.goto t .tryInner with lockOf := Function.update st.lockOf t l }
    else st
  | .unlock => if st.pcs t = .owner ∧ st.lockOf t = l then st.goto t .unlockClock else st

/-- What happens next. -/
inductive Action where
  | call (t l : ℕ) (f : Call)
  | step (t : ℕ) (spurious : Bool)
  /-- Time passes. -/
  | tick (ns : ℕ)
  deriving DecidableEq, Repr

/-- A monotone 64-bit clock, and threads that call and run. -/
def next (kind : LockKind) (st : State) : Action → State
  | .call t l f => call kind st t l f
  | .step t spurious => step kind spurious st t
  | .tick ns => { st with clock := min (st.clock + ns) sizeMax }

/-- The locks of one kind. -/
def machine (kind : LockKind) : Machine State Action := ⟨{({} : State)}, next kind⟩

/-! ## Critical sections -/

/-- A critical section: the owner, when it entered `lock` (`none` for `try_lock`), when it had
acquired the lock, and when it entered `unlock`. -/
structure Section where
  thread : ℕ
  entered : Option ℕ
  stamp : ℕ
  left : ℕ
  deriving DecidableEq, Repr

/-- The clock does not run backwards in a section, and the times are 64-bit words. -/
def Section.Ordered (s : Section) : Prop :=
  (∀ t0, s.entered = some t0 → t0 ≤ s.stamp) ∧ s.stamp ≤ s.left ∧ s.left ≤ sizeMax

/-- What a section does up to the critical code. A `try_lock` has no wait sample. -/
def Section.opening (s : Section) : List Event :=
  .acquired s.thread ::
    (s.entered.elim [] (fun t0 => [.waited s.thread (s.stamp - t0)]) ++
      [.stamped s.thread s.stamp])

/-- Everything that a section does. -/
def Section.events (s : Section) : List Event :=
  s.opening ++ [.held s.thread (s.left - s.stamp), .released s.thread]

/-- The owner `t` stands at `pc`, and has done `es` in its section. -/
def InSection (t clock holdStart : ℕ) : Pc → List Event → Prop
  | .lockClock t0, es => t0 ≤ clock ∧ es = [.acquired t]
  | .lockRecord t0 t1, es => t0 ≤ t1 ∧ t1 ≤ clock ∧ es = [.acquired t]
  | .tryClock, es => es = [.acquired t]
  | .stamp t1, es => t1 ≤ clock ∧ ∃ entered : Option ℕ, (∀ t0, entered = some t0 → t0 ≤ t1) ∧
      es = .acquired t :: entered.elim [] fun t0 => [.waited t (t1 - t0)]
  | .owner, es | .unlockClock, es => holdStart ≤ clock ∧ ∃ entered : Option ℕ,
      (∀ t0, entered = some t0 → t0 ≤ holdStart) ∧
      es = (Section.mk t entered holdStart holdStart).opening
  | .unlockLoad now, es => holdStart ≤ now ∧ now ≤ clock ∧ ∃ entered : Option ℕ,
      (∀ t0, entered = some t0 → t0 ≤ holdStart) ∧ es = (Section.mk t entered holdStart now).opening
  | .unlockRecord ns, es => ∃ s : Section, s.thread = t ∧ s.Ordered ∧ ns = s.left - s.stamp ∧
      es = s.opening
  | .unlockClear, es => ∃ s : Section, s.thread = t ∧ s.Ordered ∧
      es = s.opening ++ [.held t (s.left - s.stamp)]
  | _, _ => False

/-- Thread `t` is the owner of lock `l`, or one of them. -/
def State.Owns (st : State) (t l : ℕ) : Prop := st.lockOf t = l ∧ (st.pcs t).owns = true

/-- The events `part` of the section that lock `l` is in: nobody has the lock, or its only owner is
in the middle of a section. -/
def State.Current (st : State) (l : ℕ) (part : List Event) : Prop :=
  (st.locked l = false ∧ part = [] ∧ ∀ t, ¬ st.Owns t l) ∨
    st.locked l = true ∧ ∃ t, st.Owns t l ∧ (∀ u, st.Owns u l → u = t) ∧
      InSection t st.clock (st.holdStart l) (st.pcs t) part

/-- The history of lock `l` consists of whole sections, and of the current one. -/
def State.Serial (st : State) (l : ℕ) : Prop :=
  ∃ (done : List Section) (part : List Event), (∀ s ∈ done, s.Ordered) ∧
    st.history l = done.flatMap Section.events ++ part ∧ st.Current l part

/-- When a waiting thread entered `lock`. -/
def Pc.enteredAt : Pc → Option ℕ
  | lockTest t0 _ | lockSet t0 _ | lockPause t0 _ | lockInner t0 => some t0
  | _ => none

/-- A wait sample of bucket `b`. -/
def Event.isWait (b : ℕ) : Event → Bool
  | waited _ ns => decide (BucketCovers b ns)
  | _ => false

/-- A hold sample of bucket `b`. -/
def Event.isHold (b : ℕ) : Event → Bool
  | held _ ns => decide (BucketCovers b ns)
  | _ => false

/-- **The invariant of the locks.** -/
structure Inv (st : State) : Prop where
  clock_le : st.clock ≤ sizeMax
  entered_le : ∀ t t0, (st.pcs t).enteredAt = some t0 → t0 ≤ st.clock
  serial : ∀ l, st.Serial l
  waits : ∀ b, st.waitBuckets b = st.log.countP (fun x => x.2.isWait b) % 2 ^ 64
  holds : ∀ b, st.holdBuckets b = st.log.countP (fun x => x.2.isHold b) % 2 ^ 64

/-! ## One access -/

variable {st st' : State} {t l : ℕ}

/-- Only the owner stands inside a section. -/
lemma InSection.owns {c h : ℕ} {pc : Pc} {es : List Event} (hs : InSection t c h pc es) :
    pc.owns = true := by
  cases pc <;> first | rfl | exact absurd hs (by simp [InSection])

/-- Time that passes does not disturb a section. -/
lemma InSection.mono {c c' h : ℕ} {pc : Pc} {es : List Event} (hc : c ≤ c')
    (hs : InSection t c h pc es) : InSection t c' h pc es := by
  cases pc with
  | lockClock t0 => exact ⟨hs.1.trans hc, hs.2⟩
  | lockRecord t0 t1 => exact ⟨hs.1, hs.2.1.trans hc, hs.2.2⟩
  | tryClock => exact hs
  | stamp t1 => exact ⟨hs.1.trans hc, hs.2⟩
  | owner => exact ⟨hs.1.trans hc, hs.2⟩
  | unlockClock => exact ⟨hs.1.trans hc, hs.2⟩
  | unlockLoad now => exact ⟨hs.1, hs.2.1.trans hc, hs.2.2⟩
  | unlockRecord ns => exact hs
  | unlockClear => exact hs
  | _ => exact hs.elim

/-- From `st` to `st'` only thread `t` has moved, and only its lock has been touched. -/
structure Local (t : ℕ) (st st' : State) : Prop where
  lockOf : st'.lockOf = st.lockOf
  clock : st'.clock = st.clock
  pcs : ∀ u, u ≠ t → st'.pcs u = st.pcs u
  locked : ∀ l, l ≠ st.lockOf t → st'.locked l = st.locked l
  holdStart : ∀ l, l ≠ st.lockOf t → st'.holdStart l = st.holdStart l
  history : ∀ l, l ≠ st.lockOf t → st'.history l = st.history l

/-- A lock whose owners, flag, stamp and history stay. -/
lemma State.Serial.frame (h : st.Serial l) (hclock : st.clock ≤ st'.clock)
    (howns : ∀ u, st'.Owns u l ↔ st.Owns u l) (hpcs : ∀ u, st.Owns u l → st'.pcs u = st.pcs u)
    (hlocked : st'.locked l = st.locked l) (hhold : st'.holdStart l = st.holdStart l)
    (hhist : st'.history l = st.history l) : st'.Serial l := by
  obtain ⟨done, part, hdone, hsplit, hcur⟩ := h
  refine ⟨done, part, hdone, hhist.trans hsplit, ?_⟩
  rcases hcur with ⟨hfree, hpart, hnone⟩ | ⟨hset, u, hu, honly, hin⟩
  · exact Or.inl ⟨hlocked.trans hfree, hpart, fun v hv => hnone v ((howns v).mp hv)⟩
  · refine Or.inr ⟨hlocked.trans hset, u, (howns u).mpr hu,
      fun v hv => honly v ((howns v).mp hv), ?_⟩
    rw [hhold, hpcs u hu]
    exact hin.mono hclock

/-- The invariant after a local step, from what the step does to its own lock. -/
lemma Inv.of_local (h : Inv st) (hl : Local t st st')
    (hentered : ∀ t0, (st'.pcs t).enteredAt = some t0 → t0 ≤ st.clock)
    (hserial : st'.Serial (st.lockOf t))
    (hwaits : ∀ b, st'.waitBuckets b = st'.log.countP (fun x => x.2.isWait b) % 2 ^ 64)
    (hholds : ∀ b, st'.holdBuckets b = st'.log.countP (fun x => x.2.isHold b) % 2 ^ 64) :
    Inv st' where
  clock_le := by
    rw [hl.clock]
    exact h.clock_le
  entered_le u t0 hu := by
    rw [hl.clock]
    by_cases hut : u = t
    · rw [hut] at hu
      exact hentered t0 hu
    · rw [hl.pcs u hut] at hu
      exact h.entered_le u t0 hu
  serial l := by
    by_cases hlt : l = st.lockOf t
    · rw [hlt]
      exact hserial
    · have hne : ∀ u, st.lockOf u = l → u ≠ t := by
        intro u hu hut
        exact hlt (by rw [← hu, hut])
      refine (h.serial l).frame hl.clock.ge (fun u => ?_) (fun u hu => hl.pcs u (hne u hu.1))
        (hl.locked l hlt) (hl.holdStart l hlt) (hl.history l hlt)
      unfold State.Owns
      rw [hl.lockOf]
      refine and_congr_right fun hu => ?_
      rw [hl.pcs u (hne u hu)]
  waits := hwaits
  holds := hholds

/-- The history of a lock after an event. -/
lemma history_append (e : Event) (m : ℕ) (hlog : st'.log = st.log ++ [(m, e)]) (l : ℕ) :
    st'.history l = st.history l ++ if m = l then [e] else [] := by
  unfold State.history
  rw [hlog, List.filterMap_append]
  by_cases hm : m = l
  · simp [hm]
  · simp [hm]

/-- The samples of the log after an event. -/
lemma countP_log (p : Event → Bool) (log : List (ℕ × Event)) (m : ℕ) (e : Event) :
    (log ++ [(m, e)]).countP (fun x => p x.2) =
      log.countP (fun x => p x.2) + if p e then 1 else 0 := by
  rw [List.countP_append, List.countP_singleton]

/-- Owners after thread `t` has moved. -/
lemma owns_update (hlock : st'.lockOf = st.lockOf) (hpcs : ∀ u, u ≠ t → st'.pcs u = st.pcs u)
    (hpc : (st'.pcs t).owns = (st.pcs t).owns) (u l : ℕ) : st'.Owns u l ↔ st.Owns u l := by
  unfold State.Owns
  rw [hlock]
  by_cases hut : u = t
  · rw [hut, hpc]
  · rw [hpcs u hut]

/-- A thread that is no owner moves on and still is none. -/
lemma Inv.wander (h : Inv st) {pc : Pc} (hpc : (st.pcs t).owns = false) (hpc' : pc.owns = false)
    (hentered : ∀ t0, pc.enteredAt = some t0 → t0 ≤ st.clock) : Inv (st.goto t pc) := by
  have hl : Local t st (st.goto t pc) :=
    ⟨rfl, rfl, fun u hu => Function.update_of_ne hu _ _, fun _ _ => rfl, fun _ _ => rfl,
      fun _ _ => rfl⟩
  have hself : (st.goto t pc).pcs t = pc := by simp [State.goto]
  refine h.of_local hl (fun t0 ht0 => hentered t0 (hself ▸ ht0)) ?_ h.waits h.holds
  have howns : ((st.goto t pc).pcs t).owns = (st.pcs t).owns := by rw [hself, hpc, hpc']
  refine (h.serial _).frame le_rfl (fun u => owns_update hl.lockOf hl.pcs howns u _)
    (fun u hu => hl.pcs u ?_) rfl rfl rfl
  · intro hut
    rw [hut] at hu
    rw [hu.2] at hpc
    exact absurd hpc (by simp)

/-- **The lock is taken.** -/
lemma Inv.acquire (h : Inv st) {pc : Pc} (hfree : st.locked (st.lockOf t) = false)
    (hin : InSection t st.clock (st.holdStart (st.lockOf t)) pc [.acquired t])
    (hentered : pc.enteredAt = none) : Inv (st.acquire t pc) := by
  have hlog : (st.acquire t pc).log = st.log ++ [(st.lockOf t, .acquired t)] := rfl
  have hl : Local t st (st.acquire t pc) :=
    ⟨rfl, rfl, fun u hu => Function.update_of_ne hu _ _, fun l hl => Function.update_of_ne hl _ _,
      fun _ _ => rfl, fun l hne => by simp [history_append _ _ hlog l, Ne.symm hne]⟩
  have hself : (st.acquire t pc).pcs t = pc := by simp [State.acquire, State.act]
  refine h.of_local hl (fun t0 ht0 => ?_) ?_ (fun b => ?_) (fun b => ?_)
  · rw [hself, hentered] at ht0
    exact absurd ht0 (by simp)
  · obtain ⟨done, part, hdone, hsplit, hcur⟩ := h.serial (st.lockOf t)
    rcases hcur with ⟨-, rfl, hnone⟩ | ⟨hset, -⟩
    · refine ⟨done, [.acquired t], hdone, ?_, Or.inr ⟨Function.update_self _ _ _, t, ⟨rfl, ?_⟩,
        fun u hu => ?_, ?_⟩⟩
      · rw [history_append _ _ hlog, hsplit]
        simp
      · rw [hself]
        exact hin.owns
      · by_contra hut
        refine hnone u ⟨hu.1, ?_⟩
        rw [← hl.pcs u hut]
        exact hu.2
      · rw [hself]
        exact hin
    · rw [hfree] at hset
      exact absurd hset (by simp)
  · rw [hlog, countP_log (Event.isWait b)]
    exact h.waits b
  · rw [hlog, countP_log (Event.isHold b)]
    exact h.holds b

/-- The owner of a lock is in the section that the lock is in. -/
lemma State.Current.inSection {part : List Event} (h : st.Current l part) (ht : st.Owns t l) :
    st.locked l = true ∧ (∀ u, st.Owns u l → u = t) ∧
      InSection t st.clock (st.holdStart l) (st.pcs t) part := by
  rcases h with ⟨-, -, hnone⟩ | ⟨hset, u, hu, honly, hin⟩
  · exact absurd ht (hnone t)
  · obtain rfl := honly t ht
    exact ⟨hset, honly, hin⟩

/-- **The owner moves on in its section**, by the events `es`. -/
lemma State.Serial.advance (h : st.Serial (st.lockOf t)) (hl : Local t st st')
    (hpc : (st.pcs t).owns = true) (hpc' : (st'.pcs t).owns = true) (es : List Event)
    (hlocked : st'.locked (st.lockOf t) = st.locked (st.lockOf t))
    (hhist : st'.history (st.lockOf t) = st.history (st.lockOf t) ++ es)
    (hin : ∀ part, InSection t st.clock (st.holdStart (st.lockOf t)) (st.pcs t) part →
      InSection t st.clock (st'.holdStart (st.lockOf t)) (st'.pcs t) (part ++ es)) :
    st'.Serial (st.lockOf t) := by
  obtain ⟨done, part, hdone, hsplit, hcur⟩ := h
  obtain ⟨hset, honly, hpart⟩ := hcur.inSection ⟨rfl, hpc⟩
  have howns : ∀ u, st'.Owns u (st.lockOf t) ↔ st.Owns u (st.lockOf t) :=
    fun u => owns_update hl.lockOf hl.pcs (hpc'.trans hpc.symm) u _
  refine ⟨done, part ++ es, hdone, by rw [hhist, hsplit, List.append_assoc],
    Or.inr ⟨hlocked.trans hset, t, (howns t).mpr ⟨rfl, hpc⟩,
      fun u hu => honly u ((howns u).mp hu), ?_⟩⟩
  rw [hl.clock]
  exact hin part hpart

/-- The owner moves on and does nothing that is logged. -/
lemma Inv.advance (h : Inv st) {pc : Pc} (hpc : (st.pcs t).owns = true)
    (hentered : pc.enteredAt = none) (howns : pc.owns = true)
    (hin : ∀ part, InSection t st.clock (st.holdStart (st.lockOf t)) (st.pcs t) part →
      InSection t st.clock (st.holdStart (st.lockOf t)) pc part) : Inv (st.goto t pc) := by
  have hl : Local t st (st.goto t pc) :=
    ⟨rfl, rfl, fun u hu => Function.update_of_ne hu _ _, fun _ _ => rfl, fun _ _ => rfl,
      fun _ _ => rfl⟩
  have hself : (st.goto t pc).pcs t = pc := by simp [State.goto]
  refine h.of_local hl (fun t0 ht0 => ?_) ?_ h.waits h.holds
  · rw [hself, hentered] at ht0
    exact absurd ht0 (by simp)
  · refine (h.serial _).advance hl hpc (by rw [hself]; exact howns) [] rfl
      (List.append_nil _).symm fun part hpart => ?_
    rw [hself, List.append_nil]
    exact hin part hpart

/-- The owner moves on, logs `e` and maybe writes the stamp. -/
lemma Inv.advance_act (h : Inv st) (p : Pc) (e : Event) (x : ℕ) (w k : ℕ → ℕ)
    (hpc : (st.pcs t).owns = true) (hentered : p.enteredAt = none) (howns : p.owns = true)
    (hst : st' = { st.act t p e with
      holdStart := Function.update st.holdStart (st.lockOf t) x
      waitBuckets := w, holdBuckets := k })
    (hin : ∀ part, InSection t st.clock (st.holdStart (st.lockOf t)) (st.pcs t) part →
      InSection t st.clock x p (part ++ [e]))
    (hwaits : ∀ b, w b = (st.log.countP (fun x => x.2.isWait b) + if e.isWait b then 1 else 0) %
      2 ^ 64)
    (hholds : ∀ b, k b = (st.log.countP (fun x => x.2.isHold b) + if e.isHold b then 1 else 0) %
      2 ^ 64) : Inv st' := by
  subst hst
  set st₁ : State := { st.act t p e with
    holdStart := Function.update st.holdStart (st.lockOf t) x, waitBuckets := w, holdBuckets := k }
    with hst₁
  have hlog : st₁.log = st.log ++ [(st.lockOf t, e)] := rfl
  have hl : Local t st st₁ :=
    ⟨rfl, rfl, fun u hu => Function.update_of_ne hu _ _, fun _ _ => rfl,
      fun l hne => Function.update_of_ne hne _ _,
      fun l hne => by simp [history_append _ _ hlog l, Ne.symm hne]⟩
  have hself : st₁.pcs t = p := by simp [hst₁, State.act]
  refine h.of_local hl (fun t0 ht0 => ?_) ?_ (fun b => ?_) (fun b => ?_)
  · rw [hself, hentered] at ht0
    exact absurd ht0 (by simp)
  · refine (h.serial _).advance hl hpc (by rw [hself]; exact howns) [e] rfl ?_
      fun part hpart => ?_
    · rw [history_append _ _ hlog, if_pos rfl]
    · have hstart : st₁.holdStart (st.lockOf t) = x := by simp [hst₁]
      rw [hself, hstart]
      exact hin part hpart
  · rw [hlog, countP_log (Event.isWait b)]
    exact hwaits b
  · rw [hlog, countP_log (Event.isHold b)]
    exact hholds b

/-- Another sample in the histogram. -/
lemma record_eq {buckets : ℕ → ℕ} {counts : ℕ → ℕ} (h : ∀ b, buckets b = counts b % 2 ^ 64)
    (ns b : ℕ) : record buckets ns b =
      (counts b + if decide (BucketCovers b ns) then 1 else 0) % 2 ^ 64 := by
  unfold record
  by_cases hb : bucketIndexOf ns = b
  · have hcovers : BucketCovers b ns := bucketIndexOf_eq_iff.mp hb
    subst hb
    simp only [Function.update_self, addU64, h, hcovers, decide_true, if_true]
    omega
  · have hcovers : ¬ BucketCovers b ns := fun hc => hb (bucketIndexOf_eq_iff.mpr hc)
    rw [Function.update_of_ne (Ne.symm hb), h]
    simp [hcovers]

/-- **The lock is released**, and the section is complete. -/
lemma Inv.release (h : Inv st) (hpc : st.pcs t = .unlockClear) :
    Inv { st.act t .outside (.released t) with
      locked := Function.update st.locked (st.lockOf t) false } := by
  set st₁ : State := { st.act t .outside (.released t) with
    locked := Function.update st.locked (st.lockOf t) false } with hst₁
  have hlog : st₁.log = st.log ++ [(st.lockOf t, .released t)] := rfl
  have hl : Local t st st₁ :=
    ⟨rfl, rfl, fun u hu => Function.update_of_ne hu _ _,
      fun l hne => Function.update_of_ne hne _ _, fun _ _ => rfl,
      fun l hne => by simp [history_append _ _ hlog l, Ne.symm hne]⟩
  have hself : st₁.pcs t = .outside := by simp [hst₁, State.act]
  refine h.of_local hl (fun t0 ht0 => ?_) ?_ (fun b => ?_) (fun b => ?_)
  · rw [hself] at ht0
    exact absurd ht0 (by simp [Pc.enteredAt])
  · obtain ⟨done, part, hdone, hsplit, hcur⟩ := h.serial (st.lockOf t)
    obtain ⟨-, honly, hin⟩ := hcur.inSection ⟨rfl, by rw [hpc]; rfl⟩
    rw [hpc] at hin
    obtain ⟨s, hthread, hordered, rfl⟩ := hin
    refine ⟨done ++ [s], [], ?_, ?_, Or.inl ⟨Function.update_self _ _ _, rfl, fun u hu => ?_⟩⟩
    · intro r hr
      rcases List.mem_append.mp hr with hr | hr
      · exact hdone r hr
      · exact List.mem_singleton.mp hr ▸ hordered
    · rw [history_append _ _ hlog, hsplit, if_pos rfl]
      simp [Section.events, hthread]
    · by_cases hut : u = t
      · have := hu.2
        rw [hut, hself] at this
        exact absurd this (by simp [Pc.owns])
      · refine hut (honly u ⟨hu.1, ?_⟩)
        rw [← hl.pcs u hut]
        exact hu.2
  · rw [hlog, countP_log (Event.isWait b)]
    exact h.waits b
  · rw [hlog, countP_log (Event.isHold b)]
    exact h.holds b

/-- **Every access keeps the invariant.** -/
lemma Inv.step (h : Inv st) (kind : LockKind) (spurious : Bool) (t : ℕ) :
    Inv (SpinLock.step kind spurious st t) := by
  have hentered := h.entered_le t
  unfold SpinLock.step
  cases hpc : st.pcs t with
  | outside => exact h
  | owner => exact h
  | lockEnter =>
    cases kind with
    | kTransferSpin => exact h.wander (by rw [hpc]; rfl) rfl (by simp [Pc.enteredAt])
    | kSpanListMutex => exact h.wander (by rw [hpc]; rfl) rfl (by simp [Pc.enteredAt])
  | lockTest t0 spinCnt =>
    rw [hpc] at hentered
    dsimp only
    split
    · exact h.wander (by rw [hpc]; rfl) rfl hentered
    · exact h.wander (by rw [hpc]; rfl) rfl hentered
  | lockSet t0 spinCnt =>
    rw [hpc] at hentered
    dsimp only
    split
    · exact h.wander (by rw [hpc]; rfl) rfl hentered
    · next hfree => exact h.acquire (by simpa using hfree) ⟨hentered t0 rfl, rfl⟩ rfl
  | lockPause t0 spinCnt =>
    rw [hpc] at hentered
    exact h.wander (by rw [hpc]; rfl) rfl hentered
  | lockInner t0 =>
    rw [hpc] at hentered
    dsimp only
    split
    · exact h
    · next hfree => exact h.acquire (by simpa using hfree) ⟨hentered t0 rfl, rfl⟩ rfl
  | lockClock t0 =>
    refine h.advance (by rw [hpc]; rfl) rfl rfl fun part hin => ?_
    rw [hpc] at hin
    exact ⟨hin.1, le_rfl, hin.2⟩
  | lockRecord t0 t1 =>
    refine h.advance_act (.stamp t1) (.waited t (subU64 t1 t0)) (st.holdStart (st.lockOf t))
      (record st.waitBuckets (subU64 t1 t0)) st.holdBuckets (by rw [hpc]; rfl) rfl rfl
      (by simp [State.act]) (fun part hin => ?_) (fun b => record_eq h.waits _ b) h.holds
    rw [hpc] at hin
    obtain ⟨h01, h1c, rfl⟩ := hin
    have hsub : subU64 t1 t0 = t1 - t0 := by
      have := h.clock_le
      unfold sizeMax at this
      exact subU64_of_le (by omega) h01
    refine ⟨h1c, some t0, fun t0' ht0' => Option.some.inj ht0' ▸ h01, ?_⟩
    rw [hsub]
    rfl
  | stamp t1 =>
    refine h.advance_act .owner (.stamped t t1) t1 st.waitBuckets st.holdBuckets
      (by rw [hpc]; rfl) rfl rfl rfl (fun part hin => ?_) h.waits h.holds
    rw [hpc] at hin
    obtain ⟨h1c, entered, hle, rfl⟩ := hin
    exact ⟨h1c, entered, hle, rfl⟩
  | tryTest =>
    dsimp only
    split
    · exact h.wander (by rw [hpc]; rfl) rfl (by simp [Pc.enteredAt])
    · exact h.wander (by rw [hpc]; rfl) rfl (by simp [Pc.enteredAt])
  | trySet =>
    dsimp only
    split
    · exact h.wander (by rw [hpc]; rfl) rfl (by simp [Pc.enteredAt])
    · next hfree => exact h.acquire (by simpa using hfree) rfl rfl
  | tryInner =>
    dsimp only
    split
    · exact h.wander (by rw [hpc]; rfl) rfl (by simp [Pc.enteredAt])
    · next hfree => exact h.acquire (by simpa using (not_or.mp hfree).1) rfl rfl
  | tryClock =>
    refine h.advance (by rw [hpc]; rfl) rfl rfl fun part hin => ?_
    rw [hpc] at hin
    exact ⟨le_rfl, none, by simp, hin⟩
  | unlockClock =>
    refine h.advance (by rw [hpc]; rfl) rfl rfl fun part hin => ?_
    rw [hpc] at hin
    exact ⟨hin.1, le_rfl, hin.2⟩
  | unlockLoad now =>
    refine h.advance (by rw [hpc]; rfl) rfl rfl fun part hin => ?_
    rw [hpc] at hin
    obtain ⟨hle, hclock, entered, hentered', rfl⟩ := hin
    have hnow : now ≤ sizeMax := hclock.trans h.clock_le
    refine ⟨⟨t, entered, st.holdStart (st.lockOf t), now⟩, rfl, ⟨hentered', hle, hnow⟩, ?_, rfl⟩
    unfold sizeMax at hnow
    exact subU64_of_le (by omega) hle
  | unlockRecord ns =>
    refine h.advance_act .unlockClear (.held t ns) (st.holdStart (st.lockOf t)) st.waitBuckets
      (record st.holdBuckets ns) (by rw [hpc]; rfl) rfl rfl (by simp [State.act])
      (fun part hin => ?_) h.waits (fun b => record_eq h.holds _ b)
    rw [hpc] at hin
    obtain ⟨s, hthread, hordered, rfl, rfl⟩ := hin
    exact ⟨s, hthread, hordered, rfl⟩
  | unlockClear => exact h.release hpc

/-- A thread outside chooses a lock. -/
lemma Inv.choose (h : Inv st) (hpc : st.pcs t = .outside) {pc : Pc} (howns : pc.owns = false)
    (hentered : pc.enteredAt = none) (l : ℕ) :
    Inv { st.goto t pc with lockOf := Function.update st.lockOf t l } := by
  have hgo : Inv (st.goto t pc) := h.wander (by rw [hpc]; rfl) howns (by simp [hentered])
  refine ⟨hgo.clock_le, hgo.entered_le, fun m => ?_, hgo.waits, hgo.holds⟩
  have hself : (st.goto t pc).pcs t = pc := by simp [State.goto]
  refine (hgo.serial m).frame le_rfl (fun u => ?_) (fun _ _ => rfl) rfl rfl rfl
  unfold State.Owns
  by_cases hut : u = t
  · subst hut
    simp [hself, howns]
  · simp [State.goto, hut]

/-- **Every action keeps the invariant.** -/
lemma Inv.next (h : Inv st) (kind : LockKind) (a : Action) : Inv (SpinLock.next kind st a) := by
  cases a with
  | call t l f =>
    unfold SpinLock.next call
    cases f with
    | lock =>
      dsimp only
      split
      · next hpc => exact h.choose hpc rfl rfl l
      · exact h
    | tryLock =>
      dsimp only
      split
      · next hpc =>
        cases kind with
        | kTransferSpin => exact h.choose hpc rfl rfl l
        | kSpanListMutex => exact h.choose hpc rfl rfl l
      · exact h
    | unlock =>
      dsimp only
      split
      · next hpc =>
        refine h.advance (by rw [hpc.1]; rfl) rfl rfl fun part hin => ?_
        rw [hpc.1] at hin
        exact hin
      · exact h
  | step t spurious => exact h.step kind spurious t
  | tick ns =>
    have hle : st.clock ≤ min (st.clock + ns) sizeMax := le_min (by omega) h.clock_le
    exact ⟨min_le_right _ _, fun t t0 ht0 => (h.entered_le t t0 ht0).trans hle,
      fun l => (h.serial l).frame hle (fun _ => Iff.rfl) (fun _ _ => rfl) rfl rfl rfl,
      h.waits, h.holds⟩

/-- Nothing has happened. -/
lemma inv_init : Inv {} :=
  ⟨Nat.zero_le _, by simp [Pc.enteredAt], fun l => ⟨[], [], by simp, rfl,
    Or.inl ⟨rfl, rfl, by simp [State.Owns, Pc.owns]⟩⟩, by simp, by simp⟩

/-! ## Every run -/

/-- What the owner has done is the beginning of a section. -/
lemma InSection.beginning {c h : ℕ} {pc : Pc} {part : List Event} (hc : c ≤ sizeMax)
    (hin : InSection t c h pc part) :
    ∃ (s : Section) (rest : List Event), s.thread = t ∧ s.Ordered ∧ s.events = part ++ rest ∧
      part ≠ [] ∧ rest ≠ [] := by
  cases pc with
  | lockClock t0 =>
    obtain ⟨h0, rfl⟩ := hin
    exact ⟨⟨t, some t0, c, c⟩, _, rfl,
      ⟨fun t0' ht0' => Option.some.inj ht0' ▸ h0, le_rfl, hc⟩, rfl, by simp, by simp⟩
  | lockRecord t0 t1 =>
    obtain ⟨h0, h1, rfl⟩ := hin
    exact ⟨⟨t, some t0, t1, c⟩, _, rfl,
      ⟨fun t0' ht0' => Option.some.inj ht0' ▸ h0, h1, hc⟩, rfl, by simp, by simp⟩
  | tryClock =>
    obtain rfl := hin
    exact ⟨⟨t, none, c, c⟩, _, rfl, ⟨by simp, le_rfl, hc⟩, rfl, by simp, by simp⟩
  | stamp t1 =>
    obtain ⟨h1, entered, hle, rfl⟩ := hin
    refine ⟨⟨t, entered, t1, c⟩, .stamped t t1 :: [.held t (c - t1), .released t], rfl,
      ⟨hle, h1, hc⟩, ?_, by simp, by simp⟩
    simp [Section.events, Section.opening]
  | owner =>
    obtain ⟨h1, entered, hle, rfl⟩ := hin
    exact ⟨⟨t, entered, h, c⟩, [.held t (c - h), .released t], rfl, ⟨hle, h1, hc⟩, rfl,
      by simp [Section.opening], by simp⟩
  | unlockClock =>
    obtain ⟨h1, entered, hle, rfl⟩ := hin
    exact ⟨⟨t, entered, h, c⟩, [.held t (c - h), .released t], rfl, ⟨hle, h1, hc⟩, rfl,
      by simp [Section.opening], by simp⟩
  | unlockLoad now =>
    obtain ⟨h1, h2, entered, hle, rfl⟩ := hin
    exact ⟨⟨t, entered, h, now⟩, [.held t (now - h), .released t], rfl,
      ⟨hle, h1, h2.trans hc⟩, rfl, by simp [Section.opening], by simp⟩
  | unlockRecord ns =>
    obtain ⟨s, hthread, hordered, -, rfl⟩ := hin
    exact ⟨s, _, hthread, hordered, rfl, by simp [Section.opening], by simp⟩
  | unlockClear =>
    obtain ⟨s, hthread, hordered, rfl⟩ := hin
    refine ⟨s, [.released t], hthread, hordered, ?_, by simp, by simp⟩
    simp [Section.events, hthread]
  | _ => exact hin.elim

/-- **Critical sections are serial.** For both kinds of locks and in every interleaving of `lock`,
`try_lock` and `unlock` calls, access by access: what the owners of a lock have done is a row of
whole critical sections, each with its own wait sample (unless it came from `try_lock`), its own
stamp and its own hold sample. The lock is free exactly between two of them, and otherwise has one
owner, in the middle of the last one. No duration is negative, and each bucket of the histogram
counts the samples in its interval, modulo `2 ^ 64`. -/
theorem critical_sections_serial (kind : LockKind) (as : List Action) :
    let st := (machine kind).run {} as
    (∀ l, ∃ (done : List Section) (part : List Event), (∀ s ∈ done, s.Ordered) ∧
      st.history l = done.flatMap Section.events ++ part ∧
      (st.locked l = false → part = [] ∧ ∀ t, ¬ st.Owns t l) ∧
      (st.locked l = true → ∃ (s : Section) (rest : List Event), s.Ordered ∧
        s.events = part ++ rest ∧ part ≠ [] ∧ rest ≠ [] ∧ ∀ t, st.Owns t l ↔ t = s.thread)) ∧
    ∀ b, st.waitBuckets b = st.log.countP (fun x => x.2.isWait b) % 2 ^ 64 ∧
      st.holdBuckets b = st.log.countP (fun x => x.2.isHold b) % 2 ^ 64 := by
  intro st
  have hinv : Inv st := (machine kind).run_invariant (fun _ a h => h.next kind a) inv_init as
  refine ⟨fun l => ?_, fun b => ⟨hinv.waits b, hinv.holds b⟩⟩
  obtain ⟨done, part, hdone, hsplit, hcur⟩ := hinv.serial l
  refine ⟨done, part, hdone, hsplit, fun hfree => ?_, fun hset => ?_⟩
  · rcases hcur with ⟨-, hpart, hnone⟩ | ⟨hset, -⟩
    · exact ⟨hpart, hnone⟩
    · rw [hfree] at hset
      exact absurd hset (by simp)
  · rcases hcur with ⟨hfree, -⟩ | ⟨-, t, ht, honly, hin⟩
    · rw [hset] at hfree
      exact absurd hfree (by simp)
    · obtain ⟨s, rest, rfl, hordered, hevents, hpart, hrest⟩ := hin.beginning hinv.clock_le
      refine ⟨s, rest, hordered, hevents, hpart, hrest, fun u => ⟨honly u, fun hu => ?_⟩⟩
      rw [hu]
      exact ht

end SpinLock

end Ammalloc
