import Mathlib.Logic.Relation
import Ammalloc.Lib.Machine

set_option relaxedAutoImplicit false
set_option autoImplicit false

/-!
# Programs that take locks

A small language for threads that share a state and a set of locks. A program takes and drops
locks, makes atomic accesses to the shared state and continues according to what they return, and
jumps to labels, which is how it loops. An access gets an input from outside, so that it may be
answered in any way. Any number of threads run such programs, interleaved at every instruction; a
thread that wants a lock with an owner waits.

The rules of a weakest precondition track the locks that a thread holds. They ask that a lock is
taken only while locks are held that a relation `R` allows, that only held locks are dropped, and
that fatal ends are not reached.

## Main definitions

* `LockProgram`, `LockProgram.Safe` — programs, and the weakest precondition.
* `LockCode` — the bodies of all labels, and the operations a thread may call.
* `LockSystem`, `LockCode.machine` — threads and locks, and their runs.

## Main results

* `LockProgram.safe_bind` — the rule of composition.
* `LockCode.Verified.disciplined` — code whose labels are safe keeps to `R` in every run.
* `LockSystem.Disciplined.no_cycle` — if `R` goes up in rank, then no threads wait in a cycle.
-/

/-- A program over locks `L`, a shared state `σ`, inputs `ι`, errors `ε` and labels `F`, that
returns an `α`. -/
inductive LockProgram (L σ ι ε F α : Type) : Type 1
  | ret (a : α)
  /-- Continue with the body of a label. -/
  | goto (f : F)
  /-- End the process. -/
  | fatal (message : String)
  | acquire (l : L) (k : LockProgram L σ ι ε F α)
  | release (l : L) (k : LockProgram L σ ι ε F α)
  /-- An atomic access; an error ends the process. -/
  | atomic {β : Type} (f : ι → σ → Except ε (σ × β)) (k : β → LockProgram L σ ι ε F α)

namespace LockProgram

variable {L σ ι ε F α β : Type}

/-- Run `p`, then continue with its result. -/
def bind : LockProgram L σ ι ε F α → (α → LockProgram L σ ι ε F β) → LockProgram L σ ι ε F β
  | ret a, g => g a
  | goto f, _ => goto f
  | fatal message, _ => fatal message
  | acquire l k, g => acquire l (k.bind g)
  | release l k, g => release l (k.bind g)
  | atomic f k, g => atomic f fun b => (k b).bind g

instance : Monad (LockProgram L σ ι ε F) where
  pure := ret
  bind := bind

/-- Take a lock. -/
def lock (l : L) : LockProgram L σ ι ε F Unit := acquire l (ret ())

/-- Drop a lock. -/
def unlock (l : L) : LockProgram L σ ι ε F Unit := release l (ret ())

/-- Access the shared state. -/
def access (f : ι → σ → Except ε (σ × β)) : LockProgram L σ ι ε F β := atomic f ret

/-! ## The weakest precondition -/

section Safe

variable (R : L → L → Prop) (inv : F → Set L → Prop)

/-- With the locks `H` held, the program takes a lock only if `R` allows it for every lock held,
drops only what it holds, never dies in `fatal`, and ends in `Q`, or at a label whose condition
`inv` holds. -/
def Safe (Q : α → Set L → Prop) : LockProgram L σ ι ε F α → Set L → Prop
  | ret a, H => Q a H
  | goto f, H => inv f H
  | fatal _, _ => False
  | acquire l k, H => (∀ h ∈ H, R h l) ∧ k.Safe Q (insert l H)
  | release l k, H => l ∈ H ∧ k.Safe Q (H \ {l})
  | atomic f k, H => ∀ i s s' b, f i s = .ok (s', b) → (k b).Safe Q H

variable {R inv} {Q : α → Set L → Prop} {H : Set L}

@[simp] lemma safe_pure (a : α) :
    (pure a : LockProgram L σ ι ε F α).Safe R inv Q H ↔ Q a H := Iff.rfl

@[simp] lemma safe_goto (f : F) :
    (goto f : LockProgram L σ ι ε F α).Safe R inv Q H ↔ inv f H := Iff.rfl

@[simp] lemma safe_lock {Q : Unit → Set L → Prop} (l : L) :
    (lock l : LockProgram L σ ι ε F Unit).Safe R inv Q H ↔
      (∀ h ∈ H, R h l) ∧ Q () (insert l H) := Iff.rfl

@[simp] lemma safe_unlock {Q : Unit → Set L → Prop} (l : L) :
    (unlock l : LockProgram L σ ι ε F Unit).Safe R inv Q H ↔ l ∈ H ∧ Q () (H \ {l}) := Iff.rfl

@[simp] lemma safe_access (f : ι → σ → Except ε (σ × α)) :
    (access f : LockProgram L σ ι ε F α).Safe R inv Q H ↔
      ∀ i s s' b, f i s = .ok (s', b) → Q b H := Iff.rfl

/-- **The rule of composition**: the weakest precondition of the rest is the postcondition of the
beginning. -/
@[simp] theorem safe_bind {Q : β → Set L → Prop} (p : LockProgram L σ ι ε F α)
    (g : α → LockProgram L σ ι ε F β) :
    (p >>= g).Safe R inv Q H ↔ p.Safe R inv (fun a => (g a).Safe R inv Q) H := by
  change (p.bind g).Safe R inv Q H ↔ _
  induction p generalizing H with
  | ret a => exact Iff.rfl
  | goto f => exact Iff.rfl
  | fatal message => exact Iff.rfl
  | acquire l k ih => exact and_congr_right fun _ => ih
  | release l k ih => exact and_congr_right fun _ => ih
  | atomic f k ih =>
    exact forall_congr' fun i => forall_congr' fun s => forall_congr' fun s' =>
      forall_congr' fun b => imp_congr_right fun _ => ih b

end Safe

end LockProgram

/-! ## Threads -/

/-- The body of every label, and the label at which an operation starts. -/
structure LockCode (L σ ι ε F O : Type) where
  body : F → LockProgram L σ ι ε F Unit
  entry : O → F

/-- The shared state, the owner of every lock, what every thread has still to do, and how the
process died: in an access, or in `fatal`. -/
structure LockSystem (L σ ι ε F : Type) where
  shared : σ
  owner : L → Option ℕ := fun _ => none
  threads : ℕ → LockProgram L σ ι ε F Unit := fun _ => .ret ()
  died : Option ε := none
  fatal : Option String := none

/-- What happens next: a thread calls an operation, or runs its next instruction. -/
inductive LockAction (ι O : Type)
  | call (t : ℕ) (op : O)
  | step (t : ℕ) (i : ι)

namespace LockSystem

variable {L σ ι ε F O : Type} [DecidableEq L]

/-- Replace what thread `t` has to do. -/
def setThread (st : LockSystem L σ ι ε F) (t : ℕ) (p : LockProgram L σ ι ε F Unit) :
    LockSystem L σ ι ε F :=
  { st with threads := Function.update st.threads t p }

/-- The next instruction of thread `t`. A thread that has returned does nothing, and so does one
that waits for a lock. -/
def exec (C : LockCode L σ ι ε F O) (st : LockSystem L σ ι ε F) (t : ℕ) (i : ι) :
    LockSystem L σ ι ε F :=
  match st.threads t with
  | .ret _ => st
  | .goto f => st.setThread t (C.body f)
  | .fatal message => { st with fatal := some message }
  | .acquire l k =>
    if st.owner l = none then
      { st with owner := Function.update st.owner l (some t) }.setThread t k
    else st
  | .release l k => { st with owner := Function.update st.owner l none }.setThread t k
  | .atomic f k =>
    match f i st.shared with
    | .ok (s, b) => { st with shared := s }.setThread t (k b)
    | .error e => { st with died := some e }

/-- One action. A dead process does nothing. -/
def next (C : LockCode L σ ι ε F O) (st : LockSystem L σ ι ε F) (a : LockAction ι O) :
    LockSystem L σ ι ε F :=
  if st.died.isSome ∨ st.fatal.isSome then st
  else
    match a with
    | .call t op =>
      match st.threads t with
      | .ret _ => st.setThread t (.goto (C.entry op))
      | _ => st
    | .step t i => st.exec C t i

/-- The locks of thread `t`. -/
def held (st : LockSystem L σ ι ε F) (t : ℕ) : Set L := {l | st.owner l = some t}

/-- Thread `t` has called nothing, or its call has returned. -/
def Returned (st : LockSystem L σ ι ε F) (t : ℕ) : Prop := st.threads t = .ret ()

/-- The next instruction of `t` is to take lock `l`. -/
def Attempts (st : LockSystem L σ ι ε F) (t : ℕ) (l : L) : Prop :=
  ∃ k, st.threads t = .acquire l k

/-- Thread `t` waits for a lock of `u`. -/
def WaitsFor (st : LockSystem L σ ι ε F) (t u : ℕ) : Prop :=
  ∃ l, st.Attempts t l ∧ st.owner l = some u

end LockSystem

/-- The runs of the code, from a set of shared states, with no thread inside a call. -/
def LockCode.machine {L σ ι ε F O : Type} [DecidableEq L] (C : LockCode L σ ι ε F O)
    (init : Set σ) : Machine (LockSystem L σ ι ε F) (LockAction ι O) where
  init := {st | ∃ s ∈ init, st = { shared := s }}
  next := LockSystem.next C

/-! ## Soundness -/

/-- The body of every label is safe from the condition of the label, and operations start with no
lock. -/
structure LockCode.Verified {L σ ι ε F O : Type} (C : LockCode L σ ι ε F O) (R : L → L → Prop)
    (inv : F → Set L → Prop) : Prop where
  body : ∀ f H, inv f H → (C.body f).Safe R inv (fun _ H => H = ∅) H
  entry : ∀ op, inv (C.entry op) ∅

namespace LockSystem

variable {L σ ι ε F O : Type} {R : L → L → Prop} {inv : F → Set L → Prop}

/-- Every thread is safe with the locks that it holds, and the process has not died in `fatal`. -/
structure Disciplined (R : L → L → Prop) (inv : F → Set L → Prop)
    (st : LockSystem L σ ι ε F) : Prop where
  safe : ∀ t, (st.threads t).Safe R inv (fun _ H => H = ∅) (st.held t)
  fatal : st.fatal = none

variable {st : LockSystem L σ ι ε F} {t : ℕ}

/-- Thread `t` continues with `p`, holding `H`, and the locks of the others are as before. -/
lemma Disciplined.act (h : st.Disciplined R inv) {st' : LockSystem L σ ι ε F}
    {p : LockProgram L σ ι ε F Unit} {H : Set L} (hfatal : st'.fatal = st.fatal)
    (hthreads : st'.threads = Function.update st.threads t p) (ht : st'.held t = H)
    (hother : ∀ u, u ≠ t → st'.held u = st.held u)
    (hsafe : p.Safe R inv (fun _ H => H = ∅) H) : st'.Disciplined R inv := by
  refine ⟨fun u => ?_, hfatal.trans h.fatal⟩
  rw [hthreads]
  by_cases hu : u = t
  · rw [hu, Function.update_self, ht]
    exact hsafe
  · rw [Function.update_of_ne hu, hother u hu]
    exact h.safe u

/-- What a thread attempts is allowed by every lock that it holds. -/
lemma Disciplined.attempts (h : st.Disciplined R inv) {l : L} (ha : st.Attempts t l) :
    ∀ m ∈ st.held t, R m l := by
  obtain ⟨k, hk⟩ := ha
  have ht := h.safe t
  rw [hk] at ht
  exact ht.1

/-- A call that has returned holds nothing. -/
lemma Disciplined.returned (h : st.Disciplined R inv) (hr : st.Returned t) : st.held t = ∅ := by
  have ht := h.safe t
  rw [hr] at ht
  exact ht

/-- No thread is about to die in `fatal`. -/
lemma Disciplined.not_fatal (h : st.Disciplined R inv) (t : ℕ) (message : String) :
    st.threads t ≠ .fatal message := by
  intro hm
  have ht := h.safe t
  rw [hm] at ht
  exact ht

/-- Along a chain of waiting threads the awaited locks go up in rank.

**Proof sketch.** The lock that a thread waits for is held by the next one, and what that one
attempts is allowed above it. -/
lemma Disciplined.rank_lt (h : st.Disciplined R inv) {rank : L → ℕ}
    (hrank : ∀ m l, R m l → rank m < rank l) {u : ℕ} (hw : Relation.TransGen st.WaitsFor t u)
    {l m : L} (hl : st.Attempts t l) (hm : st.Attempts u m) : rank l < rank m := by
  have attempts_unique : ∀ {v : ℕ} {a b : L}, st.Attempts v a → st.Attempts v b → a = b := by
    rintro v a b ⟨k, hk⟩ ⟨k', hk'⟩
    rw [hk] at hk'
    exact (LockProgram.acquire.inj hk').1
  induction hw generalizing m with
  | single hw =>
    obtain ⟨a, ha, hown⟩ := hw
    rw [attempts_unique hl ha]
    exact hrank a m (h.attempts hm a hown)
  | tail _ hw ih =>
    obtain ⟨a, ha, hown⟩ := hw
    exact (ih ha).trans (hrank a m (h.attempts hm a hown))

/-- **No deadlock**: if locks are taken in the order of a rank, no threads wait in a cycle. -/
theorem Disciplined.no_cycle (h : st.Disciplined R inv) {rank : L → ℕ}
    (hrank : ∀ m l, R m l → rank m < rank l) (t : ℕ) : ¬ Relation.TransGen st.WaitsFor t t := by
  intro hw
  obtain ⟨u, ⟨l, hl, -⟩, -⟩ := Relation.TransGen.head'_iff.mp hw
  exact lt_irrefl _ (h.rank_lt hrank hw hl hl)

/-! ### Steps -/

variable [DecidableEq L]

/-- A lock without an owner is taken. -/
lemma held_take {l : L} (hl : st.owner l = none) (p : LockProgram L σ ι ε F Unit) (u : ℕ) :
    ({ st with owner := Function.update st.owner l (some t) }.setThread t p).held u =
      if u = t then insert l (st.held t) else st.held u := by
  ext m
  by_cases hm : m = l
  · subst hm
    by_cases hu : u = t
    · simp [held, setThread, hu]
    · simp [held, setThread, hu, hl, Ne.symm hu]
  · split
    next hu => simp [held, setThread, hm, hu]
    next hu => simp [held, setThread, hm]

/-- A lock is dropped by its owner. -/
lemma held_drop {l : L} (hl : l ∈ st.held t) (p : LockProgram L σ ι ε F Unit) (u : ℕ) :
    ({ st with owner := Function.update st.owner l none }.setThread t p).held u =
      if u = t then st.held t \ {l} else st.held u := by
  have hl : st.owner l = some t := hl
  ext m
  by_cases hm : m = l
  · subst hm
    by_cases hu : u = t
    · simp [held, setThread, hu]
    · simp [held, setThread, hu, hl, Ne.symm hu]
  · split
    next hu => simp [held, setThread, hm, hu]
    next hu => simp [held, setThread, hm]

/-- **One instruction** keeps every thread safe: the rules of the weakest precondition follow the
instructions. -/
lemma Disciplined.exec {C : LockCode L σ ι ε F O} (hC : C.Verified R inv)
    (h : st.Disciplined R inv) (t : ℕ) (i : ι) : (st.exec C t i).Disciplined R inv := by
  have ht := h.safe t
  unfold LockSystem.exec
  cases hp : st.threads t with
  | ret a => exact h
  | goto f =>
    rw [hp] at ht
    exact h.act rfl rfl rfl (fun _ _ => rfl) (hC.body f _ ht)
  | fatal message =>
    rw [hp] at ht
    exact ht.elim
  | acquire l k =>
    rw [hp] at ht
    dsimp only
    split
    next hl =>
      refine h.act rfl rfl (held_take hl k t) (fun u hu => ?_) ?_
      · rw [held_take hl k u, if_neg hu]
      · rw [if_pos rfl]
        exact ht.2
    next => exact h
  | release l k =>
    rw [hp] at ht
    refine h.act rfl rfl (held_drop ht.1 k t) (fun u hu => ?_) ?_
    · rw [held_drop ht.1 k u, if_neg hu]
    · rw [if_pos rfl]
      exact ht.2
  | atomic f k =>
    rw [hp] at ht
    dsimp only
    split
    next s b hf => exact h.act rfl rfl rfl (fun _ _ => rfl) (ht i st.shared s b hf)
    next => exact ⟨h.safe, h.fatal⟩

/-- **One action** keeps every thread safe. -/
lemma Disciplined.next {C : LockCode L σ ι ε F O} (hC : C.Verified R inv)
    (h : st.Disciplined R inv) (a : LockAction ι O) : (st.next C a).Disciplined R inv := by
  unfold LockSystem.next
  split
  · exact h
  · cases a with
    | call t op =>
      dsimp only
      split
      next hp =>
        have hfree : st.held t = ∅ := by
          have ht := h.safe t
          rw [hp] at ht
          exact ht
        exact h.act rfl rfl hfree (fun _ _ => rfl) (hC.entry op)
      next => exact h
    | step t i => exact h.exec hC t i

end LockSystem

/-- **Soundness**: code whose labels are safe is disciplined in every reachable state. -/
theorem LockCode.Verified.disciplined {L σ ι ε F O : Type} [DecidableEq L]
    {C : LockCode L σ ι ε F O} {R : L → L → Prop} {inv : F → Set L → Prop} (hC : C.Verified R inv)
    {init : Set σ} {st : LockSystem L σ ι ε F} (h : (C.machine init).Reachable st) :
    st.Disciplined R inv := by
  refine h.invariant (fun s hs => ?_) (fun s a hs => hs.next hC a)
  obtain ⟨x, -, rfl⟩ := hs
  refine ⟨fun t => ?_, rfl⟩
  change LockSystem.held _ t = ∅
  simp [LockSystem.held]
