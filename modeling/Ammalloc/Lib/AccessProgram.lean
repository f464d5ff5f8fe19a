import Ammalloc.Lib.FamilySum
import Ammalloc.Lib.Machine

set_option relaxedAutoImplicit false
set_option autoImplicit false

/-!
# Programs that account for their accesses

A program makes accesses to its surroundings, each of which is answered by a value, and returns a
result. It can be run alone, against a state that answers, or any number of programs can run as
calls of threads, interleaved at every access. An access has a cost, in a commutative monoid, and
the shared state keeps the total.

The weakest precondition `Spends` says what a program returns and what it has spent by then,
whatever the answers are. If all calls obey one, then whenever no call is in progress the shared
total is the sum of what the finished calls account for, in whichever way they were interleaved.

## Main definitions

* `AccessProgram`, `AccessProgram.exec` — programs, and their runs alone.
* `AccessProgram.Spends` — the weakest precondition.
* `CallSystem`, `CallSystem.machine` — calls of any number of threads.

## Main results

* `AccessProgram.spends_bind`, `AccessProgram.exec_bind` — the rules of composition.
* `CallSystem.run_alone` — a call that nothing interferes with.
* `CallSystem.Accounts.next` — an access of one call.
* `CallSystem.finished_accounts` — the total when no call is in progress.
-/

/-- A program that makes accesses `e`, each answered by an `A e`, and returns an `α`. -/
inductive AccessProgram (E : Type) (A : E → Type) (α : Type) : Type
  | ret (a : α)
  | access (e : E) (k : A e → AccessProgram E A α)

namespace AccessProgram

variable {E : Type} {A : E → Type} {α β σ M : Type}

/-- Run `p`, then continue with its result. -/
def bind : AccessProgram E A α → (α → AccessProgram E A β) → AccessProgram E A β
  | ret a, g => g a
  | access e k, g => access e fun b => (k b).bind g

instance : Monad (AccessProgram E A) where
  pure := ret
  bind := bind

/-- A single access. -/
def perform (e : E) : AccessProgram E A (A e) := access e ret

/-! ## Running alone -/

/-- The result, and the state that has answered all accesses. -/
def exec (h : (e : E) → σ → A e × σ) : AccessProgram E A α → σ → α × σ
  | ret a, s => (a, s)
  | access e k, s => (k (h e s).1).exec h (h e s).2

section Exec

variable (h : (e : E) → σ → A e × σ)

@[simp] lemma exec_pure (a : α) (s : σ) : (pure a : AccessProgram E A α).exec h s = (a, s) := rfl

@[simp] lemma exec_perform (e : E) (s : σ) : (perform e).exec h s = h e s := rfl

/-- The parts of a program run one after the other. -/
@[simp] lemma exec_bind (p : AccessProgram E A α) (g : α → AccessProgram E A β) (s : σ) :
    (p >>= g).exec h s = (g (p.exec h s).1).exec h (p.exec h s).2 := by
  change (p.bind g).exec h s = _
  induction p generalizing s with
  | ret a => rfl
  | access e k ih => exact ih _ _

end Exec

/-! ## The weakest precondition -/

section Spends

variable [AddCommMonoid M] (ok : (e : E) → A e → Prop) (cost : (e : E) → A e → M)

/-- After `c` has been spent, the program ends in `Q`, whatever allowed answers it gets. -/
def Spends (Q : α → M → Prop) : AccessProgram E A α → M → Prop
  | ret a, c => Q a c
  | access e k, c => ∀ b, ok e b → (k b).Spends Q (c + cost e b)

variable {ok cost} {c : M}

@[simp] lemma spends_pure {Q : α → M → Prop} (a : α) :
    (pure a : AccessProgram E A α).Spends ok cost Q c ↔ Q a c := Iff.rfl

@[simp] lemma spends_perform {e : E} {Q : A e → M → Prop} :
    (perform e).Spends ok cost Q c ↔ ∀ b, ok e b → Q b (c + cost e b) := Iff.rfl

/-- **The rule of composition.** -/
@[simp] lemma spends_bind {Q : β → M → Prop} (p : AccessProgram E A α)
    (g : α → AccessProgram E A β) :
    (p >>= g).Spends ok cost Q c ↔ p.Spends ok cost (fun a c => (g a).Spends ok cost Q c) c := by
  change (p.bind g).Spends ok cost Q c ↔ _
  induction p generalizing c with
  | ret a => exact Iff.rfl
  | access e k ih => exact forall_congr' fun b => imp_congr_right fun _ => ih b

/-- **The rule of consequence.** -/
lemma Spends.mono {Q Q' : α → M → Prop} {p : AccessProgram E A α} (h : p.Spends ok cost Q c)
    (hQ : ∀ a c, Q a c → Q' a c) : p.Spends ok cost Q' c := by
  induction p generalizing c with
  | ret a => exact hQ a c h
  | access e k ih => exact fun b hb => ih b (h b hb)

end Spends

end AccessProgram

/-! ## Threads -/

/-- Calls of operations `Op`: those in progress, with what they have still to do, and those that
have returned, with their results. -/
structure CallSystem (Op E : Type) (A : E → Type) (α σ : Type) where
  shared : σ
  running : ℕ → Option (Op × AccessProgram E A α) := fun _ => none
  finished : List (Op × α) := []

/-- A thread calls an operation, or takes its next step, with an input from outside. -/
inductive CallAction (Op ι : Type)
  | call (t : ℕ) (op : Op)
  | step (t : ℕ) (i : ι)

namespace CallSystem

variable {Op E : Type} {A : E → Type} {α σ ι M : Type}

/-- The next access of thread `t`, or its return. -/
def step (handle : (e : E) → ι → σ → A e × σ) (st : CallSystem Op E A α σ) (t : ℕ) (i : ι) :
    CallSystem Op E A α σ :=
  match st.running t with
  | none => st
  | some (op, .ret a) =>
    { st with
      running := Function.update st.running t none
      finished := st.finished ++ [(op, a)] }
  | some (op, .access e k) =>
    { st with
      shared := (handle e i st.shared).2
      running := Function.update st.running t (some (op, k (handle e i st.shared).1)) }

/-- One action. A thread makes one call at a time. -/
def next (body : Op → AccessProgram E A α) (handle : (e : E) → ι → σ → A e × σ)
    (st : CallSystem Op E A α σ) : CallAction Op ι → CallSystem Op E A α σ
  | .call t op =>
    match st.running t with
    | none => { st with running := Function.update st.running t (some (op, body op)) }
    | some _ => st
  | .step t i => st.step handle t i

/-- The runs from a set of shared states, with no call in progress. -/
def machine (body : Op → AccessProgram E A α) (handle : (e : E) → ι → σ → A e × σ)
    (init : Set σ) : Machine (CallSystem Op E A α σ) (CallAction Op ι) where
  init := { st | ∃ s ∈ init, st = { shared := s } }
  next := next body handle

/-- No call is in progress. -/
def Quiet (st : CallSystem Op E A α σ) : Prop := ∀ t, st.running t = none

/-! ### One thread alone -/

section Alone

variable {body : Op → AccessProgram E A α} {handle : (e : E) → ι → σ → A e × σ} (init : Set σ)

/-- A call in progress that nothing interferes with returns. -/
lemma run_steps {st : CallSystem Op E A α σ} {t : ℕ} {op : Op} {p : AccessProgram E A α}
    (ht : st.running t = some (op, p)) (i : ι) :
    ∃ k, (machine body handle init).run st (List.replicate k (.step t i)) =
      { shared := (p.exec (fun e => handle e i) st.shared).2
        running := Function.update st.running t none
        finished := st.finished ++ [(op, (p.exec (fun e => handle e i) st.shared).1)] } := by
  induction p generalizing st with
  | ret a =>
    refine ⟨1, ?_⟩
    show st.step handle t i = _
    simp only [step, ht]
    rfl
  | access e k ih =>
    have hstep : st.step handle t i =
        { st with
          shared := (handle e i st.shared).2
          running := Function.update st.running t (some (op, k (handle e i st.shared).1)) } := by
      simp only [step, ht]
    have hrunning : (st.step handle t i).running t = some (op, k (handle e i st.shared).1) := by
      rw [hstep]
      exact Function.update_self ..
    obtain ⟨n, hn⟩ := ih (handle e i st.shared).1 hrunning
    refine ⟨n + 1, ?_⟩
    show (machine body handle init).run (st.step handle t i) (List.replicate n (.step t i)) = _
    rw [hn, hstep]
    simp only [Function.update_idem]
    rfl

/-- **A call that runs alone** returns what its program returns, and nothing of it is left. -/
lemma run_alone {st : CallSystem Op E A α σ} {t : ℕ} (ht : st.running t = none) (op : Op) (i : ι) :
    ∃ as, (machine body handle init).run st as =
      { st with
        shared := ((body op).exec (fun e => handle e i) st.shared).2
        finished := st.finished ++
          [(op, ((body op).exec (fun e => handle e i) st.shared).1)] } := by
  have hcall : st.next body handle (.call t op) =
      { st with running := Function.update st.running t (some (op, body op)) } := by
    simp only [next, ht]
  have hrunning : (st.next body handle (.call t op)).running t = some (op, body op) := by
    rw [hcall]
    exact Function.update_self ..
  obtain ⟨k, hk⟩ : ∃ k, (machine body handle init).run (st.next body handle (.call t op))
      (List.replicate k (.step t i)) = _ := run_steps init hrunning i
  refine ⟨.call t op :: List.replicate k (.step t i), ?_⟩
  show (machine body handle init).run (st.next body handle (.call t op)) _ = _
  rw [hk, hcall]
  simp only [Function.update_idem]
  congr 1
  rw [← ht, Function.update_eq_self]

end Alone

section Accounts

variable [AddCommMonoid M] {body : Op → AccessProgram E A α}
  {handle : (e : E) → ι → σ → A e × σ} {ok : (e : E) → A e → Prop} {cost : (e : E) → A e → M}
  {Q : Op → α → M → Prop} {Total : M → σ → Prop}

/-- **The books of the threads**: what every call in progress has spent, what every finished call
has spent, and that the shared state has the total. -/
structure Accounts (ok : (e : E) → A e → Prop) (cost : (e : E) → A e → M)
    (Q : Op → α → M → Prop) (Total : M → σ → Prop) (threads : Finset ℕ) (spent : ℕ → M)
    (costs : List M) (st : CallSystem Op E A α σ) : Prop where
  idle : ∀ t, st.running t = none → spent t = 0
  quiet : ∀ t, t ∉ threads → st.running t = none
  running : ∀ t op p, st.running t = some (op, p) → p.Spends ok cost (Q op) (spent t)
  finished : List.Forall₂ (fun f m => Q f.1 f.2 m) st.finished costs
  total : Total (costs.sum + ∑ t ∈ threads, spent t) st.shared

namespace Accounts

variable {threads : Finset ℕ} {spent : ℕ → M} {costs : List M} {st : CallSystem Op E A α σ}

/-- With no call in progress nothing has been spent but by finished calls. -/
lemma total_of_quiet (h : Accounts ok cost Q Total threads spent costs st) (hquiet : st.Quiet) :
    Total costs.sum st.shared := by
  have hsum : ∑ t ∈ threads, spent t = 0 := Finset.sum_eq_zero fun t _ => h.idle t (hquiet t)
  have htotal := h.total
  rwa [hsum, add_zero] at htotal

/-- A thread that is in a call is in the books. -/
lemma mem_threads (h : Accounts ok cost Q Total threads spent costs st) {t : ℕ}
    {r : Op × AccessProgram E A α} (hr : st.running t = some r) : t ∈ threads := by
  by_contra ht
  rw [h.quiet t ht] at hr
  cases hr

/-- A thread starts a call. -/
lemma call (h : Accounts ok cost Q Total threads spent costs st)
    (hbody : ∀ op, (body op).Spends ok cost (Q op) 0) {t : ℕ} (ht : st.running t = none) (op : Op) :
    Accounts ok cost Q Total (insert t threads) spent costs
      { st with running := Function.update st.running t (some (op, body op)) } where
  idle u hu := by
    by_cases hut : u = t
    · rw [hut]
      exact h.idle t ht
    · exact h.idle u ((Function.update_of_ne hut _ _).symm.trans hu)
  quiet u hu := by
    rw [Finset.mem_insert, not_or] at hu
    exact (Function.update_of_ne hu.1 _ _).trans (h.quiet u hu.2)
  running u op' p hp := by
    by_cases hut : u = t
    · subst hut
      have heq : some (op, body op) = some (op', p) :=
        (Function.update_self u (some (op, body op)) st.running).symm.trans hp
      cases heq
      rw [h.idle u ht]
      exact hbody op
    · exact h.running u op' p ((Function.update_of_ne hut _ _).symm.trans hp)
  finished := h.finished
  total := by
    have hsum : ∑ u ∈ insert t threads, spent u = ∑ u ∈ threads, spent u := by
      by_cases hmem : t ∈ threads
      · rw [Finset.insert_eq_of_mem hmem]
      · rw [Finset.sum_insert hmem, h.idle t ht, zero_add]
    rw [hsum]
    exact h.total

/-- A thread returns from its call. -/
lemma ret (h : Accounts ok cost Q Total threads spent costs st) {t : ℕ} {op : Op} {a : α}
    (ht : st.running t = some (op, .ret a)) :
    Accounts ok cost Q Total threads (Function.update spent t 0) (costs ++ [spent t])
      { st with
        running := Function.update st.running t none
        finished := st.finished ++ [(op, a)] } where
  idle u hu := by
    by_cases hut : u = t
    · rw [hut, Function.update_self]
    · rw [Function.update_of_ne hut]
      exact h.idle u ((Function.update_of_ne hut _ _).symm.trans hu)
  quiet u hu := by
    by_cases hut : u = t
    · rw [hut]
      exact Function.update_self ..
    · exact (Function.update_of_ne hut _ _).trans (h.quiet u hu)
  running u op' p hp := by
    by_cases hut : u = t
    · subst hut
      cases (Function.update_self ..).symm.trans hp
    · rw [Function.update_of_ne hut]
      exact h.running u op' p ((Function.update_of_ne hut _ _).symm.trans hp)
  finished := List.rel_append h.finished (.cons (h.running t op _ ht) .nil)
  total := by
    have hmem := h.mem_threads ht
    have hsum : ∑ u ∈ threads, Function.update spent t 0 u = 0 + ∑ u ∈ threads.erase t, spent u :=
      FamilySum.sum_update_erase threads spent id hmem 0
    have htotal := h.total
    rw [← Finset.add_sum_erase threads spent hmem, ← add_assoc] at htotal
    rw [hsum, zero_add, List.sum_append, List.sum_singleton]
    exact htotal

/-- A thread makes an access. -/
lemma access (h : Accounts ok cost Q Total threads spent costs st)
    (hok : ∀ e i s, ok e (handle e i s).1)
    (htotal : ∀ e i s m, Total m s → Total (m + cost e (handle e i s).1) (handle e i s).2)
    {t : ℕ} {op : Op} {e : E} {k : A e → AccessProgram E A α}
    (ht : st.running t = some (op, .access e k)) (i : ι) :
    Accounts ok cost Q Total threads
      (Function.update spent t (spent t + cost e (handle e i st.shared).1)) costs
      { st with
        shared := (handle e i st.shared).2
        running := Function.update st.running t (some (op, k (handle e i st.shared).1)) } where
  idle u hu := by
    by_cases hut : u = t
    · subst hut
      cases (Function.update_self ..).symm.trans hu
    · rw [Function.update_of_ne hut]
      exact h.idle u ((Function.update_of_ne hut _ _).symm.trans hu)
  quiet u hu := by
    have hut : u ≠ t := fun heq => hu (heq ▸ h.mem_threads ht)
    exact (Function.update_of_ne hut _ _).trans (h.quiet u hu)
  running u op' p hp := by
    by_cases hut : u = t
    · subst hut
      have heq : some (op, k (handle e i st.shared).1) = some (op', p) :=
        (Function.update_self u _ st.running).symm.trans hp
      cases heq
      rw [Function.update_self]
      exact h.running u op _ ht _ (hok e i st.shared)
    · rw [Function.update_of_ne hut]
      exact h.running u op' p ((Function.update_of_ne hut _ _).symm.trans hp)
  finished := h.finished
  total := by
    have hmem := h.mem_threads ht
    have hsum : ∀ v, ∑ u ∈ threads, Function.update spent t v u =
        v + ∑ u ∈ threads.erase t, spent u :=
      FamilySum.sum_update_erase threads spent id hmem
    have hnew := htotal e i st.shared _ h.total
    rw [← Finset.add_sum_erase threads spent hmem] at hnew
    rw [hsum]
    convert hnew using 1
    abel

/-- **One action** of one thread, in whichever order the threads take theirs. -/
lemma next (h : Accounts ok cost Q Total threads spent costs st)
    (hbody : ∀ op, (body op).Spends ok cost (Q op) 0) (hok : ∀ e i s, ok e (handle e i s).1)
    (htotal : ∀ e i s m, Total m s → Total (m + cost e (handle e i s).1) (handle e i s).2)
    (a : CallAction Op ι) : ∃ threads spent costs,
      Accounts ok cost Q Total threads spent costs (st.next body handle a) := by
  cases a with
  | call t op =>
    cases ht : st.running t with
    | none =>
      refine ⟨insert t threads, spent, costs, ?_⟩
      simp only [CallSystem.next, ht]
      exact h.call hbody ht op
    | some r =>
      refine ⟨threads, spent, costs, ?_⟩
      simp only [CallSystem.next, ht]
      exact h
  | step t i =>
    show ∃ threads spent costs, Accounts ok cost Q Total threads spent costs (st.step handle t i)
    unfold CallSystem.step
    split
    next => exact ⟨threads, spent, costs, h⟩
    next op a ht => exact ⟨_, _, _, h.ret ht⟩
    next op e k ht => exact ⟨_, _, _, h.access hok htotal ht i⟩

end Accounts

/-- **The total of the finished calls**: whenever no call is in progress, the shared state has the
sum of what the finished calls spent, each as its postcondition says. -/
theorem finished_accounts (hbody : ∀ op, (body op).Spends ok cost (Q op) 0)
    (hok : ∀ e i s, ok e (handle e i s).1)
    (htotal : ∀ e i s m, Total m s → Total (m + cost e (handle e i s).1) (handle e i s).2)
    {s : σ} (hs : Total 0 s) (init : Set σ) (as : List (CallAction Op ι))
    (hquiet : ((machine body handle init).run { shared := s } as).Quiet) :
    ∃ costs, List.Forall₂ (fun f m => Q f.1 f.2 m)
        ((machine body handle init).run { shared := s } as).finished costs ∧
      Total costs.sum ((machine body handle init).run { shared := s } as).shared := by
  have hstart : Accounts ok cost Q Total ∅ (fun _ => 0) []
      ({ shared := s } : CallSystem Op E A α σ) :=
    ⟨fun _ _ => rfl, fun _ _ => rfl, fun _ _ _ hp => absurd hp (by simp), .nil, by simpa using hs⟩
  obtain ⟨threads, spent, costs, h⟩ := Machine.run_invariant (M := machine body handle init)
    (I := fun st => ∃ threads spent costs, Accounts ok cost Q Total threads spent costs st)
    (fun _ a ⟨_, _, _, h⟩ => h.next hbody hok htotal a) ⟨_, _, _, hstart⟩ as
  exact ⟨costs, h.finished, h.total_of_quiet hquiet⟩

end Accounts

end CallSystem
