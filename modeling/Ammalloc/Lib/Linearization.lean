import Ammalloc.Lib.Machine

set_option relaxedAutoImplicit false
set_option autoImplicit false

/-!
# Linearization

Threads call operations of a shared object, and their steps interleave. Each action of a run leaves
marks: a thread makes a call, a call takes effect, a call returns. The object is linearizable if
every call takes effect once between its beginning and its return, with the effect that its result
tells, and the effects in the order in which they happen are a history of the sequential object.

## Main definitions

* `Linearization.Mark`, `Linearization.trace` — the marks of a run.
* `Linearization.replay` — the effects on the sequential object.
* `Linearization.CallRecord`, `Linearization.Completes` — calls from beginning to return.

## Main results

* `Linearization.linearizable` — from one action to all runs.
-/

namespace Linearization

/-- What happens to a call of type `Op` with an effect of type `Ev` and a result of type `Res`. -/
inductive Mark (Op Ev Res : Type*) where
  | called (op : Op)
  | effect (e : Ev)
  | returned (r : Res)
  deriving DecidableEq, Repr

/-- A call that has returned. -/
structure CallRecord (Op Ev Res : Type*) where
  op : Op
  effect : Ev
  result : Res

variable {σ α Op Ev Res S : Type*}

/-- The marks of a call, in order. -/
def CallRecord.marks (c : CallRecord Op Ev Res) : List (Mark Op Ev Res) :=
  [.called c.op, .effect c.effect, .returned c.result]

/-- The marks that the actions of a run leave, each with its thread. -/
def trace (M : Machine σ α) (marks : σ → α → List (ℕ × Mark Op Ev Res)) :
    σ → List α → List (ℕ × Mark Op Ev Res)
  | _, [] => []
  | s, a :: as => marks s a ++ trace M marks (M.next s a) as

/-- The marks of one thread. -/
def ofThread (t : ℕ) (l : List (ℕ × Mark Op Ev Res)) : List (Mark Op Ev Res) :=
  l.filterMap fun x => if x.1 = t then some x.2 else none

/-- The effects among the marks. -/
def effects (l : List (ℕ × Mark Op Ev Res)) : List Ev :=
  l.filterMap fun x =>
    match x.2 with
    | .effect e => some e
    | _ => none

/-- The effects on the sequential object, which may refuse one. -/
def replay (apply : Ev → S → Option S) : List Ev → S → Option S
  | [], s => some s
  | e :: es, s => (apply e s).bind (replay apply es)

/-- The marks of a thread in two parts of a history, one after the other. -/
lemma ofThread_append (t : ℕ) (l l' : List (ℕ × Mark Op Ev Res)) :
    ofThread t (l ++ l') = ofThread t l ++ ofThread t l' := List.filterMap_append

/-- The effects in two parts of a history, one after the other. -/
lemma effects_append (l l' : List (ℕ × Mark Op Ev Res)) :
    effects (l ++ l') = effects l ++ effects l' := List.filterMap_append

/-- A single effect. -/
lemma replay_singleton (apply : Ev → S → Option S) (e : Ev) (s : S) :
    replay apply [e] s = apply e s := by
  show (apply e s).bind some = apply e s
  rw [Option.bind_fun_some]

/-- Histories compose. -/
lemma replay_append (apply : Ev → S → Option S) (es es' : List Ev) (s : S) :
    replay apply (es ++ es') s = (replay apply es s).bind (replay apply es') := by
  induction es generalizing s with
  | nil => rfl
  | cons e es ih =>
    simp only [List.cons_append, replay, Option.bind_assoc]
    congr 1
    funext s'
    exact ih s'

/-- The marks that thread `t` leaves itself. -/
lemma ofThread_map_self (t : ℕ) (l : List (Mark Op Ev Res)) :
    ofThread t (l.map fun m => (t, m)) = l := by
  simp [ofThread, List.filterMap_map]

/-- The marks of another thread. -/
lemma ofThread_map_of_ne {t u : ℕ} (h : t ≠ u) (l : List (Mark Op Ev Res)) :
    ofThread u (l.map fun m => (t, m)) = [] := by
  simp [ofThread, List.filterMap_map, h]

/-- The marks `l` are whole calls, which satisfy `valid`, and then those of the call in progress,
`part`. -/
def Completes (valid : CallRecord Op Ev Res → Prop) (l part : List (Mark Op Ev Res)) : Prop :=
  ∃ done : List (CallRecord Op Ev Res), (∀ c ∈ done, valid c) ∧
    l = done.flatMap CallRecord.marks ++ part

variable {valid : CallRecord Op Ev Res → Prop} {l l' part part' : List (Mark Op Ev Res)}

/-- All marks may be those of the call in progress. -/
lemma Completes.refl (l : List (Mark Op Ev Res)) : Completes valid l l := ⟨[], by simp, rfl⟩

/-- A call returns. -/
lemma Completes.single {c : CallRecord Op Ev Res} (hc : valid c) :
    Completes valid c.marks [] := ⟨[c], by simpa using hc, by simp⟩

/-- Histories compose: the second one begins with the call left in progress. -/
lemma Completes.trans (h : Completes valid l part)
    (h' : Completes valid (part ++ l') part') : Completes valid (l ++ l') part' := by
  obtain ⟨done, hdone, rfl⟩ := h
  obtain ⟨done', hdone', heq⟩ := h'
  refine ⟨done ++ done', fun c hc => ?_, ?_⟩
  · rcases List.mem_append.mp hc with hc | hc
    · exact hdone c hc
    · exact hdone' c hc
  · rw [List.flatMap_append, List.append_assoc, List.append_assoc, heq]

variable {M : Machine σ α} {marks : σ → α → List (ℕ × Mark Op Ev Res)}

/-- **From one action to all runs.** The state `s` of the machine stands for the state `φ s` of the
object, and `phase t s` are the marks of the call that thread `t` is in. If every action that meets
`G` has its effects on the object and continues or completes the calls, then so does every run.

**Proof sketch.** By induction on the run, the parts of the calls carried along. -/
theorem linearizable {I : σ → Prop} {G : σ → α → Prop} {φ : σ → S} {apply : Ev → S → Option S}
    {phase : ℕ → σ → List (Mark Op Ev Res)}
    (hstep : ∀ s a, I s → G s a → I (M.next s a) ∧
      replay apply (effects (marks s a)) (φ s) = some (φ (M.next s a)) ∧
      ∀ t, Completes valid (phase t s ++ ofThread t (marks s a)) (phase t (M.next s a)))
    {s : σ} (hs : I s) {as : List α} (hg : M.Guarded G s as) :
    replay apply (effects (trace M marks s as)) (φ s) = some (φ (M.run s as)) ∧
      ∀ t, Completes valid (phase t s ++ ofThread t (trace M marks s as))
        (phase t (M.run s as)) := by
  induction as generalizing s with
  | nil =>
    refine ⟨rfl, fun t => ?_⟩
    simp only [trace, ofThread, List.filterMap_nil, List.append_nil, Machine.run_nil]
    exact .refl _
  | cons a as ih =>
    obtain ⟨hinv, heffect, hcalls⟩ := hstep s a hs hg.1
    obtain ⟨hrest, hcalls'⟩ := ih hinv hg.2
    refine ⟨?_, fun t => ?_⟩
    · rw [trace, effects_append, replay_append, heffect]
      exact hrest
    · rw [trace, ofThread_append, ← List.append_assoc]
      exact (hcalls t).trans (hcalls' t)

end Linearization
