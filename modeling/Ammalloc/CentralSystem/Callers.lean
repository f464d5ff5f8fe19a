import Ammalloc.CentralSystem

set_option relaxedAutoImplicit false
set_option autoImplicit false

/-!
# One caller among others

What the actions of a run do to the call of one caller: its own steps move it on, and no other
action touches it.

## Main definitions

* `Ammalloc.CentralSystem.own` — the steps of one caller.

## Main results

* `Ammalloc.CentralSystem.call_of_other` — the actions of everybody else.
* `Ammalloc.CentralSystem.next_own` — a step of the call.
-/

namespace Ammalloc

open SizeClass (kNumSizeClasses)

namespace CentralSystem

variable {n t : ℕ} {hardened : Bool} {st : CentralSystem}

/-- The steps of caller `t`. -/
def own (t : ℕ) : CentralAction → Bool
  | .step u _ => u = t
  | _ => false

/-- No one else touches the call of `t`, and while it runs, `t` cannot start another. -/
lemma call_of_other {a : CentralAction} (ha : own t a = false) {f : CentralFrame}
    (hf : (st.clients t).call = some f) : ((next n hardened st a).clients t).call = some f := by
  have hset : ∀ u cl, (u = t → cl.call = some f) →
      ∀ st' : CentralSystem, st'.clients = st.clients →
        ((st'.setClient u cl).clients t).call = some f := by
    intro u cl hcl st' hst'
    by_cases hu : u = t
    · subst hu
      simpa [setClient] using hcl rfl
    · simp [setClient, Function.update_of_ne (Ne.symm hu), hst', hf]
  cases a with
  | fetchBatch u idx m =>
    simp only [next]
    split_ifs with hg
    · refine hset u _ (fun hu => ?_) st rfl
      subst hu
      rw [hf] at hg
      exact absurd hg.2.1 (by simp)
    · exact hf
  | releaseBatch u idx objs mode =>
    simp only [next]
    split_ifs with hg
    · refine hset u _ (fun hu => ?_) st rfl
      subst hu
      rw [hf] at hg
      exact absurd hg.2.1 (by simp)
    · exact hf
  | drainTransferCaches u m =>
    simp only [next]
    split_ifs with hg
    · refine hset u _ (fun hu => ?_) st rfl
      subst hu
      rw [hf] at hg
      exact absurd hg.2 (by simp)
    · exact hf
  | step u env =>
    have hu : u ≠ t := by simpa [own] using ha
    simp only [next]
    split_ifs
    · cases (st.clients u).call with
      | none => exact hf
      | some g =>
        simp only
        split_ifs
        · exact hset u _ (fun h => absurd h hu) st rfl
        · split
          · exact hf
          · exact hset u _ (fun h => absurd h hu) _ rfl
    · exact hf
  | handOver u v obj =>
    simp only [next]
    split_ifs
    · rw [handOver_call]
      exact hf
    · exact hf
  | scavenge env ok =>
    simp only [next]
    split <;> exact hf

/-- A step of a call that has not returned is a step of the CentralCache. -/
lemma next_own (h : Inv n st) (hardened : Bool) (ht : t < n) {f : CentralFrame}
    (hf : (st.clients t).call = some f) (hret : f.returned = false) (env : PageEnv) :
    ∃ central f', st.central.step hardened env f = .ok (central, f') ∧
      next n hardened st (.step t env) = { st with central := central }.startCall t f' := by
  obtain ⟨central, f', hrun, -, -⟩ := h.step hardened ht hf env
  refine ⟨central, f', hrun, ?_⟩
  simp only [next, if_pos ht, hf, hret, hrun, Bool.false_eq_true, if_false]

/-- The caller after its own step. -/
lemma startCall_client (st : CentralSystem) (t u : ℕ) (f : CentralFrame) :
    ((st.startCall t f).clients u).held = (st.clients u).held ∧
      ((st.startCall t f).clients u).call = if u = t then some f else (st.clients u).call := by
  by_cases hu : u = t
  · subst hu
    simp [startCall, setClient]
  · simp [startCall, setClient, hu]

end CentralSystem

end Ammalloc
