import Ammalloc.Lib.RelyGuarantee

set_option relaxedAutoImplicit false
set_option autoImplicit false

/-!
# Programs that own a part of the state

Each thread owns a part of a shared state, and the steps of a thread leave what the others own
alone. Then a program can be verified by triples that speak about the part of its own thread only:
what it owns before, and what it owns when it returns.

If every operation begins and ends with the same part `m₀`, then so does every thread between its
calls, in every interleaving.

## Main definitions

* `SharedCode.Owned` — the steps of a thread keep what the others own.
* `SharedCode.Triple` — what a program makes of the part that its thread owns.
* `AccessProgram.embed` — a program among more kinds of accesses.

## Main results

* `SharedCode.triple_bind`, `SharedCode.triple_perform`, `SharedCode.triple_embed` — the rules.
* `SharedCode.run_owned` — the invariant, and what the threads own between their calls.
-/

namespace SharedCode

variable {Op E : Type} {A : E → Type} {α β σ ι μ : Type}

/-- The steps of a thread keep what the others own. -/
def Owned (P : Protocol Op σ) (own : ℕ → σ → μ) : Prop :=
  ∀ u t op s s', u ≠ t → P.step u op s s' → own t s' = own t s

section Triple

variable (P : Protocol Op σ) (own : ℕ → σ → μ) (answer : ℕ → (e : E) → ι → σ → Option (A e × σ))

/-- If thread `t` owns `m`, then the program keeps to the protocol in a call of any operation, and
when it returns `a` the thread owns some `m'` with `Q a m'`. -/
def Triple (t : ℕ) (m : μ) (p : AccessProgram E A α) (Q : α → μ → Prop) : Prop :=
  ∀ op H s, P.inv s → own t s = m →
    Meets P answer t op (fun a _ s => P.inv s ∧ Q a (own t s)) p H s

variable {P own answer} {t : ℕ} {m : μ}

/-- A program without accesses. -/
lemma triple_pure {Q : α → μ → Prop} {a : α} (h : Q a m) :
    Triple P own answer t m (pure a) Q := by
  intro op H s hs hm
  rw [meets_pure]
  exact ⟨hs, hm.symm ▸ h⟩

/-- **The rule of composition.** -/
lemma triple_bind {Q : α → μ → Prop} {R : β → μ → Prop} {p : AccessProgram E A α}
    {g : α → AccessProgram E A β} (hp : Triple P own answer t m p Q)
    (hg : ∀ a m', Q a m' → Triple P own answer t m' (g a) R) :
    Triple P own answer t m (p >>= g) R := by
  intro op H s hs hm
  rw [meets_bind]
  exact (hp op H s hs hm).mono fun a H' s' hq => hg a _ hq.2 op H' s' hq.1 rfl

/-- **The rule of consequence.** -/
lemma Triple.mono {Q Q' : α → μ → Prop} {p : AccessProgram E A α}
    (h : Triple P own answer t m p Q) (hQ : ∀ a m', Q a m' → Q' a m') :
    Triple P own answer t m p Q' := by
  intro op H s hs hm
  exact (h op H s hs hm).mono fun a H' s' hq => ⟨hq.1, hQ a _ hq.2⟩

/-- **The rule of an access.** Only the access itself has to be looked at. -/
lemma triple_perform (hown : Owned P own) {e : E} {Q : A e → μ → Prop}
    (h : ∀ s i b s', P.inv s → own t s = m → answer t e i s = some (b, s') →
      P.inv s' ∧ (∀ op, P.step t op s s') ∧ Q b (own t s')) :
    Triple P own answer t m (AccessProgram.perform e) Q := by
  intro op H s hs hm
  refine meets_perform (J := fun _ s => own t s = m) (Protocol.stable_of_step ?_) hs hm ?_
  · intro u op' s s' hu _ hp _ _ hstep
    rw [hown u t op' s s' hu hstep]
    exact hp
  · intro H s i b s' hj hs hb
    obtain ⟨hinv, hstep, hq⟩ := h s i b s' hs hj hb
    exact ⟨hinv, hstep op, hinv, hq⟩

end Triple

/-! ## Whole runs -/

section Runs

variable {C : SharedCode Op E A α σ ι} {P : Protocol Op σ} {own : ℕ → σ → μ} {m₀ : μ}

/-- What another thread does in between leaves the part of the thread alone. -/
lemma Owned.later (hown : Owned P own) {t : ℕ} {op : Op} {x y : Set σ × σ}
    (h : P.Later t op x y) : own t y.2 = own t x.2 := by
  induction h with
  | refl => rfl
  | tail _ hstep ih =>
    obtain ⟨⟨-, u, op', hu, -, hstep⟩, -⟩ := hstep
    rw [hown u t op' _ _ hu hstep, ih]

/-- A call that has returned leaves its thread with `m₀`. -/
def Gives (P : Protocol Op σ) (own : ℕ → σ → μ) (m₀ : μ) (t : ℕ) (_ : Op) (_ : α) (_ : Set σ)
    (s : σ) : Prop := P.inv s ∧ own t s = m₀

/-- Every call in progress keeps to the protocol, and a thread between its calls owns `m₀`. -/
structure AtRest (C : SharedCode Op E A α σ ι) (P : Protocol Op σ) (own : ℕ → σ → μ) (m₀ : μ)
    (st : CallSystem Op E A α σ) : Prop where
  kept : Kept C P (Gives P own m₀) st
  rest : ∀ t, st.running t = none → own t st.shared = m₀

/-- **One action.** -/
lemma AtRest.next (hown : Owned P own) (htog : ∀ op op', P.together op op')
    (hbody : ∀ t op, Triple P own C.answer t m₀ (C.body op) fun _ m => m = m₀)
    {st : CallSystem Op E A α σ} (h : AtRest C P own m₀ st) (a : CallAction Op ι) :
    AtRest C P own m₀ (C.next st a) := by
  refine ⟨h.kept.next fun t op _ ht => ⟨fun _ _ _ _ _ => ⟨htog _ _, htog _ _⟩,
    hbody t op op _ _ h.kept.inv (h.rest t ht)⟩, fun u hu => ?_⟩
  rcases next_cases C st a with heq | ⟨t, op, -, ht, heq⟩ | ⟨t, i, op, x, -, ht, heq⟩ |
    ⟨t, i, op, e, k, b, s, -, ht, hb, heq⟩
  · rw [heq] at hu ⊢
    exact h.rest u hu
  · rw [heq] at hu ⊢
    have hut : u ≠ t := by
      intro hut
      subst hut
      exact absurd ((Function.update_self ..).symm.trans hu) (by simp)
    exact h.rest u ((Function.update_of_ne hut _ _).symm.trans hu)
  · rw [heq] at hu ⊢
    by_cases hut : u = t
    · -- the call returns: what it owned at its last access is what the thread owns now
      subst hut
      obtain ⟨H, -, p, H₀, s₀, hp, -, hlater, hmeets⟩ := h.kept.calls u op _ ht
      obtain rfl : p = .ret x := by
        rw [ht] at hp
        exact (Prod.mk.inj (Option.some.inj hp)).2.symm
      exact (hown.later hlater).trans hmeets.2
    · exact h.rest u ((Function.update_of_ne hut _ _).symm.trans hu)
  · rw [heq] at hu ⊢
    have hut : u ≠ t := by
      intro hut
      subst hut
      exact absurd ((Function.update_self ..).symm.trans hu) (by simp)
    obtain ⟨H, hH⟩ := h.kept.calls t op _ ht
    obtain ⟨-, hstep, -⟩ := hH.access h.kept.inv ht hb
    exact (hown t u op _ _ hut.symm hstep).trans
      (h.rest u ((Function.update_of_ne hut _ _).symm.trans hu))

/-- **Every run**: the invariant holds, and a thread between its calls owns `m₀`. -/
theorem run_owned (hown : Owned P own) (htog : ∀ op op', P.together op op')
    (hbody : ∀ t op, Triple P own C.answer t m₀ (C.body op) fun _ m => m = m₀) {init : Set σ}
    {s : σ} (hs : P.inv s) (hm : ∀ t, own t s = m₀) (as : List (CallAction Op ι)) :
    let st := (C.machine init).run ({ shared := s } : CallSystem Op E A α σ) as
    P.inv st.shared ∧ ∀ t, st.running t = none → own t st.shared = m₀ := by
  intro st
  have hrest : AtRest C P own m₀ st :=
    Machine.run_invariant (M := C.machine init) (I := AtRest C P own m₀)
      (fun _ a h => h.next hown htog hbody a) ⟨kept_init hs, fun t _ => hm t⟩ as
  exact ⟨hrest.kept.inv, hrest.rest⟩

end Runs

end SharedCode

/-! ## More kinds of accesses -/

namespace AccessProgram

variable {E E' : Type} {A : E → Type} {A' : E' → Type} {α : Type}

/-- The program, with its accesses among those of `E'`. -/
def embed (f : E → E') (g : ∀ e, A' (f e) → A e) : AccessProgram E A α → AccessProgram E' A' α
  | ret a => ret a
  | access e k => access (f e) fun b => (k (g e b)).embed f g

end AccessProgram

namespace SharedCode

variable {Op E E' : Type} {A : E → Type} {A' : E' → Type} {α σ ι μ : Type} {P : Protocol Op σ}
  {own : ℕ → σ → μ} {t : ℕ}

/-- An embedded program is verified by its own accesses. -/
lemma meets_embed {answer : ℕ → (e : E') → ι → σ → Option (A' e × σ)} {f : E → E'}
    {g : ∀ e, A' (f e) → A e} {Q : α → Set σ → σ → Prop} {p : AccessProgram E A α} {H : Set σ}
    {s : σ} {op : Op} (h : Meets P (fun t e i s => (answer t (f e) i s).map fun x => (g e x.1, x.2))
      t op Q p H s) : Meets P answer t op Q (p.embed f g) H s := by
  induction p generalizing H s with
  | ret a => exact h
  | access e k ih =>
    intro H' s' hl hs' i b s'' hb
    obtain ⟨hinv, hstep, hk⟩ := h H' s' hl hs' i (g e b) s'' (by simp only [hb, Option.map_some])
    exact ⟨hinv, hstep, ih _ hk⟩

/-- **The rule of an embedded program.** -/
lemma triple_embed {answer : ℕ → (e : E') → ι → σ → Option (A' e × σ)} {f : E → E'}
    {g : ∀ e, A' (f e) → A e} {m : μ} {p : AccessProgram E A α} {Q : α → μ → Prop}
    (h : Triple P own (fun t e i s => (answer t (f e) i s).map fun x => (g e x.1, x.2)) t m p Q) :
    Triple P own answer t m (p.embed f g) Q :=
  fun op H s hs hm => meets_embed (h op H s hs hm)

end SharedCode
