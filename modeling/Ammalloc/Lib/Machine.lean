import Mathlib.Tactic

set_option relaxedAutoImplicit false
set_option autoImplicit false

/-!
# Machines: states, actions, runs

A machine is a set of initial states and a transition function; every nondeterministic
choice (which thread moves, what the environment answers) is part of the action. A call whose
precondition does not hold is an action that changes nothing.

## Main definitions

* `Machine`, `Machine.run`, `Machine.Reachable`.

## Main results

* `Machine.Reachable.invariant` — the induction rule for state invariants.
* `Machine.run_invariant_of_guard` — the same along one run, when each step also meets a
  condition on its pre-state.
* `Machine.run_simulation` — two machines stay related along a run.
* `Machine.forall_prefix_iff_guarded` — when that condition is also necessary.
* `Machine.progress` — a component that is done after a bounded number of its own steps, whatever
  happens in between.
* `Machine.exists_prefix_done` — the same when the component may start again once it is done.
-/

/-- A machine with state space `σ` and actions `α`. -/
structure Machine (σ α : Type*) where
  /-- The initial states. -/
  init : Set σ
  /-- The state after an action. -/
  next : σ → α → σ

namespace Machine

variable {σ α : Type*} (M : Machine σ α)

/-- The state after a list of actions. -/
def run (s : σ) (as : List α) : σ := as.foldl M.next s

@[simp] lemma run_nil (s : σ) : M.run s [] = s := rfl

@[simp] lemma run_cons (s : σ) (a : α) (as : List α) :
    M.run s (a :: as) = M.run (M.next s a) as := rfl

/-- Running a concatenation is running the parts in turn. -/
lemma run_append (s : σ) (as bs : List α) : M.run s (as ++ bs) = M.run (M.run s as) bs := by
  simp [run, List.foldl_append]

/-- The states reached from an initial state by some run. -/
inductive Reachable : σ → Prop
  | init {s : σ} : s ∈ M.init → Reachable s
  | step {s : σ} (a : α) : Reachable s → Reachable (M.next s a)

variable {M}

/-- **The invariant rule**: what holds initially and is kept by every action holds in every
reachable state. -/
theorem Reachable.invariant {I : σ → Prop} (h₀ : ∀ s ∈ M.init, I s)
    (hstep : ∀ s a, I s → I (M.next s a)) {s : σ} (h : M.Reachable s) : I s := by
  induction h with
  | init hs => exact h₀ _ hs
  | step a _ ih => exact hstep _ a ih

/-- A run from a reachable state ends in a reachable state. -/
theorem Reachable.run {s : σ} (h : M.Reachable s) (as : List α) : M.Reachable (M.run s as) := by
  induction as generalizing s with
  | nil => exact h
  | cons a as ih => exact ih (h.step a)

/-- What every action keeps holds after every run. -/
theorem run_invariant {I : σ → Prop} (hstep : ∀ s a, I s → I (M.next s a)) {s : σ} (h : I s)
    (as : List α) : I (M.run s as) := by
  induction as generalizing s with
  | nil => exact h
  | cons a as ih => exact ih (hstep s a h)

/-- `G` holds at the pre-state of every step of the run `as` from `s`. -/
def Guarded (M : Machine σ α) (G : σ → α → Prop) : σ → List α → Prop
  | _, [] => True
  | s, a :: as => G s a ∧ Guarded M G (M.next s a) as

/-- **The guarded run rule**: an invariant kept by every step that meets `G` holds at the end
of every run whose steps all meet `G`. -/
theorem run_invariant_of_guard {I : σ → Prop} {G : σ → α → Prop}
    (hstep : ∀ s a, I s → G s a → I (M.next s a)) {s : σ} (h : I s) {as : List α}
    (hg : Guarded M G s as) : I (M.run s as) := by
  induction as generalizing s with
  | nil => exact h
  | cons a as ih => exact ih (hstep s a h hg.1) hg.2

/-- **The simulation rule**: if every step of `M` that meets `G` is matched by the step of `N` with
the same action, then so is every run whose steps all meet `G`. -/
theorem run_simulation {τ : Type*} {N : Machine τ α} {R : σ → τ → Prop} {G : σ → α → Prop}
    (hstep : ∀ s t a, R s t → G s a → R (M.next s a) (N.next t a)) {s : σ} {t : τ} (h : R s t)
    {as : List α} (hg : Guarded M G s as) : R (M.run s as) (N.run t as) := by
  induction as generalizing s t with
  | nil => exact h
  | cons a as ih => exact ih (hstep s t a h hg.1) hg.2

/-- A guard that every step meets. -/
lemma guarded_of_forall {G : σ → α → Prop} (h : ∀ s a, G s a) (s : σ) (as : List α) :
    Guarded M G s as := by
  induction as generalizing s with
  | nil => trivial
  | cons a as ih => exact ⟨h s a, ih _⟩

/-- A guard may be strengthened by what is known of every action of the run. -/
lemma Guarded.and_of_mem {G : σ → α → Prop} {P : α → Prop} {s : σ} {as : List α}
    (h : Guarded M G s as) (hP : ∀ a ∈ as, P a) : Guarded M (fun s a => G s a ∧ P a) s as := by
  induction as generalizing s with
  | nil => trivial
  | cons a as ih =>
    exact ⟨⟨h.1, hP a List.mem_cons_self⟩, ih h.2 fun b hb => hP b (List.mem_cons_of_mem a hb)⟩

/-- A run that meets two guards meets what follows from both. -/
lemma Guarded.imp₂ {G G' G'' : σ → α → Prop} {s : σ} {as : List α} (h : Guarded M G s as)
    (h' : Guarded M G' s as) (hG : ∀ s a, G s a → G' s a → G'' s a) : Guarded M G'' s as := by
  induction as generalizing s with
  | nil => trivial
  | cons a as ih => exact ⟨hG s a h.1 h'.1, ih h.2 h'.2⟩

/-- **The exact condition of a run**: if an invariant `I` that implies `P` is kept by every step
that meets `G`, and every step from `I` that does not meet `G` ends outside `P`, then a run stays
in `P` exactly if all its steps meet `G`.

**Proof sketch.** Up to its first step that misses `G` a run satisfies `I`; that step leaves
`P`. -/
theorem forall_prefix_iff_guarded {I P : σ → Prop} {G : σ → α → Prop} (hP : ∀ s, I s → P s)
    (hstep : ∀ s a, I s → G s a → I (M.next s a))
    (hbad : ∀ s a, I s → ¬ G s a → ¬ P (M.next s a)) {s : σ} (h : I s) (as : List α) :
    (∀ bs, bs <+: as → P (M.run s bs)) ↔ Guarded M G s as := by
  induction as generalizing s with
  | nil =>
    refine ⟨fun _ => trivial, fun _ bs hbs => ?_⟩
    rw [List.prefix_nil.mp hbs]
    exact hP s h
  | cons a as ih =>
    constructor
    · intro hall
      have hg : G s a := by
        by_contra hg
        exact hbad s a h hg (hall [a] (by simp))
      refine ⟨hg, (ih (hstep s a h hg)).mp fun bs hbs => ?_⟩
      exact hall (a :: bs) (List.cons_prefix_cons.mpr ⟨rfl, hbs⟩)
    · rintro ⟨hg, hgs⟩ bs hbs
      cases bs with
      | nil => exact hP s h
      | cons c cs =>
        obtain ⟨rfl, hcs⟩ := List.cons_prefix_cons.mp hbs
        exact (ih (hstep s c h hg)).mpr hgs cs hcs

/-- A run is guarded exactly if its two parts are. -/
lemma guarded_append {G : σ → α → Prop} {s : σ} {as bs : List α} :
    Guarded M G s (as ++ bs) ↔ Guarded M G s as ∧ Guarded M G (M.run s as) bs := by
  induction as generalizing s with
  | nil => simp [Guarded]
  | cons a as ih => simp [Guarded, ih, and_assoc]

/-- Along a guarded run the invariant holds all the time, not only at the end. -/
lemma Guarded.forall_prefix {I : σ → Prop} {G : σ → α → Prop}
    (hstep : ∀ s a, I s → G s a → I (M.next s a)) {s : σ} (h : I s) {as : List α}
    (hg : Guarded M G s as) : ∀ bs, bs <+: as → I (M.run s bs) := by
  rintro bs ⟨cs, rfl⟩
  exact run_invariant_of_guard hstep h (guarded_append.mp hg).1

/-- **Progress under interference.** A part of the state is watched through `view`. Its own actions
decrease `μ` until it is done, and others leave it alone. Then in every run it gets done, or the
steps it has taken are paid for by `μ`. What is known of it, `J`, may speak about the run so far.

**Proof sketch.** By induction on the run, from its end. -/
theorem progress {φ : Type*} (view : σ → Option φ) (own : α → Bool) (J : List α → φ → Prop)
    (Done : φ → Prop) (μ : φ → ℕ) {s : σ} {f₀ : φ} (h₀ : view s = some f₀) (hJ : J [] f₀)
    (hother : ∀ bs a f, own a = false → view (M.run s bs) = some f → J bs f →
      view (M.run s (bs ++ [a])) = some f ∧ J (bs ++ [a]) f)
    (hown : ∀ bs a f, own a = true → view (M.run s bs) = some f → J bs f → ¬ Done f →
      ∃ f', view (M.run s (bs ++ [a])) = some f' ∧ J (bs ++ [a]) f' ∧ μ f' < μ f)
    (as : List α) :
    (∃ bs f, bs <+: as ∧ view (M.run s bs) = some f ∧ Done f ∧ J bs f) ∨
      ∃ f, view (M.run s as) = some f ∧ ¬ Done f ∧ J as f ∧ μ f + as.countP own ≤ μ f₀ := by
  induction as using List.reverseRecOn with
  | nil =>
    by_cases hd : Done f₀
    · exact Or.inl ⟨[], f₀, List.prefix_rfl, h₀, hd, hJ⟩
    · exact Or.inr ⟨f₀, h₀, hd, hJ, le_rfl⟩
  | append_singleton as a ih =>
    rcases ih with ⟨bs, f, hbs, hf⟩ | ⟨f, hf, hd, hj, hle⟩
    · exact Or.inl ⟨bs, f, hbs.trans (List.prefix_append as [a]), hf⟩
    have hstep : ∃ f', view (M.run s (as ++ [a])) = some f' ∧ J (as ++ [a]) f' ∧
        μ f' + (as ++ [a]).countP own ≤ μ f₀ := by
      rw [List.countP_append]
      cases ha : own a with
      | false =>
        obtain ⟨hf', hj'⟩ := hother as a f ha hf hj
        exact ⟨f, hf', hj', by simpa [ha] using hle⟩
      | true =>
        obtain ⟨f', hf', hj', hlt⟩ := hown as a f ha hf hj hd
        refine ⟨f', hf', hj', ?_⟩
        simp only [List.countP_singleton, ha, if_true]
        omega
    obtain ⟨f', hf', hj', hle'⟩ := hstep
    by_cases hd' : Done f'
    · exact Or.inl ⟨as ++ [a], f', List.prefix_rfl, hf', hd', hj'⟩
    · exact Or.inr ⟨f', hf', hd', hj', hle'⟩

/-- **Bounded response.** While a component is not done, its own actions lower `work` and the others
do not raise it. Then in every run with enough of its own actions it has been done at some moment.
Once it is done, it may do anything. -/
theorem exists_prefix_done {I : σ → Prop} (done : σ → Prop) (own : α → Bool) (work : σ → ℕ)
    (hI : ∀ s a, I s → I (M.next s a)) (hpos : ∀ s, I s → ¬ done s → 0 < work s)
    (hother : ∀ s a, I s → ¬ done s → own a = false → work (M.next s a) ≤ work s)
    (hown : ∀ s a, I s → ¬ done s → own a = true → work (M.next s a) < work s) {s : σ} (hs : I s)
    {as : List α} (has : work s ≤ as.countP own) : ∃ bs, bs <+: as ∧ done (M.run s bs) := by
  induction as generalizing s with
  | nil =>
    refine ⟨[], List.prefix_rfl, ?_⟩
    by_contra hd
    have := hpos s hs hd
    rw [List.countP_nil] at has
    omega
  | cons a as ih =>
    by_cases hd : done s
    · exact ⟨[], List.nil_prefix, hd⟩
    have hle : work (M.next s a) ≤ as.countP own := by
      cases ha : own a with
      | false =>
        rw [List.countP_cons_of_neg (by simp [ha])] at has
        exact (hother s a hs hd ha).trans has
      | true =>
        have hlt := hown s a hs hd ha
        rw [List.countP_cons_of_pos ha] at has
        omega
    obtain ⟨bs, hbs, hdone⟩ := ih (hI s a hs) hle
    exact ⟨a :: bs, List.cons_prefix_cons.mpr ⟨rfl, hbs⟩, hdone⟩

end Machine
