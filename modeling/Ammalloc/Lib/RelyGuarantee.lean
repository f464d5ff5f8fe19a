import Ammalloc.Lib.AccessProgram

set_option relaxedAutoImplicit false
set_option autoImplicit false

/-!
# Rely and guarantee

Threads call operations on a shared state, interleaved at every access, and an access may have to
wait. A protocol says what is invariant, which steps a thread may take in a call of an operation,
and which operations may be in progress at the same time. Then a thread may rely on the steps of the
others, and what it has observed has to be stable under them. That only such operations are in
progress together is a condition on the callers, like a precondition.

The condition `Meets` follows a program access by access. It knows the states that have been seen
since the call began, so that a postcondition can say that something was the case at some moment of
the call.

## Main definitions

* `Protocol`, `Protocol.Later` — the protocol, and what the other threads may do in between.
* `SharedCode`, `SharedCode.machine` — operations on a shared state, and their runs.
* `SharedCode.Meets` — the program keeps to the protocol and ends in the postcondition.
* `SharedCode.visited` — the shared states along a run.

## Main results

* `SharedCode.meets_bind`, `SharedCode.meets_perform` — the rules.
* `SharedCode.Verified.run`, `SharedCode.Verified.run_of_step` — the invariant of the protocol, and
  what every step keeps, hold along every run.
* `SharedCode.Verified.returns` — the postcondition of a call that returns.
-/

/-- What the threads may do to a shared state. -/
structure Protocol (Op σ : Type) where
  /-- Holds between any two accesses. -/
  inv : σ → Prop
  /-- What an access of a thread may do in a call of an operation. -/
  step : ℕ → Op → σ → σ → Prop
  /-- Calls of these operations may be in progress at the same time. -/
  together : Op → Op → Prop := fun _ _ => True

namespace Protocol

variable {Op σ : Type} (P : Protocol Op σ)

/-- A step of a thread other than `t`, while `t` is in a call of `op`. -/
def Interferes (t : ℕ) (op : Op) (s s' : σ) : Prop :=
  P.inv s' ∧ ∃ u op', u ≠ t ∧ P.together op op' ∧ P.step u op' s s'

/-- What thread `t` may find at its next access in a call of `op`: a state, with the states that
were seen before it. -/
def Later (t : ℕ) (op : Op) : Set σ × σ → Set σ × σ → Prop :=
  Relation.ReflTransGen fun x y => P.Interferes t op x.2 y.2 ∧ y.1 = insert y.2 x.1

/-- The other threads keep the assertion. -/
def Stable (t : ℕ) (op : Op) (J : Set σ → σ → Prop) : Prop :=
  ∀ H s s', J H s → P.inv s → P.Interferes t op s s' → J (insert s' H) s'

variable {P} {t : ℕ} {op : Op} {J : Set σ → σ → Prop}

/-- What is stable still holds at the next access. -/
lemma Stable.later (hJ : P.Stable t op J) {x y : Set σ × σ} (h : P.Later t op x y) (hx : P.inv x.2)
    (hj : J x.1 x.2) : P.inv y.2 ∧ J y.1 y.2 := by
  induction h with
  | refl => exact ⟨hx, hj⟩
  | tail _ hstep ih =>
    obtain ⟨hstep, heq⟩ := hstep
    rw [heq]
    exact ⟨hstep.1, hJ _ _ _ ih.2 ih.1 hstep⟩

/-- Two stable assertions. -/
lemma Stable.and {J' : Set σ → σ → Prop} (h : P.Stable t op J) (h' : P.Stable t op J') :
    P.Stable t op fun H s => J H s ∧ J' H s := by
  intro H s s' hj hs hstep
  exact ⟨h H s s' hj.1 hs hstep, h' H s s' hj.2 hs hstep⟩

/-- What has been seen stays seen. -/
lemma stable_seen (p : σ → Prop) : P.Stable t op fun H _ => ∃ s ∈ H, p s := by
  intro H s s' hseen hs hstep
  obtain ⟨x, hx, hp⟩ := hseen
  exact ⟨x, Set.mem_insert_of_mem _ hx, hp⟩

/-- An assertion about the state that no step of another thread breaks. -/
lemma stable_of_step {p : σ → Prop}
    (h : ∀ u op' s s', u ≠ t → P.together op op' → p s → P.inv s → P.inv s' →
      P.step u op' s s' → p s') : P.Stable t op fun _ s => p s := by
  intro H s s' hp hs hstep
  obtain ⟨hs', u, op', hu, htog, hstep⟩ := hstep
  exact h u op' s s' hu htog hp hs hs' hstep

end Protocol

/-- Operations on a shared state: their programs, and how the accesses of a thread are answered,
with an input from outside. An access without an answer waits. -/
structure SharedCode (Op E : Type) (A : E → Type) (α σ ι : Type) where
  body : Op → AccessProgram E A α
  answer : ℕ → (e : E) → ι → σ → Option (A e × σ)

namespace SharedCode

variable {Op E : Type} {A : E → Type} {α β γ σ ι : Type}

/-! ## Runs -/

/-- The next access of thread `t`, or its return. -/
def step (C : SharedCode Op E A α σ ι) (st : CallSystem Op E A α σ) (t : ℕ) (i : ι) :
    CallSystem Op E A α σ :=
  match st.running t with
  | none => st
  | some (op, .ret a) =>
    { st with
      running := Function.update st.running t none
      finished := st.finished ++ [(op, a)] }
  | some (op, .access e k) =>
    match C.answer t e i st.shared with
    | none => st
    | some (b, s) =>
      { st with shared := s, running := Function.update st.running t (some (op, k b)) }

/-- One action. A thread makes one call at a time. -/
def next (C : SharedCode Op E A α σ ι) (st : CallSystem Op E A α σ) :
    CallAction Op ι → CallSystem Op E A α σ
  | .call t op =>
    match st.running t with
    | none => { st with running := Function.update st.running t (some (op, C.body op)) }
    | some _ => st
  | .step t i => C.step st t i

/-- The runs from a set of shared states, with no call in progress. -/
def machine (C : SharedCode Op E A α σ ι) (init : Set σ) :
    Machine (CallSystem Op E A α σ) (CallAction Op ι) where
  init := { st | ∃ s ∈ init, st = { shared := s } }
  next := C.next

/-- The shared states along a run. -/
def visited (C : SharedCode Op E A α σ ι) (init : Set σ) (st : CallSystem Op E A α σ)
    (as : List (CallAction Op ι)) : Set σ :=
  { s | ∃ bs, bs <+: as ∧ s = ((C.machine init).run st bs).shared }

/-! ## The condition on programs -/

section Meets

variable (P : Protocol Op σ) (answer : ℕ → (e : E) → ι → σ → Option (A e × σ)) (t : ℕ) (op : Op)

/-- Every access of the program keeps to the protocol, whatever the other threads do before it, and
the program ends in `Q`. Thread `t` runs it in a call of `op`. `H` are the states since the call
began, and `s` is the last one that the program itself has made. -/
def Meets (Q : α → Set σ → σ → Prop) : AccessProgram E A α → Set σ → σ → Prop
  | .ret a, H, s => Q a H s
  | .access e k, H, s => ∀ H' s', P.Later t op (H, s) (H', s') → P.inv s' →
      ∀ i b s'', answer t e i s' = some (b, s'') →
        P.inv s'' ∧ P.step t op s' s'' ∧ Meets Q (k b) (insert s'' H') s''

variable {P answer t op} {H : Set σ} {s : σ}

@[simp] lemma meets_pure {Q : α → Set σ → σ → Prop} (a : α) :
    Meets P answer t op Q (pure a : AccessProgram E A α) H s ↔ Q a H s := Iff.rfl

/-- **The rule of composition.** -/
lemma meets_bind {Q : β → Set σ → σ → Prop} (p : AccessProgram E A α)
    (g : α → AccessProgram E A β) :
    Meets P answer t op Q (p >>= g) H s ↔
      Meets P answer t op (fun a H s => Meets P answer t op Q (g a) H s) p H s := by
  change Meets P answer t op Q (p.bind g) H s ↔ _
  induction p generalizing H s with
  | ret a => exact Iff.rfl
  | access e k ih =>
    simp only [AccessProgram.bind, Meets, ih]

/-- **The rule of consequence.** -/
lemma Meets.mono {Q Q' : α → Set σ → σ → Prop} {p : AccessProgram E A α}
    (h : Meets P answer t op Q p H s) (hQ : ∀ a H s, Q a H s → Q' a H s) :
    Meets P answer t op Q' p H s := by
  induction p generalizing H s with
  | ret a => exact hQ a H s h
  | access e k ih =>
    intro H' s' hl hs' i b s'' hb
    obtain ⟨hinv, hstep, hk⟩ := h H' s' hl hs' i b s'' hb
    exact ⟨hinv, hstep, ih b hk⟩

/-- The last state that the program has made is one of those that were seen. -/
lemma Meets.mem {Q : α → Set σ → σ → Prop} {p : AccessProgram E A α}
    (h : Meets P answer t op Q p H s) (hs : s ∈ H) :
    Meets P answer t op (fun a H s => s ∈ H ∧ Q a H s) p H s := by
  induction p generalizing H s with
  | ret a => exact ⟨hs, h⟩
  | access e k ih =>
    intro H' s' hl hs' i b s'' hb
    obtain ⟨hinv, hstep, hk⟩ := h H' s' hl hs' i b s'' hb
    exact ⟨hinv, hstep, ih b hk (Set.mem_insert s'' H')⟩

/-- **The rule of an access**: a stable assertion `J` holds when the access is made. -/
lemma meets_perform {e : E} {Q : A e → Set σ → σ → Prop} {J : Set σ → σ → Prop}
    (hJ : P.Stable t op J) (hs : P.inv s) (hj : J H s)
    (h : ∀ H s i b s', J H s → P.inv s → answer t e i s = some (b, s') →
      P.inv s' ∧ P.step t op s s' ∧ Q b (insert s' H) s') :
    Meets P answer t op Q (AccessProgram.perform e) H s := by
  intro H' s' hl _ i b s'' hb
  obtain ⟨hs', hj'⟩ := hJ.later hl hs hj
  exact h H' s' i b s'' hj' hs' hb

end Meets

/-! ## Soundness -/

/-- Every operation keeps to the protocol if its precondition holds, and has a postcondition. -/
structure Verified (C : SharedCode Op E A α σ ι) (P : Protocol Op σ) (pre : Op → σ → Prop)
    (Q : ℕ → Op → α → Set σ → σ → Prop) : Prop where
  body : ∀ t op s, P.inv s → pre op s → Meets P C.answer t op (Q t op) (C.body op) {s} s

/-- Thread `t` may call `op`: the calls of the other threads may run together with it. -/
def Admits (P : Protocol Op σ) (st : CallSystem Op E A α σ) (t : ℕ) (op : Op) : Prop :=
  ∀ u op' p, u ≠ t → st.running u = some (op', p) → P.together op op' ∧ P.together op' op

/-- Operations are called when their precondition holds and the calls in progress admit them. -/
def Respects (P : Protocol Op σ) (pre : Op → σ → Prop) (st : CallSystem Op E A α σ) :
    CallAction Op ι → Prop
  | .call t op => pre op st.shared ∧ Admits P st t op
  | .step _ _ => True

variable {C : SharedCode Op E A α σ ι} {P : Protocol Op σ} {pre : Op → σ → Prop}
  {Q : ℕ → Op → α → Set σ → σ → Prop}

/-- Thread `t` is in a call of `op`, which has seen the states `H` so far. -/
def InCall (C : SharedCode Op E A α σ ι) (P : Protocol Op σ) (Q : ℕ → Op → α → Set σ → σ → Prop)
    (H : Set σ) (st : CallSystem Op E A α σ) (t : ℕ) (op : Op) : Prop :=
  st.shared ∈ H ∧ ∃ p H₀ s₀, st.running t = some (op, p) ∧ P.inv s₀ ∧
    P.Later t op (H₀, s₀) (H, st.shared) ∧ Meets P C.answer t op (Q t op) p H₀ s₀

/-- Calls that are in progress may run together. -/
def Compatible (P : Protocol Op σ) (st : CallSystem Op E A α σ) : Prop :=
  ∀ t u op op' p p', u ≠ t → st.running t = some (op, p) → st.running u = some (op', p') →
    P.together op op'

/-- The invariant holds, and every call in progress keeps to the protocol. -/
structure Kept (C : SharedCode Op E A α σ ι) (P : Protocol Op σ)
    (Q : ℕ → Op → α → Set σ → σ → Prop) (st : CallSystem Op E A α σ) : Prop where
  inv : P.inv st.shared
  compatible : Compatible P st
  calls : ∀ t op p, st.running t = some (op, p) → ∃ H, InCall C P Q H st t op

/-- What one action does: nothing, or the beginning of a call, or a return, or an access. -/
lemma next_cases (C : SharedCode Op E A α σ ι) (st : CallSystem Op E A α σ)
    (a : CallAction Op ι) :
    C.next st a = st ∨
      (∃ t op, a = .call t op ∧ st.running t = none ∧
        C.next st a = { st with running := Function.update st.running t (some (op, C.body op)) }) ∨
      (∃ t i op x, a = .step t i ∧ st.running t = some (op, .ret x) ∧
        C.next st a = { st with
          running := Function.update st.running t none
          finished := st.finished ++ [(op, x)] }) ∨
      ∃ t i op e k b s, a = .step t i ∧ st.running t = some (op, .access e k) ∧
        C.answer t e i st.shared = some (b, s) ∧
        C.next st a = { st with
          shared := s, running := Function.update st.running t (some (op, k b)) } := by
  cases a with
  | call t op =>
    cases ht : st.running t with
    | none => exact Or.inr (Or.inl ⟨t, op, rfl, ht, by simp only [next, ht]⟩)
    | some r => exact Or.inl (by simp only [next, ht])
  | step t i =>
    rcases ht : st.running t with _ | ⟨op, x | ⟨e, k⟩⟩
    · exact Or.inl (by simp only [next, step, ht])
    · exact Or.inr (Or.inr (Or.inl ⟨t, i, op, x, rfl, ht, by simp only [next, step, ht]⟩))
    · rcases hb : C.answer t e i st.shared with _ | ⟨b, s⟩
      · exact Or.inl (by simp only [next, step, ht, hb])
      · exact Or.inr (Or.inr (Or.inr ⟨t, i, op, e, k, b, s, rfl, ht, hb,
          by simp only [next, step, ht, hb]⟩))

/-- Calls that go on or return leave the others compatible. -/
lemma Compatible.of_running {st st' : CallSystem Op E A α σ} (h : Compatible P st)
    (hrun : ∀ t op p, st'.running t = some (op, p) → ∃ p', st.running t = some (op, p')) :
    Compatible P st' := by
  intro t u op op' p p' hut ht hu
  obtain ⟨q, hq⟩ := hrun t op p ht
  obtain ⟨q', hq'⟩ := hrun u op' p' hu
  exact h t u op op' q q' hut hq hq'

/-- A call that is admitted is compatible with those in progress. -/
lemma Compatible.call {st : CallSystem Op E A α σ} (h : Compatible P st) {t : ℕ} {op : Op}
    (hop : Admits P st t op) (p : AccessProgram E A α) :
    Compatible P { st with running := Function.update st.running t (some (op, p)) } := by
  have hself : ∀ op' p', Function.update st.running t (some (op, p)) t = some (op', p') →
      op' = op := by
    intro op' p' heq
    rw [Function.update_self] at heq
    exact (Prod.mk.inj (Option.some.inj heq)).1.symm
  intro u v op₁ op₂ p₁ p₂ hvu hu hv
  by_cases hut : u = t
  · subst hut
    rw [hself op₁ p₁ hu]
    exact (hop v op₂ p₂ hvu ((Function.update_of_ne hvu _ _).symm.trans hv)).1
  · have hu' : st.running u = some (op₁, p₁) := (Function.update_of_ne hut _ _).symm.trans hu
    by_cases hvt : v = t
    · subst hvt
      rw [hself op₂ p₂ hv]
      exact (hop u op₁ p₁ hut hu').2
    · exact h u v op₁ op₂ p₁ p₂ hvu hu' ((Function.update_of_ne hvt _ _).symm.trans hv)

/-- An access of a call in progress keeps to the protocol, and the call goes on. -/
lemma InCall.access {H : Set σ} {st : CallSystem Op E A α σ} {t i} {op : Op} {e : E}
    {k : A e → AccessProgram E A α} {b : A e} {s : σ} (h : InCall C P Q H st t op)
    (hinv : P.inv st.shared) (ht : st.running t = some (op, .access e k))
    (hb : C.answer t e i st.shared = some (b, s)) :
    P.inv s ∧ P.step t op st.shared s ∧ InCall C P Q (insert s H)
      { st with shared := s, running := Function.update st.running t (some (op, k b)) } t op := by
  obtain ⟨hmem, p, H₀, s₀, hp, hs₀, hlater, hmeets⟩ := h
  obtain rfl : p = .access e k := by
    rw [ht] at hp
    exact (Prod.mk.inj (Option.some.inj hp)).2.symm
  obtain ⟨hs, hstep, hk⟩ := hmeets H st.shared hlater hinv i b s hb
  exact ⟨hs, hstep, Set.mem_insert s H, k b, insert s H, s, Function.update_self .., hs, .refl, hk⟩

/-- A call in progress survives the access of another thread. -/
lemma InCall.other {H : Set σ} {st : CallSystem Op E A α σ} {t u : ℕ} {op op' : Op} {s : σ}
    {r : Option (Op × AccessProgram E A α)} (h : InCall C P Q H st t op) (hu : u ≠ t)
    (hs : P.inv s) (htog : P.together op op') (hstep : P.step u op' st.shared s) :
    InCall C P Q (insert s H)
      { st with shared := s, running := Function.update st.running u r } t op := by
  obtain ⟨hmem, p, H₀, s₀, hp, hs₀, hlater, hmeets⟩ := h
  refine ⟨Set.mem_insert s H, p, H₀, s₀, ?_, hs₀,
    hlater.tail ⟨⟨hs, u, op', hu, htog, hstep⟩, rfl⟩, hmeets⟩
  exact (Function.update_of_ne hu.symm _ _).trans hp

/-- A call in progress survives what another thread does without an access. -/
lemma InCall.other_silent {H : Set σ} {st st' : CallSystem Op E A α σ} {t : ℕ} {op : Op}
    (h : InCall C P Q H st t op) (hshared : st'.shared = st.shared)
    (ht : st'.running t = st.running t) : InCall C P Q H st' t op := by
  obtain ⟨hmem, p, H₀, s₀, hp, hs₀, hlater, hmeets⟩ := h
  exact ⟨hshared ▸ hmem, p, H₀, s₀, ht.trans hp, hs₀, hshared ▸ hlater, hmeets⟩

/-- **One action** keeps every call to the protocol, if the call that it may begin does. -/
lemma Kept.next {st : CallSystem Op E A α σ} (h : Kept C P Q st) {a : CallAction Op ι}
    (ha : ∀ t op, a = .call t op → st.running t = none → Admits P st t op ∧
      Meets P C.answer t op (Q t op) (C.body op) {st.shared} st.shared) :
    Kept C P Q (C.next st a) := by
  rcases next_cases C st a with heq | ⟨t, op, rfl, ht, heq⟩ | ⟨t, i, op, x, -, ht, heq⟩ |
    ⟨t, i, op, e, k, b, s, -, ht, hb, heq⟩
  · rw [heq]
    exact h
  · rw [heq]
    obtain ⟨hadmits, hbody⟩ := ha t op rfl ht
    refine ⟨h.inv, h.compatible.call hadmits _, fun u op' p hp => ?_⟩
    by_cases hu : u = t
    · subst hu
      have hp' : some (op, C.body op) = some (op', p) :=
        (Function.update_self u (some (op, C.body op)) st.running).symm.trans hp
      obtain ⟨rfl, rfl⟩ := Prod.mk.inj (Option.some.inj hp')
      exact ⟨{st.shared}, rfl, _, _, _, Function.update_self .., h.inv, .refl, hbody⟩
    · have hp' : st.running u = some (op', p) := (Function.update_of_ne hu _ _).symm.trans hp
      obtain ⟨H, hH⟩ := h.calls u op' p hp'
      exact ⟨H, hH.other_silent rfl (Function.update_of_ne hu _ _)⟩
  · rw [heq]
    have hold : ∀ u op' p, Function.update st.running t none u = some (op', p) →
        u ≠ t ∧ st.running u = some (op', p) := by
      intro u op' p hp
      have hu : u ≠ t := by
        intro hu
        subst hu
        cases (Function.update_self ..).symm.trans hp
      exact ⟨hu, (Function.update_of_ne hu _ _).symm.trans hp⟩
    refine ⟨h.inv, h.compatible.of_running fun u op' p hp => ⟨p, (hold u op' p hp).2⟩,
      fun u op' p hp => ?_⟩
    obtain ⟨hu, hp'⟩ := hold u op' p hp
    obtain ⟨H, hH⟩ := h.calls u op' p hp'
    exact ⟨H, hH.other_silent rfl (Function.update_of_ne hu _ _)⟩
  · rw [heq]
    obtain ⟨H, hH⟩ := h.calls t op _ ht
    obtain ⟨hs, hstep, hcall⟩ := hH.access h.inv ht hb
    have hself : ∀ op' p, Function.update st.running t (some (op, k b)) t = some (op', p) →
        op = op' := by
      intro op' p hp
      rw [Function.update_self] at hp
      exact (Prod.mk.inj (Option.some.inj hp)).1
    refine ⟨hs, h.compatible.of_running fun u op' p hp => ?_, fun u op' p hp => ?_⟩
    · by_cases hu : u = t
      · subst hu
        exact ⟨_, hself op' p hp ▸ ht⟩
      · exact ⟨p, (Function.update_of_ne hu _ _).symm.trans hp⟩
    · by_cases hu : u = t
      · subst hu
        obtain rfl := hself op' p hp
        exact ⟨_, hcall⟩
      · have hp' : st.running u = some (op', p) := (Function.update_of_ne hu _ _).symm.trans hp
        obtain ⟨H', hH'⟩ := h.calls u op' p hp'
        exact ⟨_, hH'.other (Ne.symm hu) hs (h.compatible u t op' op _ _ (Ne.symm hu) hp' ht) hstep⟩

/-- One action of callers that respect the protocol. -/
lemma Verified.next (hC : C.Verified P pre Q) {st : CallSystem Op E A α σ} (h : Kept C P Q st)
    {a : CallAction Op ι} (ha : Respects P pre st a) : Kept C P Q (C.next st a) := by
  refine h.next fun t op heq _ => ?_
  subst heq
  exact ⟨ha.2, hC.body t op _ h.inv ha.1⟩

/-- **Every run keeps every call to the protocol**, and with it the invariant. -/
theorem Verified.run (hC : C.Verified P pre Q) {init : Set σ} {st : CallSystem Op E A α σ}
    (h : Kept C P Q st) {as : List (CallAction Op ι)}
    (hg : (C.machine init).Guarded (Respects P pre) st as) :
    Kept C P Q ((C.machine init).run st as) :=
  Machine.run_invariant_of_guard (M := C.machine init) (I := Kept C P Q)
    (fun _ _ h ha => hC.next h ha) h hg

/-- An action changes the shared state by a step of some thread, or not at all. -/
lemma Kept.shared_next {st : CallSystem Op E A α σ} (h : Kept C P Q st) (a : CallAction Op ι) :
    (C.next st a).shared = st.shared ∨ ∃ t op, P.step t op st.shared (C.next st a).shared := by
  rcases next_cases C st a with heq | ⟨t, op, -, ht, heq⟩ | ⟨t, i, op, x, -, ht, heq⟩ |
    ⟨t, i, op, e, k, b, s, -, ht, hb, heq⟩
  · rw [heq]
    exact Or.inl rfl
  · rw [heq]
    exact Or.inl rfl
  · rw [heq]
    exact Or.inl rfl
  · rw [heq]
    obtain ⟨H, hH⟩ := h.calls t op _ ht
    exact Or.inr ⟨t, op, (hH.access h.inv ht hb).2.1⟩

/-- **What every step of every thread keeps** holds along every run. -/
theorem Verified.run_of_step (hC : C.Verified P pre Q) {init : Set σ} {p : σ → Prop}
    (hp : ∀ t op s s', P.inv s → P.step t op s s' → p s → p s') {st : CallSystem Op E A α σ}
    (h : Kept C P Q st) (hst : p st.shared) {as : List (CallAction Op ι)}
    (hg : (C.machine init).Guarded (Respects P pre) st as) :
    p ((C.machine init).run st as).shared := by
  refine (Machine.run_invariant_of_guard (M := C.machine init)
    (I := fun st => Kept C P Q st ∧ p st.shared) (fun st a hst ha => ?_) ⟨h, hst⟩ hg).2
  refine ⟨hC.next hst.1 ha, ?_⟩
  show p (C.next st a).shared
  rcases hst.1.shared_next a with heq | ⟨t, op, hstep⟩
  · rw [heq]
    exact hst.2
  · exact hp t op _ _ hst.1.inv hstep hst.2

/-- No call is in progress in the beginning. -/
lemma kept_init {s : σ} (hs : P.inv s) :
    Kept C P Q ({ shared := s } : CallSystem Op E A α σ) :=
  ⟨hs, fun _ _ _ _ _ _ _ hp => absurd hp (by simp), fun _ _ _ hp => absurd hp (by simp)⟩

/-- One more action visits one more state. -/
lemma visited_append (C : SharedCode Op E A α σ ι) (init : Set σ) (st : CallSystem Op E A α σ)
    (as : List (CallAction Op ι)) (a : CallAction Op ι) :
    C.visited init st (as ++ [a]) =
      insert ((C.machine init).run st (as ++ [a])).shared (C.visited init st as) := by
  ext s
  constructor
  · intro hs
    obtain ⟨bs, hbs, rfl⟩ := hs
    rcases List.prefix_concat_iff.mp hbs with rfl | hbs
    · exact Set.mem_insert _ _
    · exact Set.mem_insert_of_mem _ ⟨bs, hbs, rfl⟩
  · intro hs
    rcases hs with rfl | ⟨bs, hbs, rfl⟩
    · exact ⟨_, List.prefix_rfl, rfl⟩
    · exact ⟨bs, hbs.trans (List.prefix_append as [a]), rfl⟩

/-- The present state has been visited. -/
lemma shared_mem_visited (C : SharedCode Op E A α σ ι) (init : Set σ)
    (st : CallSystem Op E A α σ) (as : List (CallAction Op ι)) :
    ((C.machine init).run st as).shared ∈ C.visited init st as := ⟨as, List.prefix_rfl, rfl⟩

/-- **A call in progress** has seen the states since it began.

**Proof sketch.** By induction on the run, from its end. An action that leaves the shared state as
it is visits a state that has been visited. The call itself does not return in between, so its
action is an access. -/
lemma Verified.inCall (hC : C.Verified P pre Q) (init : Set σ) {st : CallSystem Op E A α σ}
    (h : Kept C P Q st) {t : ℕ} (ht : st.running t = none) {op : Op}
    (hop : Respects P pre st (.call t op : CallAction Op ι)) (as : List (CallAction Op ι))
    (hg : (C.machine init).Guarded (Respects P pre) (C.next st (.call t op)) as)
    (hin : ∀ bs, bs <+: as → ((C.machine init).run (C.next st (.call t op)) bs).running t ≠ none) :
    InCall C P Q (C.visited init (C.next st (.call t op)) as)
      ((C.machine init).run (C.next st (.call t op)) as) t op := by
  set st₁ := C.next st (.call t op) with hst₁
  have hst₁' : Kept C P Q st₁ := hC.next h hop
  induction as using List.reverseRecOn with
  | nil =>
    have heq : st₁ =
        { st with running := Function.update st.running t (some (op, C.body op)) } := by
      rw [hst₁]
      simp only [SharedCode.next, ht]
    refine ⟨shared_mem_visited C init st₁ [], C.body op, {st.shared}, st.shared, ?_, h.inv,
      ?_, hC.body t op _ h.inv hop.1⟩
    · show st₁.running t = _
      rw [heq]
      exact Function.update_self ..
    · have hvisited : C.visited init st₁ [] = {st.shared} := by
        ext s
        constructor
        · intro hs
          obtain ⟨bs, hbs, rfl⟩ := hs
          rw [List.prefix_nil.mp hbs]
          show st₁.shared = st.shared
          rw [heq]
        · intro hs
          refine ⟨[], List.prefix_rfl, ?_⟩
          show s = st₁.shared
          rw [heq]
          exact hs
      rw [hvisited]
      show P.Later t op _ (_, st₁.shared)
      rw [heq]
      exact .refl
  | append_singleton as a ih =>
    rw [Machine.guarded_append] at hg
    have ih := ih hg.1 fun bs hbs => hin bs (hbs.trans (List.prefix_append as [a]))
    have hkept : Kept C P Q ((C.machine init).run st₁ as) := hC.run hst₁' hg.1
    have hlast := hin _ List.prefix_rfl
    rw [visited_append]
    simp only [Machine.run_append, Machine.run_cons, Machine.run_nil] at hlast ⊢
    set st₂ := (C.machine init).run st₁ as with hst₂
    have hmem : st₂.shared ∈ C.visited init st₁ as := shared_mem_visited C init st₁ as
    change InCall C P Q (insert (C.next st₂ a).shared _) (C.next st₂ a) t op
    change (C.next st₂ a).running t ≠ none at hlast
    rcases next_cases C st₂ a with heq | ⟨u, op', -, hu, heq⟩ | ⟨u, i, op', x, -, hu, heq⟩ |
      ⟨u, i, op', e, k, b, s, -, hu, hb, heq⟩
    · rw [heq, Set.insert_eq_of_mem hmem]
      exact ih
    · have hut : t ≠ u := by
        intro hut
        subst hut
        obtain ⟨-, p, _, _, hp, -⟩ := ih
        rw [hu] at hp
        cases hp
      rw [heq, Set.insert_eq_of_mem hmem]
      exact ih.other_silent rfl (Function.update_of_ne hut _ _)
    · have hut : t ≠ u := by
        intro hut
        subst hut
        rw [heq] at hlast
        exact hlast (Function.update_self ..)
      rw [heq, Set.insert_eq_of_mem hmem]
      exact ih.other_silent rfl (Function.update_of_ne hut _ _)
    · rw [heq]
      by_cases hut : u = t
      · subst hut
        obtain rfl : op = op' := by
          obtain ⟨-, p, _, _, hp, -⟩ := ih
          rw [hu] at hp
          exact (Prod.mk.inj (Option.some.inj hp)).1.symm
        exact (ih.access hkept.inv hu hb).2.2
      · obtain ⟨H, hH⟩ := hkept.calls u op' _ hu
        obtain ⟨hs, hstep, -⟩ := hH.access hkept.inv hu hb
        obtain ⟨-, p, _, _, hp, -⟩ := id ih
        exact ih.other hut hs (hkept.compatible t u op op' _ _ hut hp hu) hstep

/-- **The postcondition of a call that returns** holds for the states since it began, if it is
stable. -/
theorem Verified.returns (hC : C.Verified P pre Q) (init : Set σ) {st : CallSystem Op E A α σ}
    (h : Kept C P Q st) {t : ℕ} (ht : st.running t = none) {op : Op}
    (hop : Respects P pre st (.call t op : CallAction Op ι)) {as : List (CallAction Op ι)} {x : α}
    (hg : (C.machine init).Guarded (Respects P pre) (C.next st (.call t op)) as)
    (hin : ∀ bs, bs <+: as → ((C.machine init).run (C.next st (.call t op)) bs).running t ≠ none)
    (hret : ((C.machine init).run (C.next st (.call t op)) as).running t = some (op, .ret x))
    (hstable : P.Stable t op (Q t op x)) :
    Q t op x (C.visited init (C.next st (.call t op)) as)
      ((C.machine init).run (C.next st (.call t op)) as).shared := by
  obtain ⟨-, p, H, s, hp, hs, hlater, hmeets⟩ := hC.inCall init h ht hop as hg hin
  obtain rfl : p = .ret x := by
    rw [hret] at hp
    exact (Prod.mk.inj (Option.some.inj hp)).2.symm
  exact (hstable.later hlater hs hmeets).2

end SharedCode
