import Ammalloc.HugePageCache.Concurrent
import Ammalloc.Lib.Linearization

set_option relaxedAutoImplicit false
set_option autoImplicit false

/-!
# The cache of 2 MiB mappings is a bounded stack

`Get` and `Put`, interleaved access by access as in `Ammalloc.HugePageCache.Concurrent`, seen as
calls of a stack of at most `kCapacity` pointers. A `Get` takes effect in the compare-exchange that
pops the used stack, and a `Put` in the one that pushes to it. A call that finds its stack empty
takes effect where it read the head.

A `Put` may be refused although the cache is not full: slots that other calls are moving from one
stack to the other are on neither.

## Main definitions

* `Ammalloc.HugePageCache.StackEffect`, `Ammalloc.HugePageCache.StackEffect.apply` — the sequential
  object.
* `Ammalloc.HugePageCache.marks`, `Ammalloc.HugePageCache.phase` — where the calls take effect.

## Main results

* `Ammalloc.HugePageCache.linearizable_stack` — the cache is linearizable.
-/

namespace Ammalloc

namespace HugePageCache

open LinkedStack Linearization

/-! ## The sequential object -/

/-- What a call does to the stack of cached pointers. -/
inductive StackEffect where
  | pop (ptr : ℕ)
  | push (ptr : ℕ)
  /-- There is nothing to get. -/
  | empty
  /-- There is no slot. -/
  | full
  deriving DecidableEq, Repr

/-- The effect on the pointers, from the top. -/
def StackEffect.apply : StackEffect → List ℕ → Option (List ℕ)
  | pop p, q :: l => if q = p then some l else none
  | pop _, [] => none
  | push p, l => if l.length < kCapacity then some (p :: l) else none
  | empty, l => if l = [] then some l else none
  | full, l => some l

/-- What a call returns. -/
inductive Result where
  /-- `Get`; zero is null. -/
  | pointer (p : ℕ)
  /-- `Put`. -/
  | accepted (b : Bool)
  deriving DecidableEq, Repr

/-- The effect that belongs to a call and its result. -/
def Fits (c : CallRecord Call StackEffect Result) : Prop :=
  match c.op, c.effect with
  | .get, .pop p => c.result = .pointer p
  | .get, .empty => c.result = .pointer 0
  | .put p, .push q => q = p ∧ c.result = .accepted true
  | .put _, .full => c.result = .accepted false
  | _, _ => False

/-- A call that has returned with the effect that belongs to it. -/
lemma completes_call (op : Call) (e : StackEffect) (r : Result) (h : Fits ⟨op, e, r⟩) :
    Completes Fits [.called op, .effect e, .returned r] [] := .single h

/-! ## Where the calls take effect -/

/-- The effect of a call whose stack is empty. -/
def Call.failure : Call → StackEffect
  | .get => .empty
  | .put _ => .full

/-- Its result. -/
def Call.nothing : Call → Result
  | .get => .pointer 0
  | .put _ => .accepted false

/-- A head is read: if the stack is empty, then this is where the call takes effect. -/
def readMarks (call : Call) (head : ℕ) : List (Mark Call StackEffect Result) :=
  if index head = kInvalid then [.effect call.failure] else []

/-- A slot that points to `ptr` has been popped: `Get` takes effect. -/
def popMarks (ptr : ℕ) : Call → List (Mark Call StackEffect Result)
  | .get => [.effect (.pop ptr)]
  | .put _ => []

/-- A slot has been pushed: the call returns, and `Put` takes effect. -/
def pushMarks (p : ℕ) : Head → List (Mark Call StackEffect Result)
  | .free => [.returned (.pointer p)]
  | .used => [.effect (.push p), .returned (.accepted true)]

/-- The marks of the next access of thread `t`. -/
def System.stepMarks (st : System) (t : ℕ) (spurious : Bool) :
    List (Mark Call StackEffect Result) :=
  match st.pcs t with
  | .popLoad call => readMarks call (st.cache.heads call.source)
  | .popNext call oldVal _ => if index oldVal = kInvalid then [.returned call.nothing] else []
  | .popCas call oldVal _ _ =>
    if st.cache.heads call.source = oldVal ∧ spurious = false then
      popMarks (st.cache.ptr (index oldVal)) call
    else readMarks call (st.cache.heads call.source)
  | .pushCas h _ p oldVal _ =>
    if st.cache.heads h = oldVal ∧ spurious = false then pushMarks p h else []
  | _ => []

/-- The marks of an action. -/
def marks (n : ℕ) (st : System) : Action → List (ℕ × Mark Call StackEffect Result)
  | .call t c => if t < n ∧ st.pcs t = .idle then [Mark.called c].map fun m => (t, m) else []
  | .step t spurious => if t < n then (st.stepMarks t spurious).map fun m => (t, m) else []

/-- The marks of the call that a thread is in. -/
def Pc.marks (c : HugePageCache) : Pc → List (Mark Call StackEffect Result)
  | .idle => []
  | .popLoad call => [.called call]
  | .popNext call oldVal _ => .called call :: readMarks call oldVal
  | .popCas call _ _ _ => [.called call]
  | .access .get i => [.called .get, .effect (.pop (c.ptr i))]
  | .access (.put p) _ => [.called (.put p)]
  | .pushLoad .free _ p | .pushStore .free _ p _ _ | .pushCas .free _ p _ _ =>
    [.called .get, .effect (.pop p)]
  | .pushLoad .used _ p | .pushStore .used _ p _ _ | .pushCas .used _ p _ _ => [.called (.put p)]

/-- The marks of the call that thread `t` is in. -/
def phase (t : ℕ) (st : System) : List (Mark Call StackEffect Result) := (st.pcs t).marks st.cache

/-! ## One access -/

variable {n t : ℕ} {st st' : System} {chain chain' : Head → List ℕ} {pc : Pc}

/-- The heads and links determine the stacks. -/
lemma Linked.unique {c : HugePageCache} (h : c.Linked chain) (h' : c.Linked chain') :
    chain = chain' := funext fun hd => (h.links hd).unique (h'.links hd)

/-- The cached pointers are those of the used stack. -/
lemma Inv.entries_eq (hinv : Inv n st chain) :
    st.cache.entries = (chain .used).map st.cache.ptr ∧
      (chain .free).length + (chain .used).length +
        Multiset.card (st.held n) = kCapacity := by
  have hcard := congrArg Multiset.card hinv.slots
  rw [Multiset.card_add, Multiset.card_add, Multiset.coe_card, Multiset.coe_card,
    Multiset.card_range] at hcard
  refine ⟨?_, hcard⟩
  rw [entries, (hinv.linked.links .used).walk_eq (by omega)]

/-- The call of another thread is where it was, when the pointer of its slot has not changed. -/
lemma phase_other {u : ℕ} (hpcs : st'.pcs = Function.update st.pcs t pc) (hu : u ≠ t)
    (hptr : ∀ j ∈ (st.pcs u).held, st'.cache.ptr j = st.cache.ptr j) :
    phase u st' = phase u st := by
  unfold phase
  rw [hpcs, Function.update_of_ne hu]
  cases hpc : st.pcs u with
  | access call i =>
    cases call with
    | get =>
      rw [hpc] at hptr
      simp only [Pc.marks, hptr i (Multiset.mem_singleton_self i)]
    | put p => rfl
  | pushLoad hd | pushStore hd | pushCas hd => cases hd <;> rfl
  | idle | popLoad | popNext | popCas => rfl

/-- What one access has to show: its effects on the stack, and the progress of the call. -/
def Shows (st st' : System) (t : ℕ) (ms : List (Mark Call StackEffect Result)) : Prop :=
  replay StackEffect.apply (effects (ms.map fun m => (t, m))) st.cache.entries =
      some st'.cache.entries ∧
    Completes Fits (phase t st ++ ms) (phase t st')

/-- An access without an effect that continues the call. -/
lemma Shows.silent {ms : List (Mark Call StackEffect Result)}
    (hentries : st'.cache.entries = st.cache.entries)
    (heffects : effects (ms.map fun m => (t, m)) = [])
    (hphase : Completes Fits (phase t st ++ ms) (phase t st')) : Shows st st' t ms := by
  refine ⟨?_, hphase⟩
  rw [heffects, replay, hentries]

/-- The phase of the thread that has moved. -/
lemma phase_setPc (st : System) (t : ℕ) (pc : Pc) :
    phase t (st.setPc t pc) = pc.marks st.cache := by
  simp [phase, System.setPc]

/-- A stack whose head is null is empty. -/
lemma Inv.chain_eq_nil (hinv : Inv n st chain) {h : Head}
    (hnull : index (st.cache.heads h) = kInvalid) : chain h = [] := by
  have hchain := hinv.linked.links h
  rw [hnull] at hchain
  exact hchain.eq_nil

/-- **A head is read**, at the beginning of a `Pop` or after a compare-exchange that failed. -/
lemma Inv.shows_read (hinv : Inv n st chain) {call : Call} (hphase : phase t st = [.called call])
    (seen : ℕ) :
    Shows st (st.setPc t (.popNext call (st.cache.heads call.source) seen)) t
      (readMarks call (st.cache.heads call.source)) := by
  have hcompletes : Completes Fits
      (phase t st ++ readMarks call (st.cache.heads call.source))
      (phase t (st.setPc t (.popNext call (st.cache.heads call.source) seen))) := by
    rw [phase_setPc, hphase]
    exact .refl _
  by_cases hnull : index (st.cache.heads call.source) = kInvalid
  · refine ⟨?_, hcompletes⟩
    rw [readMarks, if_pos hnull]
    cases call with
    | get =>
      have hused : chain .used = [] := hinv.chain_eq_nil hnull
      have hnil : st.cache.entries = [] := by rw [hinv.entries_eq.1, hused, List.map_nil]
      simp [effects, replay, Call.failure, StackEffect.apply, hnil, System.setPc]
    | put p => simp [effects, replay, Call.failure, StackEffect.apply, System.setPc]
  · refine .silent rfl ?_ hcompletes
    rw [readMarks, if_neg hnull]
    rfl

/-- The entries, read off a description of the stacks. -/
lemma entries_of_linked (hinv : ∃ chain, Inv n st chain) (hl : st.cache.Linked chain) :
    st.cache.entries = (chain .used).map st.cache.ptr := by
  obtain ⟨chain', hinv⟩ := hinv
  rw [hl.unique hinv.linked]
  exact hinv.entries_eq.1

/-- **A successful pop.** `Get` takes effect here. -/
lemma Inv.shows_popCas (hinv : Inv n st chain) (ht : t < n) {call : Call} {oldVal seen next : ℕ}
    (hpc : st.pcs t = .popCas call oldVal seen next)
    (hcas : st.cache.heads call.source = oldVal)
    (hfew : st.versions call.source < seen + 2 ^ 48) :
    Shows st ((st.exchange call.source (pack next (tag oldVal + 1))).setPc t
      (.access call (index oldVal))) t (popMarks (st.cache.ptr (index oldVal)) call) := by
  have hinv' := hinv.popCas ht hpc hcas hfew
  obtain ⟨⟨hle, htag, -⟩, hne, hnext⟩ : st.PcOk (.popCas call oldVal seen next) :=
    hpc ▸ hinv.known t ht
  have hseen : seen = st.versions call.source :=
    version_eq hle hfew (by rw [← htag, ← hinv.tags, hcas])
  subst hcas
  rw [hnext hseen] at hinv' ⊢
  obtain ⟨l, heq, hlinked⟩ := hinv.linked.pop hne (tag (st.cache.heads call.source) + 1)
  have hentries := entries_of_linked hinv' hlinked
  cases call with
  | get =>
    have hused : chain .used = index (st.cache.heads .used) :: l := heq
    refine ⟨?_, ?_⟩
    · rw [hentries, hinv.entries_eq.1, hused]
      simp only [List.map_cons, Call.source, Function.update_self]
      exact (replay_singleton _ _ _).trans (if_pos rfl)
    · rw [phase_setPc, phase, hpc]
      exact .refl _
  | put p =>
    refine .silent ?_ rfl ?_
    · rw [hentries, hinv.entries_eq.1]
      rfl
    · rw [phase_setPc, phase, hpc]
      exact .refl _

/-- **A successful push.** The call returns, and `Put` takes effect here. -/
lemma Inv.shows_pushCas (hinv : Inv n st chain) (ht : t < n) {h : Head} {i p oldVal seen : ℕ}
    (hpc : st.pcs t = .pushCas h i p oldVal seen) (hcas : st.cache.heads h = oldVal) :
    Shows st (((st.exchange h (pack i (tag oldVal + 1))).finish p h).setPc t .idle) t
      (pushMarks p h) := by
  have hinv' := hinv.pushCas ht hpc hcas
  have hheld : (st.pcs t).held = {i} := by rw [hpc, Pc.held]
  obtain ⟨hlt, -, -⟩ := hinv.held_private ht (hheld ▸ Multiset.mem_singleton_self i)
  obtain ⟨-, hnext, hptr⟩ : st.PcOk (.pushCas h i p oldVal seen) := hpc ▸ hinv.known t ht
  subst hcas
  have hlinked := hinv.linked.push hlt hnext (tag (st.cache.heads h) + 1)
  obtain ⟨hold, hcard⟩ := hinv.entries_eq
  cases h with
  | free =>
    have hentries := entries_of_linked hinv' hlinked
    refine .silent ?_ rfl ?_
    · rw [hentries, hold]
      rfl
    · rw [phase_setPc, phase, hpc]
      exact completes_call .get (.pop p) (.pointer p) rfl
  | used =>
    have hentries := entries_of_linked hinv' hlinked
    -- the slot that the call holds is on no stack, so there is room on the used one
    have hroom : st.cache.entries.length < kCapacity := by
      have hmem : i ∈ st.held n :=
        Multiset.mem_sum.mpr ⟨t, Finset.mem_range.mpr ht, hheld ▸ Multiset.mem_singleton_self i⟩
      have := Multiset.card_pos_iff_exists_mem.mpr ⟨i, hmem⟩
      rw [hold, List.length_map]
      omega
    refine ⟨?_, ?_⟩
    · rw [hentries]
      refine (replay_singleton _ _ _).trans ((if_pos hroom).trans ?_)
      rw [hold, Function.update_self, List.map_cons]
      exact congrArg (fun q => some (q :: _)) (hptr rfl).symm
    · rw [phase_setPc, phase, hpc]
      exact completes_call (.put p) (.push p) (.accepted true) ⟨rfl, rfl⟩

/-- **Every access shows its effects.** -/
lemma Inv.shows_step (hinv : Inv n st chain) (ht : t < n) (spurious : Bool)
    (hfew : FewUpdates st (.step t spurious)) :
    Shows st (st.step t spurious) t (st.stepMarks t spurious) := by
  have hinv' := hinv.step ht spurious hfew
  have hphase : phase t st = (st.pcs t).marks st.cache := rfl
  unfold System.step at hinv' ⊢
  unfold System.stepMarks
  unfold FewUpdates at hfew
  cases hpc : st.pcs t with
  | idle =>
    refine .silent rfl rfl ?_
    rw [List.append_nil]
    exact .refl _
  | popLoad call =>
    rw [hpc] at hphase
    exact hinv.shows_read hphase _
  | popNext call oldVal seen =>
    rw [hpc] at hphase
    simp only
    by_cases hnull : index oldVal = kInvalid
    · rw [if_pos hnull, if_pos hnull]
      refine .silent rfl rfl ?_
      rw [hphase, phase_setPc]
      simp only [Pc.marks, readMarks, if_pos hnull]
      cases call with
      | get => exact completes_call .get .empty (.pointer 0) rfl
      | put p => exact completes_call (.put p) .full (.accepted false) rfl
    · rw [if_neg hnull, if_neg hnull]
      refine .silent rfl rfl ?_
      rw [hphase, phase_setPc]
      simp only [Pc.marks, readMarks, if_neg hnull]
      exact .refl _
  | popCas call oldVal seen next =>
    simp only [hpc] at hfew
    simp only
    by_cases hcas : st.cache.heads call.source = oldVal ∧ spurious = false
    · rw [if_pos hcas, if_pos hcas]
      exact hinv.shows_popCas ht hpc hcas.1 hfew
    · rw [if_neg hcas, if_neg hcas]
      rw [hpc] at hphase
      exact hinv.shows_read hphase _
  | access call i =>
    rw [hpc] at hphase
    cases call with
    | get =>
      refine .silent rfl rfl ?_
      rw [hphase, phase_setPc, List.append_nil]
      exact .refl _
    | put p =>
      have hheld : (st.pcs t).held = {i} := by rw [hpc, Pc.held]
      obtain ⟨-, hout, -⟩ := hinv.held_private ht (hheld ▸ Multiset.mem_singleton_self i)
      refine .silent ?_ rfl ?_
      · rw [entries_of_linked ⟨_, hinv.accessPut ht hpc⟩ (hinv.linked.setPtr i p),
          hinv.entries_eq.1]
        refine List.map_congr_left fun j hj => ?_
        have hji : j ≠ i := fun heq => hout .used (heq ▸ hj)
        simp [System.setPc, hji]
      · rw [hphase, phase_setPc, List.append_nil]
        exact .refl _
  | pushLoad h i p =>
    rw [hpc] at hphase
    refine .silent rfl rfl ?_
    rw [hphase, phase_setPc, List.append_nil]
    cases h <;> exact .refl _
  | pushStore h i p oldVal seen =>
    have hheld : (st.pcs t).held = {i} := by rw [hpc, Pc.held]
    obtain ⟨-, hout, -⟩ := hinv.held_private ht (hheld ▸ Multiset.mem_singleton_self i)
    rw [hpc] at hphase
    refine .silent ?_ rfl ?_
    · rw [entries_of_linked ⟨_, hinv.pushStore ht hpc⟩ (hinv.linked.setNext hout _),
        hinv.entries_eq.1]
      simp [System.setPc]
    · rw [hphase, phase_setPc, List.append_nil]
      cases h <;> exact .refl _
  | pushCas h i p oldVal seen =>
    simp only
    by_cases hcas : st.cache.heads h = oldVal ∧ spurious = false
    · rw [if_pos hcas, if_pos hcas]
      exact hinv.shows_pushCas ht hpc hcas.1
    · rw [if_neg hcas, if_neg hcas]
      rw [hpc] at hphase
      refine .silent rfl rfl ?_
      rw [hphase, phase_setPc, List.append_nil]
      cases h <;> exact .refl _

/-- An access moves its thread, and writes the pointer of no slot but its own. -/
lemma System.step_frame (st : System) (t : ℕ) (spurious : Bool) :
    ∃ pc, (st.step t spurious).pcs = Function.update st.pcs t pc ∧
      ∀ j, j ∉ (st.pcs t).held → (st.step t spurious).cache.ptr j = st.cache.ptr j := by
  unfold System.step
  cases hpc : st.pcs t with
  | idle => exact ⟨st.pcs t, by rw [Function.update_eq_self], fun _ _ => rfl⟩
  | popLoad call => exact ⟨_, rfl, fun _ _ => rfl⟩
  | popNext call oldVal seen =>
    dsimp only
    split
    · exact ⟨_, rfl, fun _ _ => rfl⟩
    · exact ⟨_, rfl, fun _ _ => rfl⟩
  | popCas call oldVal seen next =>
    dsimp only
    split
    · exact ⟨_, rfl, fun _ _ => rfl⟩
    · exact ⟨_, rfl, fun _ _ => rfl⟩
  | access call i =>
    cases call with
    | get => exact ⟨_, rfl, fun _ _ => rfl⟩
    | put p =>
      refine ⟨_, rfl, fun j hj => ?_⟩
      have hji : j ≠ i := fun heq => hj (heq ▸ Multiset.mem_singleton_self i)
      simp [System.setPc, hji]
  | pushLoad h i p => exact ⟨_, rfl, fun _ _ => rfl⟩
  | pushStore h i p oldVal seen => exact ⟨_, rfl, fun j _ => by simp [System.setPc]⟩
  | pushCas h i p oldVal seen =>
    dsimp only
    split
    · cases h <;> exact ⟨_, rfl, fun _ _ => rfl⟩
    · exact ⟨_, rfl, fun _ _ => rfl⟩

/-! ## Every run -/

/-- The invariant, for the threads that there are. -/
def Sound (n : ℕ) (st : System) : Prop :=
  (∃ chain, Inv n st chain) ∧ ∀ u, n ≤ u → st.pcs u = .idle

/-- The call of another thread. -/
lemma Sound.completes_other {u : ℕ} {ms : List (Mark Call StackEffect Result)} (hut : t ≠ u)
    (hphase : phase u st' = phase u st) :
    Completes Fits (phase u st ++ ofThread u (ms.map fun m => (t, m))) (phase u st') := by
  rw [ofThread_map_of_ne hut, List.append_nil, hphase]
  exact .refl _

/-- **One action.** -/
lemma Sound.next (h : Sound n st) (a : Action) (hfew : FewUpdates st a) :
    Sound n ((machine n).next st a) ∧
      replay StackEffect.apply (effects (marks n st a)) st.cache.entries =
        some ((machine n).next st a).cache.entries ∧
      ∀ u, Completes Fits (phase u st ++ ofThread u (marks n st a))
        (phase u ((machine n).next st a)) := by
  obtain ⟨⟨chain, hinv⟩, hidle⟩ := h
  have hnothing : ∀ u, Completes Fits (phase u st ++ ofThread u []) (phase u st) := by
    intro u
    rw [ofThread, List.filterMap_nil, List.append_nil]
    exact .refl _
  cases a with
  | call t c =>
    by_cases hcall : t < n ∧ st.pcs t = .idle
    · simp only [machine, marks, if_pos hcall]
      refine ⟨⟨⟨chain, hinv.setPc hcall.1 (by rw [hcall.2]; rfl) (by rw [hcall.2]; rfl) trivial⟩,
        fun u hu => ?_⟩, rfl, fun u => ?_⟩
      · have hut : u ≠ t := by omega
        exact (Function.update_of_ne hut _ _).trans (hidle u hu)
      · by_cases hut : u = t
        · subst hut
          rw [ofThread_map_self, phase_setPc, phase, hcall.2]
          exact .refl _
        · exact Sound.completes_other (Ne.symm hut) (phase_other rfl hut fun _ _ => rfl)
    · simp only [machine, marks, if_neg hcall]
      exact ⟨⟨⟨chain, hinv⟩, hidle⟩, rfl, hnothing⟩
  | step t spurious =>
    by_cases ht : t < n
    · simp only [machine, marks, if_pos ht]
      obtain ⟨pc, hpcs, hptr⟩ := st.step_frame t spurious
      obtain ⟨heffect, hcompletes⟩ := hinv.shows_step ht spurious hfew
      refine ⟨⟨hinv.step ht spurious hfew, fun u hu => ?_⟩, heffect, fun u => ?_⟩
      · have hut : u ≠ t := by omega
        rw [hpcs, Function.update_of_ne hut]
        exact hidle u hu
      · by_cases hut : u = t
        · subst hut
          rw [ofThread_map_self]
          exact hcompletes
        · refine Sound.completes_other (Ne.symm hut) (phase_other hpcs hut fun j hj => hptr j ?_)
          rcases Nat.lt_or_ge u n with hu | hu
          · intro hjt
            exact (hinv.held_private ht hjt).2.2 u hu hut hj
          · rw [hidle u hu] at hj
            exact absurd hj (by simp [Pc.held])
    · simp only [machine, marks, if_neg ht]
      exact ⟨⟨⟨chain, hinv⟩, hidle⟩, rfl, hnothing⟩

/-- The invariant holds at the start. -/
lemma sound_create (n : ℕ) : Sound n {} := ⟨⟨_, inv_create n⟩, fun _ _ => rfl⟩

/-- A `Put` is refused where it finds the free stack empty. -/
lemma Inv.no_slot (hinv : Inv n st chain) {a : Action}
    (ha : (t, .effect .full) ∈ marks n st a) :
    st.cache.entries.length + Multiset.card (st.held n) = kCapacity := by
  obtain ⟨hentries, hcard⟩ := hinv.entries_eq
  have hread : ∀ (call : Call) (head : ℕ),
      Mark.effect StackEffect.full ∈ readMarks call head → index head = kInvalid ∧
        call.source = .free := by
    intro call head hm
    unfold readMarks at hm
    split at hm
    · next hnull =>
      refine ⟨hnull, ?_⟩
      cases call with
      | get => exact absurd hm (by simp [Call.failure])
      | put p => rfl
    · exact absurd hm (by simp)
  have hfree : index (st.cache.heads .free) = kInvalid := by
    cases a with
    | call u c =>
      simp only [marks] at ha
      split at ha <;> exact absurd ha (by simp)
    | step u spurious =>
      simp only [marks] at ha
      split at ha
      · obtain ⟨m, hm, hmeq⟩ := List.mem_map.mp ha
        obtain ⟨rfl, rfl⟩ := Prod.mk.inj hmeq
        unfold System.stepMarks at hm
        cases hpc : st.pcs u with
        | popLoad call =>
          rw [hpc] at hm
          obtain ⟨hnull, hsource⟩ := hread _ _ hm
          exact hsource ▸ hnull
        | popCas call oldVal seen next =>
          rw [hpc] at hm
          dsimp only at hm
          split at hm
          · cases call <;> exact absurd hm (by simp [popMarks])
          · obtain ⟨hnull, hsource⟩ := hread _ _ hm
            exact hsource ▸ hnull
        | popNext call oldVal seen =>
          rw [hpc] at hm
          dsimp only at hm
          split at hm <;> exact absurd hm (by simp)
        | pushCas h i p oldVal seen =>
          rw [hpc] at hm
          dsimp only at hm
          split at hm
          · cases h <;> exact absurd hm (by simp [pushMarks])
          · exact absurd hm (by simp)
        | idle | access | pushLoad | pushStore =>
          rw [hpc] at hm
          exact absurd hm (by simp)
      · exact absurd ha (by simp)
  rw [hinv.chain_eq_nil hfree, List.length_nil] at hcard
  rw [hentries, List.length_map]
  omega

/-- **The cache is linearizable.** In every interleaving of `Get` and `Put` by any number of
threads, access by access and with spurious failures, in which no compare-exchange comes a full
turn of the tag after its read: the effects of the calls, in the order in which they happen, are a
history of a stack of at most `kCapacity` pointers, which ends in the pointers of the used stack;
the marks of every thread are whole calls, each of which takes effect once between its beginning
and its return and returns what its effect says, and then those of the call in progress. Where a
`Put` is refused, all slots hold a pointer or are in the hands of calls in progress. -/
theorem linearizable_stack (n : ℕ) (as : List Action)
    (hfew : (machine n).Guarded FewUpdates {} as) :
    let st := (machine n).run {} as
    let tr := trace (machine n) (marks n) {} as
    replay StackEffect.apply (effects tr) [] = some st.cache.entries ∧
      (∀ t, Completes Fits (ofThread t tr) (phase t st)) ∧
      ∀ bs a t, bs ++ [a] <+: as → (t, .effect .full) ∈ marks n ((machine n).run {} bs) a →
        ((machine n).run {} bs).cache.entries.length +
          Multiset.card (((machine n).run {} bs).held n) = kCapacity := by
  intro st tr
  obtain ⟨hreplay, hcalls⟩ := linearizable (φ := fun st : System => st.cache.entries)
    (fun _ a h hfew => h.next a hfew) (sound_create n) hfew
  refine ⟨by simpa [entries_create] using hreplay,
    fun t => by simpa [phase, Pc.marks] using hcalls t,
    fun bs a t hbs ha => ?_⟩
  obtain ⟨cs, hcs⟩ := hbs
  have hg : (machine n).Guarded FewUpdates {} bs := by
    rw [← hcs, List.append_assoc] at hfew
    exact (Machine.guarded_append.mp hfew).1
  obtain ⟨⟨chain, hinv⟩, -⟩ := Machine.run_invariant_of_guard (M := machine n) (I := Sound n)
    (fun _ a h hfew => (h.next a hfew).1) (sound_create n) hg
  exact hinv.no_slot ha

/-- Two threads put a mapping each, and a third one gets the one that came last. -/
theorem linearizable_stack_contended :
    let as : List Action := [.call 0 (.put 0x200000), .call 1 (.put 0x400000)] ++
      List.replicate 8 (.step 0 false) ++ List.replicate 8 (.step 1 false) ++
      .call 2 .get :: List.replicate 7 (.step 2 false)
    let tr := trace (machine 3) (marks 3) {} as
    effects tr = [.push 0x200000, .push 0x400000, .pop 0x400000] ∧
      replay StackEffect.apply (effects tr) [] = some ((machine 3).run {} as).cache.entries := by
  intro as tr
  refine ⟨by decide, ?_⟩
  exact (linearizable_stack 3 as (guarded_of_length fun h => by norm_num [as])).1

end HugePageCache

end Ammalloc
