import Ammalloc.Scavenger
import Ammalloc.Lib.Machine

set_option relaxedAutoImplicit false
set_option autoImplicit false

/-!
# The page layer as a concurrent system

Any number of threads call `AllocSpan` and `ReleaseSpan` while one scavenger thread runs
`ScavengeOnePass`. Each critical section is one action, and so is each `madvise`, which runs
outside the lock; a run is any interleaving of them. The owner of a span may write its
object-level fields at any moment.

Three fields of the state are not in the program: `held` (what `AllocSpan` returned and nobody
released yet), `log` (the history, newest first) and `fault` (how the program died, if it did).

## Main definitions

* `Ammalloc.PageSystem`, `Ammalloc.PageSystem.machine` — the system and its runs.
* `Ammalloc.PageSystem.Inv` — its invariant.

## Main results

* `Ammalloc.PageSystem.representation_invariant` — buckets, leaves and descriptors agree in
  every reachable state.
* `Ammalloc.PageSystem.scavenger_safety` — the scavenger touches no page that is handed out,
  and loses or duplicates no span.
* `Ammalloc.PageSystem.idle_law` — when the spans the scavenger takes have been idle.
-/

namespace Ammalloc

open PageCache

/-! ## Actions and events -/

/-- The actions of the page layer. -/
inductive PageAction where
  /-- `AllocSpan(n)` by some thread. -/
  | alloc (n : ℕ) (env : PageEnv)
  /-- `ReleaseSpan` of a span that is handed out. -/
  | release (i : ℕ) (env : PageEnv)
  /-- The holder of a span writes its object-level fields. -/
  | useSpan (i : ℕ) (o : Span)
  /-- Time passes. -/
  | tick (ms : ℕ)
  /-- The next step of the scavenger; `ok` is the outcome of its `madvise`. -/
  | scavenge (env : PageEnv) (ok : Bool)

/-- What the history records. -/
inductive PageEvent where
  | handOut (i : ℕ) (e : Extent)
  | detach (i : ℕ) (e : Extent)
  | madvised (i : ℕ) (e : Extent)
  | giveBack (i : ℕ) (e : Extent) (bucket : ℕ)
  deriving DecidableEq, Repr

/-- Page `q` has been handed out since it was last successfully passed to `madvise`. -/
def handedOutSince : List PageEvent → ℕ → Prop
  | [], _ => False
  | .handOut _ e :: log, q => e.Contains q ∨ handedOutSince log q
  | .madvised _ e :: log, q => ¬ e.Contains q ∧ handedOutSince log q
  | .detach _ _ :: log, q => handedOutSince log q
  | .giveBack _ _ _ :: log, q => handedOutSince log q

/-- The spans the scavenger detached, with their ranges at that moment, newest first. -/
def detachedLog (log : List PageEvent) : List (ℕ × Extent) :=
  log.filterMap fun
    | .detach i e => some (i, e)
    | _ => none

/-- The spans the scavenger returned, with their ranges at that moment, newest first. -/
def returnedLog (log : List PageEvent) : List (ℕ × Extent) :=
  log.filterMap fun
    | .giveBack i e _ => some (i, e)
    | _ => none

/-- The state of the page layer. -/
structure PageSystem where
  pc : PageCache := {}
  scav : ScavPc := .idle
  /-- The log lines of the "used span in free list" branch. -/
  errors : ℕ := 0
  held : List ℕ := []
  log : List PageEvent := []
  fault : Option Fault := none

namespace PageSystem

/-- The range of descriptor `i`. -/
def rangeOf (pc : PageCache) (i : ℕ) : Extent := (pc.extents i).getD ⟨0, 0⟩

/-- The events of a scavenger step, newest first. -/
def scavEvents (pc : PageCache) (ok : Bool) (scav' : ScavPc) : ScavPc → List PageEvent
  | .idle => []
  | .detach _ _ => (scav'.chain.map fun i => .detach i (rangeOf pc i)).reverse
  | .madvise _ _ _ (i :: _) => if ok then [.madvised i (rangeOf pc i)] else []
  | .madvise _ b chain [] => (chain.map fun i => .giveBack i (rangeOf pc i) b).reverse

/-- One action. -/
def next (st : PageSystem) : PageAction → PageSystem
  | .alloc n env =>
    match (st.pc.load env).allocSpan n with
    | .error e => { st with fault := some e }
    | .ok (none, pc) => { st with pc := pc }
    | .ok (some i, pc) =>
      { st with pc := pc, held := i :: st.held, log := .handOut i (rangeOf pc i) :: st.log }
  | .release i env =>
    if i ∈ st.held then
      match (st.pc.load env).releaseSpan i with
      | .error e => { st with fault := some e }
      | .ok pc => { st with pc := pc, held := st.held.erase i }
    else st
  | .useSpan i o =>
    if i ∈ st.held then
      match st.pc.deref i with
      | .error e => { st with fault := some e }
      | .ok s => { st with pc := st.pc.store i (s.withObjects o) }
    else st
  | .tick ms => { st with pc := { st.pc with clock := min (st.pc.clock + ms) sizeMax } }
  | .scavenge env ok =>
    match (st.pc.load env).scavengeStep st.scav ok with
    | .error e => { st with fault := some e }
    | .ok (scav', errors, pc) =>
      { st with
        pc := pc
        scav := scav'
        errors := st.errors + errors
        log := scavEvents st.pc ok scav' st.scav ++ st.log }

/-- The system starts with nothing mapped. -/
def machine : Machine PageSystem PageAction where
  init := {{}}
  next := next

/-! ## The invariant -/

/-- The invariant of the page layer. -/
structure Inv (st : PageSystem) : Prop where
  scav : ScavInv st.pc st.scav
  held : ∀ i, i ∈ st.held ↔ (∃ s, st.pc.spans i = some s ∧ s.used = true) ∧ i ∉ st.scav.chain
  held_nodup : st.held.Nodup
  fault : st.fault = none
  errors : st.errors = 0
  decommitted : ∀ i s, st.pc.spans i = some s → s.committed = false →
    ∀ q, s.Covers q → ¬ handedOutSince st.log q
  chain_log : detachedLog st.log =
    (st.scav.chain.map fun i => (i, rangeOf st.pc i)).reverse ++ returnedLog st.log
  bucket_log : ∀ i e b, PageEvent.giveBack i e b ∈ st.log → e.len = b

/-- What one action does to the free spans: they are untouched, or they were put on their list
in this action and carry a stamp from it. -/
structure FreeFrom (pc pc' : PageCache) : Prop where
  clock_le : pc.clock ≤ pc'.clock
  free_from : ∀ j s, pc'.spans j = some s → s.used = false →
    pc.spans j = some s ∨ (pc.clock ≤ s.lastUsedTimeMs ∧ s.lastUsedTimeMs ≤ pc'.clock)

/-- An action that does nothing leaves the free spans alone. -/
lemma FreeFrom.refl (pc : PageCache) : FreeFrom pc pc := ⟨le_rfl, fun _ _ hs _ => Or.inl hs⟩

/-- In a step of the page cache a free span is untouched or newly stamped. -/
lemma FreeFrom.of_evolves {pc pc' : PageCache} {rel acq : Option ℕ}
    (h : Evolves pc pc' rel acq) : FreeFrom pc pc' :=
  ⟨h.clock_le, fun j s hs hu => (h.free_from j s hs hu).imp_right And.right⟩

variable {st : PageSystem}

/-- The range of a live descriptor. -/
lemma rangeOf_eq {pc : PageCache} {i : ℕ} {s : Span} (h : pc.spans i = some s) :
    rangeOf pc i = s.extent := by
  simp [rangeOf, extents, h]

/-- A section that leaves the detached spans alone leaves their ranges alone. -/
lemma Inv.range_chain {pc' : PageCache} {rel acq : Option ℕ} (h : st.Inv)
    (he : Evolves st.pc pc' rel acq) (hrel : ∀ i, rel = some i → i ∉ st.scav.chain) :
    (st.scav.chain.map fun i => (i, rangeOf pc' i)) =
      st.scav.chain.map fun i => (i, rangeOf st.pc i) := by
  refine List.map_congr_left fun i hi => ?_
  obtain ⟨s, hs, hu⟩ := h.scav.inv.detached i hi
  rw [rangeOf_eq hs, rangeOf_eq (he.used_keep i s hs hu fun hr => hrel i hr hi)]

/-- **An action of `AllocSpan`.** -/
lemma next_alloc (h : st.Inv) (n : ℕ) (env : PageEnv) :
    (next st (.alloc n env)).Inv ∧ FreeFrom st.pc (next st (.alloc n env)).pc := by
  obtain ⟨r, pc', hrun, hpost⟩ := allocSpan_spec (h.scav.inv.load env) n
  have he : Evolves st.pc pc' none r := hpost.evolves.of_load
  have hscav : ScavInv pc' st.scav := h.scav.evolves he hpost.inv (by simp)
  have hchain := h.range_chain he (by simp)
  cases r with
  | none =>
    simp only [next, hrun]
    refine ⟨⟨hscav, fun i => ?_, h.held_nodup, h.fault, h.errors, fun i s hs hc => ?_, ?_,
      h.bucket_log⟩, .of_evolves he⟩
    · rw [h.held i]
      refine and_congr_left fun _ => exists_congr fun s => ?_
      exact ⟨fun ⟨hs, hu⟩ => ⟨he.used_keep i s hs hu (by simp), hu⟩,
        fun ⟨hs, hu⟩ => ⟨he.used_from i s hs hu (by simp), hu⟩⟩
    · by_cases hu : s.used = true
      · exact h.decommitted i s (he.used_from i s hs hu (by simp)) hc
      · rcases he.free_from i s hs (by simpa using hu) with hs' | ⟨hc', -⟩
        · exact h.decommitted i s hs' hc
        · rw [hc] at hc'
          exact absurd hc' (by simp)
    · rw [hchain]
      exact h.chain_log
  | some i₀ =>
    obtain ⟨s₀, hs₀, hu₀, hc₀, -⟩ := hpost.got i₀ rfl
    have hnew : i₀ ∉ st.scav.chain := by
      intro hc
      obtain ⟨s, hs, hu⟩ := h.scav.inv.detached i₀ hc
      have := he.acq_fresh i₀ rfl s hs
      rw [hu] at this
      exact absurd this (by simp)
    have hnotheld : i₀ ∉ st.held := by
      intro hh
      obtain ⟨⟨s, hs, hu⟩, -⟩ := (h.held i₀).mp hh
      have := he.acq_fresh i₀ rfl s hs
      rw [hu] at this
      exact absurd this (by simp)
    simp only [next, hrun]
    refine ⟨⟨hscav, fun i => ?_, List.nodup_cons.mpr ⟨hnotheld, h.held_nodup⟩, h.fault, h.errors,
      fun i s hs hc q hq => ?_, ?_, ?_⟩, .of_evolves he⟩
    · rw [List.mem_cons, h.held i]
      by_cases hi : i = i₀
      · subst hi
        simp only [true_or, true_iff]
        exact ⟨⟨s₀, hs₀, hu₀⟩, hnew⟩
      · simp only [hi, false_or]
        refine and_congr_left fun _ => exists_congr fun s => ?_
        exact ⟨fun ⟨hs, hu⟩ => ⟨he.used_keep i s hs hu (by simp), hu⟩,
          fun ⟨hs, hu⟩ => ⟨he.used_from i s hs hu (by simpa using Ne.symm hi), hu⟩⟩
    · -- the new span is committed, and the others do not meet its pages
      have hi : i ≠ i₀ := by
        rintro rfl
        rw [hs₀] at hs
        obtain rfl := Option.some.inj hs
        rw [hc] at hc₀
        exact absurd hc₀ (by simp)
      have hold : st.pc.spans i = some s := by
        by_cases hu : s.used = true
        · exact he.used_from i s hs hu (by simpa using Ne.symm hi)
        · rcases he.free_from i s hs (by simpa using hu) with hs' | ⟨hc', -⟩
          · exact hs'
          · rw [hc] at hc'
            exact absurd hc' (by simp)
      rw [handedOutSince, rangeOf_eq hs₀]
      rintro (hq' | hlog)
      · exact hpost.inv.disjoint hi hs hs₀ hq hq'
      · exact h.decommitted i s hold hc q hq hlog
    · rw [hchain]
      exact h.chain_log
    · intro i e b hmem
      rcases List.mem_cons.mp hmem with he' | hmem
      · exact absurd he' (by simp)
      · exact h.bucket_log i e b hmem

/-- **An action of `ReleaseSpan`.** -/
lemma next_release (h : st.Inv) (i₀ : ℕ) (env : PageEnv) :
    (next st (.release i₀ env)).Inv ∧ FreeFrom st.pc (next st (.release i₀ env)).pc := by
  by_cases hheld : i₀ ∈ st.held
  swap
  · simp only [next, if_neg hheld]
    exact ⟨h, .refl _⟩
  obtain ⟨⟨s₀, hs₀, hu₀⟩, hdet⟩ := (h.held i₀).mp hheld
  obtain ⟨pc', hrun, hpost⟩ := releaseSpan_spec (h.scav.inv.load env) hs₀ hu₀ hdet
  have he : Evolves st.pc pc' (some i₀) none := hpost.evolves.of_load
  have hrel : ∀ i, some i₀ = some i → i ∉ st.scav.chain := by
    rintro i hi
    obtain rfl := Option.some.inj hi
    exact hdet
  simp only [next, if_pos hheld, hrun]
  refine ⟨⟨h.scav.evolves he hpost.inv hrel, fun i => ?_, h.held_nodup.erase _, h.fault,
    h.errors, fun i s hs hc => ?_, ?_, h.bucket_log⟩, .of_evolves he⟩
  · rw [h.held_nodup.mem_erase_iff, h.held i]
    constructor
    · rintro ⟨hne, ⟨s, hs, hu⟩, hc⟩
      exact ⟨⟨s, he.used_keep i s hs hu (by simpa using Ne.symm hne), hu⟩, hc⟩
    · rintro ⟨⟨s, hs, hu⟩, hc⟩
      refine ⟨?_, ⟨s, he.used_from i s hs hu (by simp), hu⟩, hc⟩
      rintro rfl
      -- the released descriptor is free now, or gone
      exact hpost.released s hs hu
  · by_cases hu : s.used = true
    · exact h.decommitted i s (he.used_from i s hs hu (by simp)) hc
    · rcases he.free_from i s hs (by simpa using hu) with hs' | ⟨hc', -⟩
      · exact h.decommitted i s hs' hc
      · rw [hc] at hc'
        exact absurd hc' (by simp)
  · rw [h.range_chain he hrel]
    exact h.chain_log

/-- **The holder of a span writes its object-level fields.** -/
lemma next_useSpan (h : st.Inv) (i₀ : ℕ) (o : Span) :
    (next st (.useSpan i₀ o)).Inv ∧ FreeFrom st.pc (next st (.useSpan i₀ o)).pc := by
  by_cases hheld : i₀ ∈ st.held
  swap
  · simp only [next, if_neg hheld]
    exact ⟨h, .refl _⟩
  obtain ⟨⟨s₀, hs₀, hu₀⟩, hdet⟩ := (h.held i₀).mp hheld
  have hderef : st.pc.deref i₀ = .ok s₀ := by simp [deref, hs₀]
  have hself : (st.pc.store i₀ (s₀.withObjects o)).spans i₀ = some (s₀.withObjects o) := by
    simp [store]
  have hkeep : ∀ j, j ≠ i₀ → (st.pc.store i₀ (s₀.withObjects o)).spans j = st.pc.spans j := by
    intro j hj
    simp [store, hj]
  have hext : (st.pc.store i₀ (s₀.withObjects o)).extents = st.pc.extents := by
    funext j
    by_cases hj : j = i₀
    · subst hj
      simp only [extents, hself, hs₀, Option.map_some]
      rfl
    · simp [extents, hkeep j hj]
  have hinv : (st.pc.store i₀ (s₀.withObjects o)).Inv st.scav.chain :=
    h.scav.inv.writeObjects hs₀ hu₀ hdet o
  simp only [next, if_pos hheld, hderef]
  refine ⟨⟨⟨hinv, h.scav.nodup, fun now b chain rest hscav => ?_, h.scav.sampled⟩, fun i => ?_,
    h.held_nodup, h.fault, h.errors, fun i s hs hc => ?_, ?_, h.bucket_log⟩, le_rfl,
    fun j s hs hu => ?_⟩
  · obtain ⟨hsuf, hb⟩ := h.scav.held now b chain rest hscav
    refine ⟨hsuf, fun i hi => ?_⟩
    have hne : i ≠ i₀ := by rintro rfl; exact hdet (by rw [hscav]; exact hi)
    rw [hkeep i hne]
    exact hb i hi
  · rw [h.held i]
    by_cases hi : i = i₀
    · subst hi
      refine and_congr_left fun _ => ?_
      simp only [hself, hs₀, Option.some.injEq, exists_eq_left']
      rfl
    · rw [hkeep i hi]
  · by_cases hi : i = i₀
    · subst hi
      rw [hself] at hs
      obtain rfl := Option.some.inj hs
      exact h.decommitted i s₀ hs₀ hc
    · rw [hkeep i hi] at hs
      exact h.decommitted i s hs hc
  · simp only [rangeOf, hext]
    exact h.chain_log
  · by_cases hj : j = i₀
    · subst hj
      rw [hself] at hs
      obtain rfl := Option.some.inj hs
      exact absurd (hu₀.symm.trans hu) (by simp)
    · rw [hkeep j hj] at hs
      exact Or.inl hs

/-- **Time passes.** -/
lemma next_tick (h : st.Inv) (ms : ℕ) :
    (next st (.tick ms)).Inv ∧ FreeFrom st.pc (next st (.tick ms)).pc := by
  have hc := h.scav.inv.clock_le
  have hle : st.pc.clock ≤ min (st.pc.clock + ms) sizeMax := by omega
  refine ⟨⟨⟨?_, h.scav.nodup, h.scav.held, fun n hn => (h.scav.sampled n hn).trans hle⟩, h.held,
    h.held_nodup, h.fault, h.errors, h.decommitted, h.chain_log, h.bucket_log⟩, hle,
    fun j s hs _ => Or.inl hs⟩
  exact h.scav.inv.of_spans h.scav.inv.lookup h.scav.inv.lists h.scav.inv.spanOk
    h.scav.inv.detached (fun _ => Iff.rfl) rfl (fun _ s hs _ => ⟨s, hs, rfl⟩) (min_le_right _ _)

/-! ## Scavenger steps and the history -/

/-- Detaching and returning do not touch the pages. -/
lemma handedOutSince_map_detach (l : List ℕ) (f : ℕ → Extent) (log : List PageEvent) (q : ℕ) :
    handedOutSince ((l.map fun i => .detach i (f i)) ++ log) q ↔ handedOutSince log q := by
  induction l with
  | nil => rfl
  | cons i l ih => exact ih

/-- A span that the scavenger gives back hands out no page. -/
lemma handedOutSince_map_giveBack (l : List ℕ) (f : ℕ → Extent) (b : ℕ) (log : List PageEvent)
    (q : ℕ) :
    handedOutSince ((l.map fun i => .giveBack i (f i) b) ++ log) q ↔ handedOutSince log q := by
  induction l with
  | nil => rfl
  | cons i l ih => exact ih

/-- A scavenger step hands out nothing. -/
lemma handedOutSince_scavEvents {pc : PageCache} {ok : Bool} {scav scav' : ScavPc}
    {log : List PageEvent} {q : ℕ}
    (h : handedOutSince (scavEvents pc ok scav' scav ++ log) q) : handedOutSince log q := by
  match scav with
  | .idle => exact h
  | .detach _ _ =>
    rw [scavEvents, ← List.map_reverse] at h
    exact (handedOutSince_map_detach _ _ _ _).mp h
  | .madvise _ _ _ (i :: _) =>
    rw [scavEvents] at h
    split at h
    · exact h.2
    · exact h
  | .madvise _ b chain [] =>
    rw [scavEvents, ← List.map_reverse] at h
    exact (handedOutSince_map_giveBack _ _ _ _ _).mp h

/-- The detach and return events of a scavenger step. -/
lemma detachedLog_append (l l' : List PageEvent) :
    detachedLog (l ++ l') = detachedLog l ++ detachedLog l' := by
  simp [detachedLog]

/-- The pages returned in two parts of a log, one after the other. -/
lemma returnedLog_append (l l' : List PageEvent) :
    returnedLog (l ++ l') = returnedLog l ++ returnedLog l' := by
  simp [returnedLog]

/-- The part of the step lemma that is the same for every phase. -/
lemma next_scavenge_aux (h : st.Inv) {env : PageEnv} {ok : Bool} {scav' : ScavPc}
    {pc' : PageCache} (hrun : (st.pc.load env).scavengeStep st.scav ok = .ok (scav', 0, pc'))
    (hinv : ScavInv pc' scav') (heff : ScavEffect st.pc st.scav ok pc' scav')
    (hchain : detachedLog (scavEvents st.pc ok scav' st.scav ++ st.log) =
      (scav'.chain.map fun i => (i, rangeOf st.pc i)).reverse ++
        returnedLog (scavEvents st.pc ok scav' st.scav ++ st.log))
    (hbucket : ∀ i e b, PageEvent.giveBack i e b ∈ scavEvents st.pc ok scav' st.scav →
      e.len = b) :
    (next st (.scavenge env ok)).Inv ∧ FreeFrom st.pc (next st (.scavenge env ok)).pc := by
  simp only [next, hrun]
  refine ⟨⟨hinv, fun i => ?_, h.held_nodup, h.fault, ?_, fun i s hs hc q hq hlog => ?_, ?_,
    fun i e b hmem => ?_⟩, heff.clock_le, heff.free_from⟩
  · rw [h.held i]
    constructor
    · rintro ⟨⟨s, hs, hu⟩, hn⟩
      obtain ⟨hs', hn'⟩ := (heff.held_iff i s hu).mpr ⟨hs, hn⟩
      exact ⟨⟨s, hs', hu⟩, hn'⟩
    · rintro ⟨⟨s, hs, hu⟩, hn⟩
      obtain ⟨hs', hn'⟩ := (heff.held_iff i s hu).mp ⟨hs, hn⟩
      exact ⟨⟨s, hs', hu⟩, hn'⟩
  · simp [h.errors]
  · replace hs : pc'.spans i = some s := hs
    have hext : st.pc.extents i = some s.extent := by
      rw [← heff.extents]
      simp [extents, hs]
    rcases heff.committed i s hs hc with ⟨s₀, hs₀, hc₀⟩ | ⟨rfl, now, b, chain, rest, hscav⟩
    · have he : s₀.extent = s.extent := by simpa [extents, hs₀] using hext
      have hq₀ : s₀.extent.Contains q := he ▸ hq
      exact h.decommitted i s₀ hs₀ hc₀ q hq₀ (handedOutSince_scavEvents hlog)
    · -- the pages were passed to `madvise` in this very step
      rw [hscav] at hlog
      refine hlog.1 ?_
      rw [rangeOf, hext]
      exact hq
  · simp only [rangeOf, heff.extents] at hchain ⊢
    exact hchain
  · rcases List.mem_append.mp hmem with hmem | hmem
    · exact hbucket i e b hmem
    · exact h.bucket_log i e b hmem

/-- **A scavenger step.** -/
lemma next_scavenge (h : st.Inv) (env : PageEnv) (ok : Bool) :
    (next st (.scavenge env ok)).Inv ∧ FreeFrom st.pc (next st (.scavenge env ok)).pc := by
  have hscav := h.scav.load env
  have hlog := h.chain_log
  cases hst : st.scav with
  | idle =>
    rw [hst] at hscav hlog
    obtain ⟨scav', pc', hrun, hinv, heff, hchain⟩ := scavengeStep_idle hscav ok
    refine next_scavenge_aux h (hst ▸ hrun) hinv (hst ▸ heff.of_load) ?_ ?_
    · rw [hst, hchain]
      exact hlog
    · rw [hst]
      simp [scavEvents]
  | detach now b =>
    rw [hst] at hscav hlog
    obtain ⟨scav', pc', hrun, hinv, heff, -⟩ := scavengeStep_detach hscav ok
    refine next_scavenge_aux h (hst ▸ hrun) hinv (hst ▸ heff.of_load) ?_ ?_
    · rw [hst, detachedLog_append, returnedLog_append, hlog]
      simp [scavEvents, detachedLog, returnedLog, ScavPc.chain, List.filterMap_reverse,
        List.filterMap_map]
    · rw [hst]
      simp [scavEvents]
  | madvise now b chain rest =>
    rw [hst] at hscav hlog
    cases rest with
    | cons i rest =>
      obtain ⟨pc', hrun, hinv, heff⟩ := scavengeStep_madvise hscav ok
      refine next_scavenge_aux h (hst ▸ hrun) hinv (hst ▸ heff.of_load) ?_ ?_
      · rw [hst, detachedLog_append, returnedLog_append, hlog]
        cases ok <;> simp [scavEvents, detachedLog, returnedLog, ScavPc.chain]
      · rw [hst]
        cases ok <;> simp [scavEvents]
    | nil =>
      obtain ⟨pc', hrun, hinv, heff, -⟩ := scavengeStep_return hscav ok
      refine next_scavenge_aux h (hst ▸ hrun) hinv (hst ▸ heff.of_load) ?_ ?_
      · rw [hst, detachedLog_append, returnedLog_append, hlog, ScavPc.chain_nextBucket]
        simp [scavEvents, detachedLog, returnedLog, ScavPc.chain, List.filterMap_reverse,
          List.filterMap_map]
      · rw [hst]
        intro i e b' hmem
        simp only [scavEvents, List.mem_reverse, List.mem_map, PageEvent.giveBack.injEq] at hmem
        obtain ⟨j, hj, rfl, rfl, rfl⟩ := hmem
        obtain ⟨s, hs, hp⟩ := (hscav.held now b chain [] rfl).2 j hj
        have hs' : st.pc.spans j = some s := hs
        rw [rangeOf_eq hs']
        exact hp

/-! ## Runs -/

/-- **Every action keeps the invariant.** -/
theorem next_spec (h : st.Inv) (a : PageAction) :
    (next st a).Inv ∧ FreeFrom st.pc (next st a).pc := by
  cases a with
  | alloc n env => exact next_alloc h n env
  | release i env => exact next_release h i env
  | useSpan i o => exact next_useSpan h i o
  | tick ms => exact next_tick h ms
  | scavenge env ok => exact next_scavenge h env ok

/-- The empty page layer. -/
lemma init_inv : Inv {} :=
  ⟨ScavInv.empty, by simp, List.nodup_nil, rfl, rfl, by simp, rfl, by simp⟩

/-- **The invariant holds after every run.** -/
theorem run_inv (as : List PageAction) : (machine.run {} as).Inv := by
  have hr : machine.Reachable (machine.run {} as) := Machine.Reachable.run (.init rfl) as
  refine hr.invariant (I := Inv) (fun s hs => ?_) fun s a h => (next_spec h a).1
  obtain rfl := hs
  exact init_inv

/-- **The representation invariant of PageCache and PageMap**, after every run of `AllocSpan`,
`ReleaseSpan` and scavenger steps, whatever fails on the way: (a) the live spans are disjoint;
(b) a bucket holds unused spans of its page count, each once, and every unused span is in its
bucket; (c) a page looks up to the live span that contains it and to nothing else. -/
theorem representation_invariant (as : List PageAction) :
    let pc := (machine.run {} as).pc
    (∀ i j s t, i ≠ j → pc.spans i = some s → pc.spans j = some t →
      ∀ q, s.Covers q → ¬ t.Covers q) ∧
    (∀ n, (pc.spanLists 0 n).Nodup ∧ ∀ i ∈ pc.spanLists 0 n,
      ∃ s, pc.spans i = some s ∧ s.pageNum = n ∧ s.used = false) ∧
    (∀ i s, pc.spans i = some s → s.used = false → i ∈ pc.spanLists 0 s.pageNum) ∧
    (∀ q i, pc.pageMap.getSpan q = some i ↔ ∃ s, pc.spans i = some s ∧ s.Covers q) ∧
    (machine.run {} as).fault = none := by
  have h := run_inv as
  refine ⟨fun i j s t hij hs ht q hq => h.scav.inv.disjoint hij hs ht hq,
    fun n => ⟨h.scav.inv.lists.nodup n, fun i hi => ?_⟩, fun i s hs hu => ?_,
    h.scav.inv.getSpan_iff, h.fault⟩
  · obtain ⟨s, hs, hu, hp⟩ := (h.scav.inv.lists.mem n i).mp hi
    exact ⟨s, hs, hp, hu⟩
  · exact (h.scav.inv.lists.mem _ i).mpr ⟨s, hs, hu, rfl⟩

/-! ## The scavenger never touches what is handed out -/

/-- The scavenger's own actions. -/
def isScavenge : PageAction → Bool
  | .scavenge _ _ => true
  | _ => false

/-- Other threads do not move the scavenger. -/
lemma next_scav_of_ne {a : PageAction} (ha : isScavenge a = false) :
    (next st a).scav = st.scav := by
  cases a with
  | alloc n env => unfold next; dsimp only; split <;> rfl
  | release i env => unfold next; dsimp only; split <;> [split <;> rfl; rfl]
  | useSpan i o => unfold next; dsimp only; split <;> [split <;> rfl; rfl]
  | tick ms => rfl
  | scavenge env ok => exact absurd ha (by simp [isScavenge])

/-- The history only grows. -/
lemma log_suffix_next (a : PageAction) : st.log <:+ (next st a).log := by
  cases a with
  | alloc n env =>
    unfold next
    dsimp only
    split
    · exact List.suffix_refl _
    · exact List.suffix_refl _
    · exact List.suffix_cons _ _
  | release i env =>
    unfold next
    dsimp only
    split
    · split <;> exact List.suffix_refl _
    · exact List.suffix_refl _
  | useSpan i o =>
    unfold next
    dsimp only
    split
    · split <;> exact List.suffix_refl _
    · exact List.suffix_refl _
  | tick ms => exact List.suffix_refl _
  | scavenge env ok =>
    unfold next
    dsimp only
    split
    · exact List.suffix_refl _
    · exact List.suffix_append _ _

/-- The log only grows. -/
lemma log_suffix_run (st : PageSystem) (bs : List PageAction) :
    st.log <:+ (machine.run st bs).log := by
  induction bs generalizing st with
  | nil => exact List.suffix_refl _
  | cons a bs ih => exact (log_suffix_next a).trans (ih _)

/-- The scavenger returns its chain after finitely many of its own steps, whatever the other
threads do in between. -/
lemma chain_returns (h : st.Inv) {now b : ℕ} {chain rest : List ℕ}
    (hscav : st.scav = .madvise now b chain rest) {bs : List PageAction}
    (hbs : rest.length < bs.countP isScavenge) {i : ℕ} (hi : i ∈ chain) :
    ∃ e, PageEvent.giveBack i e b ∈ (machine.run st bs).log := by
  induction bs generalizing st rest with
  | nil => simp at hbs
  | cons a bs ih =>
    rw [Machine.run_cons]
    by_cases ha : isScavenge a = true
    swap
    · rw [List.countP_cons_of_neg ha] at hbs
      exact ih (next_spec h a).1 ((next_scav_of_ne (by simpa using ha)).trans hscav) hbs
    rw [List.countP_cons_of_pos ha] at hbs
    cases a with
    | scavenge env ok =>
      have hload := h.scav.load env
      rw [hscav] at hload
      cases rest with
      | cons j rest =>
        obtain ⟨pc', hrun, -, -⟩ := scavengeStep_madvise hload ok
        have hnext : (next st (.scavenge env ok)).scav = .madvise now b chain rest := by
          simp only [next, hscav, hrun]
        exact ih (next_spec h (.scavenge env ok)).1 hnext (by simpa using hbs)
      | nil =>
        obtain ⟨pc', hrun, -, -, -⟩ := scavengeStep_return hload ok
        refine ⟨rangeOf st.pc i, (log_suffix_run _ bs).subset ?_⟩
        show PageEvent.giveBack i (rangeOf st.pc i) b ∈ (next st (.scavenge env ok)).log
        simp only [next, hscav, hrun, scavEvents]
        refine List.mem_append_left _ (List.mem_reverse.mpr (List.mem_map.mpr ⟨i, hi, rfl⟩))
    | _ => exact absurd ha (by simp [isScavenge])

/-- **Scavenger safety**, in every interleaving:

* the span about to be passed to `MADV_DONTNEED` shares no page with a span that is handed out;
* what has been detached is what has been returned and what is detached now, with the same
  ranges and in the same order; every return goes to the bucket of the span's page count,
  appends exactly the chain, and happens after finitely many scavenger steps;
* the "used span in free list" branch is never taken;
* no page of a span that is not committed has been handed out since its last `madvise`. -/
theorem scavenger_safety (as : List PageAction) :
    let st := machine.run {} as
    (∀ now b chain i rest, st.scav = .madvise now b chain (i :: rest) →
      ∃ s, st.pc.spans i = some s ∧ ∀ j ∈ st.held, ∀ t, st.pc.spans j = some t →
        ∀ q, s.Covers q → ¬ t.Covers q) ∧
    detachedLog st.log =
      (st.scav.chain.map fun i => (i, rangeOf st.pc i)).reverse ++ returnedLog st.log ∧
    (∀ i e b, PageEvent.giveBack i e b ∈ st.log → e.len = b) ∧
    (∀ now b chain env ok, st.scav = .madvise now b chain [] →
      (next st (.scavenge env ok)).pc.spanLists 0 b = st.pc.spanLists 0 b ++ chain) ∧
    (∀ now b chain rest bs, st.scav = .madvise now b chain rest →
      rest.length < bs.countP isScavenge →
        ∀ i ∈ chain, ∃ e, PageEvent.giveBack i e b ∈ (machine.run st bs).log) ∧
    st.errors = 0 ∧
    (∀ i s, st.pc.spans i = some s → s.committed = false →
      ∀ q, s.Covers q → ¬ handedOutSince st.log q) := by
  intro st
  have h : st.Inv := run_inv as
  refine ⟨fun now b chain i rest hscav => ?_, h.chain_log, h.bucket_log,
    fun now b chain env ok hscav => ?_,
    fun now b chain rest bs hscav hbs i hi => chain_returns h hscav hbs hi, h.errors,
    h.decommitted⟩
  · have hi : i ∈ st.scav.chain := by
      obtain ⟨hsuf, -⟩ := h.scav.held now b chain _ hscav
      rw [hscav]
      exact hsuf.subset List.mem_cons_self
    obtain ⟨s, hs, -⟩ := h.scav.inv.detached i hi
    refine ⟨s, hs, fun j hj t ht q hq => ?_⟩
    have hne : i ≠ j := by rintro rfl; exact ((h.held i).mp hj).2 hi
    exact h.scav.inv.disjoint hne hs ht hq
  · have hload := h.scav.load env
    rw [hscav] at hload
    obtain ⟨pc', hrun, -, -, hlist⟩ := scavengeStep_return hload ok
    simp only [next, hscav, hrun]
    exact hlist

/-! ## The idle law -/

/-- Span `i` is on its free list with the descriptor `s`. -/
def OnFreeList (st : PageSystem) (i : ℕ) (s : Span) : Prop :=
  st.pc.spans i = some s ∧ s.used = false ∧ i ∈ st.pc.spanLists 0 s.pageNum

/-- In the run `as`, span `i` was put on a free list when its stamp was taken, and has been
there ever since with the same descriptor: not handed out, split or merged. -/
def FreeSinceStamp (as : List PageAction) (i : ℕ) (s : Span) : Prop :=
  ∃ as₀ a as₁, as = as₀ ++ a :: as₁ ∧
    (machine.run {} as₀).pc.clock ≤ s.lastUsedTimeMs ∧
    s.lastUsedTimeMs ≤ (machine.run {} (as₀ ++ [a])).pc.clock ∧
    ∀ bs, bs <+: as₁ → OnFreeList (machine.run {} (as₀ ++ a :: bs)) i s

/-- **Every free span has been free since its stamp.** Induction on the run: an action leaves
a free span as it was, or puts it on its list with a stamp of its own. -/
lemma freeSinceStamp (as : List PageAction) {i : ℕ} {s : Span}
    (hs : (machine.run {} as).pc.spans i = some s) (hu : s.used = false) :
    FreeSinceStamp as i s := by
  induction as using List.reverseRecOn with
  | nil => exact absurd hs (by simp)
  | append_singleton as a ih =>
    have h := run_inv as
    have hlist : OnFreeList (machine.run {} (as ++ [a])) i s :=
      ⟨hs, hu, ((run_inv (as ++ [a])).scav.inv.lists.mem _ i).mpr ⟨s, hs, hu, rfl⟩⟩
    have hstep : machine.run {} (as ++ [a]) = next (machine.run {} as) a :=
      machine.run_append _ _ _
    have hfree := (next_spec h a).2.free_from i s (hstep ▸ hs) hu
    rcases hfree with hold | ⟨hlo, hhi⟩
    · -- untouched: the history of the shorter run, with one more state
      obtain ⟨as₀, a₀, as₁, rfl, hlo, hhi, hkeep⟩ := ih hold
      refine ⟨as₀, a₀, as₁ ++ [a], by simp, hlo, hhi, fun bs hbs => ?_⟩
      rcases List.prefix_concat_iff.mp hbs with rfl | hbs
      · simpa using hlist
      · exact hkeep bs hbs
    · refine ⟨as, a, [], rfl, hlo, by rw [hstep]; exact hhi, fun bs hbs => ?_⟩
      obtain rfl := List.prefix_nil.mp hbs
      exact hlist

/-- The idle law for the step `.scavenge env ok` after the run `as`: every span that the step
detaches has been on a free list since its stamp, and that is at least `kIdleThresholdMs` ago. -/
def IdleLaw (as : List PageAction) (env : PageEnv) (ok : Bool) : Prop :=
  ∀ now b, (machine.run {} as).scav = .detach now b →
    ∀ i ∈ (next (machine.run {} as) (.scavenge env ok)).scav.chain,
      ∃ s, (machine.run {} as).pc.spans i = some s ∧ FreeSinceStamp as i s ∧
        s.lastUsedTimeMs + kIdleThresholdMs ≤ (machine.run {} as).pc.clock

/-- No committed span of the bucket to be scanned carries a stamp later than the pass's clock
sample, unless the unsigned difference is below the threshold or the span has been idle all the
same. -/
def SampleFits (st : PageSystem) : Prop :=
  ∀ now b, st.scav = .detach now b → ∀ i ∈ st.pc.spanLists 0 b, ∀ s, st.pc.spans i = some s →
    s.committed = true → now < s.lastUsedTimeMs →
      s.lastUsedTimeMs + kIdleThresholdMs ≤ now + 2 ^ 64 →
        s.lastUsedTimeMs + kIdleThresholdMs ≤ st.pc.clock

/-- What a scan detaches. -/
lemma mem_chain_next_iff (h : st.Inv) {now b : ℕ} (hscav : st.scav = .detach now b)
    (env : PageEnv) (ok : Bool) (i : ℕ) :
    i ∈ (next st (.scavenge env ok)).scav.chain ↔
      i ∈ st.pc.spanLists 0 b ∧ ∃ s, st.pc.spans i = some s ∧ detachable now s = true := by
  have hload := h.scav.load env
  rw [hscav] at hload
  obtain ⟨scav', pc', hrun, -, -, hchain⟩ := scavengeStep_detach hload ok
  simp only [next, hscav, hrun]
  exact hchain i

/-- One step meets the law exactly when the sample fits the bucket. -/
lemma idleLaw_iff_sampleFits (as : List PageAction) (env : PageEnv) (ok : Bool) :
    IdleLaw as env ok ↔ SampleFits (machine.run {} as) := by
  have h := run_inv as
  refine forall_congr' fun now => forall_congr' fun b => forall_congr' fun hscav => ?_
  have hchain := mem_chain_next_iff h hscav env ok
  have hnow : now ≤ (machine.run {} as).pc.clock := h.scav.sampled now (by rw [hscav]; rfl)
  have hclock := h.scav.inv.clock_le
  unfold sizeMax at hclock
  constructor
  · -- a span with a later stamp passes the test because the difference wraps
    intro hlaw i hi s hs hc hlt hwrap
    have hd : detachable now s = true := by
      simp only [detachable, hc, Bool.true_and, decide_eq_true_eq]
      rw [subU64_of_lt hlt]
      omega
    obtain ⟨t, ht, -, hidle⟩ := hlaw i ((hchain i).mpr ⟨hi, s, hs, hd⟩)
    rw [hs] at ht
    obtain rfl := Option.some.inj ht
    exact hidle
  · intro hfit i hi
    obtain ⟨hmem, s, hs, hd⟩ := (hchain i).mp hi
    simp only [detachable, Bool.and_eq_true, decide_eq_true_eq] at hd
    obtain ⟨t, ht, hu, -⟩ := (h.scav.inv.lists.mem b i).mp hmem
    rw [hs] at ht
    obtain rfl := Option.some.inj ht
    refine ⟨s, hs, freeSinceStamp as hs hu, ?_⟩
    rcases Nat.lt_or_ge now s.lastUsedTimeMs with hlt | hge
    · rw [subU64_of_lt hlt] at hd
      refine hfit i hmem s hs hd.1 hlt ?_
      unfold kIdleThresholdMs at hd ⊢
      omega
    · rw [subU64_of_le (by omega) hge] at hd
      omega

/-- **When the idle law holds**: in a run, every scavenger step obeys it if and only if at every
scan the pass's clock sample fits the bucket. -/
lemma idleLaw_run_iff (as : List PageAction) :
    (∀ bs env ok, bs ++ [.scavenge env ok] <+: as → IdleLaw bs env ok) ↔
      ∀ bs env ok, bs ++ [.scavenge env ok] <+: as → SampleFits (machine.run {} bs) :=
  forall_congr' fun bs => forall_congr' fun env => forall_congr' fun ok =>
    forall_congr' fun _ => idleLaw_iff_sampleFits bs env ok

/-- No committed span of the bucket to be scanned is stamped after the clock sample of the pass.
A stamp more than `2 ^ 64 - kIdleThresholdMs` later does no harm: the difference wraps to less than
the threshold. -/
def NoLateStamp (st : PageSystem) : Prop :=
  ∀ now b, st.scav = .detach now b → ∀ i ∈ st.pc.spanLists 0 b, ∀ s, st.pc.spans i = some s →
    s.committed = true → s.lastUsedTimeMs ≤ now ∨ now + 2 ^ 64 < s.lastUsedTimeMs + kIdleThresholdMs

/-- **The idle law.** If, whenever a run comes to a scan, no committed span of the bucket has been
stamped after the clock sample of the pass, every scavenger step of the run obeys the law. -/
theorem idle_law (as : List PageAction)
    (h : ∀ bs env ok, bs ++ [.scavenge env ok] <+: as → NoLateStamp (machine.run {} bs)) :
    ∀ bs env ok, bs ++ [.scavenge env ok] <+: as → IdleLaw bs env ok := by
  refine (idleLaw_run_iff as).mpr fun bs env ok hbs now b hscav i hi s hs hc hlt hwrap => ?_
  rcases h bs env ok hbs now b hscav i hi s hs hc with hle | hcorner
  · omega
  · omega

/-- **A late stamp breaks the law in a pass that is shorter than the threshold.** In a longer pass
the span can have been idle all the same, so that the condition of `idle_law` is not necessary
there. -/
lemma noLateStamp_of_idleLaw {as : List PageAction} {env : PageEnv} {ok : Bool}
    (h : IdleLaw as env ok)
    (hshort : ∀ now b, (machine.run {} as).scav = .detach now b →
      (machine.run {} as).pc.clock < now + kIdleThresholdMs) :
    NoLateStamp (machine.run {} as) := by
  intro now b hscav i hi s hs hc
  by_contra hlate
  rw [not_or, not_le, not_lt] at hlate
  have hidle := (idleLaw_iff_sampleFits as env ok).mp h now b hscav i hi s hs hc hlate.1 hlate.2
  have := hshort now b hscav
  omega

/-- A run in which a page is allocated out of a fresh mapping and the remainder is left alone until
it has been idle for the threshold; the last step scans its bucket. -/
def idleRun : List PageAction :=
  let env : PageEnv :=
    { sysAlloc := [some 1024], tryNew := [some 1, some 2], radixNode := [true, true, true] }
  [.alloc 1 env, .tick 10000, .scavenge {} true, .scavenge {} true]

/-- The scans of that run come to an empty bucket, and to a span that was stamped at 0 ms. -/
lemma noLateStamp_idleRun {bs : List PageAction} (h : bs <+: idleRun) :
    NoLateStamp (machine.run {} bs) := by
  have hlen : bs.length ≤ 4 := h.length_le
  rw [List.prefix_iff_eq_take.mp h]
  generalize bs.length = n at hlen
  have hidle : ∀ n < 3, (machine.run {} (idleRun.take n)).scav = .idle := by decide +kernel
  have hempty : (machine.run {} (idleRun.take 3)).scav = .detach 10000 128 ∧
      (machine.run {} (idleRun.take 3)).pc.spanLists 0 128 = [] := by decide +kernel
  have hone : (machine.run {} (idleRun.take 4)).scav = .detach 10000 127 ∧
      (machine.run {} (idleRun.take 4)).pc.spanLists 0 127 = [1] ∧
      ((machine.run {} (idleRun.take 4)).pc.spans 1).map Span.lastUsedTimeMs = some 0 := by
    decide +kernel
  intro now b hscav i hi s hs _
  obtain hn | rfl | rfl : n < 3 ∨ n = 3 ∨ n = 4 := by omega
  · rw [hidle n hn] at hscav
    exact absurd hscav (by simp)
  · rw [hempty.1] at hscav
    obtain ⟨rfl, rfl⟩ := ScavPc.detach.inj hscav
    rw [hempty.2] at hi
    exact absurd hi List.not_mem_nil
  · rw [hone.1] at hscav
    obtain ⟨rfl, rfl⟩ := ScavPc.detach.inj hscav
    rw [hone.2.1, List.mem_singleton] at hi
    subst hi
    have hstamp := hone.2.2
    rw [hs, Option.map_some, Option.some.injEq] at hstamp
    exact Or.inl (by omega)

/-- The idle remainder of 127 pages is detached, as the law demands. -/
theorem idle_law_idleRun :
    (∀ bs env ok, bs ++ [.scavenge env ok] <+: idleRun ++ [.scavenge {} true] →
      NoLateStamp (machine.run {} bs)) ∧
    (machine.run {} (idleRun ++ [.scavenge {} true])).scav.chain = [1] ∧
      IdleLaw idleRun {} true := by
  have hstamps : ∀ bs env ok, bs ++ [.scavenge env ok] <+: idleRun ++ [.scavenge {} true] →
      NoLateStamp (machine.run {} bs) := by
    intro bs env ok hbs
    refine noLateStamp_idleRun ?_
    rcases List.prefix_concat_iff.mp hbs with heq | hbs
    · rw [(List.append_inj' heq rfl).1]
    · exact (List.prefix_append bs _).trans hbs
  exact ⟨hstamps, by decide +kernel, idle_law _ hstamps idleRun {} true (List.prefix_refl _)⟩

/-- A run in which a span is freed while a pass is under way: the pass samples the clock at
5 ms, at 6 ms another thread allocates one page out of a fresh mapping, and the scans come to
the bucket of the 127 remaining pages. -/
def lateStampRun : List PageAction :=
  let env : PageEnv :=
    { sysAlloc := [some 1024], tryNew := [some 1, some 2], radixNode := [true, true, true] }
  [.tick 5, .scavenge {} true, .tick 1, .alloc 1 env, .scavenge {} true]

/-- The remainder of the split, stamped at 6 ms, is detached at 6 ms: the difference to the
sample wraps around. -/
theorem not_idleLaw_lateStampRun : ¬ IdleLaw lateStampRun {} true := by
  intro h
  obtain ⟨s, hs, -, hidle⟩ := h 5 127 (by decide +kernel) 1 (by decide +kernel)
  have hstamp : ((machine.run {} lateStampRun).pc.spans 1).map Span.lastUsedTimeMs = some 6 := by
    decide +kernel
  have hclock : (machine.run {} lateStampRun).pc.clock = 6 := by decide +kernel
  rw [hs] at hstamp
  obtain hstamp := Option.some.inj hstamp
  unfold kIdleThresholdMs at hidle
  omega

end PageSystem

end Ammalloc
