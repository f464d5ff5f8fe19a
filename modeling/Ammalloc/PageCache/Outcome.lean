import Ammalloc.PageCache

set_option relaxedAutoImplicit false
set_option autoImplicit false

/-!
# The outcomes of `AllocSpan`

What `AllocSpanLocked` on a shard can do, said once: the events and the state after every branch,
with every pattern of failures of `SystemAlloc`, `TryNew` and `EnsureRange`. Nothing is assumed of
the shards but that the listed spans are live.

## Main definitions

* `Ammalloc.PageCache.SystemCall`, `Ammalloc.PageCache.systemCalls` — the memory that a critical
  section requests from the system for spans, and gives back.
* `Ammalloc.PageCache.Logs` — the events between two moments of a section.
* `Ammalloc.PageCache.Cut`, `Ammalloc.PageCache.Refilled`, `Ammalloc.PageCache.Outcome`.

## Main results

* `Ammalloc.PageCache.allocSpanLocked_outcome` — `AllocSpanLocked` returns, with one of these
  outcomes.
-/

namespace Ammalloc

namespace PageCache

/-! ## The calls to the system -/

/-- A call to the page source. -/
inductive SystemCall where
  /-- `SystemAlloc(pageNum)` and the first page id of its result. -/
  | alloc (pageNum : ℕ) (result : Option ℕ)
  /-- `SystemFree(start, pageNum)`. -/
  | free (start pageNum : ℕ)
  deriving DecidableEq, Repr

/-- The calls that request memory. -/
def SystemCall.isAlloc : SystemCall → Bool
  | .alloc _ _ => true
  | .free _ _ => false

/-- The events that are calls to the page source. -/
def systemCall : SectionEvent → Option SystemCall
  | .systemAlloc n r => some (.alloc n r)
  | .systemFree p n => some (.free p n)
  | _ => none

/-- The calls to the page source that the critical section has made so far. -/
def systemCalls (pc : PageCache) : List SystemCall := pc.env.trace.filterMap systemCall

/-! ## The trace -/

/-- From `env` to `env'` a section goes through the events `evs`. Each request for memory uses up
one answer of the page source. -/
structure Logs (env : PageEnv) (evs : List SectionEvent) (env' : PageEnv) : Prop where
  trace : env'.trace = env.trace ++ evs
  answers : env'.sysAlloc =
    env.sysAlloc.drop ((evs.filterMap systemCall).countP SystemCall.isAlloc)

/-- A part of a section without events. -/
lemma Logs.refl (env : PageEnv) : Logs env [] env := ⟨by simp, rfl⟩

/-- Two parts of a section, one after the other. -/
lemma Logs.append {env env' env'' : PageEnv} {evs evs' : List SectionEvent} (h : Logs env evs env')
    (h' : Logs env' evs' env'') : Logs env (evs ++ evs') env'' where
  trace := by rw [h'.trace, h.trace, List.append_assoc]
  answers := by
    rw [h'.answers, h.answers, List.drop_drop, List.filterMap_append, List.countP_append]

variable {pc : PageCache}

/-- An event that uses up no answer. -/
lemma Logs.record {env env' : PageEnv} {evs : List SectionEvent} (h : Logs env evs env')
    (e : SectionEvent) (he : ∀ n r, e ≠ .systemAlloc n r) :
    Logs env (evs ++ [e]) { env' with trace := env'.trace ++ [e] } := by
  refine h.append ⟨rfl, ?_⟩
  cases e with
  | systemAlloc n r => exact absurd rfl (he n r)
  | _ => rfl

/-! ## The callees -/

/-- The two outcomes of `SystemAlloc`. -/
lemma systemAlloc_cases (pc : PageCache) (n : ℕ) :
    (∃ env, Logs pc.env [.systemAlloc n none] env ∧
      pc.systemAlloc n = (none, { pc with env := env })) ∨
      ∃ p env, Logs pc.env [.systemAlloc n (some p)] env ∧ pc.Mappable p n ∧
        pc.systemAlloc n = (some p, { pc with mapped := ⟨p, n⟩ :: pc.mapped, env := env }) := by
  unfold systemAlloc
  cases pc.env.sysAlloc.headD none with
  | none => exact Or.inl ⟨_, ⟨rfl, List.drop_one.symm⟩, rfl⟩
  | some p =>
    by_cases hm : pc.Mappable p n
    · simp only [if_pos hm]
      exact Or.inr ⟨p, _, ⟨rfl, List.drop_one.symm⟩, hm, rfl⟩
    · simp only [if_neg hm]
      exact Or.inl ⟨_, ⟨rfl, List.drop_one.symm⟩, rfl⟩

/-- The pool answers with a slot that is not in use. -/
def PoolAnswers (pc : PageCache) (i : ℕ) : Prop :=
  pc.env.tryNew.headD none = some i ∧ pc.spans i = none

/-- The two outcomes of `TryNew`. -/
lemma tryNew_cases (pc : PageCache) (start n : ℕ) :
    (∃ env, Logs pc.env [] env ∧ (∀ i, ¬ pc.PoolAnswers i) ∧
      pc.tryNew start n = (none, { pc with env := env })) ∨
      ∃ i env, Logs pc.env [.tryNew i ⟨start, n⟩] env ∧ pc.PoolAnswers i ∧ pc.tryNew start n =
        (some i, { pc with
          spans := Function.update pc.spans i (some { startPageIdx := start, pageNum := n })
          env := env }) := by
  unfold tryNew PoolAnswers
  cases pc.env.tryNew.headD none with
  | none =>
    refine Or.inl ⟨_, ?_, by simp, rfl⟩
    exact ⟨(List.append_nil _).symm, rfl⟩
  | some i =>
    cases hi : pc.spans i with
    | none =>
      simp only [hi, Option.isNone_none, if_true]
      refine Or.inr ⟨i, _, ?_, ⟨rfl, hi⟩, rfl⟩
      exact ⟨rfl, rfl⟩
    | some s =>
      simp only [hi, Option.isNone_some, Bool.false_eq_true, if_false]
      refine Or.inl ⟨_, ?_, ?_, rfl⟩
      · exact ⟨(List.append_nil _).symm, rfl⟩
      rintro j ⟨hj, hfree⟩
      rw [← Option.some.inj hj, hi] at hfree
      exact absurd hfree (by simp)

/-- What `EnsureRange` does to the page map. -/
lemma ensureRange_cases (pc : PageCache) (start n : ℕ) :
    ∃ ok pm env, pc.ensureRange start n = (ok, { pc with pageMap := pm, env := env }) ∧
      Logs pc.env [] env ∧ pc.pageMap.Grows pm ∧
      (ok = true → ∀ q, start ≤ q → q < start + n → pm.hasPath q = true) := by
  refine ⟨_, _, _, rfl, ⟨(List.append_nil _).symm, rfl⟩, PageMap.grows_ensureRange _ _ _ _,
    fun h q h₁ h₂ => ?_⟩
  exact PageMap.hasPath_ensureRange h h₁ h₂

/-- `SystemFree` of a mapping. -/
lemma systemFree_ok (pc : PageCache) {p n : ℕ} (h : ⟨p, n⟩ ∈ pc.mapped) :
    pc.systemFree p n =
      .ok (PageCache.record { pc with mapped := pc.mapped.erase ⟨p, n⟩ } (.systemFree p n)) :=
  if_pos h

/-- `Delete` of a live descriptor. -/
lemma delete_ok (pc : PageCache) {i : ℕ} {s : Span} (h : pc.spans i = some s) :
    pc.delete i =
      .ok (PageCache.record { pc with spans := Function.update pc.spans i none } (.delete i)) := by
  simp only [delete, deref, h]
  rfl

/-- A failed attempt to map a fresh span, with its events: everything that it had obtained has been
given back, and only radix nodes may stay. -/
inductive FreshFailed (n : ℕ) (pc : PageCache) : List SectionEvent → PageCache → Prop
  | noMemory {env : PageEnv} : FreshFailed n pc [.systemAlloc n none] { pc with env := env }
  | noDescriptor {p : ℕ} {env : PageEnv} (mappable : pc.Mappable p n) :
      FreshFailed n pc [.systemAlloc n (some p), .systemFree p n] { pc with env := env }
  | noPath {i p : ℕ} {pm : PageMap} {env : PageEnv} (slot : pc.spans i = none)
      (mappable : pc.Mappable p n) (grows : pc.pageMap.Grows pm) :
      FreshFailed n pc
        [.systemAlloc n (some p), .tryNew i ⟨p, n⟩, .delete i, .systemFree p n]
        { pc with pageMap := pm, env := env }

/-- The two outcomes of the mapping prologue. -/
lemma mapFreshSpan_cases (pc : PageCache) (n : ℕ) :
    (∃ evs pc', FreshFailed n pc evs pc' ∧ Logs pc.env evs pc'.env ∧
      pc.mapFreshSpan n = .ok (none, pc')) ∨
    ∃ i p pm env, Logs pc.env [.systemAlloc n (some p), .tryNew i ⟨p, n⟩] env ∧
      pc.spans i = none ∧ pc.Mappable p n ∧ pc.pageMap.Grows pm ∧
      (∀ q, p ≤ q → q < p + n → pm.hasPath q = true) ∧
      pc.mapFreshSpan n = .ok (some (i, { startPageIdx := p, pageNum := n }),
        { pc with
          spans := Function.update pc.spans i (some { startPageIdx := p, pageNum := n })
          pageMap := pm
          mapped := ⟨p, n⟩ :: pc.mapped
          env := env }) := by
  unfold mapFreshSpan
  rcases pc.systemAlloc_cases n with ⟨env, hlog, h⟩ | ⟨p, env, hlog, hm, h⟩
  · rw [h]
    exact Or.inl ⟨_, _, .noMemory, hlog, rfl⟩
  rw [h]
  simp only
  set pc₁ : PageCache := { pc with mapped := ⟨p, n⟩ :: pc.mapped, env := env } with hpc₁
  rcases pc₁.tryNew_cases p n with ⟨env, hlog', -, h⟩ | ⟨i, env, hlog', ⟨-, hi⟩, h⟩
  · -- no descriptor: the mapping goes back
    rw [h]
    have hfree := systemFree_ok { pc₁ with env := env } (p := p) (n := n)
      List.mem_cons_self
    have hlogs := (hlog.append hlog').record (.systemFree p n) (by simp)
    simp only [hfree, bind, Except.bind]
    refine Or.inl ⟨_, _, .noDescriptor hm, hlogs, ?_⟩
    simp [hpc₁, record]
    rfl
  rw [h]
  simp only
  set pc₂ : PageCache :=
    { pc₁ with
      spans := Function.update pc₁.spans i (some { startPageIdx := p, pageNum := n })
      env := env } with hpc₂
  obtain ⟨ok, pm, env, h, hlog'', hg, hp⟩ := pc₂.ensureRange_cases p n
  have hlogs := (hlog.append hlog').append hlog''
  rw [h]
  cases ok with
  | false =>
    -- no radix path: the descriptor and the mapping go back
    have hdel := delete_ok { pc₂ with pageMap := pm, env := env } (i := i)
      (Function.update_self ..)
    have hfree := systemFree_ok (PageCache.record
      { pc₂ with
        pageMap := pm
        spans := Function.update pc₂.spans i none
        env := env } (.delete i)) (p := p) (n := n) List.mem_cons_self
    have hlogs' := (hlogs.record (.delete i) (by simp)).record (.systemFree p n) (by simp)
    simp only [hdel, hfree, bind, Except.bind]
    refine Or.inl ⟨_, _, .noPath hi hm hg, hlogs', ?_⟩
    have hback : Function.update pc.spans i none = pc.spans := by
      rw [← hi]; exact Function.update_eq_self i pc.spans
    simp [hpc₂, hpc₁, record, hback]
    rfl
  | true => exact Or.inr ⟨i, p, pm, env, hlogs, hi, hm, hg, hp rfl, rfl⟩

/-- `SetSpan` on built paths. -/
lemma setSpan_ok (pc : PageCache) (i : ℕ) {s : Span} (hn : 0 < s.pageNum)
    (hp : ∀ q, s.Covers q → pc.pageMap.hasPath q = true) :
    ∃ pm, pc.setSpan i s =
        .ok (PageCache.record { pc with pageMap := pm } (.setSpan pc.pageMap i s.extent)) ∧
      (∀ q, pm.getSpan q = if s.extent.Contains q then some i else pc.pageMap.getSpan q) ∧
      ∀ q, pm.hasPath q = pc.pageMap.hasPath q := by
  obtain ⟨pm, hrun, hget, hpath⟩ :=
    PageMap.setSpan_ok i hn (fun q h₁ h₂ => hp q ⟨h₁, h₂⟩)
  refine ⟨pm, ?_, fun q => ?_, hpath⟩
  · rw [setSpan, hrun]
  · rw [hget q]
    rfl

/-- The clock moves forward. -/
lemma getCurrentTimeMs_spec (pc : PageCache) (hc : pc.clock ≤ sizeMax) :
    ∃ now env, pc.getCurrentTimeMs = (now, { pc with clock := now, env := env }) ∧
      pc.clock ≤ now ∧ now ≤ sizeMax ∧ Logs pc.env [] env :=
  ⟨_, _, rfl, by omega, by omega, (List.append_nil _).symm, rfl⟩

/-! ## The spans as the branches leave them -/

/-- The span of the oversized branch. -/
def oversizedSpan (p n : ℕ) : Span :=
  { startPageIdx := p, pageNum := n, used := true, committed := true }

/-- The span of a refill. -/
def refillSpan (p now : ℕ) : Span :=
  { startPageIdx := p, pageNum := maxPageNum, committed := true, lastUsedTimeMs := now }

/-- A span of the buckets that is handed out whole. -/
def taken (s : Span) : Span := { s with used := true, committed := true }

/-- The low `n` pages of a span that is split. -/
def lowPart (b : Span) (n : ℕ) : Span :=
  { startPageIdx := b.startPageIdx, pageNum := n, used := true, committed := true,
    ownerShardId := b.ownerShardId }

/-- What is left of a span that is split. -/
def highPart (b : Span) (n now : ℕ) : Span :=
  { b with
    startPageIdx := b.startPageIdx + n
    pageNum := b.pageNum - n
    used := false
    committed := true
    lastUsedTimeMs := now }

/-! ## The outcomes -/

/-- Descriptor slot `i` and the pages `p, …, p + n - 1` are new. `EnsureRange` has made the page map
`pm₀` with their paths, and `pm` is the page map in which they look up to `i`. -/
structure Fresh (pc : PageCache) (i p n : ℕ) (pm₀ pm : PageMap) : Prop where
  slot : pc.spans i = none
  mappable : pc.Mappable p n
  ensured : ∀ q, Extent.Contains ⟨p, n⟩ q → pm₀.hasPath q = true
  lookup : ∀ q, pm.getSpan q =
    if Extent.Contains ⟨p, n⟩ q then some i else pc.pageMap.getSpan q
  path : ∀ q, pc.pageMap.hasPath q = true ∨ Extent.Contains ⟨p, n⟩ q → pm.hasPath q = true

/-- The events of a fresh span. -/
def freshEvents (n i p : ℕ) (pm₀ : PageMap) : List SectionEvent :=
  [.systemAlloc n (some p), .tryNew i ⟨p, n⟩, .setSpan pm₀ i ⟨p, n⟩]

/-- The events of a split of `big` with the range of `b`: the low part is `small`. The two pieces
are published in the page maps `pm` and `pm₁`. -/
def splitEvents (n small big : ℕ) (b : Span) (pm pm₁ : PageMap) : List SectionEvent :=
  [.tryNew small ⟨b.startPageIdx, n⟩, .resize big ⟨b.startPageIdx + n, b.pageNum - n⟩,
    .setSpan pm small ⟨b.startPageIdx, n⟩, .setSpan pm₁ big ⟨b.startPageIdx + n, b.pageNum - n⟩]

/-- A pass of the loop that finds a bucket. -/
inductive Cut (k n : ℕ) (pc : PageCache) : List SectionEvent → Option ℕ → PageCache → Prop
  /-- The exact hit. -/
  | exact {i : ℕ} {rest : List ℕ} {s : Span} (list : pc.spanLists k n = i :: rest)
      (live : pc.spans i = some s) :
      Cut k n pc [] (some i) ((pc.setList k n rest).store i (taken s))
  /-- A split without a descriptor for the new span: the big one goes back. -/
  | noDescriptor {env : PageEnv} (list : pc.spanLists k n = [])
      (pool : ∀ i, ¬ pc.PoolAnswers i) :
      Cut k n pc [] none { pc with env := env }
  /-- The split of the first span of the first larger bucket. -/
  | split {m big small now : ℕ} {rest : List ℕ} {b : Span} {pm₁ pm : PageMap} {env : PageEnv}
      (list : pc.spanLists k n = []) (first : pc.firstLarger k n = some m)
      (big_list : pc.spanLists k m = big :: rest) (live : pc.spans big = some b)
      (pool : pc.PoolAnswers small) (clock_le : pc.clock ≤ now) (now_le : now ≤ sizeMax)
      (path : ∀ q, pm₁.hasPath q = pc.pageMap.hasPath q)
      (lookup : ∀ q, pm.getSpan q =
        if (highPart b n now).extent.Contains q then some big
        else if (lowPart b n).extent.Contains q then some small else pc.pageMap.getSpan q) :
      Cut k n pc (splitEvents n small big b pc.pageMap pm₁) (some small)
        { (((pc.setList k m rest).store small (lowPart b n)).store big
            (highPart b n now)).pushFront k (b.pageNum - n) big with
          pageMap := pm, clock := now, env := env }

/-- A successful refill of shard `k` with the span `i` at page `p`. -/
inductive Refilled (k : ℕ) (pc : PageCache) (i p : ℕ) (pm₀ : PageMap) : PageCache → Prop
  | intro {now : ℕ} {pm : PageMap} {env : PageEnv} (fresh : pc.Fresh i p maxPageNum pm₀ pm)
      (clock_le : pc.clock ≤ now) (now_le : now ≤ sizeMax) :
      Refilled k pc i p pm₀
        { (pc.store i (refillSpan p now)).pushFront k maxPageNum i with
          pageMap := pm, mapped := ⟨p, maxPageNum⟩ :: pc.mapped, clock := now, env := env }

/-- No bucket of shard `k` from `n` pages on has a span: `AllocSpanLocked` comes to the refill. -/
def NeedsRefill (pc : PageCache) (k n : ℕ) : Prop :=
  pc.spanLists k n = [] ∧ pc.firstLarger k n = none

instance (pc : PageCache) (k n : ℕ) : Decidable (pc.NeedsRefill k n) :=
  inferInstanceAs (Decidable (_ ∧ _))

/-- No fresh span of `n` pages can be had. -/
def MapFails (pc : PageCache) (n : ℕ) : Prop := ∃ pc', pc.mapFreshSpan n = .ok (none, pc')

/-- **What `AllocSpanLocked(n)` on shard `k` does**: the events, the result and the state after
it. -/
inductive Outcome (k n : ℕ) (pc : PageCache) : List SectionEvent → Option ℕ → PageCache → Prop
  | rejected (range : n = 0 ∨ uint32Max < n) : Outcome k n pc [] none pc
  | oversizedFailed {evs : List SectionEvent} {pc' : PageCache} (big : maxPageNum < n)
      (failed : FreshFailed n pc evs pc') : Outcome k n pc evs none pc'
  | oversized {i p : ℕ} {pm₀ pm : PageMap} {env : PageEnv} (big : maxPageNum < n)
      (fresh : pc.Fresh i p n pm₀ pm) :
      Outcome k n pc (freshEvents n i p pm₀) (some i)
        { pc.store i (oversizedSpan p n) with
          pageMap := pm, mapped := ⟨p, n⟩ :: pc.mapped, env := env }
  | found {evs : List SectionEvent} {r : Option ℕ} {pc' : PageCache} (pos : 0 < n)
      (le_max : n ≤ maxPageNum) (bucket : ¬ pc.NeedsRefill k n) (cut : Cut k n pc evs r pc') :
      Outcome k n pc evs r pc'
  | refillFailed {evs : List SectionEvent} {pc' : PageCache} (pos : 0 < n) (le_max : n ≤ maxPageNum)
      (empty : pc.NeedsRefill k n) (fails : pc.MapFails maxPageNum)
      (failed : FreshFailed maxPageNum pc evs pc') : Outcome k n pc evs none pc'
  | refilled {i p : ℕ} {pm₀ : PageMap} {pc₁ : PageCache} {evs : List SectionEvent} {r : Option ℕ}
      {pc' : PageCache} (pos : 0 < n) (le_max : n ≤ maxPageNum) (empty : pc.NeedsRefill k n)
      (maps : ¬ pc.MapFails maxPageNum) (refill : Refilled k pc i p pm₀ pc₁)
      (cut : Cut k n pc₁ evs r pc') :
      Outcome k n pc (freshEvents maxPageNum i p pm₀ ++ evs) r pc'

/-- The listed spans of shard `k` are live, have the page count of their bucket, and their pages
have radix paths. -/
def Listed (pc : PageCache) (k : ℕ) : Prop :=
  ∀ n i, i ∈ pc.spanLists k n → ∃ s, pc.spans i = some s ∧ s.pageNum = n ∧
    ∀ q, s.Covers q → pc.pageMap.hasPath q = true

/-! ## The search for a bucket -/

/-- The bucket `firstLarger` finds. -/
lemma firstLarger_eq_some {k n m : ℕ} (h : pc.firstLarger k n = some m) :
    n < m ∧ m ≤ maxPageNum ∧ pc.spanLists k m ≠ [] ∧
      ∀ j, n < j → j < m → pc.spanLists k j = [] := by
  have hmem := List.mem_of_find?_eq_some h
  have hne := List.find?_some h
  rw [List.mem_range'_1] at hmem
  refine ⟨by omega, by omega, fun he => by simp [he] at hne, fun j hnj hjm => ?_⟩
  obtain ⟨-, as, bs, hsplit, hbefore⟩ := List.find?_eq_some_iff_append.mp h
  have hj : j ∈ List.range' (n + 1) (maxPageNum - n) := by rw [List.mem_range'_1]; omega
  have hsorted : (List.range' (n + 1) (maxPageNum - n)).Pairwise (· < ·) := List.pairwise_lt_range'
  rw [hsplit] at hj hsorted
  rw [List.pairwise_append, List.pairwise_cons] at hsorted
  rcases List.mem_append.mp hj with hj | hj
  · simpa using hbefore j hj
  · rcases List.mem_cons.mp hj with rfl | hj
    · omega
    · have := hsorted.2.1.1 j hj
      omega

/-- The search fails if all larger buckets are empty. -/
lemma firstLarger_eq_none {k n : ℕ} :
    pc.firstLarger k n = none ↔ ∀ m, n < m → m ≤ maxPageNum → pc.spanLists k m = [] := by
  unfold firstLarger
  rw [List.find?_eq_none]
  constructor
  · intro h m hnm hm
    simpa using h m (by rw [List.mem_range'_1]; omega)
  · intro h m hm
    rw [List.mem_range'_1] at hm
    simpa using h m (by omega) (by omega)

/-- A refill is needed exactly if no bucket from `n` pages on has a span. -/
lemma needsRefill_iff {k n : ℕ} (hn : n ≤ maxPageNum) :
    pc.NeedsRefill k n ↔ ∀ m, n ≤ m → m ≤ maxPageNum → pc.spanLists k m = [] := by
  unfold NeedsRefill
  rw [firstLarger_eq_none]
  constructor
  · rintro ⟨h₀, h⟩ m hnm hm
    rcases Nat.eq_or_lt_of_le hnm with rfl | hlt
    · exact h₀
    · exact h m hlt hm
  · exact fun h => ⟨h n le_rfl hn, fun m hnm hm => h m hnm.le hm⟩

/-! ## The branches of `AllocSpanLocked` -/

variable {k n : ℕ}

/-- The leaves of a fresh mapping, when its paths have been built and `SetSpan` has run. -/
lemma Fresh.of_setSpan {i p : ℕ} {pm pm' : PageMap} (slot : pc.spans i = none)
    (mappable : pc.Mappable p n) (hg : pc.pageMap.Grows pm)
    (hp : ∀ q, p ≤ q → q < p + n → pm.hasPath q = true)
    (hget : ∀ q, pm'.getSpan q = if Extent.Contains ⟨p, n⟩ q then some i else pm.getSpan q)
    (hpath : ∀ q, pm'.hasPath q = pm.hasPath q) : pc.Fresh i p n pm pm' where
  slot := slot
  mappable := mappable
  ensured q hq := hp q hq.1 hq.2
  lookup q := by rw [hget q, hg.getSpan]
  path q hq := by
    rw [hpath q]
    rcases hq with hq | hq
    · exact hg.hasPath hq
    · exact hp q hq.1 hq.2

/-- The oversized branch. -/
lemma allocOversized_outcome (pc : PageCache) (hbig : maxPageNum < n) :
    ∃ evs r pc', pc.allocOversized n = .ok (r, pc') ∧ Outcome k n pc evs r pc' ∧
      Logs pc.env evs pc'.env := by
  unfold allocOversized
  rcases pc.mapFreshSpan_cases n with
    ⟨evs, pc', hf, hlog, hrun⟩ | ⟨i, p, pm, env, hlog, hi, hm, hg, hp, hrun⟩
  · rw [hrun]
    exact ⟨evs, none, pc', rfl, .oversizedFailed hbig hf, hlog⟩
  simp only [hrun, bind, Except.bind]
  obtain ⟨pm', hset, hget, hpath⟩ := setSpan_ok
    (PageCache.store { pc with
      spans := Function.update pc.spans i (some { startPageIdx := p, pageNum := n })
      pageMap := pm
      mapped := ⟨p, n⟩ :: pc.mapped
      env := env } i (oversizedSpan p n)) i (s := oversizedSpan p n)
    (show 0 < n by omega) (fun q hq => hp q hq.1 hq.2)
  unfold oversizedSpan at hset
  rw [hset]
  refine ⟨_, some i, _, rfl, ?_, hlog.record (.setSpan pm i ⟨p, n⟩) (by simp)⟩
  have houtcome := @Outcome.oversized k n pc i p pm pm'
    { env with trace := env.trace ++ [.setSpan pm i ⟨p, n⟩] } hbig
    (Fresh.of_setSpan hi hm hg hp hget hpath)
  simpa [store, record, oversizedSpan, Span.extent, freshEvents] using houtcome

/-- The refill. -/
lemma refill_outcome (hc : pc.clock ≤ sizeMax) :
    (∃ evs pc', pc.refill k = .ok (false, pc') ∧ pc.MapFails maxPageNum ∧
      FreshFailed maxPageNum pc evs pc' ∧ Logs pc.env evs pc'.env) ∨
    ∃ i p pm₀ pc', pc.refill k = .ok (true, pc') ∧ ¬ pc.MapFails maxPageNum ∧
      Refilled k pc i p pm₀ pc' ∧ Logs pc.env (freshEvents maxPageNum i p pm₀) pc'.env := by
  unfold refill MapFails
  rcases pc.mapFreshSpan_cases maxPageNum with
    ⟨evs, pc', hf, hlog, hrun⟩ | ⟨i, p, pm, env, hlog, hi, hm, hg, hp, hrun⟩
  · rw [hrun]
    exact Or.inl ⟨evs, pc', rfl, ⟨pc', rfl⟩, hf, hlog⟩
  simp only [hrun, bind, Except.bind]
  set pc₁ : PageCache :=
    { pc with
      spans := Function.update pc.spans i (some { startPageIdx := p, pageNum := maxPageNum })
      pageMap := pm
      mapped := ⟨p, maxPageNum⟩ :: pc.mapped
      env := env } with hpc₁
  obtain ⟨now, env', hnow, hlo, hhi, hlog'⟩ := getCurrentTimeMs_spec pc₁ hc
  rw [hnow]
  dsimp only
  obtain ⟨pm', hset, hget, hpath⟩ := setSpan_ok
    ((PageCache.store { pc₁ with clock := now, env := env' } i (refillSpan p now)).pushFront k
      maxPageNum i) i (s := refillSpan p now) (show 0 < maxPageNum by decide)
    (fun q hq => hp q hq.1 hq.2)
  unfold refillSpan at hset
  rw [hset]
  refine Or.inr ⟨i, p, pm, _, rfl, by simp, ?_,
    (hlog.append hlog').record (.setSpan pm i ⟨p, maxPageNum⟩) (by simp)⟩
  have hrefilled := @Refilled.intro k pc i p pm now pm'
    { env' with trace := env'.trace ++ [.setSpan pm i ⟨p, maxPageNum⟩] }
    (Fresh.of_setSpan hi hm hg hp hget hpath) hlo hhi
  simpa [store, pushFront, setList, record, refillSpan, Span.extent, hpc₁] using hrefilled

/-- The exact hit. -/
lemma takeExact_cut {i : ℕ} {rest : List ℕ} (hl : pc.Listed k)
    (hlist : pc.spanLists k n = i :: rest) :
    ∃ evs r pc', pc.takeExact k n i rest = .ok (r, pc') ∧ Cut k n pc evs r pc' ∧
      Logs pc.env evs pc'.env := by
  obtain ⟨s, hs, -⟩ := hl n i (by simp [hlist])
  refine ⟨[], some i, (pc.setList k n rest).store i (taken s), ?_, .exact hlist hs, .refl _⟩
  simp only [takeExact, deref, hs]
  rfl

/-- The split. -/
lemma splitSpan_cut {m big : ℕ} {rest : List ℕ} (hl : pc.Listed k) (hc : pc.clock ≤ sizeMax)
    (hn : 0 < n) (hlist : pc.spanLists k n = []) (hfirst : pc.firstLarger k n = some m)
    (hbig : pc.spanLists k m = big :: rest) :
    ∃ evs r pc', pc.splitSpan k n m big rest = .ok (r, pc') ∧ Cut k n pc evs r pc' ∧
      Logs pc.env evs pc'.env := by
  obtain ⟨b, hb, hp, hpages⟩ := hl m big (by simp [hbig])
  have hnm : n < m := (firstLarger_eq_some hfirst).1
  have hderef : (pc.setList k m rest).deref big = .ok b := by simp only [deref, setList, hb]
  unfold splitSpan
  simp only [hderef, bind, Except.bind]
  rcases (pc.setList k m rest).tryNew_cases b.startPageIdx n with
    ⟨env, hlog, hpool, htry⟩ | ⟨small, env, hlog, hpool, htry⟩
  · -- no descriptor: `big` goes back to the front of its bucket
    rw [htry]
    refine ⟨[], none, { pc with env := env }, ?_, .noDescriptor hlist hpool, hlog⟩
    have hback : Function.update pc.spanLists k (Function.update (pc.spanLists k) m
        (big :: rest)) = pc.spanLists := by
      rw [← hbig, Function.update_eq_self, Function.update_eq_self]
    simp [pushFront, setList, hback]
    rfl
  rw [htry]
  dsimp only
  set pc₁ : PageCache :=
    { pc.setList k m rest with
      spans := Function.update (pc.setList k m rest).spans small
        (some { startPageIdx := b.startPageIdx, pageNum := n })
      env := env } with hpc₁
  obtain ⟨now, env', hnow, hlo, hhi, hlog'⟩ := getCurrentTimeMs_spec pc₁ hc
  rw [hnow]
  dsimp only
  set pc₂ : PageCache :=
    (PageCache.resize (PageCache.store { pc₁ with clock := now, env := env' } small (lowPart b n))
      big (highPart b n now)).pushFront k (b.pageNum - n) big with hpc₂
  -- the pages of both pieces have been pages of `big`
  obtain ⟨pm, hset, hget, hkeep⟩ := setSpan_ok pc₂ small (s := lowPart b n) hn
    (fun q hq => hpages q ⟨hq.1, by have := hq.2; simp only [lowPart] at this; omega⟩)
  obtain ⟨pm', hset', hget', -⟩ := setSpan_ok
    (PageCache.record { pc₂ with pageMap := pm }
      (.setSpan pc₂.pageMap small (lowPart b n).extent)) big
    (s := highPart b n now) (by simp only [highPart]; omega)
    (fun q hq => by
      have h₁ := hq.1
      have h₂ := hq.2
      simp only [highPart] at h₁ h₂
      exact (hkeep q).trans (hpages q ⟨by omega, by omega⟩))
  have hrun₁ := hset
  have hrun₂ := hset'
  simp only [hpc₂, lowPart, highPart] at hrun₁ hrun₂
  rw [hrun₁]
  dsimp only
  rw [hrun₂]
  have hlogs := (((hlog.append hlog').record
    (.resize big ⟨b.startPageIdx + n, b.pageNum - n⟩) (by simp)).record
    (.setSpan pc.pageMap small ⟨b.startPageIdx, n⟩) (by simp)).record
    (.setSpan pm big ⟨b.startPageIdx + n, b.pageNum - n⟩) (by simp)
  refine ⟨splitEvents n small big b pc.pageMap pm, some small, _, rfl, ?_, hlogs⟩
  have hlookup : ∀ q, pm'.getSpan q =
      if (highPart b n now).extent.Contains q then some big
      else if (lowPart b n).extent.Contains q then some small else pc.pageMap.getSpan q := by
    intro q
    refine (hget' q).trans ?_
    exact congrArg (fun x => if (highPart b n now).extent.Contains q then some big else x) (hget q)
  have hcut := @Cut.split k n pc m big small now rest b pm pm'
    { env' with trace := env'.trace ++ [.resize big ⟨b.startPageIdx + n, b.pageNum - n⟩] ++
      [.setSpan pc.pageMap small ⟨b.startPageIdx, n⟩] ++
      [.setSpan pm big ⟨b.startPageIdx + n, b.pageNum - n⟩] }
    hlist hfirst hbig hb hpool hlo hhi hkeep hlookup
  simpa [hpc₁, store, resize, record, pushFront, setList, lowPart, highPart, Span.extent] using hcut

/-! ## The loop -/

/-- One pass of the loop that finds a bucket. -/
lemma allocSpanLoop_cut (fuel : ℕ) (hl : pc.Listed k) (hc : pc.clock ≤ sizeMax) (hn : 0 < n)
    (hmax : n ≤ maxPageNum) (hbucket : ¬ pc.NeedsRefill k n) :
    ∃ evs r pc', allocSpanLoop k n (fuel + 1) pc = .ok (r, pc') ∧ Cut k n pc evs r pc' ∧
      Logs pc.env evs pc'.env := by
  unfold allocSpanLoop
  rw [if_neg (by omega)]
  split
  next i rest hlist => exact takeExact_cut hl hlist
  next hlist =>
    split
    next m hfirst =>
      split
      next big rest hbig => exact splitSpan_cut hl hc hn hlist hfirst hbig
      next hempty => exact absurd hempty (firstLarger_eq_some hfirst).2.2.1
    next hnone => exact absurd ⟨hlist, hnone⟩ hbucket

/-- After a refill the listed spans are live, and the next pass finds a bucket. -/
lemma Refilled.listed {i p : ℕ} {pm₀ : PageMap} {pc₁ : PageCache}
    (h : Refilled k pc i p pm₀ pc₁) (hl : pc.Listed k) (hn : n ≤ maxPageNum) :
    pc₁.Listed k ∧ pc₁.clock ≤ sizeMax ∧ ¬ pc₁.NeedsRefill k n := by
  obtain ⟨fresh, -, now_le⟩ := h
  refine ⟨fun m j hj => ?_, now_le, fun hnone => ?_⟩
  · by_cases hji : j = i
    · subst hji
      have hm : m = maxPageNum := by
        by_contra hm
        simp only [pushFront, setList, store, Function.update_self, Function.update_of_ne hm] at hj
        obtain ⟨s, hs, -⟩ := hl m j hj
        rw [fresh.slot] at hs
        exact absurd hs (by simp)
      refine ⟨refillSpan p _, by simp [pushFront, setList, store]; rfl, hm.symm, fun q hq => ?_⟩
      exact fresh.path q (Or.inr hq)
    · have hj' : j ∈ pc.spanLists k m := by
        by_cases hm : m = maxPageNum
        · subst hm
          simpa [pushFront, setList, store, hji] using hj
        · simpa [pushFront, setList, store, hm] using hj
      obtain ⟨s, hs, hp, hpages⟩ := hl m j hj'
      exact ⟨s, by simpa [pushFront, setList, store, hji] using hs, hp,
        fun q hq => fresh.path q (Or.inl (hpages q hq))⟩
  · have := (needsRefill_iff hn).mp hnone maxPageNum hn le_rfl
    simp [pushFront, setList] at this

/-- **`AllocSpanLocked` returns**, with one of the outcomes.

**Proof sketch.** A pass without a bucket comes to the refill. If that fails the call fails;
otherwise bucket `MAX_PAGE_NUM` is not empty and the second pass finds a bucket. -/
theorem allocSpanLocked_outcome (hl : pc.Listed k) (hc : pc.clock ≤ sizeMax) (n : ℕ) :
    ∃ evs r pc', pc.allocSpanLocked k n = .ok (r, pc') ∧ Outcome k n pc evs r pc' ∧
      Logs pc.env evs pc'.env := by
  unfold allocSpanLocked
  by_cases hrange : n = 0 ∨ n > uint32Max
  · rw [if_pos hrange]
    exact ⟨[], none, pc, rfl, .rejected hrange, .refl _⟩
  rw [if_neg hrange]
  have hn : 0 < n := by omega
  by_cases hbig : n > maxPageNum
  · rw [allocSpanLoop, if_pos hbig]
    exact pc.allocOversized_outcome hbig
  have hmax : n ≤ maxPageNum := not_lt.mp hbig
  by_cases hempty : pc.NeedsRefill k n
  · rw [allocSpanLoop, if_neg hbig]
    simp only [hempty.1, hempty.2]
    rcases refill_outcome hc with
      ⟨evs, pc', hrun, hfails, hf, hlog⟩ | ⟨i, p, pm₀, pc₁, hrun, hmaps, hr, hlog⟩
    · rw [hrun]
      exact ⟨evs, none, pc', rfl, .refillFailed hn hmax hempty hfails hf, hlog⟩
    · rw [hrun]
      obtain ⟨hl₁, hc₁, hbucket⟩ := hr.listed hl hmax
      obtain ⟨evs, r, pc', hloop, hcut, hlog'⟩ := allocSpanLoop_cut 0 hl₁ hc₁ hn hmax hbucket
      exact ⟨_, r, pc', hloop, .refilled hn hmax hempty hmaps hr hcut, hlog.append hlog'⟩
  · obtain ⟨evs, r, pc', hloop, hcut, hlog⟩ := allocSpanLoop_cut 1 hl hc hn hmax hempty
    exact ⟨evs, r, pc', hloop, .found hn hmax hempty hcut, hlog⟩

end PageCache

end Ammalloc
