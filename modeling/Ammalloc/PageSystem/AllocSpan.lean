import Ammalloc.Lib.FamilySum
import Ammalloc.PageSystem

set_option relaxedAutoImplicit false
set_option autoImplicit false

/-!
# The contract of `AllocSpan`

What a caller of `PageCache::AllocSpan` may rely on, in every state that the page layer reaches
with its callers and its scavenger: which pages it gets, what they cost, and what a null result
leaves behind. Both theorems are read off the outcomes of `Ammalloc.PageCache.Outcome`.

## Main definitions

* `Ammalloc.PageCache.freePages`, `Ammalloc.PageCache.mappedPages` — the accounts.
* `Ammalloc.PageCache.LowEnd` — where the pages of a result come from.
* `Ammalloc.PageCache.AddsSpan` — the trace of a refill after which the call failed.

## Main results

* `Ammalloc.PageSystem.allocSpan_contract` — the functional contract.
* `Ammalloc.PageSystem.allocSpan_failure` — a null result leaves the state intact.
-/

namespace Ammalloc

namespace PageCache

variable {pc pc' : PageCache} {n : ℕ}

/-! ## Accounts -/

/-- The pages in the buckets. -/
def freePages (pc : PageCache) : ℕ :=
  ∑ n ∈ Finset.range (maxPageNum + 1), n * (pc.spanLists 0 n).length

/-- The pages obtained from the system. -/
def mappedPages (pc : PageCache) : ℕ := (pc.mapped.map Extent.len).sum

/-- The pages in the buckets depend on the buckets only. -/
lemma freePages_congr (h : pc'.spanLists 0 = pc.spanLists 0) : pc'.freePages = pc.freePages := by
  unfold freePages
  rw [h]

/-- Overwriting a bucket. -/
lemma freePages_setList (pc : PageCache) {m : ℕ} (hm : m ≤ maxPageNum) (l : List ℕ) :
    (pc.setList 0 m l).freePages + m * (pc.spanLists 0 m).length =
      pc.freePages + m * l.length := by
  have h := FamilySum.sum_update_add (Finset.range (maxPageNum + 1)) (pc.spanLists 0)
    (fun n l => n * l.length) (Finset.mem_range.mpr (Nat.lt_succ_of_le hm)) l
  simpa [freePages, setList] using h

/-- A new span at the front of a bucket. -/
lemma freePages_pushFront (pc : PageCache) {m : ℕ} (hm : m ≤ maxPageNum) (i : ℕ) :
    (pc.pushFront 0 m i).freePages = pc.freePages + m := by
  have h := pc.freePages_setList hm (i :: pc.spanLists 0 m)
  rw [List.length_cons, Nat.mul_succ] at h
  unfold pushFront
  omega

/-- The front span leaves its bucket. -/
lemma freePages_popFront {m i : ℕ} {rest : List ℕ} (hm : m ≤ maxPageNum)
    (hl : pc.spanLists 0 m = i :: rest) : (pc.setList 0 m rest).freePages + m = pc.freePages := by
  have h := pc.freePages_setList hm rest
  rw [hl, List.length_cons, Nat.mul_succ] at h
  omega

/-- A pass that finds a bucket takes the returned pages from the buckets, and maps nothing. -/
lemma Cut.accounts (hl : pc.Listed 0) (hn : n ≤ maxPageNum) {evs : List SectionEvent}
    {r : Option ℕ} (h : Cut 0 n pc evs r pc') :
    pc'.freePages + (if r.isSome then n else 0) = pc.freePages ∧ pc'.mapped = pc.mapped := by
  cases h with
  | @exact i rest s list live =>
    refine ⟨?_, rfl⟩
    have hsame : ((pc.setList 0 n rest).store i (taken s)).freePages =
        (pc.setList 0 n rest).freePages := freePages_congr rfl
    rw [hsame, Option.isSome_some, if_pos rfl]
    exact freePages_popFront hn list
  | noDescriptor => exact ⟨by simp [freePages], rfl⟩
  | @split m big small now rest b _ pm env list first big_list live =>
    refine ⟨?_, rfl⟩
    obtain ⟨hnm, hm, -, -⟩ := firstLarger_eq_some first
    obtain ⟨s, hs, hp, -⟩ := hl m big (by simp [big_list])
    rw [live] at hs
    obtain rfl := Option.some.inj hs
    set pc₁ := ((pc.setList 0 m rest).store small (lowPart b n)).store big (highPart b n now)
    have hpop := freePages_popFront hm big_list
    have hkeep : pc₁.freePages = (pc.setList 0 m rest).freePages := freePages_congr rfl
    have hpush := pc₁.freePages_pushFront (m := b.pageNum - n) (by omega) big
    have hsame : ({ pc₁.pushFront 0 (b.pageNum - n) big with
        pageMap := pm, clock := now, env := env } : PageCache).freePages =
        (pc₁.pushFront 0 (b.pageNum - n) big).freePages := freePages_congr rfl
    rw [hsame, hpush, hkeep, Option.isSome_some, if_pos rfl]
    omega

/-- A refill maps `MAX_PAGE_NUM` pages and puts them into a bucket. -/
lemma Refilled.accounts {i p : ℕ} {pm₀ : PageMap} (h : Refilled 0 pc i p pm₀ pc') :
    pc'.freePages = pc.freePages + maxPageNum ∧ pc'.mapped = ⟨p, maxPageNum⟩ :: pc.mapped := by
  obtain @⟨now, pm, env, fresh, -, -⟩ := h
  refine ⟨?_, rfl⟩
  have hpush := (pc.store i (refillSpan p now)).freePages_pushFront le_rfl i
  have hsame : (pc.store i (refillSpan p now)).freePages = pc.freePages := freePages_congr rfl
  rw [← hsame, ← hpush]
  exact freePages_congr rfl

/-- A failed attempt to map a span leaves both accounts as they were. -/
lemma FreshFailed.accounts {m : ℕ} {evs : List SectionEvent} (h : FreshFailed m pc evs pc') :
    pc'.freePages = pc.freePages ∧ pc'.mapped = pc.mapped := by
  cases h <;> exact ⟨freePages_congr rfl, rfl⟩

/-- **The accounts balance**: what is free afterwards and what is returned were free before or are
new. -/
lemma Outcome.accounts (hl : pc.Listed 0) {evs : List SectionEvent} {r : Option ℕ}
    (h : Outcome 0 n pc evs r pc') :
    pc'.freePages + (if r.isSome then n else 0) + pc.mappedPages =
      pc.freePages + pc'.mappedPages := by
  unfold mappedPages
  cases h with
  | rejected => simp
  | oversizedFailed _ hf | refillFailed _ _ _ _ hf =>
    rw [hf.accounts.1, hf.accounts.2]
    simp
  | @oversized i p _ pm env _ _ =>
    have hsame : ({ pc.store i (oversizedSpan p n) with
        pageMap := pm, mapped := ⟨p, n⟩ :: pc.mapped, env := env } : PageCache).freePages =
        pc.freePages := freePages_congr rfl
    rw [hsame, Option.isSome_some, if_pos rfl]
    simp only [List.map_cons, List.sum_cons]
    omega
  | found _ hn _ hc =>
    rw [(hc.accounts hl hn).2, ← (hc.accounts hl hn).1]
  | refilled _ hn _ _ hr hc =>
    obtain ⟨hl₁, -, -⟩ := hr.listed hl hn
    obtain ⟨hfree, hmap⟩ := hc.accounts hl₁ hn
    rw [hmap, hr.accounts.2, hfree, hr.accounts.1]
    simp only [List.map_cons, List.sum_cons]
    omega

/-! ## Calls -/

/-- A failed attempt to map a span makes one request. -/
lemma FreshFailed.calls {m : ℕ} {evs : List SectionEvent} (h : FreshFailed m pc evs pc') :
    ∃ result, (evs.filterMap systemCall).filter SystemCall.isAlloc = [.alloc m result] := by
  cases h with
  | noMemory => exact ⟨none, rfl⟩
  | @noDescriptor p | @noPath _ p => exact ⟨some p, rfl⟩

/-- A pass that finds a bucket calls the page source for nothing. -/
lemma Cut.calls {evs : List SectionEvent} {r : Option ℕ} (h : Cut 0 n pc evs r pc') :
    evs.filterMap systemCall = [] := by
  cases h <;> rfl

/-- The calls of a critical section that began with an empty trace. -/
lemma Logs.systemCalls {env : PageEnv} {evs : List SectionEvent}
    (h : Logs (pc.load env).env evs pc'.env) : pc'.systemCalls = evs.filterMap systemCall := by
  have htrace : pc'.env.trace = evs := h.trace
  rw [PageCache.systemCalls, htrace]

/-- A pass that finds a bucket fails exactly if it has to split a span and gets no descriptor. -/
lemma Cut.eq_none_iff {evs : List SectionEvent} {r : Option ℕ} (h : Cut 0 n pc evs r pc') :
    r = none ↔ pc.spanLists 0 n = [] ∧ ∀ i, ¬ pc.PoolAnswers i := by
  cases h with
  | exact list => simp [list]
  | noDescriptor list pool => simp [list, pool]
  | @split _ _ small _ _ _ _ _ _ _ _ _ _ pool =>
    simp only [reduceCtorEq, false_iff, not_and, not_forall, not_not]
    exact fun _ => ⟨small, pool⟩

/-! ## Where the pages come from -/

/-- The span `s` begins where the front span of the smallest non-empty bucket from `n` pages on
begins, and is not longer. -/
def LowEnd (pc : PageCache) (n : ℕ) (s : Span) : Prop :=
  ∃ m i rest t, n ≤ m ∧ m ≤ maxPageNum ∧ (∀ j, n ≤ j → j < m → pc.spanLists 0 j = []) ∧
    pc.spanLists 0 m = i :: rest ∧ pc.spans i = some t ∧ t.pageNum = m ∧
    s.startPageIdx = t.startPageIdx ∧ s.pageNum ≤ t.pageNum

/-- The result of a pass that finds a bucket. -/
lemma Cut.lowEnd (hl : pc.Listed 0) (hn : n ≤ maxPageNum) {evs : List SectionEvent} {i : ℕ}
    (h : Cut 0 n pc evs (some i) pc') :
    ∃ s, pc'.spans i = some s ∧ pc.LowEnd n s := by
  cases h with
  | @exact _ rest s list live =>
    obtain ⟨t, ht, hp, -⟩ := hl n i (by simp [list])
    rw [live] at ht
    obtain rfl := Option.some.inj ht
    refine ⟨taken s, by simp [store], n, i, rest, s, le_rfl, hn, fun j _ _ => by omega, list, live,
      hp, rfl, le_rfl⟩
  | @split m big _ now rest b _ _ _ list first big_list live pool =>
    obtain ⟨-, slot⟩ := pool
    obtain ⟨hnm, hm, -, hmin⟩ := firstLarger_eq_some first
    obtain ⟨t, ht, hp, -⟩ := hl m big (by simp [big_list])
    rw [live] at ht
    obtain rfl := Option.some.inj ht
    have hne : i ≠ big := by rintro rfl; rw [live] at slot; exact absurd slot (by simp)
    refine ⟨lowPart b n, by simp [pushFront, setList, store, hne], m, big, rest, b, hnm.le, hm,
      fun j hnj hjm => ?_, big_list, live, hp, rfl, ?_⟩
    · rcases Nat.eq_or_lt_of_le hnj with rfl | hlt
      · exact list
      · exact hmin j hlt hjm
    · rw [hp]
      exact hnm.le

/-- **The source of the pages**, for requests of at most `MAX_PAGE_NUM` pages: the state before the
call, or the state after its refill. -/
lemma Outcome.lowEnd (hl : pc.Listed 0) (hn : n ≤ maxPageNum) {evs : List SectionEvent} {i : ℕ}
    (h : Outcome 0 n pc evs (some i) pc') :
    ∃ s pc₁, pc'.spans i = some s ∧ pc₁.LowEnd n s ∧ (¬ pc.NeedsRefill 0 n → pc₁ = pc) ∧
      (pc.NeedsRefill 0 n → ∃ j p pm₀, Refilled 0 pc j p pm₀ pc₁) := by
  cases h with
  | oversized hbig => omega
  | found _ _ hbucket hc =>
    obtain ⟨s, hs, hlow⟩ := hc.lowEnd hl hn
    exact ⟨s, pc, hs, hlow, fun _ => rfl, fun hempty => absurd hempty hbucket⟩
  | @refilled j p pm₀ pc₁ _ _ _ _ _ hempty _ hr hc =>
    obtain ⟨s, hs, hlow⟩ := hc.lowEnd (hr.listed hl hn).1 hn
    exact ⟨s, pc₁, hs, hlow, fun hbucket => absurd hempty hbucket, fun _ => ⟨j, p, pm₀, hr⟩⟩

/-- **The requests** for at most `MAX_PAGE_NUM` pages: none if there is a bucket, and one request
for `MAX_PAGE_NUM` pages otherwise. -/
lemma Outcome.requests (hpos : 0 < n) (hn : n ≤ maxPageNum) {evs : List SectionEvent}
    {r : Option ℕ} (h : Outcome 0 n pc evs r pc') :
    (¬ pc.NeedsRefill 0 n → evs.filterMap systemCall = []) ∧
      (pc.NeedsRefill 0 n → ∃ result,
        (evs.filterMap systemCall).filter SystemCall.isAlloc = [.alloc maxPageNum result]) := by
  cases h with
  | rejected hrange =>
    have hmax : maxPageNum < uint32Max := by decide
    omega
  | oversizedFailed hbig | oversized hbig => omega
  | found _ _ hbucket hc => exact ⟨fun _ => hc.calls, fun hempty => absurd hempty hbucket⟩
  | refillFailed _ _ hempty _ hf =>
    exact ⟨fun hbucket => absurd hempty hbucket, fun _ => hf.calls⟩
  | @refilled _ p _ _ _ _ _ _ _ hempty _ _ hc =>
    refine ⟨fun hbucket => absurd hempty hbucket, fun _ => ⟨some p, ?_⟩⟩
    rw [List.filterMap_append, hc.calls]
    rfl

/-- If a bucket fits, the call fails exactly if it has to split a span and gets no descriptor. -/
lemma Outcome.eq_none_iff (hpos : 0 < n) (hn : n ≤ maxPageNum) {evs : List SectionEvent}
    {r : Option ℕ} (hbucket : ¬ pc.NeedsRefill 0 n) (h : Outcome 0 n pc evs r pc') :
    r = none ↔ pc.spanLists 0 n = [] ∧ ∀ i, ¬ pc.PoolAnswers i := by
  cases h with
  | rejected hrange =>
    have hmax : maxPageNum < uint32Max := by decide
    omega
  | oversizedFailed hbig | oversized hbig => omega
  | found _ _ _ hc => exact hc.eq_none_iff
  | refillFailed _ _ hempty | refilled _ _ hempty => exact absurd hempty hbucket

/-! ## The loop -/

/-- A loop that has ended is not changed by more fuel. -/
lemma allocSpanLoop_mono {k fuel : ℕ} {x : Option ℕ × PageCache}
    (h : allocSpanLoop k n fuel pc = .ok x) (fuel' : ℕ) (hle : fuel ≤ fuel') :
    allocSpanLoop k n fuel' pc = .ok x := by
  induction fuel generalizing pc fuel' with
  | zero => simp [allocSpanLoop] at h
  | succ fuel ih =>
    obtain ⟨fuel', rfl⟩ : ∃ f, fuel' = f + 1 := ⟨fuel' - 1, by omega⟩
    unfold allocSpanLoop at h ⊢
    by_cases hbig : n > maxPageNum
    · rwa [if_pos hbig] at h ⊢
    rw [if_neg hbig] at h ⊢
    cases hlist : pc.spanLists k n with
    | cons i rest => simpa only [hlist] using h
    | nil =>
      cases hfirst : pc.firstLarger k n with
      | some m => simpa only [hlist, hfirst] using h
      | none =>
        simp only [hlist, hfirst] at h ⊢
        -- the only recursive call is the one after a refill
        rcases hr : pc.refill k with e | ⟨_ | _, pc₁⟩
        · rw [hr] at h
          exact absurd h (by simp)
        · rw [hr] at h
          exact h
        · rw [hr] at h
          exact ih h fuel' (by omega)

/-! ## A null result -/

/-- From `pc` to `pc'` nothing happens but that bucket `MAX_PAGE_NUM` gains at its front the free
span `i` on a new mapping at page `p`. -/
structure AddsSpan (pc : PageCache) (i p : ℕ) (pc' : PageCache) : Prop where
  slot : pc.spans i = none
  span : ∃ s, pc'.spans i = some s ∧ s.used = false ∧ s.committed = true ∧
    s.extent = ⟨p, maxPageNum⟩ ∧ Clean s
  others : ∀ j, j ≠ i → pc'.spans j = pc.spans j
  front : pc'.spanLists 0 maxPageNum = i :: pc.spanLists 0 maxPageNum
  buckets : ∀ k m, k ≠ 0 ∨ m ≠ maxPageNum → pc'.spanLists k m = pc.spanLists k m
  lookup : ∀ q, pc'.pageMap.getSpan q =
    if Extent.Contains ⟨p, maxPageNum⟩ q then some i else pc.pageMap.getSpan q
  mappable : pc.Mappable p maxPageNum
  mapped : pc'.mapped = ⟨p, maxPageNum⟩ :: pc.mapped

/-- Spans, buckets, lookups and mappings are the same. -/
structure SameSpans (pc pc' : PageCache) : Prop where
  spans : pc'.spans = pc.spans
  spanLists : pc'.spanLists = pc.spanLists
  lookup : ∀ q, pc'.pageMap.getSpan q = pc.pageMap.getSpan q
  mapped : pc'.mapped = pc.mapped

/-- The calls of an attempt that leaves no mapping behind: there was none, or it was given back. -/
def GivesBack (calls : List SystemCall) : Prop :=
  calls = [] ∨ (∃ m, calls = [.alloc m none]) ∨ ∃ m p, calls = [.alloc m (some p), .free p m]

/-- A refill, up to the answers that are left. -/
lemma Refilled.addsSpan {i p : ℕ} {pm₀ : PageMap} {pc₁ : PageCache}
    (h : Refilled 0 pc i p pm₀ pc₁) (env : PageEnv) : AddsSpan pc i p { pc₁ with env := env } := by
  obtain @⟨now, pm, _, fresh, -, -⟩ := h
  constructor
  · exact fresh.slot
  · exact ⟨refillSpan p now, by simp [pushFront, setList, store], rfl, rfl, rfl, rfl, rfl, rfl, rfl⟩
  · intro j hj
    simp [pushFront, setList, store, hj]
  · simp [pushFront, setList, store]
  · rintro k m (hk | hm)
    · simp [pushFront, setList, store, hk]
    · by_cases hk : k = 0
      · subst hk
        simp [pushFront, setList, store, hm]
      · simp [pushFront, setList, store, hk]
  · exact fresh.lookup
  · exact fresh.mappable
  · rfl

/-- A failed attempt to map a span. -/
lemma FreshFailed.sameSpans {m : ℕ} {evs : List SectionEvent} (h : FreshFailed m pc evs pc') :
    SameSpans pc pc' ∧ GivesBack (evs.filterMap systemCall) := by
  cases h with
  | noMemory => exact ⟨⟨rfl, rfl, fun _ => rfl, rfl⟩, Or.inr (Or.inl ⟨m, rfl⟩)⟩
  | @noDescriptor p => exact ⟨⟨rfl, rfl, fun _ => rfl, rfl⟩, Or.inr (Or.inr ⟨m, p, rfl⟩)⟩
  | @noPath _ p _ _ _ _ grows =>
    exact ⟨⟨rfl, rfl, fun q => grows.getSpan q, rfl⟩, Or.inr (Or.inr ⟨m, p, rfl⟩)⟩

/-- **What a null result leaves behind**: nothing, or the span of the refill. -/
lemma Outcome.failure {evs : List SectionEvent} (h : Outcome 0 n pc evs none pc') :
    (SameSpans pc pc' ∧ GivesBack (evs.filterMap systemCall)) ∨
      ∃ i p, AddsSpan pc i p pc' ∧
        evs.filterMap systemCall = [.alloc maxPageNum (some p)] := by
  cases h with
  | rejected => exact Or.inl ⟨⟨rfl, rfl, fun _ => rfl, rfl⟩, Or.inl rfl⟩
  | oversizedFailed _ hf | refillFailed _ _ _ _ hf => exact Or.inl hf.sameSpans
  | found _ _ _ hc =>
    cases hc with
    | noDescriptor => exact Or.inl ⟨⟨rfl, rfl, fun _ => rfl, rfl⟩, Or.inl rfl⟩
  | @refilled i p _ _ _ _ _ _ _ _ _ hr hc =>
    cases hc with
    | @noDescriptor env => exact Or.inr ⟨i, p, hr.addsSpan env, rfl⟩

end PageCache

namespace PageSystem

open PageCache

/-- The invariant holds in every reachable state. -/
lemma inv_of_reachable {st : PageSystem} (h : machine.Reachable st) : st.Inv := by
  refine h.invariant (I := Inv) (fun s hs => ?_) fun s a h => (next_spec h a).1
  obtain rfl := hs
  exact init_inv

/-- **The contract of `AllocSpan`**, in every reachable state, for every page count and every
pattern of failures. The loop ends after at most two passes, and the calls are those for which the
page source was asked. A result has the requested length, is used, committed and clean, and its
pages look up to it. Up to `MAX_PAGE_NUM` pages they are the low end of the front span of the
smallest bucket that fits, in the state `pc₁` after the refill if there was one; the system is
asked for memory only if there is no such bucket, and then once. If there is such a bucket, the
result is null only if the span has to be split and the pool has no descriptor. The accounts
balance. -/
theorem allocSpan_contract {st : PageSystem} (h : machine.Reachable st) (env : PageEnv) (n : ℕ) :
    let pc := st.pc.load env
    let HasBucket := ∃ m, n ≤ m ∧ m ≤ maxPageNum ∧ pc.spanLists 0 m ≠ []
    ∃ r pc', pc.allocSpan n = .ok (r, pc') ∧
      (0 < n → n ≤ uint32Max → ∀ fuel, 2 ≤ fuel →
        allocSpanLoop 0 n fuel pc = pc.allocSpanLocked 0 n) ∧
      pc'.env.sysAlloc = env.sysAlloc.drop (pc'.systemCalls.countP SystemCall.isAlloc) ∧
      (∀ i, r = some i → ∃ s, pc'.spans i = some s ∧ s.pageNum = n ∧ s.used = true ∧
        s.committed = true ∧ s.alignedObjSize = 0 ∧ s.useCount = 0 ∧ s.capacity = 0 ∧
        s.objOffset = 0 ∧ (∀ q, s.Covers q → pc'.pageMap.getSpan q = some i) ∧
        (n ≤ maxPageNum → ∃ pc₁, pc₁.LowEnd n s ∧ (HasBucket → pc₁ = pc) ∧
          (¬ HasBucket → ∃ j p pm₀, Refilled 0 pc j p pm₀ pc₁))) ∧
      (0 < n → n ≤ maxPageNum → (HasBucket → pc'.systemCalls = []) ∧
        (¬ HasBucket →
          ∃ result, pc'.systemCalls.filter SystemCall.isAlloc = [.alloc maxPageNum result])) ∧
      (0 < n → n ≤ maxPageNum → HasBucket →
        (r = none ↔ pc.spanLists 0 n = [] ∧ ∀ i, ¬ pc.PoolAnswers i)) ∧
      pc'.freePages + (if r.isSome then n else 0) + pc.mappedPages =
        pc.freePages + pc'.mappedPages := by
  intro pc HasBucket
  have hinv : pc.Inv st.scav.chain := (inv_of_reachable h).scav.inv.load env
  obtain ⟨evs, r, pc', hrun, ho, hlogs, hpost⟩ := allocSpan_outcome hinv n
  have hbucket : n ≤ maxPageNum → (pc.NeedsRefill 0 n ↔ ¬ HasBucket) := by
    intro hn
    rw [needsRefill_iff hn]
    simp only [HasBucket, not_exists, not_and, not_not]
  have hfits : n ≤ maxPageNum → HasBucket → ¬ pc.NeedsRefill 0 n :=
    fun hn hb hempty => (hbucket hn).mp hempty hb
  refine ⟨r, pc', hrun, fun hpos hmax fuel hfuel => ?_, ?_, fun i hi => ?_,
    fun hpos hn => ?_, fun hpos hn hb => ho.eq_none_iff hpos hn (hfits hn hb),
    ho.accounts hinv.listed_zero⟩
  · obtain ⟨-, r', pc'', hloop, -⟩ := allocSpanLocked_outcome hinv.listed_zero hinv.clock_le n
    have hloop' := hloop
    rw [allocSpanLocked, if_neg (by omega)] at hloop'
    rw [hloop]
    exact allocSpanLoop_mono hloop' fuel hfuel
  · rw [hlogs.systemCalls]
    exact hlogs.answers
  · obtain ⟨s, hs, hu, hc, hp, h₁, h₂, h₃, h₄⟩ := hpost.got i hi
    refine ⟨s, hs, hp, hu, hc, h₁, h₂, h₃, h₄,
      fun q hq => (hpost.inv.getSpan_iff q i).mpr ⟨s, hs, hq⟩, fun hn => ?_⟩
    subst hi
    obtain ⟨s', pc₁, hs', hlow, hsame, hrefill⟩ := ho.lowEnd hinv.listed_zero hn
    rw [hs] at hs'
    obtain rfl := Option.some.inj hs'
    exact ⟨pc₁, hlow, fun hb => hsame (hfits hn hb), fun hb => hrefill ((hbucket hn).mpr hb)⟩
  · obtain ⟨hnone, hone⟩ := ho.requests hpos hn
    rw [hlogs.systemCalls]
    exact ⟨fun hb => hnone (hfits hn hb), fun hb => hone ((hbucket hn).mpr hb)⟩

/-- The answers for a first `AllocSpan`: a mapping at page 1024, and the slots in `slots` for the
descriptors. -/
def firstAnswers (slots : List (Option ℕ)) : PageEnv :=
  { sysAlloc := [some 1024], tryNew := slots, radixNode := [true, true, true] }

/-- A first page: one request of 128 pages, and all but one of them stay free. -/
theorem allocSpan_contract_first :
    let pc := PageCache.load {} (firstAnswers [some 1, some 2])
    ∃ pc' s, pc.allocSpan 1 = .ok (some 2, pc') ∧ pc'.spans 2 = some s ∧ s.pageNum = 1 ∧
      s.used = true ∧ (∀ q, s.Covers q → pc'.pageMap.getSpan q = some 2) ∧
      (∃ result, pc'.systemCalls.filter SystemCall.isAlloc = [.alloc maxPageNum result]) ∧
      pc'.freePages + 1 = pc'.mappedPages := by
  intro pc
  have hreach : machine.Reachable ({} : PageSystem) := .init rfl
  obtain ⟨r, pc', hrun, -, -, hgot, hcalls, -, haccounts⟩ := allocSpan_contract hreach
    (firstAnswers [some 1, some 2]) 1
  have hresult : (pc.allocSpan 1).toOption.map Prod.fst = some (some 2) := by decide +kernel
  rw [hrun] at hresult
  obtain rfl : r = some 2 := Option.some.inj hresult
  obtain ⟨s, hs, hp, hu, -, -, -, -, -, hlookup, -⟩ := hgot 2 rfl
  refine ⟨pc', s, hrun, hs, hp, hu, hlookup, (hcalls (by decide) (by decide)).2 ?_, ?_⟩
  · rintro ⟨m, -, -, hm⟩
    exact hm rfl
  · simpa [freePages, mappedPages, PageCache.load] using haccounts

/-- **A null result leaves the state intact**, in every reachable state and whichever callee
failed: the live spans keep their descriptors, and either all buckets, lookups and mappings are as
they were, every mapping of this call having been given back once with its own base and length, or
bucket `MAX_PAGE_NUM` has gained the span of the refill and nothing else has changed. The calls are
those that the section itself has recorded. -/
theorem allocSpan_failure {st : PageSystem} (h : machine.Reachable st) (env : PageEnv) (n : ℕ)
    {pc' : PageCache} (hrun : (st.pc.load env).allocSpan n = .ok (none, pc')) :
    let pc := st.pc.load env
    (∀ j s, pc.spans j = some s → pc'.spans j = some s) ∧
      ((SameSpans pc pc' ∧ GivesBack pc'.systemCalls) ∨
        ∃ i p, AddsSpan pc i p pc' ∧ pc'.systemCalls = [.alloc maxPageNum (some p)]) := by
  intro pc
  have hinv : pc.Inv st.scav.chain := (inv_of_reachable h).scav.inv.load env
  obtain ⟨evs, r, pc'', hrun', ho, hlogs, -⟩ := allocSpan_outcome hinv n
  rw [hrun] at hrun'
  obtain ⟨rfl, rfl⟩ := Prod.mk.inj (Except.ok.inj hrun')
  have hfail := ho.failure
  rw [← hlogs.systemCalls] at hfail
  refine ⟨fun j s hs => ?_, hfail⟩
  rcases hfail with ⟨hsame, -⟩ | ⟨i, p, hadds, -⟩
  · rw [hsame.spans]
    exact hs
  · have hj : j ≠ i := by
      rintro rfl
      rw [hadds.slot] at hs
      exact absurd hs (by simp)
    rw [hadds.others j hj]
    exact hs

/-- Two failures. If the pool has no descriptor at all, the mapping is given back, once. If it has
one, the refill succeeds and the split fails: the mapping stays. -/
theorem allocSpan_failure_noDescriptor :
    (∃ pc', (PageCache.load {} (firstAnswers [])).allocSpan 1 = .ok (none, pc') ∧
      SameSpans (PageCache.load {} (firstAnswers [])) pc' ∧
      pc'.systemCalls = [.alloc maxPageNum (some 1024), .free 1024 maxPageNum]) ∧
    ∃ pc' i, (PageCache.load {} (firstAnswers [some 1])).allocSpan 1 = .ok (none, pc') ∧
      AddsSpan (PageCache.load {} (firstAnswers [some 1])) i 1024 pc' := by
  have hreach : machine.Reachable ({} : PageSystem) := .init rfl
  constructor
  · obtain ⟨pc', hrun⟩ : ∃ pc', (PageCache.load {} (firstAnswers [])).allocSpan 1 =
        .ok (none, pc') := ⟨_, rfl⟩
    have hcalls : ((PageCache.load {} (firstAnswers [])).allocSpan 1).toOption.map
        (fun x => x.2.systemCalls) =
        some [.alloc maxPageNum (some 1024), .free 1024 maxPageNum] := by decide +kernel
    rw [hrun] at hcalls
    have hcalls' : pc'.systemCalls = _ := Option.some.inj hcalls
    rcases (allocSpan_failure hreach _ 1 hrun).2 with ⟨hsame, -⟩ | ⟨i, p, -, hone⟩
    · exact ⟨pc', hrun, hsame, hcalls'⟩
    · rw [hcalls'] at hone
      exact absurd hone (by simp)
  · obtain ⟨pc', hrun⟩ : ∃ pc', (PageCache.load {} (firstAnswers [some 1])).allocSpan 1 =
        .ok (none, pc') := ⟨_, rfl⟩
    have hcalls : ((PageCache.load {} (firstAnswers [some 1])).allocSpan 1).toOption.map
        (fun x => x.2.systemCalls) = some [.alloc maxPageNum (some 1024)] := by decide +kernel
    rw [hrun] at hcalls
    have hcalls' : pc'.systemCalls = _ := Option.some.inj hcalls
    rcases (allocSpan_failure hreach _ 1 hrun).2 with ⟨-, hback⟩ | ⟨i, p, hadds, hone⟩
    · rw [hcalls'] at hback
      exact absurd hback (by simp [GivesBack])
    · rw [hcalls'] at hone
      obtain rfl : p = 1024 := by simpa using hone.symm
      exact ⟨pc', i, hrun, hadds⟩

end PageSystem

end Ammalloc
