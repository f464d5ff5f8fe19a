import Ammalloc.PageSystem

set_option relaxedAutoImplicit false
set_option autoImplicit false

/-!
# The legacy page cache

The second `PageCache` of `src/page_cache.cpp`, which is built without `USE_PAGECACHE_SHARD`: one
mutex and one array of buckets, here the buckets of shard 0. Its functions are copies of those of a
shard with small differences. There is no guard for zero pages. A split does not copy the owner and
leaves the committed flag of the remainder alone. A refill does not write the owner. The merge
loops do not compare owners. The exact hit and the oversized branch are the same text.

As long as all live spans are committed and owned by shard 0 the differences cannot be seen. Only
the scavenger makes a span that is not committed.

## Main definitions

* `Ammalloc.PageCache.Legacy.allocSpan`, `Ammalloc.PageCache.Legacy.releaseSpan`.
* `Ammalloc.PageCache.Plain` — committed, and owned by shard 0.
* `Ammalloc.PageSystem.Legacy.machine` — runs of the legacy variant.

## Main results

* `Ammalloc.PageCache.Legacy.allocSpan_eq`, `Ammalloc.PageCache.Legacy.releaseSpan_eq`.
* `Ammalloc.PageSystem.Legacy.variants_agree` — the two variants agree in every run without
  scavenger steps.
-/

namespace Ammalloc

namespace PageCache

namespace Legacy

/-! ## Allocation -/

/-- The split branch of the legacy `AllocSpanLocked`. -/
def splitSpan (pc : PageCache) (n i big : ℕ) (rest : List ℕ) :
    Except Fault (Option ℕ × PageCache) := do
  let pc := pc.setList 0 i rest
  let b ← pc.deref big
  match pc.tryNew b.startPageIdx n with
  | (none, pc) => return (none, pc.pushFront 0 i big)
  | (some small, pc) =>
    let s : Span :=
      { startPageIdx := b.startPageIdx, pageNum := n, used := true, committed := true }
    let (now, pc) := pc.getCurrentTimeMs
    let b := { b with
      startPageIdx := b.startPageIdx + n
      pageNum := b.pageNum - n
      used := false
      lastUsedTimeMs := now }
    let pc := ((pc.store small s).resize big b).pushFront 0 b.pageNum big
    let pc ← pc.setSpan small s
    let pc ← pc.setSpan big b
    return (some small, pc)

/-- The refill of the legacy `AllocSpanLocked`. -/
def refill (pc : PageCache) : Except Fault (Bool × PageCache) := do
  match ← pc.mapFreshSpan maxPageNum with
  | (none, pc) => return (false, pc)
  | (some (i, s), pc) =>
    let (now, pc) := pc.getCurrentTimeMs
    let s := { s with used := false, committed := true, lastUsedTimeMs := now }
    let pc ← ((pc.store i s).pushFront 0 maxPageNum i).setSpan i s
    return (true, pc)

/-- The loop of the legacy `AllocSpanLocked`. -/
def allocSpanLoop (n : ℕ) : ℕ → PageCache → Except Fault (Option ℕ × PageCache)
  | 0, _ => .error .outOfFuel
  | fuel + 1, pc =>
    if n > maxPageNum then pc.allocOversized n
    else
      match pc.spanLists 0 n with
      | i :: rest => pc.takeExact 0 n i rest
      | [] =>
        match pc.firstLarger 0 n with
        | some i =>
          match pc.spanLists 0 i with
          | big :: rest => splitSpan pc n i big rest
          | [] => .error .danglingSpan
        | none =>
          match refill pc with
          | .error e => .error e
          | .ok (false, pc) => .ok (none, pc)
          | .ok (true, pc) => allocSpanLoop n fuel pc

/-- `PageCache::AllocSpanLocked` of the legacy variant. -/
def allocSpanLocked (pc : PageCache) (n : ℕ) : Except Fault (Option ℕ × PageCache) :=
  if n > uint32Max then .ok (none, pc) else allocSpanLoop n 2 pc

/-- `PageCache::AllocSpan` of the legacy variant. -/
def allocSpan (pc : PageCache) (n : ℕ) : Except Fault (Option ℕ × PageCache) :=
  allocSpanLocked pc n

/-! ## Release -/

/-- The neighbour `t` may be absorbed by `s`, whoever owns it. -/
def mergeable (s t : Span) : Bool :=
  !t.used && decide (s.pageNum + t.pageNum ≤ maxPageNum)

/-- A merge loop of the legacy `ReleaseSpan`. -/
def coalesce (side : Side) (i : ℕ) : ℕ → PageCache → List ℕ → Except Fault (PageCache × List ℕ)
  | 0, _, _ => .error .outOfFuel
  | fuel + 1, pc, retired => do
    let s ← pc.deref i
    match (side.neighbour s).bind pc.pageMap.getSpan with
    | none => return (pc, retired)
    | some j =>
      let t ← pc.deref j
      if mergeable s t then
        let pc := pc.erase 0 t.pageNum j
        coalesce side i fuel (pc.resize i (side.merged s t)) (j :: retired)
      else return (pc, retired)

/-- `PageCache::ReleaseSpan` of the legacy variant. -/
def releaseSpan (pc : PageCache) (i : ℕ) : Except Fault PageCache := do
  let s ← pc.deref i
  if s.pageNum > maxPageNum then
    let pc := pc.clearRange s.startPageIdx s.pageNum
    let pc ← pc.systemFree s.startPageIdx s.pageNum
    pc.delete i
  else
    let (pc, retired) ← coalesce .left i maxPageNum pc []
    let (pc, retired) ← coalesce .right i maxPageNum pc retired
    let s ← pc.deref i
    let (now, pc) := pc.getCurrentTimeMs
    let s := { s with
      used := false
      alignedObjSize := 0
      useCount := 0
      objOffset := 0
      capacity := 0
      lastUsedTimeMs := now
      committed := true }
    let pc ← (pc.store i s).setSpan i s
    let pc ← retired.foldlM delete pc
    return pc.pushFront 0 s.pageNum i

end Legacy

/-! ## Where the copies agree -/

/-- All live spans are committed and owned by shard 0. -/
def Plain (pc : PageCache) : Prop :=
  ∀ i s, pc.spans i = some s → s.ownerShardId = 0 ∧ s.committed = true

variable {pc pc' : PageCache}

/-- A live span is replaced, or a new one is added. -/
lemma Plain.store (h : pc.Plain) {i : ℕ} {s : Span} (ho : s.ownerShardId = 0)
    (hc : s.committed = true) : (pc.store i s).Plain := by
  intro j t ht
  by_cases hj : j = i
  · subst hj
    simp only [PageCache.store, Function.update_self, Option.some.injEq] at ht
    subst ht
    exact ⟨ho, hc⟩
  · simp only [PageCache.store, Function.update_of_ne hj] at ht
    exact h j t ht

/-- A section that hands out committed spans only. -/
lemma Plain.evolves (h : pc.Plain) {det : List ℕ} {rel acq : Option ℕ} (hinv : pc'.Inv det)
    (he : Evolves pc pc' rel acq)
    (hacq : ∀ i s, acq = some i → pc'.spans i = some s → s.committed = true) : pc'.Plain := by
  intro i s hs
  refine ⟨(hinv.spanOk i s hs).owner, ?_⟩
  by_cases hu : s.used = true
  · by_cases hi : acq = some i
    · exact hacq i s hi hs
    · exact (h i s (he.used_from i s hs hu hi)).2
  · rcases he.free_from i s hs (by simpa using hu) with hold | ⟨hc, -⟩
    · exact (h i s hold).2
    · exact hc

namespace Legacy

/-- The split. -/
lemma splitSpan_eq (h : pc.Plain) (n i big : ℕ) (rest : List ℕ) :
    splitSpan pc n i big rest = pc.splitSpan 0 n i big rest := by
  unfold splitSpan PageCache.splitSpan
  cases hb : pc.spans big with
  | none =>
    have hderef : (pc.setList 0 i rest).deref big = .error .danglingSpan := by
      simp only [deref, setList, hb]
    simp only [hderef, bind, Except.bind]
  | some b =>
    obtain ⟨ho, hc⟩ := h big b hb
    have hderef : (pc.setList 0 i rest).deref big = .ok b := by simp only [deref, setList, hb]
    simp only [hderef, bind, Except.bind]
    rewrite [ho, hc]
    rfl

/-- The refill: a new descriptor is owned by shard 0 from its construction on. -/
lemma refill_eq (pc : PageCache) : refill pc = pc.refill 0 := by
  unfold refill PageCache.refill
  rcases pc.mapFreshSpan_cases maxPageNum with
    ⟨_, pc', -, -, hrun⟩ | ⟨i, p, pm, env, -, -, -, -, -, hrun⟩
  · rw [hrun]
    rfl
  · rw [hrun]
    rfl

/-- A refill keeps the spans committed and owned by shard 0. -/
lemma plain_refill (h : pc.Plain) (hc : pc.clock ≤ sizeMax) (hrun : pc.refill 0 = .ok (true, pc')) :
    pc'.Plain ∧ pc'.clock ≤ sizeMax := by
  rcases refill_outcome (k := 0) hc with ⟨_, pc₁, hrun', -⟩ | ⟨i, p, _, pc₁, hrun', -, hr, -⟩
  · rw [hrun] at hrun'
    exact absurd (congrArg Prod.fst (Except.ok.inj hrun')) (by simp)
  · rw [hrun] at hrun'
    obtain rfl : pc' = pc₁ := congrArg Prod.snd (Except.ok.inj hrun')
    obtain ⟨-, -, now_le⟩ := hr
    exact ⟨h.store rfl rfl, now_le⟩

/-- The loop. -/
lemma allocSpanLoop_eq (h : pc.Plain) (hc : pc.clock ≤ sizeMax) (n fuel : ℕ) :
    allocSpanLoop n fuel pc = PageCache.allocSpanLoop 0 n fuel pc := by
  induction fuel generalizing pc with
  | zero => rfl
  | succ fuel ih =>
    unfold allocSpanLoop PageCache.allocSpanLoop
    by_cases hbig : n > maxPageNum
    · rw [if_pos hbig, if_pos hbig]
    rw [if_neg hbig, if_neg hbig]
    cases pc.spanLists 0 n with
    | cons i rest => rfl
    | nil =>
      cases pc.firstLarger 0 n with
      | some m =>
        dsimp only
        cases pc.spanLists 0 m with
        | cons big rest => exact splitSpan_eq h n m big rest
        | nil => rfl
      | none =>
        dsimp only
        rw [refill_eq]
        rcases hr : pc.refill 0 with e | ⟨_ | _, pc₁⟩
        · rfl
        · rfl
        · obtain ⟨h₁, hc₁⟩ := plain_refill h hc hr
          exact ih h₁ hc₁

/-- **`AllocSpan` of at least one page** is the same in both variants. -/
theorem allocSpan_eq {det : List ℕ} (hinv : pc.Inv det) (h : pc.Plain) {n : ℕ} (hn : 1 ≤ n) :
    allocSpan pc n = pc.allocSpan n := by
  rw [allocSpan_eq_allocSpanLocked hinv]
  unfold allocSpan allocSpanLocked PageCache.allocSpanLocked
  by_cases hrange : n > uint32Max
  · rw [if_pos hrange, if_pos (Or.inr hrange)]
  · rw [if_neg hrange, if_neg (by omega)]
    exact allocSpanLoop_eq h hinv.clock_le n 2

/-- A merge loop: all owners are the same. -/
lemma coalesce_eq (side : Side) (i fuel : ℕ) (h : ∀ j s, pc.spans j = some s → s.ownerShardId = 0)
    (retired : List ℕ) :
    coalesce side i fuel pc retired = PageCache.coalesce side 0 i fuel pc retired := by
  induction fuel generalizing pc retired with
  | zero => rfl
  | succ fuel ih =>
    unfold coalesce PageCache.coalesce
    cases hi : pc.spans i with
    | none => simp only [deref, hi, bind, Except.bind]
    | some s =>
      simp only [deref, hi, bind, Except.bind]
      cases (side.neighbour s).bind pc.pageMap.getSpan with
      | none => rfl
      | some j =>
        dsimp only
        cases hj : pc.spans j with
        | none => rfl
        | some t =>
          have hm : PageCache.mergeable s t = mergeable s t := by
            simp [PageCache.mergeable, mergeable, h i s hi, h j t hj]
          simp only [hm]
          by_cases hmerge : mergeable s t = true
          · rw [if_pos hmerge, if_pos hmerge]
            refine ih (fun j' s' hs' => ?_) _
            by_cases hj' : j' = i
            · subst hj'
              simp only [PageCache.resize, PageCache.record, PageCache.store, Function.update_self,
                Option.some.injEq] at hs'
              rw [← hs']
              cases side <;> exact h j' s hi
            · simp only [PageCache.resize, PageCache.record, PageCache.store, PageCache.erase,
                Function.update_of_ne hj'] at hs'
              exact h j' s' hs'
          · rw [if_neg hmerge, if_neg hmerge]

/-- **`ReleaseSpan`** is the same in both variants. -/
theorem releaseSpan_eq {det : List ℕ} (hinv : pc.Inv det) (i : ℕ) :
    releaseSpan pc i = pc.releaseSpan i := by
  unfold releaseSpan PageCache.releaseSpan releaseSpanLocked
  cases hi : pc.spans i with
  | none => simp only [deref, hi, bind, Except.bind]
  | some s =>
    have hderef : pc.deref i = .ok s := by simp only [deref, hi]
    simp only [hderef, bind, Except.bind]
    by_cases hbig : s.pageNum > maxPageNum
    · rw [if_pos hbig, if_pos hbig]
    rw [if_neg hbig, if_neg hbig, (hinv.spanOk i s hi).owner]
    have howner : ∀ j t, pc.spans j = some t → t.ownerShardId = 0 :=
      fun j t ht => (hinv.spanOk j t ht).owner
    have hpos := (hinv.spanOk i s hi).pos
    obtain ⟨pc₁, s₁, r₁, _, hrun, hc, -⟩ := coalesce_spec hinv hi .left maxPageNum
      (Coalesced.start hinv hi (not_lt.mp hbig)) (by omega)
    -- between the loops the survivor is the only span that has changed, and not its owner
    have howner₁ : ∀ j t, pc₁.spans j = some t → t.ownerShardId = 0 := by
      intro j t ht
      rw [hc.spans] at ht
      by_cases hj : j = i
      · subst hj
        simp only [Function.update_self, Option.some.injEq] at ht
        rw [← ht, hc.fields]
        exact howner j s hi
      · simp only [Function.update_of_ne hj] at ht
        exact howner j t ht
    simp only [mergeNeighbours, coalesce_eq .left i maxPageNum howner, hrun, bind, Except.bind,
      coalesce_eq .right i maxPageNum howner₁]
    rfl

end Legacy

end PageCache

/-! ## Runs -/

namespace PageSystem

/-- The calls of the clients of the page cache: requests for at least one page, releases, writes to
the spans they hold, and the passing of time, but no steps of the scavenger. -/
def IsClientAction : PageAction → Prop
  | .alloc n _ => 1 ≤ n
  | .release _ _ | .useSpan _ _ | .tick _ => True
  | .scavenge _ _ => False

namespace Legacy

/-- One action on the legacy variant. -/
def next (st : PageSystem) : PageAction → PageSystem
  | .alloc n env =>
    match PageCache.Legacy.allocSpan (st.pc.load env) n with
    | .error e => { st with fault := some e }
    | .ok (none, pc) => { st with pc := pc }
    | .ok (some i, pc) =>
      { st with pc := pc, held := i :: st.held, log := .handOut i (rangeOf pc i) :: st.log }
  | .release i env =>
    if i ∈ st.held then
      match PageCache.Legacy.releaseSpan (st.pc.load env) i with
      | .error e => { st with fault := some e }
      | .ok pc => { st with pc := pc, held := st.held.erase i }
    else st
  | a => PageSystem.next st a

/-- The legacy variant starts with nothing mapped, too. -/
def machine : Machine PageSystem PageAction where
  init := {{}}
  next := next

/-- What holds in the runs of the clients: the invariant of the page layer, and no span has been
touched by the scavenger. -/
structure Quiet (st : PageSystem) : Prop where
  inv : st.Inv
  plain : st.pc.Plain

variable {st : PageSystem}

/-- **Every action of the clients keeps all spans committed.** -/
lemma Quiet.next (h : Quiet st) {a : PageAction} (ha : IsClientAction a) :
    Quiet (PageSystem.next st a) := by
  refine ⟨(next_spec h.inv a).1, ?_⟩
  cases a with
  | alloc n env =>
    obtain ⟨r, pc', hrun, hpost⟩ := PageCache.allocSpan_spec (h.inv.scav.inv.load env) n
    have hplain : pc'.Plain := by
      refine h.plain.evolves hpost.inv hpost.evolves.of_load fun i s hi hs => ?_
      obtain ⟨t, ht, -, hc, -⟩ := hpost.got i hi
      rw [hs] at ht
      obtain rfl := Option.some.inj ht
      exact hc
    cases r <;> simpa only [PageSystem.next, hrun] using hplain
  | release i env =>
    by_cases hheld : i ∈ st.held
    · obtain ⟨⟨s, hs, hu⟩, hdet⟩ := (h.inv.held i).mp hheld
      obtain ⟨pc', hrun, hpost⟩ := PageCache.releaseSpan_spec (h.inv.scav.inv.load env) hs hu hdet
      simp only [PageSystem.next, if_pos hheld, hrun]
      exact h.plain.evolves hpost.inv hpost.evolves.of_load (by simp)
    · simpa only [PageSystem.next, if_neg hheld] using h.plain
  | useSpan i o =>
    by_cases hheld : i ∈ st.held
    · obtain ⟨⟨s, hs, -⟩, -⟩ := (h.inv.held i).mp hheld
      obtain ⟨ho, hc⟩ := h.plain i s hs
      simp only [PageSystem.next, if_pos hheld, PageCache.deref, hs]
      exact h.plain.store ho hc
    · simpa only [PageSystem.next, if_neg hheld] using h.plain
  | tick ms => exact h.plain
  | scavenge env ok => exact ha.elim

/-- **One action** does the same on both variants. -/
lemma next_eq (h : Quiet st) {a : PageAction} (ha : IsClientAction a) :
    next st a = PageSystem.next st a := by
  cases a with
  | alloc n env =>
    unfold next PageSystem.next
    dsimp only
    rewrite [PageCache.Legacy.allocSpan_eq (h.inv.scav.inv.load env) h.plain ha]
    rfl
  | release i env =>
    unfold next PageSystem.next
    dsimp only
    rewrite [PageCache.Legacy.releaseSpan_eq (h.inv.scav.inv.load env) i]
    rfl
  | useSpan i o => rfl
  | tick ms => rfl
  | scavenge env ok => exact ha.elim

/-- **A run of the clients** does the same on both variants. -/
lemma run_eq (as : List PageAction) (has : ∀ a ∈ as, IsClientAction a) (h : Quiet st) :
    machine.run st as = PageSystem.machine.run st as ∧ Quiet (PageSystem.machine.run st as) := by
  induction as generalizing st with
  | nil => exact ⟨rfl, h⟩
  | cons a as ih =>
    have ha := has a List.mem_cons_self
    obtain ⟨hrun, hquiet⟩ := ih (fun b hb => has b (List.mem_cons_of_mem a hb)) (h.next ha)
    rw [Machine.run_cons, Machine.run_cons]
    exact ⟨(congrArg (machine.run · as) (next_eq h ha)).trans hrun, hquiet⟩

/-- **The two variants agree.** After every run of `AllocSpan` of at least one page and
`ReleaseSpan` without scavenger steps, with the same answers and the same clock, neither variant
has died, the next `AllocSpan` returns the same descriptor with the same fields, or null, on both,
and the live descriptors, the spans that are handed out, the buckets with their order and all
lookups are the same. -/
theorem variants_agree (as : List PageAction) (has : ∀ a ∈ as, IsClientAction a) :
    let sharded := PageSystem.machine.run {} as
    let legacy := machine.run {} as
    sharded.fault = none ∧ legacy.fault = none ∧
    (∀ n, 1 ≤ n → ∀ env, ∃ r pc pc', (sharded.pc.load env).allocSpan n = .ok (r, pc) ∧
      PageCache.Legacy.allocSpan (legacy.pc.load env) n = .ok (r, pc') ∧
      ∀ i, r = some i → ∃ s, pc.spans i = some s ∧ pc'.spans i = some s) ∧
    legacy.log = sharded.log ∧ legacy.held = sharded.held ∧
    (∀ i, legacy.pc.spans i = sharded.pc.spans i) ∧
    (∀ n, legacy.pc.spanLists 0 n = sharded.pc.spanLists 0 n) ∧
    ∀ q, legacy.pc.pageMap.getSpan q = sharded.pc.pageMap.getSpan q := by
  intro sharded legacy
  have hinit : Quiet ({} : PageSystem) := ⟨init_inv, fun i s hs => absurd hs (by simp)⟩
  obtain ⟨heq, hquiet⟩ := run_eq as has hinit
  have hsame : legacy = sharded := heq
  refine ⟨hquiet.inv.fault, hsame ▸ hquiet.inv.fault, fun n hn env => ?_, by rw [hsame],
    by rw [hsame], fun i => by rw [hsame], fun n => by rw [hsame], fun q => by rw [hsame]⟩
  obtain ⟨r, pc, hrun, hpost⟩ := PageCache.allocSpan_spec (hquiet.inv.scav.inv.load env) n
  refine ⟨r, pc, pc, hrun, ?_, fun i hi => ?_⟩
  · rw [hsame, PageCache.Legacy.allocSpan_eq (hquiet.inv.scav.inv.load env) hquiet.plain hn]
    exact hrun
  · obtain ⟨s, hs, -⟩ := hpost.got i hi
    exact ⟨s, hs, hs⟩

/-- The variants after an allocation, which hands out span 2, and its release. -/
theorem variants_agree_release :
    let env : PageEnv :=
      { sysAlloc := [some 1024], tryNew := [some 1, some 2], radixNode := [true, true, true] }
    let as : List PageAction := [.alloc 1 env, .release 2 {}]
    (PageSystem.machine.run {} (as.take 1)).held = [2] ∧
      ∀ n, (machine.run {} as).pc.spanLists 0 n =
        (PageSystem.machine.run {} as).pc.spanLists 0 n := by
  intro env as
  have has : ∀ a ∈ as, IsClientAction a := by simp [as, IsClientAction]
  obtain ⟨-, -, -, -, -, -, hlists, -⟩ := variants_agree as has
  exact ⟨by decide +kernel, hlists⟩

end Legacy

end PageSystem

end Ammalloc
