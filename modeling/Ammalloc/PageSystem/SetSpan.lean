import Ammalloc.PageSystem.ReleaseSpan

set_option relaxedAutoImplicit false
set_option autoImplicit false

/-!
# The calls of `SetSpan`

`PageMap::SetSpan` ends the process if its span has no page, or if a page of its range is out of
range or has no radix path. Only fresh mappings build paths. The calls for split pieces and merged
survivors rely on the paths of earlier calls, for ranges that may come from several mappings and
lie in several leaves.

Every call of `AllocSpan` and `ReleaseSpan` is in the trace of its critical section, with the page
map that it finds.

## Main definitions

* `Ammalloc.PageCache.SetSpanCall`, `Ammalloc.PageCache.SetSpanCall.Prepared`.
* `Ammalloc.PageCache.setSpanCalls` — the calls that a critical section has made.

## Main results

* `Ammalloc.PageSystem.setSpan_prepared` — every call finds what it needs.
-/

namespace Ammalloc

namespace PageCache

/-- A call of `PageMap::SetSpan`: the page map at that moment, and the range of the span. -/
structure SetSpanCall where
  pageMap : PageMap
  range : Extent

/-- None of the fatal branches of `SetSpan` applies: there is a page, and every page has a page id
in range and a radix path. -/
def SetSpanCall.Prepared (c : SetSpanCall) : Prop :=
  0 < c.range.len ∧ ∀ q, c.range.Contains q →
    PageMap.i0 q < radixRootSize ∧ c.pageMap.hasPath q = true

/-- The events that are calls of `SetSpan`. -/
def setSpanCall : SectionEvent → Option SetSpanCall
  | .setSpan pm _ e => some ⟨pm, e⟩
  | _ => none

/-- The calls of `SetSpan` that the critical section has made so far. -/
def setSpanCalls (pc : PageCache) : List SetSpanCall := pc.env.trace.filterMap setSpanCall

/-! ## Every call is prepared -/

variable {pc pc' : PageCache} {k n : ℕ} {evs : List SectionEvent}

/-- It is enough that the paths are there. -/
lemma SetSpanCall.prepared_of_path {pm : PageMap} {e : Extent} (hlen : 0 < e.len)
    (h : ∀ q, e.Contains q → pm.hasPath q = true) : Prepared ⟨pm, e⟩ :=
  ⟨hlen, fun q hq => ⟨PageMap.i0_lt_of_hasPath (h q hq), h q hq⟩⟩

/-- A fresh span: `EnsureRange` has just built its paths. -/
lemma Fresh.setSpans_prepared {i p : ℕ} {pm₀ pm : PageMap} (hf : pc.Fresh i p n pm₀ pm)
    (hn : 0 < n) : ∀ c ∈ (freshEvents n i p pm₀).filterMap setSpanCall, c.Prepared := by
  intro c hc
  obtain rfl : ⟨pm₀, ⟨p, n⟩⟩ = c := by simpa [freshEvents, setSpanCall] using hc
  exact SetSpanCall.prepared_of_path hn hf.ensured

/-- A failed attempt to map a span calls no `SetSpan`. -/
lemma FreshFailed.setSpans (hf : FreshFailed n pc evs pc') : evs.filterMap setSpanCall = [] := by
  cases hf <;> rfl

/-- A pass that finds a bucket. The pages of the pieces of a split have been pages of the free
span. -/
lemma Cut.setSpans_prepared (hl : pc.Listed k) (hn : 0 < n) {r : Option ℕ}
    (hc : Cut k n pc evs r pc') : ∀ c ∈ evs.filterMap setSpanCall, c.Prepared := by
  cases hc with
  | exact | noDescriptor => simp
  | @split m big small _ _ b pm₁ _ _ _ first big_list live _ _ _ path =>
    obtain ⟨b', hb', hp, hpages⟩ := hl m big (by simp [big_list])
    rw [live] at hb'
    obtain rfl := Option.some.inj hb'
    have hnm := (firstLarger_eq_some first).1
    intro c hc
    have hcases : ⟨pc.pageMap, ⟨b.startPageIdx, n⟩⟩ = c ∨
        ⟨pm₁, ⟨b.startPageIdx + n, b.pageNum - n⟩⟩ = c := by
      simpa [splitEvents, setSpanCall] using hc
    rcases hcases with rfl | rfl
    · refine SetSpanCall.prepared_of_path hn fun q hq => hpages q ⟨hq.1, ?_⟩
      have := hq.2
      dsimp only at this
      omega
    · refine SetSpanCall.prepared_of_path (show 0 < b.pageNum - n by omega) fun q hq => ?_
      have h₁ := hq.1
      have h₂ := hq.2
      dsimp only at h₁ h₂
      exact (path q).trans (hpages q ⟨by omega, by omega⟩)

/-- **The calls of `AllocSpanLocked`.** A refill leaves the listed spans with their paths. -/
lemma Outcome.setSpans_prepared (hl : pc.Listed k) {r : Option ℕ}
    (ho : Outcome k n pc evs r pc') : ∀ c ∈ evs.filterMap setSpanCall, c.Prepared := by
  cases ho with
  | rejected => simp
  | oversizedFailed _ hf | refillFailed _ _ _ _ hf =>
    rw [hf.setSpans]
    simp
  | oversized hbig hf => exact hf.setSpans_prepared (by omega)
  | found hn _ _ hc => exact hc.setSpans_prepared hl hn
  | refilled hn hmax _ _ hr hc =>
    obtain ⟨hl₁, -, -⟩ := hr.listed hl hmax
    obtain ⟨fresh, -, -⟩ := hr
    intro c hmem
    rw [List.filterMap_append] at hmem
    rcases List.mem_append.mp hmem with hmem | hmem
    · exact fresh.setSpans_prepared (by decide) c hmem
    · exact hc.setSpans_prepared hl₁ hn c hmem

/-- The merge loops call no `SetSpan`. -/
lemma setSpans_of_isMerge {i : ℕ} (h : ∀ e ∈ evs, IsMerge i e) :
    evs.filterMap setSpanCall = [] := by
  refine List.filterMap_eq_nil_iff.mpr fun e he => ?_
  have hmerge := h e he
  cases e with
  | setSpan pm j e => exact hmerge.elim
  | _ => rfl

/-- The call for a survivor: its pages were pages of the released span or of an absorbed one. -/
lemma Merged.setSpans_prepared {det : List ℕ} (h : pc.Inv det) {i : ℕ} {s₀ s : Span}
    {retired : List ℕ} (hi : pc.spans i = some s₀) (hm : Merged pc i s₀ s retired pc') :
    ∃ evs, Logs pc.env evs pc'.env ∧ ∀ c ∈ evs.filterMap setSpanCall, c.Prepared := by
  obtain ⟨pc₁, evs, -, hc, hlogs⟩ := hm.loops
  refine ⟨_, hlogs, fun c hmem => ?_⟩
  rw [List.filterMap_append, List.filterMap_append, List.filterMap_map,
    setSpans_of_isMerge hc.events] at hmem
  obtain rfl : c = ⟨pc.pageMap, s.extent⟩ := by
    simpa [Function.comp_def, setSpanCall] using hmem
  refine SetSpanCall.prepared_of_path hc.pos fun q hq => ?_
  rcases (hc.covers q).mp hq with h₀ | ⟨j, -, t, ht, htq⟩
  · exact h.hasPath hi h₀
  · exact h.hasPath ht htq

/-- **The calls of `ReleaseSpan`.** -/
lemma releaseSpan_setSpans_prepared {det : List ℕ} (h : pc.Inv det) {i : ℕ} {s : Span}
    (hi : pc.spans i = some s) (hu : s.used = true) :
    ∃ evs pc', pc.releaseSpan i = .ok pc' ∧ Logs pc.env evs pc'.env ∧
      ∀ c ∈ evs.filterMap setSpanCall, c.Prepared := by
  rcases Nat.lt_or_ge maxPageNum s.pageNum with hbig | hmax
  · obtain ⟨pc', hrun, hm⟩ := releaseSpan_unmapped h hi hbig
    exact ⟨_, pc', hrun, hm.logs, by simp [setSpanCall]⟩
  · obtain ⟨pc', s', retired, hrun, hm⟩ := releaseSpan_merged h hi hu hmax
    obtain ⟨evs, hlogs, hprep⟩ := hm.setSpans_prepared h hi
    exact ⟨evs, pc', hrun, hlogs, hprep⟩

end PageCache

namespace PageSystem

open PageCache

/-- **The fatal branches of `SetSpan` are not reached.** After every run of the page layer, with
any failures of the system, the pools and the radix nodes, `AllocSpan` of any size and
`ReleaseSpan` of any span that is handed out return, and each of their calls of `SetSpan` finds at
least one page, and a page id in range and a built path for every page. -/
theorem setSpan_prepared (as : List PageAction) :
    let st := machine.run {} as
    st.fault = none ∧
    (∀ env n, ∃ r pc', (st.pc.load env).allocSpan n = .ok (r, pc') ∧
      ∀ c ∈ pc'.setSpanCalls, c.Prepared) ∧
    ∀ env, ∀ i ∈ st.held, ∃ pc', (st.pc.load env).releaseSpan i = .ok pc' ∧
      ∀ c ∈ pc'.setSpanCalls, c.Prepared := by
  intro st
  have hst : st.Inv := run_inv as
  refine ⟨hst.fault, fun env n => ?_, fun env i hi => ?_⟩
  · have hinv := hst.scav.inv.load env
    obtain ⟨evs, r, pc', hrun, ho, hlogs, -⟩ := allocSpan_outcome hinv n
    have htrace : pc'.env.trace = evs := hlogs.trace
    refine ⟨r, pc', hrun, ?_⟩
    rw [setSpanCalls, htrace]
    exact ho.setSpans_prepared hinv.listed_zero
  · have hinv := hst.scav.inv.load env
    obtain ⟨⟨s, hs, hu⟩, -⟩ := (hst.held i).mp hi
    obtain ⟨evs, pc', hrun, hlogs, hprep⟩ := releaseSpan_setSpans_prepared hinv hs hu
    have htrace : pc'.env.trace = evs := hlogs.trace
    refine ⟨pc', hrun, ?_⟩
    rw [setSpanCalls, htrace]
    exact hprep

end PageSystem

end Ammalloc
