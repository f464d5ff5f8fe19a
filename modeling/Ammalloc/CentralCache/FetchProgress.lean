import Ammalloc.CentralCache.Fetch
import Ammalloc.CentralCache.Progress

set_option relaxedAutoImplicit false
set_option autoImplicit false

/-!
# How far a `FetchBatch` is from its end

Every pass of the SpanList section extracts an object, and a span that `GetOneSpan` has just put
in front has free slots when the section goes on, because the lock is held from then on. So every
call of `AllocSpan` brings the end nearer, whatever other threads do to the list in between. The
call ends with a full chain, unless `AllocSpan` has returned null.

## Main definitions

* `Ammalloc.CentralCache.FetchStep` — what a step of `FetchBatch` can do.
* `Ammalloc.CentralCache.fetchFuel` — how many steps are left at most.
* `Ammalloc.CentralCache.Delivery` — a full chain, or a reason for a short one.

## Main results

* `Ammalloc.CentralCache.fetchStep_cases` — the steps, one by one.
* `Ammalloc.CentralCache.Delivery.step` — a step of `FetchBatch`.
-/

namespace Ammalloc

open SizeClass (kNumSizeClasses)

/-- The SpanList section is over, so that the chain for the caller is complete. -/
def FetchPc.Gathered : FetchPc → Prop
  | .publish => True
  | .rollback _ => True
  | .done => True
  | _ => False

namespace CentralCache

variable {c c' : CentralCache} {hardened : Bool} {env : PageEnv} {f f' : FetchFrame}

/-! ## The steps -/

/-- What a step of `FetchBatch` can do. -/
inductive FetchStep (hardened : Bool) (env : PageEnv) (c : CentralCache) (f : FetchFrame) :
    CentralCache → FetchFrame → Prop
  | returned (pc : f.pc = .done) : FetchStep hardened env c f c f
  /-- The TransferCache section at the start. -/
  | grab {objs : List ℕ} {r : RingBuffer ℕ} (pc : f.pc = .grab)
      (run : (c.buckets f.idx).transferCache.grab
        (min f.fetchNum (c.buckets f.idx).transferCache.size) = (objs, r)) :
      FetchStep hardened env c f (c.setRing f.idx r)
        { f with grabbed := objs, pc := if objs.length < f.fetchNum then .scan else .done }
  /-- A SpanList section, from the state `c₁` in which the loop goes on. -/
  | scan {c₁ c' : CentralCache} {extracted : List ℕ} {needSpan : Bool}
      (entered : f.pc = .scan ∧ c₁ = c ∨
        ∃ i, f.pc = .install i ∧ c₁ = c.setSpanList f.idx (i :: (c.buckets f.idx).spanList))
      (run : scanLoop f.idx f.extractTarget f.extractTarget c₁ f.extracted =
        .ok (c', extracted, needSpan)) :
      FetchStep hardened env c f c'
        { f with extracted := extracted, pc := if needSpan then .allocSpan else .publish }
  /-- `AllocSpan` returns null. -/
  | refused {pages : PageCache} (pc : f.pc = .allocSpan)
      (run : (c.pageCache.load env).allocSpan
        (SizeClass.getMovePageNum (SizeClass.size f.idx)) = .ok (none, pages)) :
      FetchStep hardened env c f { c with pageCache := pages } { f with pc := .publish }
  /-- `AllocSpan` returns a span. -/
  | granted {pages : PageCache} {i : ℕ} (pc : f.pc = .allocSpan)
      (run : (c.pageCache.load env).allocSpan
        (SizeClass.getMovePageNum (SizeClass.size f.idx)) = .ok (some i, pages)) :
      FetchStep hardened env c f { c with pageCache := pages } { f with pc := .initSpan i }
  /-- `Init` of the new span. -/
  | carved {i : ℕ} {s : Span} (pc : f.pc = .initSpan i) :
      FetchStep hardened env c f (c.storeSpan i s) { f with pc := .install i }
  /-- Every prefetched object fits. -/
  | published {r : RingBuffer ℕ} (pc : f.pc = .publish)
      (run : (c.buckets f.idx).transferCache.append f.prefetched = (r, [])) :
      FetchStep hardened env c f (c.setRing f.idx r) { f with pc := .done }
  /-- Some do not, and go back. -/
  | overflow {r : RingBuffer ℕ} {left : List ℕ} (pc : f.pc = .publish)
      (run : (c.buckets f.idx).transferCache.append f.prefetched = (r, left))
      (left_ne : left ≠ []) :
      FetchStep hardened env c f (c.setRing f.idx r)
        { f with pc := .rollback (.chunk left.reverse) }
  /-- A step of the `ReleaseBatch` of the leftovers. -/
  | rollingBack {pc pc' : ReleasePc} {c' : CentralCache} (pc_eq : f.pc = .rollback pc)
      (run : c.releaseStep hardened env f.idx .kTransferCache pc = .ok (c', pc'))
      (more : pc' ≠ .chunk []) :
      FetchStep hardened env c f c' { f with pc := .rollback pc' }
  /-- Its last step. -/
  | rolledBack {pc : ReleasePc} {c' : CentralCache} (pc_eq : f.pc = .rollback pc)
      (run : c.releaseStep hardened env f.idx .kTransferCache pc = .ok (c', .chunk [])) :
      FetchStep hardened env c f c' { f with pc := .done }

/-- **The steps of `FetchBatch`**, one by one. -/
theorem fetchStep_cases (h : c.fetchStep hardened env f = .ok (c', f')) :
    FetchStep hardened env c f c' f' := by
  cases hf : f.pc with
  | done =>
    simp only [fetchStep, hf] at h
    obtain ⟨rfl, rfl⟩ := Prod.mk.inj (Except.ok.inj h)
    exact .returned hf
  | grab =>
    simp only [fetchStep, hf] at h
    obtain ⟨rfl, rfl⟩ := Prod.mk.inj (Except.ok.inj h)
    exact .grab hf rfl
  | scan =>
    simp only [fetchStep, hf] at h
    obtain ⟨⟨c₁, extracted, needSpan⟩, hrun, h⟩ := exists_ok_of_bind h
    obtain ⟨rfl, rfl⟩ := Prod.mk.inj (Except.ok.inj h)
    exact .scan (Or.inl ⟨hf, rfl⟩) hrun
  | install i =>
    simp only [fetchStep, hf] at h
    obtain ⟨⟨c₁, extracted, needSpan⟩, hrun, h⟩ := exists_ok_of_bind h
    obtain ⟨rfl, rfl⟩ := Prod.mk.inj (Except.ok.inj h)
    exact .scan (Or.inr ⟨i, hf, rfl⟩) hrun
  | allocSpan =>
    simp only [fetchStep, hf] at h
    obtain ⟨⟨span, pages⟩, hrun, h⟩ := exists_ok_of_bind h
    cases span with
    | none =>
      obtain ⟨rfl, rfl⟩ := Prod.mk.inj (Except.ok.inj h)
      exact .refused hf hrun
    | some i =>
      obtain ⟨rfl, rfl⟩ := Prod.mk.inj (Except.ok.inj h)
      exact .granted hf hrun
  | initSpan i =>
    simp only [fetchStep, hf] at h
    obtain ⟨s, -, h⟩ := exists_ok_of_bind h
    obtain ⟨s', -, h⟩ := exists_ok_of_bind h
    obtain ⟨rfl, rfl⟩ := Prod.mk.inj (Except.ok.inj h)
    exact .carved hf
  | publish =>
    simp only [fetchStep, hf] at h
    split at h
    · obtain ⟨rfl, rfl⟩ := Prod.mk.inj (Except.ok.inj h)
      exact .published hf ‹_›
    · rename_i r left hne hrun
      obtain ⟨rfl, rfl⟩ := Prod.mk.inj (Except.ok.inj h)
      exact .overflow hf hrun fun hnil => hne (by rw [hnil])
  | rollback pc =>
    simp only [fetchStep, hf] at h
    obtain ⟨⟨c₁, pc₁⟩, hrun, h⟩ := exists_ok_of_bind h
    by_cases hend : pc₁ = .chunk []
    · subst hend
      obtain ⟨rfl, rfl⟩ := Prod.mk.inj (Except.ok.inj h)
      exact .rolledBack hf hrun
    · simp only [if_neg hend] at h
      obtain ⟨rfl, rfl⟩ := Prod.mk.inj (Except.ok.inj h)
      exact .rollingBack hf hrun hend

/-! ## The SpanList section -/

/-- The loop only adds to what is extracted. -/
lemma scanLoop_extends {idx target fuel : ℕ} {extracted extracted' : List ℕ} {needSpan : Bool}
    (h : scanLoop idx target fuel c extracted = .ok (c', extracted', needSpan)) :
    extracted <+: extracted' := by
  induction fuel generalizing c extracted with
  | zero =>
    obtain ⟨-, heq⟩ := Prod.mk.inj (Except.ok.inj h)
    rw [(Prod.mk.inj heq).1]
  | succ fuel ih =>
    unfold scanLoop at h
    split_ifs at h with hlt
    · split at h
      · obtain ⟨-, heq⟩ := Prod.mk.inj (Except.ok.inj h)
        rw [(Prod.mk.inj heq).1]
      · obtain ⟨s, -, h⟩ := exists_ok_of_bind h
        split_ifs at h with hfull
        · obtain ⟨-, heq⟩ := Prod.mk.inj (Except.ok.inj h)
          rw [(Prod.mk.inj heq).1]
        · obtain ⟨c₁, -, h⟩ := exists_ok_of_bind h
          exact (List.prefix_append extracted _).trans (ih h)
    · obtain ⟨-, heq⟩ := Prod.mk.inj (Except.ok.inj h)
      rw [(Prod.mk.inj heq).1]

/-- With a span in front that has a free slot, the loop extracts an object. -/
lemma scanLoop_pos {idx target fuel i : ℕ} {rest extracted extracted' : List ℕ} {needSpan : Bool}
    {s : Span} (hl : (c.buckets idx).spanList = i :: rest) (hs : c.pageCache.spans i = some s)
    (hcs : s.Carved idx) (hfull : s.isFull = false) (hlt : extracted.length < target)
    (hfuel : fuel ≠ 0) (h : scanLoop idx target fuel c extracted = .ok (c', extracted', needSpan)) :
    extracted.length < extracted'.length := by
  obtain ⟨fuel, rfl⟩ := Nat.exists_eq_succ_of_ne_zero hfuel
  have hderef : c.pageCache.deref i = .ok s := by simp [PageCache.deref, hs]
  unfold scanLoop at h
  rw [if_pos hlt, hl] at h
  simp only [hderef, bind, Except.bind, hfull, Bool.false_eq_true, if_false] at h
  obtain ⟨c₁, -, h⟩ := exists_ok_of_bind h
  have hpos := hcs.allocLoop_pos hfull (n := target - extracted.length) (by omega)
  have hle := (scanLoop_extends h).length_le
  rw [List.length_append] at hle
  omega

/-- **How a SpanList section of `FetchBatch` ends.** It has all it wants unless it needs a new
span, and after `GetOneSpan` it has extracted an object at least. -/
lemma scanned {det : List ℕ} {out : Multiset (ℕ × ℕ)} {spansOut : Multiset ℕ}
    {c₁ : CentralCache} {extracted : List ℕ} {needSpan : Bool} (hok : FetchOk c f)
    (h : c.Inv det (tag f.idx f.objs + out) ((f.spans : Multiset ℕ) + spansOut) none)
    (entered : f.pc = .scan ∧ c₁ = c ∨
      ∃ i, f.pc = .install i ∧ c₁ = c.setSpanList f.idx (i :: (c.buckets f.idx).spanList))
    (hrun : scanLoop f.idx f.extractTarget f.extractTarget c₁ f.extracted =
      .ok (c', extracted, needSpan)) :
    (needSpan = false → extracted.length = f.extractTarget) ∧
      (f.pc ≠ .scan → f.extracted.length < extracted.length) := by
  have hobjs : f.objs = f.grabbed ++ f.extracted := by
    rcases entered with ⟨hpc, -⟩ | ⟨i, hpc, -⟩ <;> simp [FetchFrame.objs, hpc]
  rw [hobjs, tag_append, add_comm (tag f.idx f.grabbed), add_assoc] at h
  have hfuel : f.extractTarget ≤ f.extracted.length + f.extractTarget := Nat.le_add_left _ _
  rcases entered with ⟨hpc, rfl⟩ | ⟨i, hpc, rfl⟩
  · rw [show f.spans = [] by simp [FetchFrame.spans, hpc], Multiset.coe_nil, zero_add] at h
    obtain ⟨_, _, _, hrun', hpost⟩ := scanLoop_spec hok.idx_lt h hok.extracted_le hfuel (Or.inl rfl)
    obtain ⟨rfl, heq⟩ := Prod.mk.inj (Except.ok.inj (hrun.symm.trans hrun'))
    obtain ⟨rfl, rfl⟩ := Prod.mk.inj heq
    exact ⟨hpost.enough, fun hne => absurd hpc hne⟩
  · have hspan : (f.spans : Multiset ℕ) + spansOut = i ::ₘ spansOut := by
      simp [FetchFrame.spans, hpc]
    rw [hspan] at h
    obtain ⟨s, hs, hcs⟩ := hok.carved i hpc
    have hlt := hok.growing i (Or.inr (Or.inr hpc))
    obtain ⟨hfull, hinv⟩ := h.install hok.idx_lt hs hcs
    obtain ⟨_, _, _, hrun', hpost⟩ := scanLoop_spec hok.idx_lt hinv hok.extracted_le hfuel
      (Or.inr ⟨hlt, i, _, s, rfl, setSpanList_self _, hs, hfull⟩)
    obtain ⟨rfl, heq⟩ := Prod.mk.inj (Except.ok.inj (hrun.symm.trans hrun'))
    obtain ⟨rfl, rfl⟩ := Prod.mk.inj heq
    exact ⟨hpost.enough, fun _ =>
      scanLoop_pos (setSpanList_self _) hs hcs hfull hlt (Nat.ne_zero_of_lt hlt) hrun⟩

/-! ## The end of the call -/

/-- **What a `FetchBatch` delivers**: a chain of the requested length, or a shorter one for the
reason `refused`. -/
structure Delivery (refused : Prop) (f : FetchFrame) : Prop where
  /-- A finished `ReleaseBatch` of leftovers ends the call at once. -/
  unfinished : ∀ pc, f.pc = .rollback pc → pc ≠ .chunk []
  delivered : f.pc.Gathered → f.chain.length = f.fetchNum ∨ refused

/-- A bound on the remaining steps of a `FetchBatch`: three for every object that is still to be
extracted, and four for every object that may have to go back. -/
def fetchFuel (f : FetchFrame) : ℕ :=
  match f.pc with
  | .grab => 10 * f.fetchNum + 5
  | .scan => 3 * (f.extractTarget - f.extracted.length) + 4 * f.fetchNum + 4
  | .allocSpan => 3 * (f.extractTarget - f.extracted.length) + 4 * f.fetchNum + 3
  | .initSpan _ => 3 * (f.extractTarget - f.extracted.length) + 4 * f.fetchNum + 2
  | .install _ => 3 * (f.extractTarget - f.extracted.length) + 4 * f.fetchNum + 1
  | .publish => 4 * f.fetchNum + 2
  | .rollback pc => pc.steps + 1
  | .done => 0

/-- At most one batch is prefetched. -/
lemma FetchOk.prefetched_length_le (h : FetchOk c f) : f.prefetched.length ≤ f.fetchNum := by
  have hle := h.extracted_le
  simp only [FetchFrame.extractTarget] at hle
  rw [FetchFrame.prefetched, List.length_drop]
  omega

/-- With everything extracted the chain is full. -/
lemma FetchOk.chain_full (h : FetchOk c f) (hlen : f.extracted.length = f.extractTarget) :
    f.chain.length = f.fetchNum := by
  have hle := h.grabbed_le
  simp only [FetchFrame.extractTarget, FetchFrame.needForThread] at hlen
  simp only [FetchFrame.chain, FetchFrame.needForThread, List.length_append, List.length_reverse,
    List.length_take]
  omega

/-- **A step of `FetchBatch`** brings the end nearer, and a short chain has its reason.

**Proof sketch.** The SpanList section ends with all objects or asks for a span (`scanned`); after
`GetOneSpan` it has extracted one more, which pays for the next call. Only a null of `AllocSpan`
ends the section early. -/
theorem Delivery.step {det : List ℕ} {out : Multiset (ℕ × ℕ)} {spansOut : Multiset ℕ}
    {refused refused' : Prop} (h : Delivery refused f) (hok : FetchOk c f)
    (hinv : c.Inv det (tag f.idx f.objs + out) ((f.spans : Multiset ℕ) + spansOut) none)
    (hpc : f.pc ≠ .done) (hmono : refused → refused')
    (hnull : f.pc = .allocSpan → (∃ pages, (c.pageCache.load env).allocSpan
      (SizeClass.getMovePageNum (SizeClass.size f.idx)) = .ok (none, pages)) → refused')
    (hok' : FetchOk c' f') (hstep : c.fetchStep hardened env f = .ok (c', f')) :
    Delivery refused' f' ∧ fetchFuel f' < fetchFuel f := by
  cases fetchStep_cases hstep with
  | returned hf => exact absurd hf hpc
  | @grab objs r hf hrun =>
    have hempty := (hok.unstarted hf).2
    by_cases hlt : objs.length < f.fetchNum
    · rw [if_pos hlt]
      refine ⟨⟨by simp, fun hg => absurd hg (by simp [FetchPc.Gathered])⟩, ?_⟩
      simp only [fetchFuel, hf, hempty, FetchFrame.extractTarget, FetchFrame.needForThread,
        List.length_nil]
      omega
    · rw [if_neg hlt] at hok' ⊢
      have hle := hok'.grabbed_le
      refine ⟨⟨by simp, fun _ => Or.inl ?_⟩, by simp [fetchFuel, hf]⟩
      simp only [FetchFrame.chain, hempty, List.take_nil, List.reverse_nil,
        List.nil_append] at hle ⊢
      omega
  | @scan c₁ _ extracted needSpan entered hrun =>
    obtain ⟨henough, hmore⟩ := scanned hok hinv entered hrun
    have hpre := (scanLoop_extends hrun).length_le
    have hgrow : ∀ i, f.pc = .install i → f.extracted.length < f.extractTarget := fun i hf =>
      hok.growing i (Or.inr (Or.inr hf))
    cases needSpan with
    | false =>
      refine ⟨⟨by simp, fun _ => Or.inl (hok'.chain_full (henough rfl))⟩, ?_⟩
      rcases entered with ⟨hf, -⟩ | ⟨i, hf, -⟩
      · simp only [fetchFuel, hf, Bool.false_eq_true, if_false]
        omega
      · have := hgrow i hf
        simp only [fetchFuel, hf, Bool.false_eq_true, if_false]
        omega
    | true =>
      refine ⟨⟨by simp, fun hg => absurd hg (by simp [FetchPc.Gathered])⟩, ?_⟩
      rcases entered with ⟨hf, -⟩ | ⟨i, hf, -⟩
      · simp only [fetchFuel, hf, if_true, FetchFrame.extractTarget, FetchFrame.needForThread]
        omega
      · have hlt := hgrow i hf
        have hone := hmore (by simp [hf])
        simp only [FetchFrame.extractTarget, FetchFrame.needForThread] at hlt
        simp only [fetchFuel, hf, if_true, FetchFrame.extractTarget, FetchFrame.needForThread]
        omega
  | refused hf hrun =>
    refine ⟨⟨by simp, fun _ => Or.inr (hnull hf ⟨_, hrun⟩)⟩, ?_⟩
    simp only [fetchFuel, hf]
    omega
  | granted hf hrun =>
    refine ⟨⟨by simp, fun hg => absurd hg (by simp [FetchPc.Gathered])⟩, ?_⟩
    simp only [fetchFuel, hf, FetchFrame.extractTarget, FetchFrame.needForThread]
    omega
  | carved hf =>
    refine ⟨⟨by simp, fun hg => absurd hg (by simp [FetchPc.Gathered])⟩, ?_⟩
    simp only [fetchFuel, hf, FetchFrame.extractTarget, FetchFrame.needForThread]
    omega
  | published hf hrun =>
    refine ⟨⟨by simp, fun _ => ?_⟩, by simp [fetchFuel, hf]⟩
    exact (h.delivered (by simp [hf, FetchPc.Gathered])).imp_right hmono
  | @overflow r left hf hrun hne =>
    have hleft := ((c.buckets f.idx).transferCache.append_suffix f.prefetched).length_le
    rw [hrun] at hleft
    change left.length ≤ _ at hleft
    have hle := hok.prefetched_length_le
    refine ⟨⟨?_, fun _ => ?_⟩, ?_⟩
    · rintro pc ⟨rfl⟩ hnil
      exact hne (List.reverse_eq_nil_iff.mp (ReleasePc.chunk.inj hnil))
    · exact (h.delivered (by simp [hf, FetchPc.Gathered])).imp_right hmono
    · simp only [fetchFuel, hf, ReleasePc.steps, List.length_reverse]
      omega
  | @rollingBack pc pc' _ hf hrun hmore =>
    have hsteps := releaseStep_steps_lt (h.unfinished pc hf) hrun
    refine ⟨⟨?_, fun _ => ?_⟩, ?_⟩
    · rintro pc₁ ⟨rfl⟩
      exact hmore
    · exact (h.delivered (by simp [hf, FetchPc.Gathered])).imp_right hmono
    · simp only [fetchFuel, hf]
      omega
  | rolledBack hf hrun =>
    refine ⟨⟨by simp, fun _ => ?_⟩, by simp [fetchFuel, hf]⟩
    exact (h.delivered (by simp [hf, FetchPc.Gathered])).imp_right hmono

end CentralCache

end Ammalloc
