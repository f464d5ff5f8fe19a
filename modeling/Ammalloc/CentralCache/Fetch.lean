import Ammalloc.CentralCache.Release

set_option relaxedAutoImplicit false
set_option autoImplicit false

/-!
# `FetchBatch` keeps the books

## Main definitions

* `Ammalloc.CentralCache.FetchOk` — the local variables of a `FetchBatch`.

## Main results

* `Ammalloc.CentralCache.scanLoop_spec` — the SpanList section: it ends with the objects it was
  to extract, or with every listed span full.
* `Ammalloc.CentralCache.fetchStep_spec` — every step of `FetchBatch`.
-/

namespace Ammalloc

open SizeClass (kNumSizeClasses)

namespace CentralCache

variable {c c' : CentralCache} {det : List ℕ} {out : Multiset (ℕ × ℕ)} {spansOut : Multiset ℕ}
  {fresh : Option ℕ} {idx : ℕ}

/-! ## The SpanList section -/

/-- Of two writes of a span list the last one counts. -/
lemma setSpanList_setSpanList (l l' : List ℕ) :
    (c.setSpanList idx l).setSpanList idx l' = c.setSpanList idx l' := by
  simp [setSpanList]

/-- **Objects come out of the front span**, and the list is rearranged. -/
lemma Inv.take (h : c.Inv det out spansOut fresh) (hidx : idx < kNumSizeClasses) {i n : ℕ}
    {rest l objs : List ℕ} {s s' : Span} {hitNull : Bool}
    (hl : (c.buckets idx).spanList = i :: rest) (hfresh : fresh = none ∨ fresh = some i)
    (hs : Borrowed c.pageCache det i s) (hcs : s.Carved idx) (hcs' : s'.Carved idx)
    (hpost : s.AllocLoopPost n objs s' hitNull) (hobjs : 0 < objs.length)
    (hperm : l.Perm (i :: rest))
    (horder : l.Pairwise fun j j' =>
      (c.storeSpan i s').FullSpan j → (c.storeSpan i s').FullSpan j') :
    ((c.storeSpan i s').setSpanList idx l).Inv det (tag idx objs + out) spansOut none := by
  have hi : i ∈ (c.buckets idx).spanList := by rw [hl]; exact List.mem_cons_self
  have honly : ∀ j < kNumSizeClasses, j ≠ idx → i ∉ (c.buckets j).spanList :=
    fun j hj hne hmem => hne (h.list_unique hj hidx hmem hi)
  have hmem : ∀ j, j ∈ l ↔ j ∈ (c.buckets idx).spanList := fun j => by rw [hl, hperm.mem_iff]
  have hnotOut : i ∉ spansOut := fun hmem => h.not_listed hmem hidx hi
  obtain ⟨hbooks, halloc⟩ := h.books_take hidx hs hi hcs (fun j _ => hmem j) ((hmem i).mpr hi) hpost
  refine h.of_span hidx hs hpost.fields honly (fun j hji hf => ?_) ?_
    (fun j hj _ => (hmem j).mp hj) (fun j hj _ => hj) (fun _ => ⟨hcs', Or.inl ?_⟩)
    (fun hin => absurd hin hnotOut) hbooks halloc horder
  · rcases hfresh with hn | hsome
    · rw [hn] at hf
      exact absurd hf (by simp)
    · rw [hsome] at hf
      exact absurd (Option.some.inj hf).symm hji
  · rw [hl, Multiset.coe_eq_coe.mpr hperm]
  · rw [hpost.useCount]
    omega

/-- The front span, full, in front of a list with free slots first: every span is full. -/
lemma all_full_of_head {i : ℕ} {rest : List ℕ}
    (horder : (i :: rest).Pairwise fun j j' => c.FullSpan j → c.FullSpan j')
    (hi : c.FullSpan i) : ∀ j ∈ i :: rest, c.FullSpan j := by
  intro j hj
  rcases List.mem_cons.mp hj with rfl | hj
  · exact hi
  · exact (List.pairwise_cons.mp horder).1 j hj hi

/-- **One pass of the loop of `FetchBatch`**: objects come out of the front span, and it moves
behind the others if it is full then. -/
lemma Inv.scanPass (h : c.Inv det out spansOut fresh) (hidx : idx < kNumSizeClasses) {i n : ℕ}
    {rest : List ℕ} {s : Span} (hl : (c.buckets idx).spanList = i :: rest)
    (hfresh : fresh = none ∨ fresh = some i) (hs : Borrowed c.pageCache det i s)
    (hcs : s.Carved idx) (hfull : s.isFull = false) (hn : 0 < n) :
    ∃ c', rotateIfFull ((c.storeSpan i (s.allocLoop n).2.1).setSpanList idx
        (if (s.allocLoop n).2.2 then rest ++ [i] else i :: rest)) idx = .ok c' ∧
      c'.Inv det (tag idx (s.allocLoop n).1 + out) spansOut none ∧ Keeps c c' det spansOut := by
  obtain ⟨hcs', hpost⟩ := hcs.allocLoop_spec n
  have hobjs := hcs.allocLoop_pos hfull hn
  set s' := (s.allocLoop n).2.1 with hs'
  set objs := (s.allocLoop n).1
  have hi : i ∈ (c.buckets idx).spanList := by rw [hl]; exact List.mem_cons_self
  have hnodup := h.list_nodup hidx
  rw [hl] at hnodup
  have horder := h.order idx hidx
  rw [hl] at horder
  -- fullness after the pass
  have hsame : ∀ j ∈ rest, ((c.storeSpan i s').FullSpan j ↔ c.FullSpan j) := by
    intro j hj
    have hji : j ≠ i := by rintro rfl; exact (List.nodup_cons.mp hnodup).1 hj
    simp [FullSpan, PageCache.store, hji]
  have hself : (c.storeSpan i s').FullSpan i ↔ s'.isFull = true := by
    simp [FullSpan, PageCache.store]
  have hrest : rest.Pairwise fun j j' =>
      (c.storeSpan i s').FullSpan j → (c.storeSpan i s').FullSpan j' := by
    refine List.Pairwise.imp_of_mem (fun {a b} ha hb hab => ?_) (List.pairwise_cons.mp horder).2
    rw [hsame a ha, hsame b hb]
    exact hab
  have hback : (c.storeSpan i s').FullSpan i → (rest ++ [i]).Pairwise fun j j' =>
      (c.storeSpan i s').FullSpan j → (c.storeSpan i s').FullSpan j' := fun hf =>
    List.pairwise_append.mpr ⟨hrest, List.pairwise_singleton _ _, fun a _ b hb _ => by
      rw [List.mem_singleton.mp hb]
      exact hf⟩
  have hkeep : ∀ l, Keeps c ((c.storeSpan i s').setSpanList idx l) det spansOut := fun l =>
    Keeps.store hs (fun hj => h.not_listed hj hidx hi) rfl
  -- the list with the span at the back, or at the front
  have htake := fun (l : List ℕ) (hperm : l.Perm (i :: rest)) horder =>
    h.take (l := l) hidx hl hfresh hs hcs hcs' hpost hobjs hperm horder
  have hderef : ∀ l, ((c.storeSpan i s').setSpanList idx l).pageCache.deref i = .ok s' := by
    intro l
    simp [PageCache.deref, PageCache.store]
  have hpermBack : (rest ++ [i]).Perm (i :: rest) := List.perm_append_singleton i rest
  unfold rotateIfFull
  simp only [setSpanList_self]
  cases hhit : (s.allocLoop n).2.2 with
  | false =>
    simp only [Bool.false_eq_true, if_false, hderef, bind, Except.bind, setSpanList_setSpanList]
    by_cases hf : s'.isFull = true
    · rw [if_pos hf]
      exact ⟨_, rfl, htake _ hpermBack (hback (hself.mpr hf)), hkeep _⟩
    · rw [if_neg hf]
      refine ⟨_, rfl, htake _ (List.Perm.refl _) (List.pairwise_cons.mpr ⟨fun j _ hi => ?_, hrest⟩),
        hkeep _⟩
      exact absurd (hself.mp hi) hf
  | true =>
    have hf : s'.isFull = true := hpost.full hhit
    cases hrestc : rest with
    | nil =>
      subst hrestc
      simp only [if_true, List.nil_append, hderef, bind, Except.bind, if_pos hf,
        setSpanList_setSpanList]
      exact ⟨_, rfl, htake _ (List.Perm.refl _) (hback (hself.mpr hf)), hkeep _⟩
    | cons j rest' =>
      subst hrestc
      have hj : j ∈ (c.buckets idx).spanList := by rw [hl]; simp
      have hji : j ≠ i := by rintro rfl; simp at hnodup
      obtain ⟨t, ht, hct, -⟩ := h.listed idx hidx j hj
      have hderefj : ∀ l, ((c.storeSpan i s').setSpanList idx l).pageCache.deref j = .ok t := by
        intro l
        simp [PageCache.deref, PageCache.store, hji, ht.spans]
      simp only [if_true, List.cons_append, hderefj, bind, Except.bind, setSpanList_setSpanList]
      by_cases hft : t.isFull = true
      · -- the next span is full, so all are
        rw [if_pos hft]
        have hjfull : c.FullSpan j := ⟨t, ht.spans, hft⟩
        have hall : ∀ b ∈ (j :: rest') ++ [i], (c.storeSpan i s').FullSpan b := by
          intro b hb
          rcases List.mem_append.mp hb with hb | hb
          · exact (hsame b hb).mpr
              (all_full_of_head (List.pairwise_cons.mp horder).2 hjfull b hb)
          · rw [List.mem_singleton.mp hb]
            exact hself.mpr hf
        have hperm : (rest' ++ [i] ++ [j]).Perm (i :: j :: rest') :=
          (List.perm_append_singleton j (rest' ++ [i])).trans hpermBack
        refine ⟨_, rfl, htake _ hperm ?_, hkeep _⟩
        refine List.pairwise_of_forall_mem_list fun a _ b hb _ => hall b ?_
        exact (List.perm_append_singleton j (rest' ++ [i])).mem_iff.mp hb
      · rw [if_neg hft]
        exact ⟨_, rfl, htake _ hpermBack (hback (hself.mpr hf)), hkeep _⟩

/-- How the SpanList section may end. -/
structure ScanPost (c : CentralCache) (det : List ℕ) (idx target : ℕ) (out : Multiset (ℕ × ℕ))
    (spansOut : Multiset ℕ) (c' : CentralCache) (extracted : List ℕ) (needSpan : Bool) :
    Prop where
  inv : c'.Inv det (tag idx extracted + out) spansOut none
  keep : Keeps c c' det spansOut
  length_le : extracted.length ≤ target
  enough : needSpan = false → extracted.length = target
  /-- The lock is given up for a new span only when every listed span is full. -/
  allFull : needSpan = true → extracted.length < target ∧
    ∀ j ∈ (c'.buckets idx).spanList, c'.FullSpan j

/-- **The loop of `FetchBatch`.** Every pass extracts an object, so `target` passes are enough.

**Proof sketch.** Induction on the fuel. A pass is `Inv.scanPass`; after it no span is fresh, and
at least one more object is extracted. -/
lemma scanLoop_spec (hidx : idx < kNumSizeClasses) {target fuel : ℕ} {extracted : List ℕ}
    (h : c.Inv det (tag idx extracted + out) spansOut fresh)
    (hlen : extracted.length ≤ target) (hfuel : target ≤ extracted.length + fuel)
    (hfresh : fresh = none ∨ extracted.length < target ∧
      ∃ i rest s, fresh = some i ∧ (c.buckets idx).spanList = i :: rest ∧
        c.pageCache.spans i = some s ∧ s.isFull = false) :
    ∃ c' extracted' needSpan,
      scanLoop idx target fuel c extracted = .ok (c', extracted', needSpan) ∧
      ScanPost c det idx target out spansOut c' extracted' needSpan := by
  induction fuel generalizing c extracted fresh with
  | zero =>
    have heq : extracted.length = target := by omega
    obtain rfl : fresh = none := hfresh.resolve_right fun hf => absurd hf.1 (by omega)
    exact ⟨c, extracted, false, rfl, h, Keeps.of_eq rfl, hlen, fun _ => heq, by simp⟩
  | succ fuel ih =>
    unfold scanLoop
    by_cases hlt : extracted.length < target
    · rw [if_pos hlt]
      cases hl : (c.buckets idx).spanList with
      | nil =>
        have hnone : fresh = none := by
          refine hfresh.resolve_right ?_
          rintro ⟨-, j, rest, t, -, hcons, -⟩
          rw [hl] at hcons
          exact absurd hcons (by simp)
        subst hnone
        exact ⟨c, extracted, true, rfl, h, Keeps.of_eq rfl, hlen, by simp,
          fun _ => ⟨hlt, by simp [hl]⟩⟩
      | cons i rest =>
        obtain ⟨s, hs, hcs, -⟩ := h.listed idx hidx i (by rw [hl]; exact List.mem_cons_self)
        have hderef : c.pageCache.deref i = .ok s := by simp [PageCache.deref, hs.spans]
        simp only [hderef, bind, Except.bind]
        cases hfull : s.isFull with
        | true =>
          have hnone : fresh = none := by
            refine hfresh.resolve_right ?_
            rintro ⟨-, j, rest', t, -, hcons, ht, hnf⟩
            rw [hl] at hcons
            obtain ⟨rfl, -⟩ := List.cons.inj hcons
            rw [hs.spans] at ht
            rw [Option.some.inj ht, hnf] at hfull
            exact absurd hfull (by simp)
          subst hnone
          have horder := h.order idx hidx
          rw [hl] at horder
          have hall := all_full_of_head horder ⟨s, hs.spans, hfull⟩
          exact ⟨c, extracted, true, rfl, h, Keeps.of_eq rfl, hlen, by simp,
            fun _ => ⟨hlt, by rwa [hl]⟩⟩
        | false =>
          have hfresh' : fresh = none ∨ fresh = some i := by
            refine hfresh.imp_right ?_
            rintro ⟨-, j, rest', t, hj, hcons, -⟩
            rw [hl] at hcons
            rw [hj, (List.cons.inj hcons).1]
          obtain ⟨c₁, hrot, hinv₁, hkeep₁⟩ := h.scanPass hidx hl hfresh' hs hcs hfull
            (n := target - extracted.length) (by omega)
          have hpos := hcs.allocLoop_pos hfull (n := target - extracted.length) (by omega)
          have hle := (hcs.allocLoop_spec (target - extracted.length)).2.length_le
          rw [← add_assoc, add_comm (tag idx _), ← tag_append] at hinv₁
          obtain ⟨c', extracted', needSpan, hrun, hpost⟩ := ih hinv₁
            (by rw [List.length_append]; omega) (by rw [List.length_append]; omega) (Or.inl rfl)
          refine ⟨c', extracted', needSpan, ?_, hpost.inv, hkeep₁.trans hpost.keep, hpost.length_le,
            hpost.enough, hpost.allFull⟩
          simp only [Bool.false_eq_true, if_false, hrot]
          exact hrun
    · rw [if_neg hlt]
      obtain rfl : fresh = none := hfresh.resolve_right fun hf => hlt hf.1
      exact ⟨c, extracted, false, rfl, h, Keeps.of_eq rfl, hlen, fun _ => by omega, by simp⟩

/-! ## `GetOneSpan` -/

/-- `Init` writes the header of the span and its bitmap. -/
lemma Inv.initSpan {i : ℕ} (h : c.Inv det out (i ::ₘ spansOut) fresh) (hidx : idx < kNumSizeClasses)
    {s : Span} (hs : c.pageCache.spans i = some s)
    (hn : s.pageNum = SizeClass.getMovePageNum (SizeClass.size idx)) :
    ∃ s', s.init (SizeClass.size idx) = .ok s' ∧ s'.Carved idx ∧
      (c.storeSpan i s').Inv det out (i ::ₘ spansOut) fresh := by
  obtain ⟨s', hrun, hcs', h₀, hstart, hnum, hused, hcommit, howner, htime⟩ :=
    Span.init_carved hidx hn
  have hfields : s' = s.withObjects s' := by
    obtain ⟨⟩ := s'
    simp_all [Span.withObjects]
  have hmem : i ∈ i ::ₘ spansOut := Multiset.mem_cons_self i spansOut
  obtain ⟨t, ht, -⟩ := h.offList i hmem
  obtain rfl : t = s := Option.some.inj (ht.spans.symm.trans hs)
  -- the span is on no list, so the books do not notice
  have hother : ∀ j < kNumSizeClasses, ∀ i' ∈ (c.buckets j).spanList,
      (c.storeSpan i s').pageCache.spans i' = c.pageCache.spans i' := by
    intro j hj i' hi'
    have hne : i' ≠ i := by rintro rfl; exact h.not_listed hmem hj hi'
    simp [PageCache.store, hne]
  have hself : (c.storeSpan i s').setSpanList idx (c.buckets idx).spanList = c.storeSpan i s' :=
    setSpanList_eq_self (c.storeSpan i s') idx
  have hinv := h.of_span (l := (c.buckets idx).spanList) hidx ht hfields
    (fun j hj _ => h.not_listed hmem hj) (fun _ _ hf => hf) rfl (fun _ hj _ => hj)
    (fun _ hj _ => hj) (fun hi => absurd hi (h.not_listed hmem hidx))
    (fun _ => ⟨h₀, Or.inr ⟨idx, hcs'⟩⟩) h.books
    (fun p => ?_) ?_
  · rw [hself] at hinv
    exact ⟨s', hrun, hcs', hinv⟩
  · rw [hself]
    refine (h.allocated p).trans (Iff.symm ?_)
    exact allocated_congr (c := c) (fun _ => by rfl) hother p
  · rw [hself]
    refine List.Pairwise.imp_of_mem (fun {a b} ha hb hab => ?_) (h.order idx hidx)
    simp only [FullSpan, hother idx hidx a ha, hother idx hidx b hb]
    exact hab

/-- A write of the span that is there changes nothing. -/
lemma storeSpan_eq_self {i : ℕ} {s : Span} (hs : c.pageCache.spans i = some s) :
    c.storeSpan i s = c := by
  simp [storeSpan, PageCache.store, ← hs]

/-- The new span goes to the front of the list. -/
lemma Inv.install {i : ℕ} (h : c.Inv det out (i ::ₘ spansOut) none) (hidx : idx < kNumSizeClasses)
    {s : Span} (hs : c.pageCache.spans i = some s) (hcs : s.Carved idx) :
    s.isFull = false ∧
      (c.setSpanList idx (i :: (c.buckets idx).spanList)).Inv det out spansOut (some i) := by
  have hmem : i ∈ i ::ₘ spansOut := Multiset.mem_cons_self i spansOut
  obtain ⟨t, ht, h₀, -⟩ := h.offList i hmem
  obtain rfl : t = s := Option.some.inj (ht.spans.symm.trans hs)
  have hnot : i ∉ (c.buckets idx).spanList := h.not_listed hmem hidx
  have honly : ∀ j < kNumSizeClasses, j ≠ idx → i ∉ (c.buckets j).spanList :=
    fun j hj _ => h.not_listed hmem hj
  have hnodup := h.nodup
  rw [Multiset.add_cons, Multiset.nodup_cons] at hnodup
  have hfull : t.isFull = false := by
    have := hcs.capacity_pos
    simp only [Span.isFull, decide_eq_false_iff_not]
    omega
  refine ⟨hfull, ?_⟩
  suffices hinv : ((c.storeSpan i t).setSpanList idx (i :: (c.buckets idx).spanList)).Inv det out
      spansOut (some i) by rwa [storeSpan_eq_self hs] at hinv
  refine h.of_span hidx ht rfl honly (fun _ _ hf => absurd hf (by simp)) ?_
    (fun j hj hji => (List.mem_cons.mp hj).resolve_left hji)
    (fun j hj _ => Multiset.mem_cons_of_mem hj) (fun _ => ⟨hcs, Or.inr rfl⟩)
    (fun hi => absurd (Multiset.mem_add.mpr (Or.inr hi)) hnodup.1) h.books (fun p => ?_) ?_
  · rw [← Multiset.cons_coe, Multiset.cons_add, Multiset.add_cons]
  · rw [h.allocated p]
    by_cases hp : p.1 = idx
    · obtain ⟨j, a⟩ := p
      obtain rfl : j = idx := hp
      rw [allocated_update_iff hidx fun j hj => by rw [List.mem_cons]; exact or_iff_right hj]
      -- nothing of the new span is handed out
      constructor
      · rintro ⟨-, j', hj', u, hu, ha⟩
        exact Or.inl ⟨j', hj', by rintro rfl; exact hnot hj', u, hu, ha⟩
      · rintro (⟨j', hj', -, u, hu, ha⟩ | ⟨-, ha⟩)
        · exact ⟨hidx, j', hj', u, hu, ha⟩
        · exact absurd ha (hcs.not_handedOut h₀ a)
    · exact (allocated_update_of_ne honly hp).symm
  · rw [storeSpan_eq_self hs]
    refine List.pairwise_cons.mpr ⟨?_, h.order idx hidx⟩
    rintro j - ⟨u, hu, hfu⟩
    rw [setSpanList_pageCache, hs] at hu
    rw [← Option.some.inj hu, hfull] at hfu
    exact absurd hfu (by simp)

/-! ## `FetchBatch` -/

/-- The local variables of a `FetchBatch`. -/
structure FetchOk (c : CentralCache) (f : FetchFrame) : Prop where
  idx_lt : f.idx < kNumSizeClasses
  grabbed_le : f.grabbed.length ≤ f.fetchNum
  extracted_le : f.extracted.length ≤ f.extractTarget
  unstarted : f.pc = .grab → f.grabbed = [] ∧ f.extracted = []
  growing : ∀ i, f.pc = .allocSpan ∨ f.pc = .initSpan i ∨ f.pc = .install i →
    f.extracted.length < f.extractTarget
  uncarved : ∀ i, f.pc = .initSpan i → ∃ s, c.pageCache.spans i = some s ∧
    s.pageNum = SizeClass.getMovePageNum (SizeClass.size f.idx)
  carved : ∀ i, f.pc = .install i → ∃ s, c.pageCache.spans i = some s ∧ s.Carved f.idx

/-- Others leave the spans of a call alone, so they leave its variables valid. -/
lemma FetchOk.mono {f : FetchFrame} (h : FetchOk c f)
    (hkeep : ∀ j ∈ f.spans, c'.pageCache.spans j = c.pageCache.spans j) : FetchOk c' f := by
  refine ⟨h.idx_lt, h.grabbed_le, h.extracted_le, h.unstarted, h.growing, fun i hi => ?_,
    fun i hi => ?_⟩
  · rw [hkeep i (by simp [FetchFrame.spans, hi])]
    exact h.uncarved i hi
  · rw [hkeep i (by simp [FetchFrame.spans, hi])]
    exact h.carved i hi

/-- A `FetchBatch` past `GetOneSpan`. -/
lemma FetchOk.settled {f : FetchFrame} (h : FetchOk c f) {pc : FetchPc}
    (hpc : pc ≠ .grab ∧ pc ≠ .allocSpan ∧ (∀ i, pc ≠ .initSpan i) ∧ ∀ i, pc ≠ .install i) :
    FetchOk c' { f with pc := pc } :=
  ⟨h.idx_lt, h.grabbed_le, h.extracted_le, fun he => absurd he hpc.1, fun i hi => by
    rcases hi with he | he | he
    · exact absurd he hpc.2.1
    · exact absurd he (hpc.2.2.1 i)
    · exact absurd he (hpc.2.2.2 i), fun i he => absurd he (hpc.2.2.1 i),
    fun i he => absurd he (hpc.2.2.2 i)⟩

/-- The caller gets at most what it asked for. -/
lemma FetchOk.chain_length_le {f : FetchFrame} (h : FetchOk c f) :
    f.chain.length ≤ f.fetchNum := by
  have := h.grabbed_le
  simp only [FetchFrame.chain, FetchFrame.needForThread, List.length_append, List.length_reverse,
    List.length_take]
  omega

/-- The chain does not depend on where the call stands. -/
@[simp] lemma chain_withPc (f : FetchFrame) (pc : FetchPc) :
    FetchFrame.chain { f with pc := pc } = f.chain := rfl

/-- The extracted objects are those for the caller and the prefetched ones. -/
lemma tag_chain_add_prefetched (f : FetchFrame) :
    tag f.idx f.chain + tag f.idx f.prefetched = tag f.idx (f.grabbed ++ f.extracted) := by
  have hsplit := congrArg (tag f.idx) (List.take_append_drop f.needForThread f.extracted)
  rw [tag_append] at hsplit
  rw [FetchFrame.chain, FetchFrame.prefetched, tag_append, tag_append, tag_reverse, ← hsplit]
  abel

/-- How a step of `FetchBatch` may end. -/
structure FetchPost (c : CentralCache) (det : List ℕ) (f : FetchFrame) (out : Multiset (ℕ × ℕ))
    (spansOut : Multiset ℕ) (c' : CentralCache) (f' : FetchFrame) : Prop where
  inv : c'.Inv det (tag f'.idx f'.objs + out) ((f'.spans : Multiset ℕ) + spansOut) none
  keep : Keeps c c' det spansOut
  ok : FetchOk c' f'
  idx : f'.idx = f.idx
  fetchNum : f'.fetchNum = f.fetchNum
  /-- `GetOneSpan` is entered only when every listed span is full. -/
  allFull : f'.pc = .allocSpan → ∀ j ∈ (c'.buckets f.idx).spanList, c'.FullSpan j

/-- **The SpanList section** of `FetchBatch`, with or without a fresh span at the front. -/
lemma scanSection_spec {f : FetchFrame} (hok : FetchOk c f)
    (h : c.Inv det (tag f.idx (f.grabbed ++ f.extracted) + out) spansOut fresh)
    (hfresh : fresh = none ∨ f.extracted.length < f.extractTarget ∧
      ∃ i rest s, fresh = some i ∧ (c.buckets f.idx).spanList = i :: rest ∧
        c.pageCache.spans i = some s ∧ s.isFull = false) :
    ∃ c' f', c.scanSection f = .ok (c', f') ∧ FetchPost c det f out spansOut c' f' := by
  rw [tag_append, add_comm (tag f.idx f.grabbed), add_assoc] at h
  obtain ⟨c', extracted, needSpan, hrun, hpost⟩ := scanLoop_spec hok.idx_lt h hok.extracted_le
    (Nat.le_add_left f.extractTarget f.extracted.length) hfresh
  have hinv := hpost.inv
  rw [← add_assoc, add_comm (tag f.idx extracted), ← tag_append] at hinv
  refine ⟨c', { f with extracted := extracted, pc := if needSpan then .allocSpan else .publish },
    ?_, ?_⟩
  · unfold scanSection
    simp only [hrun, bind, Except.bind]
    rfl
  cases needSpan with
  | false =>
    refine ⟨?_, hpost.keep, ⟨hok.idx_lt, hok.grabbed_le, hpost.length_le, by simp, by simp, by simp,
      by simp⟩, rfl, rfl, by simp⟩
    simpa [FetchFrame.objs, FetchFrame.spans] using hinv
  | true =>
    refine ⟨?_, hpost.keep, ⟨hok.idx_lt, hok.grabbed_le, hpost.length_le, by simp,
      fun _ _ => (hpost.allFull rfl).1, by simp, by simp⟩, rfl, rfl,
      fun _ => (hpost.allFull rfl).2⟩
    simpa [FetchFrame.objs, FetchFrame.spans] using hinv

/-- The TransferCache section at the start of `FetchBatch`. -/
lemma grab_spec {f : FetchFrame} (hok : FetchOk c f) (hpc : f.pc = .grab)
    (h : c.Inv det (tag f.idx f.objs + out) ((f.spans : Multiset ℕ) + spansOut) none)
    (hardened : Bool) (env : PageEnv) :
    ∃ c' f', c.fetchStep hardened env f = .ok (c', f') ∧ FetchPost c det f out spansOut c' f' := by
  obtain ⟨hg, he⟩ := hok.unstarted hpc
  have hempty : f.objs = [] := by simp [FetchFrame.objs, hpc, hg, he]
  have hnospan : f.spans = [] := by simp [FetchFrame.spans, hpc]
  rw [hempty, hnospan, tag_nil, zero_add, Multiset.coe_nil, zero_add] at h
  set r := (c.buckets f.idx).transferCache with hr
  have hwf := h.ring f.idx hok.idx_lt
  rw [← hr] at hwf
  have hcontents := congrArg (tag f.idx) (RingBuffer.contents_grab (min_le_right f.fetchNum r.size))
  rw [tag_append, tag_reverse] at hcontents
  have hinv : (c.setRing f.idx (r.grab (min f.fetchNum r.size)).2).Inv det
      (tag f.idx (r.grab (min f.fetchNum r.size)).1 + out) spansOut none :=
    h.setRing hok.idx_lt (hwf.grab (min f.fetchNum r.size)) (RingBuffer.capacity_grab _ _)
      (by rw [← add_assoc, ← hcontents])
  refine ⟨c.setRing f.idx (r.grab (min f.fetchNum r.size)).2,
    { f with
      grabbed := (r.grab (min f.fetchNum r.size)).1
      pc := if (r.grab (min f.fetchNum r.size)).1.length < f.fetchNum then .scan else .done },
    by simp only [fetchStep, hpc]; rfl, ?_⟩
  have hlen : (r.grab (min f.fetchNum r.size)).1.length ≤ f.fetchNum := by simp
  split_ifs with hlt
  · refine ⟨?_, Keeps.of_eq rfl,
      ⟨hok.idx_lt, hlen, by simp [he], by simp, by simp, by simp, by simp⟩, rfl, rfl, by simp⟩
    simpa [FetchFrame.objs, FetchFrame.spans, he] using hinv
  · refine ⟨?_, Keeps.of_eq rfl,
      ⟨hok.idx_lt, hlen, by simp [he], by simp, by simp, by simp, by simp⟩, rfl, rfl, by simp⟩
    simpa [FetchFrame.objs, FetchFrame.spans, FetchFrame.chain, he] using hinv

/-- The TransferCache section at the end of `FetchBatch`. -/
lemma publish_spec {f : FetchFrame} (hok : FetchOk c f) (hpc : f.pc = .publish)
    (h : c.Inv det (tag f.idx f.objs + out) ((f.spans : Multiset ℕ) + spansOut) none)
    (hardened : Bool) (env : PageEnv) :
    ∃ c' f', c.fetchStep hardened env f = .ok (c', f') ∧ FetchPost c det f out spansOut c' f' := by
  have hobjs : f.objs = f.grabbed ++ f.extracted := by simp [FetchFrame.objs, hpc]
  have hnospan : f.spans = [] := by simp [FetchFrame.spans, hpc]
  rw [hobjs, hnospan, Multiset.coe_nil, zero_add, ← tag_chain_add_prefetched,
    add_comm (tag f.idx f.chain), add_assoc] at h
  have hinv := h.append hok.idx_lt
  rw [← add_assoc, add_comm _ (tag f.idx f.chain)] at hinv
  unfold fetchStep
  simp only [hpc]
  split
  · rename_i r hr
    rw [hr, tag_nil, add_zero] at hinv
    refine ⟨_, _, rfl, ?_, Keeps.of_eq rfl, hok.settled (by simp), rfl, rfl, by simp⟩
    simpa [FetchFrame.objs, FetchFrame.spans] using hinv
  · rename_i r left hne hr
    rw [hr, ← tag_reverse f.idx left, ← tag_append] at hinv
    refine ⟨_, _, rfl, ?_, Keeps.of_eq rfl, hok.settled (by simp), rfl, rfl, by simp⟩
    have hspans : (FetchFrame.spans { f with pc := .rollback (.chunk left.reverse) } :
        Multiset ℕ) + spansOut = spansOut := zero_add spansOut
    rw [hspans]
    exact hinv

/-- **Every step of `FetchBatch`** keeps the books, whatever is outside. -/
theorem fetchStep_spec (hardened : Bool) (env : PageEnv) {f : FetchFrame} (hok : FetchOk c f)
    (h : c.Inv det (tag f.idx f.objs + out) ((f.spans : Multiset ℕ) + spansOut) none) :
    ∃ c' f', c.fetchStep hardened env f = .ok (c', f') ∧ FetchPost c det f out spansOut c' f' := by
  cases hpc : f.pc with
  | grab => exact grab_spec hok hpc h hardened env
  | publish => exact publish_spec hok hpc h hardened env
  | done => exact ⟨c, f, by simp [fetchStep, hpc], h, Keeps.of_eq rfl, hok, rfl, rfl, by simp [hpc]⟩
  | scan =>
    have hobjs : f.objs = f.grabbed ++ f.extracted := by simp [FetchFrame.objs, hpc]
    have hnospan : f.spans = [] := by simp [FetchFrame.spans, hpc]
    rw [hobjs, hnospan, Multiset.coe_nil, zero_add] at h
    simp only [fetchStep, hpc]
    exact scanSection_spec hok h (Or.inl rfl)
  | allocSpan =>
    have hobjs : f.objs = f.grabbed ++ f.extracted := by simp [FetchFrame.objs, hpc]
    have hnospan : f.spans = [] := by simp [FetchFrame.spans, hpc]
    rw [hobjs, hnospan, Multiset.coe_nil, zero_add] at h
    obtain ⟨r, pc, hrun, hkeep, hnone, hsome⟩ :=
      h.allocSpan env (SizeClass.getMovePageNum (SizeClass.size f.idx))
    simp only [fetchStep, hpc, hrun, bind, Except.bind]
    cases r with
    | none =>
      refine ⟨_, _, rfl, ?_, hkeep, hok.settled (by simp), rfl, rfl, by simp⟩
      simpa [FetchFrame.objs, FetchFrame.spans] using hnone rfl
    | some i =>
      obtain ⟨hinv, s, hs, hn, -⟩ := hsome i rfl
      refine ⟨_, _, rfl, ?_, hkeep, ⟨hok.idx_lt, hok.grabbed_le, hok.extracted_le, by simp,
        fun _ _ => hok.growing i (Or.inl hpc), fun j hj => ?_, by simp⟩, rfl, rfl, by simp⟩
      · simpa [FetchFrame.objs, FetchFrame.spans] using hinv
      · obtain rfl : i = j := FetchPc.initSpan.inj hj
        exact ⟨s, hs, hn⟩
  | initSpan i =>
    have hobjs : f.objs = f.grabbed ++ f.extracted := by simp [FetchFrame.objs, hpc]
    have hspan : (f.spans : Multiset ℕ) + spansOut = i ::ₘ spansOut := by
      simp [FetchFrame.spans, hpc]
    rw [hobjs, hspan] at h
    obtain ⟨s, hs, hn⟩ := hok.uncarved i hpc
    obtain ⟨s', hrun, hcs', hinv⟩ := h.initSpan hok.idx_lt hs hn
    have hderef : c.pageCache.deref i = .ok s := by simp [PageCache.deref, hs]
    have hnodup := h.nodup
    rw [Multiset.add_cons, Multiset.nodup_cons] at hnodup
    simp only [fetchStep, hpc, hderef, hrun, bind, Except.bind]
    refine ⟨_, _, rfl, ?_, ?_, ⟨hok.idx_lt, hok.grabbed_le, hok.extracted_le, by simp,
      fun _ _ => hok.growing i (Or.inr (Or.inl hpc)), by simp, fun j hj => ?_⟩, rfl, rfl, by simp⟩
    · simpa [FetchFrame.objs, FetchFrame.spans] using hinv
    · obtain ⟨t, ht, -⟩ := h.offList i (Multiset.mem_cons_self i spansOut)
      exact Keeps.store ht (fun hi => hnodup.1 (Multiset.mem_add.mpr (Or.inr hi))) rfl
    · obtain rfl : i = j := FetchPc.install.inj hj
      exact ⟨s', by simp [PageCache.store], hcs'⟩
  | install i =>
    have hobjs : f.objs = f.grabbed ++ f.extracted := by simp [FetchFrame.objs, hpc]
    have hspan : (f.spans : Multiset ℕ) + spansOut = i ::ₘ spansOut := by
      simp [FetchFrame.spans, hpc]
    rw [hobjs, hspan] at h
    obtain ⟨s, hs, hcs⟩ := hok.carved i hpc
    obtain ⟨hfull, hinv⟩ := h.install hok.idx_lt hs hcs
    have hok' : FetchOk (c.setSpanList f.idx (i :: (c.buckets f.idx).spanList)) f :=
      hok.mono fun _ _ => rfl
    obtain ⟨c', f', hrun, hpost⟩ := scanSection_spec hok' hinv
      (Or.inr ⟨hok.growing i (Or.inr (Or.inr hpc)), i, _, s, rfl, setSpanList_self _, hs, hfull⟩)
    simp only [fetchStep, hpc]
    exact ⟨c', f', hrun, hpost.inv, ⟨hpost.keep.spans, hpost.keep.clock_le⟩, hpost.ok, hpost.idx,
      hpost.fetchNum, hpost.allFull⟩
  | rollback pc =>
    have hobjs : f.objs = f.chain ++ pc.objs := by simp [FetchFrame.objs, hpc]
    have hspan : f.spans = pc.spans := by simp [FetchFrame.spans, hpc]
    rw [hobjs, hspan, tag_append, add_comm (tag f.idx f.chain), add_assoc] at h
    obtain ⟨c', pc', hrun, hinv, hkeep⟩ :=
      releaseStep_spec hardened env hok.idx_lt .kTransferCache h
    rw [← add_assoc, add_comm (tag f.idx pc'.objs), ← tag_append] at hinv
    simp only [fetchStep, hpc, hrun, bind, Except.bind]
    by_cases hend : pc' = .chunk []
    · subst hend
      refine ⟨_, _, rfl, ?_, hkeep, hok.settled (by simp), rfl, rfl, by simp⟩
      simpa [FetchFrame.objs, FetchFrame.spans, ReleasePc.objs, ReleasePc.spans] using hinv
    · simp only [if_neg hend]
      exact ⟨_, _, rfl, hinv, hkeep, hok.settled (by simp), rfl, rfl, by simp⟩

end CentralCache

end Ammalloc
