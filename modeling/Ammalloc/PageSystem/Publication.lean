import Ammalloc.PageSystem.SetSpan

set_option relaxedAutoImplicit false
set_option autoImplicit false

/-!
# What lookups see while a critical section runs

`PageMap::GetSpan` takes no lock. While `AllocSpan` or `ReleaseSpan` runs under the mutex of the
page cache, lookups of other threads fall between its writes: a span may be split, merged or
returned to the system half-way. The comments of `src/page_cache.cpp` ask that a mapping has its
descriptor and its radix paths before the first leaf names it, and that absorbed descriptors stay
alive until their leaves name the survivor.

Here the trace of a critical section is cut into the writes that such a lookup can observe, in
program order: mappings that come and go, descriptors that are created, resized and deleted, and
the leaf stores of `SetSpan` and `ClearRange`, one per page.

## Main definitions

* `Ammalloc.PageCache.Seen`, `Ammalloc.PageCache.Write` — what is observed, and one write to it.
* `Ammalloc.PageCache.writes` — the writes of a critical section.
* `Ammalloc.PageCache.Seen.Sound` — no leaf dangles, and the spans in use are left alone.

## Main results

* `Ammalloc.PageSystem.lookups_sound_during_sections` — soundness after every write of every
  critical section of every run.
-/

namespace Ammalloc

namespace PageCache

/-! ## Observations -/

/-- What a thread without a lock may come across: the leaves, the page ranges in the live
descriptors, and the mappings. -/
structure Seen where
  lookup : ℕ → Option ℕ
  descriptors : ℕ → Option Extent
  mapped : List Extent

/-- The present state, as it is seen. -/
def seen (pc : PageCache) : Seen := ⟨pc.pageMap.getSpan, pc.extents, pc.mapped⟩

/-- One write of a critical section. -/
inductive Write where
  /-- `SystemAlloc` returned these pages. -/
  | map (e : Extent)
  /-- `SystemFree` of these pages. -/
  | unmap (e : Extent)
  /-- `TryNew` built a descriptor. -/
  | create (i : ℕ) (e : Extent)
  /-- `start_page_idx` and `page_num` of a descriptor are assigned. -/
  | resize (i : ℕ) (e : Extent)
  /-- `Delete` of a descriptor. -/
  | delete (i : ℕ)
  /-- A leaf store. -/
  | store (q : ℕ) (v : Option ℕ)
  deriving DecidableEq, Repr

/-- The effect of a write. -/
def Seen.write (v : Seen) : Write → Seen
  | .map e => { v with mapped := e :: v.mapped }
  | .unmap e => { v with mapped := v.mapped.erase e }
  | .create i e => { v with descriptors := Function.update v.descriptors i (some e) }
  | .resize i e => { v with descriptors := Function.update v.descriptors i (some e) }
  | .delete i => { v with descriptors := Function.update v.descriptors i none }
  | .store q i => { v with lookup := Function.update v.lookup q i }

/-- The writes of a critical section, one after the other. -/
def writer : Machine Seen Write := ⟨Set.univ, Seen.write⟩

/-- The leaf stores of `SetSpan` or `ClearRange` over `e`, in page order. -/
def stores (i : Option ℕ) (e : Extent) : List Write :=
  (List.range' e.start e.len).map fun q => .store q i

/-- The writes of an event. -/
def eventWrites : SectionEvent → List Write
  | .systemAlloc n (some p) => [.map ⟨p, n⟩]
  | .systemAlloc _ none => []
  | .systemFree p n => [.unmap ⟨p, n⟩]
  | .tryNew i e => [.create i e]
  | .resize i e => [.resize i e]
  | .delete i => [.delete i]
  | .setSpan _ i e => stores (some i) e
  | .clearRange e => stores none e
  | .erase _ _ => []

/-- The writes of the critical section so far. -/
def writes (pc : PageCache) : List Write := pc.env.trace.flatMap eventWrites

/-! ## Soundness -/

/-- Every leaf names a live descriptor and a mapped page. A span that is in use keeps its range and
all its leaves; `inUse` gives the ranges of these spans. -/
structure Seen.Sound (inUse : ℕ → Option Extent) (v : Seen) : Prop where
  live : ∀ q i, v.lookup q = some i → ∃ e, v.descriptors i = some e
  mapped : ∀ q i, v.lookup q = some i → ∃ e ∈ v.mapped, e.Contains q
  kept : ∀ i e, inUse i = some e →
    v.descriptors i = some e ∧ ∀ q, e.Contains q → v.lookup q = some i

/-- The condition under which a write keeps what is seen sound. -/
def Seen.Allows (inUse : ℕ → Option Extent) (v : Seen) : Write → Prop
  | .map _ => True
  | .unmap e => ∀ q, e.Contains q → v.lookup q = none
  | .create i _ => v.descriptors i = none
  | .resize i _ => inUse i = none
  | .delete i => inUse i = none ∧ ∀ q, v.lookup q ≠ some i
  | .store q w => (∀ i, w = some i → (∃ e, v.descriptors i = some e) ∧
      ∃ e ∈ v.mapped, e.Contains q) ∧ ∀ i e, inUse i = some e → ¬ e.Contains q

variable {inUse : ℕ → Option Extent} {v v' v'' : Seen}

/-- A descriptor that is written, and is not in use. -/
lemma Seen.Sound.update_descriptor (h : v.Sound inUse) {i : ℕ} {x : Option Extent}
    (hi : inUse i = none) (hx : x = none → ∀ q, v.lookup q ≠ some i) :
    Seen.Sound inUse { v with descriptors := Function.update v.descriptors i x } where
  live := by
    intro q j hj
    by_cases hji : j = i
    · subst hji
      cases x with
      | none => exact absurd hj (hx rfl q)
      | some e => exact ⟨e, by simp⟩
    · obtain ⟨e, he⟩ := h.live q j hj
      exact ⟨e, by simpa [hji] using he⟩
  mapped := h.mapped
  kept := by
    intro j e hj
    have hji : j ≠ i := by
      intro hji
      rw [hji, hi] at hj
      exact absurd hj (by simp)
    obtain ⟨hd, hl⟩ := h.kept j e hj
    exact ⟨by simpa [hji] using hd, hl⟩

/-- **An allowed write keeps what is seen sound.** -/
lemma Seen.Sound.write (h : v.Sound inUse) (w : Write) (hw : v.Allows inUse w) :
    Seen.Sound inUse (v.write w) := by
  cases w with
  | map e =>
    refine ⟨h.live, fun q i hq => ?_, h.kept⟩
    obtain ⟨f, hf, hqf⟩ := h.mapped q i hq
    exact ⟨f, List.mem_cons_of_mem e hf, hqf⟩
  | unmap e =>
    refine ⟨h.live, fun q i hq => ?_, h.kept⟩
    obtain ⟨f, hf, hqf⟩ := h.mapped q i hq
    have hne : f ≠ e := by
      intro hfe
      rw [hfe] at hqf
      have hq' : v.lookup q = some i := hq
      rw [hw q hqf] at hq'
      exact absurd hq' (by simp)
    exact ⟨f, (List.mem_erase_of_ne hne).mpr hf, hqf⟩
  | create i e =>
    refine h.update_descriptor ?_ (by simp)
    by_contra hi
    obtain ⟨f, hf⟩ := Option.ne_none_iff_exists'.mp hi
    have hd : v.descriptors i = none := hw
    rw [(h.kept i f hf).1] at hd
    exact absurd hd (by simp)
  | resize i e => exact h.update_descriptor hw (by simp)
  | delete i => exact h.update_descriptor hw.1 fun _ => hw.2
  | store q x =>
    obtain ⟨hx, hfree⟩ := hw
    refine ⟨fun q' i hq' => ?_, fun q' i hq' => ?_, fun i e hi => ?_⟩
    · by_cases hqq : q' = q
      · subst hqq
        exact (hx i (by simpa [Seen.write] using hq')).1
      · exact h.live q' i (by simpa [Seen.write, hqq] using hq')
    · by_cases hqq : q' = q
      · subst hqq
        exact (hx i (by simpa [Seen.write] using hq')).2
      · exact h.mapped q' i (by simpa [Seen.write, hqq] using hq')
    · obtain ⟨hd, hl⟩ := h.kept i e hi
      refine ⟨hd, fun q' hq' => ?_⟩
      have hqq : q' ≠ q := by
        intro hqq
        exact hfree i e hi (hqq ▸ hq')
      simpa [Seen.write, hqq] using hl q' hq'

/-- The writes `ws` are allowed one after the other, and lead from `v` to `v'`. -/
structure Publishes (inUse : ℕ → Option Extent) (v : Seen) (ws : List Write) (v' : Seen) :
    Prop where
  allowed : Machine.Guarded writer (Seen.Allows inUse) v ws
  result : writer.run v ws = v'

/-- A section without a write publishes nothing. -/
lemma Publishes.nil : Publishes inUse v [] v := ⟨trivial, rfl⟩

/-- An allowed write, and the others after it. -/
lemma Publishes.cons {w : Write} {ws : List Write} (hw : v.Allows inUse w)
    (h : Publishes inUse (v.write w) ws v') : Publishes inUse v (w :: ws) v' :=
  ⟨⟨hw, h.allowed⟩, h.result⟩

/-- The writes of two parts of a section, one after the other. -/
lemma Publishes.append {ws ws' : List Write} (h : Publishes inUse v ws v')
    (h' : Publishes inUse v' ws' v'') : Publishes inUse v (ws ++ ws') v'' := by
  refine ⟨Machine.guarded_append.mpr ⟨h.allowed, ?_⟩, ?_⟩
  · rw [h.result]
    exact h'.allowed
  · rw [Machine.run_append, h.result]
    exact h'.result

/-- What is seen is sound after every write. -/
lemma Publishes.sound {ws : List Write} (h : Publishes inUse v ws v') (hv : v.Sound inUse) :
    ∀ ws', ws' <+: ws → Seen.Sound inUse (writer.run v ws') :=
  h.allowed.forall_prefix (fun _ w hs hw => hs.write w hw) hv

/-- What is seen when the leaves of `e` have been stored. -/
def Seen.stored (v : Seen) (i : Option ℕ) (e : Extent) : Seen :=
  { v with lookup := fun q => if e.Contains q then i else v.lookup q }

/-- **The leaf stores over a range** that no span in use meets. -/
lemma publishes_stores (i : Option ℕ) (e : Extent)
    (hi : ∀ j, i = some j → (∃ f, v.descriptors j = some f) ∧
      ∀ q, e.Contains q → ∃ f ∈ v.mapped, f.Contains q)
    (hfree : ∀ q, e.Contains q → ∀ j f, inUse j = some f → ¬ f.Contains q) :
    Publishes inUse v (stores i e) (v.stored i e) := by
  obtain ⟨a, n⟩ := e
  induction n generalizing a v with
  | zero =>
    have hnone : ∀ q, ¬ Extent.Contains ⟨a, 0⟩ q := by
      intro q hq
      have h₁ := hq.1
      have h₂ := hq.2
      dsimp only at h₁ h₂
      omega
    simp only [Seen.stored, hnone, if_false]
    exact .nil
  | succ n ih =>
    have hsub : ∀ q, Extent.Contains ⟨a + 1, n⟩ q → Extent.Contains ⟨a, n + 1⟩ q := by
      intro q hq
      have h₁ := hq.1
      have h₂ := hq.2
      dsimp only at h₁ h₂
      exact ⟨by dsimp only; omega, by dsimp only; omega⟩
    have hself : Extent.Contains ⟨a, n + 1⟩ a := ⟨le_rfl, by dsimp only; omega⟩
    have hrest := ih (v := v.write (.store a i)) (a + 1)
      (fun j hj => ⟨(hi j hj).1, fun q hq => (hi j hj).2 q (hsub q hq)⟩)
      (fun q hq => hfree q (hsub q hq))
    have hcons : Publishes inUse v (stores i ⟨a, n + 1⟩) _ := .cons
      ⟨fun j hj => ⟨(hi j hj).1, (hi j hj).2 a hself⟩, hfree a hself⟩ hrest
    convert hcons using 1
    simp only [Seen.stored, Seen.write]
    congr 1
    funext q
    simp only [Extent.Contains, Function.update_apply]
    by_cases hqa : q = a
    · subst hqa
      simp
    · have hiff : (a ≤ q ∧ q < a + (n + 1)) ↔ (a + 1 ≤ q ∧ q < a + 1 + n) := by omega
      simp only [hiff, hqa, if_false]

/-- Deleting descriptors that no leaf names. -/
lemma publishes_deletes (retired : List ℕ)
    (h : ∀ j ∈ retired, inUse j = none ∧ ∀ q, v.lookup q ≠ some j) :
    Publishes inUse v (retired.map .delete)
      { v with descriptors := fun j => if j ∈ retired then none else v.descriptors j } := by
  induction retired generalizing v with
  | nil =>
    simp only [List.not_mem_nil, if_false]
    exact .nil
  | cons i retired ih =>
    have hrest := ih (v := v.write (.delete i)) fun j hj => h j (List.mem_cons_of_mem i hj)
    have hcons : Publishes inUse v ((i :: retired).map .delete) _ :=
      .cons (h i List.mem_cons_self) hrest
    convert hcons using 1
    simp only [Seen.write, List.mem_cons]
    congr 1
    funext j
    by_cases hji : j = i
    · simp [hji]
    · simp [hji]

/-! ## Allocation -/

variable {pc pc' : PageCache} {det : List ℕ} {n : ℕ}

/-- The ranges of the spans in use. -/
def usedExtents (pc : PageCache) (i : ℕ) : Option Extent :=
  (pc.spans i).bind fun s => if s.used then some s.extent else none

/-- The range of a span that is in use. -/
lemma usedExtents_eq_some {i : ℕ} {e : Extent} :
    pc.usedExtents i = some e ↔ ∃ s, pc.spans i = some s ∧ s.used = true ∧ s.extent = e := by
  simp [usedExtents, Option.bind_eq_some_iff]

/-- `inUse` gives spans of `pc` that are in use. -/
def Shields (pc : PageCache) (inUse : ℕ → Option Extent) : Prop :=
  ∀ i e, inUse i = some e → pc.usedExtents i = some e

/-- A span that is not in use. -/
lemma Shields.eq_none (h : pc.Shields inUse) {i : ℕ}
    (hi : ∀ s, pc.spans i = some s → s.used = false) : inUse i = none := by
  by_contra hne
  obtain ⟨e, he⟩ := Option.ne_none_iff_exists'.mp hne
  obtain ⟨s, hs, hu, -⟩ := usedExtents_eq_some.mp (h i e he)
  rw [hi s hs] at hu
  exact absurd hu (by simp)

/-- Pages that have no leaf belong to no span. -/
lemma Shields.not_contains (h : pc.Shields inUse) (hinv : pc.Inv det) {q : ℕ}
    (hq : pc.pageMap.getSpan q = none) : ∀ i e, inUse i = some e → ¬ e.Contains q := by
  intro i e he hqe
  obtain ⟨s, hs, -, rfl⟩ := usedExtents_eq_some.mp (h i e he)
  rw [(hinv.getSpan_iff q i).mpr ⟨s, hs, hqe⟩] at hq
  exact absurd hq (by simp)

/-- The pages of a span belong to no other one. -/
lemma Shields.not_contains_of_covers (h : pc.Shields inUse) (hinv : pc.Inv det) {i q : ℕ}
    {s : Span} (hi : pc.spans i = some s) (hfree : inUse i = none) (hq : s.Covers q) :
    ∀ j e, inUse j = some e → ¬ e.Contains q := by
  intro j e he hqe
  obtain ⟨t, ht, -, rfl⟩ := usedExtents_eq_some.mp (h j e he)
  have hij : i ≠ j := by
    intro hij
    rw [← hij, hfree] at he
    exact absurd he (by simp)
  exact hinv.disjoint hij hi ht hq hqe

/-- **Between critical sections what is seen is sound.** -/
lemma Inv.sound (hinv : pc.Inv det) (h : pc.Shields inUse) : pc.seen.Sound inUse where
  live q i hq := by
    obtain ⟨s, hs, -⟩ := (hinv.getSpan_iff q i).mp hq
    exact ⟨s.extent, by simp [seen, extents, hs]⟩
  mapped q i hq := (hinv.mapped q).mpr ⟨i, hq⟩
  kept i e he := by
    obtain ⟨s, hs, -, rfl⟩ := usedExtents_eq_some.mp (h i e he)
    exact ⟨by simp [seen, extents, hs], fun q hq => (hinv.getSpan_iff q i).mpr ⟨s, hs, hq⟩⟩

/-- Two states look the same. -/
lemma seen_congr (hl : ∀ q, pc.pageMap.getSpan q = pc'.pageMap.getSpan q)
    (hs : pc.extents = pc'.extents) (hm : pc.mapped = pc'.mapped) : pc.seen = pc'.seen := by
  simp only [seen, Seen.mk.injEq]
  exact ⟨funext hl, hs, hm⟩

/-- The descriptors after `i` is written. -/
lemma extents_update (spans : ℕ → Option Span) (i : ℕ) (x : Option Span) :
    (fun j => (Function.update spans i x j).map Span.extent) =
      Function.update (fun j => (spans j).map Span.extent) i (x.map Span.extent) := by
  funext j
  by_cases hj : j = i
  · simp [hj]
  · simp [hj]

/-- A failed attempt to map a span: nothing is seen of it any more. -/
lemma FreshFailed.publishes (hinv : pc.Inv det) (h : pc.Shields inUse) {evs : List SectionEvent}
    (hf : FreshFailed n pc evs pc') :
    Publishes inUse pc.seen (evs.flatMap eventWrites) pc'.seen := by
  cases hf with
  | noMemory => exact .nil
  | @noDescriptor p _ hm =>
    refine .cons trivial (.cons (fun q hq => hinv.getSpan_of_mappable hm hq) ?_)
    have hback : (pc.seen.write (.map ⟨p, n⟩)).write (.unmap ⟨p, n⟩) = pc.seen := by
      simp [Seen.write, seen]
    rw [hback]
    exact .nil
  | @noPath i p pm env slot hm hg =>
    have hcreate : pc.extents i = none := by simp [extents, slot]
    refine .cons trivial (.cons hcreate (.cons ⟨h.eq_none (by simp [slot]), fun q hq => ?_⟩
      (.cons (fun q hq => hinv.getSpan_of_mappable hm hq) ?_)))
    · obtain ⟨s, hs, -⟩ := (hinv.getSpan_iff q i).mp hq
      rw [slot] at hs
      exact absurd hs (by simp)
    · have hback : (((pc.seen.write (.map ⟨p, n⟩)).write (.create i ⟨p, n⟩)).write
          (.delete i)).write (.unmap ⟨p, n⟩) = pc.seen := by
        simp only [Seen.write, seen, Function.update_idem, List.erase_cons_head]
        rw [← hcreate, Function.update_eq_self]
      have hsame : pc.seen = ({ pc with pageMap := pm, env := env } : PageCache).seen :=
        seen_congr (fun q => (hg.getSpan q).symm) rfl rfl
      rw [hback, ← hsame]
      exact .nil

/-- **A fresh span and its leaves.** When the first leaf is stored, the descriptor and the mapping
are there. -/
lemma Fresh.publishes (hinv : pc.Inv det) (h : pc.Shields inUse) {i p : ℕ} {pm₀ pm : PageMap}
    (hf : pc.Fresh i p n pm₀ pm) (hmap : pc'.pageMap = pm)
    (hextents : pc'.extents = Function.update pc.extents i (some ⟨p, n⟩))
    (hmapped : pc'.mapped = ⟨p, n⟩ :: pc.mapped) :
    Publishes inUse pc.seen ((freshEvents n i p pm₀).flatMap eventWrites) pc'.seen := by
  have hcreate : pc.extents i = none := by simp [extents, hf.slot]
  set v : Seen := (pc.seen.write (.map ⟨p, n⟩)).write (.create i ⟨p, n⟩) with hv
  have hstores : Publishes inUse v (stores (some i) ⟨p, n⟩) (v.stored (some i) ⟨p, n⟩) := by
    refine publishes_stores (some i) ⟨p, n⟩ (fun j hj => ?_)
      (fun q hq => h.not_contains hinv (hinv.getSpan_of_mappable hf.mappable hq))
    obtain rfl := Option.some.inj hj
    exact ⟨⟨⟨p, n⟩, by simp [hv, Seen.write]⟩, fun q hq => ⟨⟨p, n⟩, List.mem_cons_self, hq⟩⟩
  have hseen : pc'.seen = v.stored (some i) ⟨p, n⟩ := by
    rw [seen, hextents, hmapped, hmap, funext hf.lookup]
    rfl
  rw [hseen]
  exact .cons trivial (.cons hcreate (hstores.append .nil))

/-- The spans in use are still there after a refill. -/
lemma Refilled.shields (h : pc.Shields inUse) {k i p : ℕ} {pm₀ : PageMap}
    (hr : Refilled k pc i p pm₀ pc') : pc'.Shields inUse := by
  obtain ⟨fresh, -, -⟩ := hr
  intro j e he
  have hji : j ≠ i := by
    intro hji
    rw [hji, h.eq_none (by simp [fresh.slot])] at he
    exact absurd he (by simp)
  have hold := h j e he
  simpa [usedExtents, pushFront, setList, store, hji] using hold

/-- The refill. -/
lemma Refilled.publishes (hinv : pc.Inv det) (h : pc.Shields inUse) {k i p : ℕ} {pm₀ : PageMap}
    (hr : Refilled k pc i p pm₀ pc') :
    Publishes inUse pc.seen ((freshEvents maxPageNum i p pm₀).flatMap eventWrites) pc'.seen := by
  obtain ⟨fresh, -, -⟩ := hr
  exact fresh.publishes hinv h rfl (extents_update pc.spans i _) rfl

/-- The exact hit shows nothing. -/
lemma seen_taken {k i : ℕ} {rest : List ℕ} {s : Span} (hs : pc.spans i = some s) :
    ((pc.setList k n rest).store i (taken s)).seen = pc.seen := by
  refine seen_congr (fun _ => rfl) ?_ rfl
  refine (extents_update pc.spans i (some (taken s))).trans ?_
  have hi : some s.extent = pc.extents i := by simp [extents, hs]
  exact (congrArg (Function.update pc.extents i) hi).trans (Function.update_eq_self i _)

/-- **A pass that finds a bucket.** While the leaves change from one piece of a split to the other,
both descriptors are live and no other span is touched. -/
lemma Cut.publishes (hinv : pc.Inv det) (h : pc.Shields inUse) (hn : 0 < n)
    {evs : List SectionEvent} {r : Option ℕ} (hc : Cut 0 n pc evs r pc') :
    Publishes inUse pc.seen (evs.flatMap eventWrites) pc'.seen := by
  cases hc with
  | exact list live =>
    rw [seen_taken live]
    exact .nil
  | noDescriptor => exact .nil
  | @split m big small now rest b pm₁ pm env _ first big_list live pool _ _ _ lookup =>
    obtain ⟨-, slot⟩ := pool
    have hnm := (firstLarger_eq_some first).1
    obtain ⟨b', hb', hub, hp, -⟩ := hinv.listed (n := m) (i := big) (by simp [big_list])
    rw [live] at hb'
    obtain rfl := Option.some.inj hb'
    have hfree : inUse big = none := h.eq_none fun s hs => by
      rw [live] at hs
      exact Option.some.inj hs ▸ hub
    set low : Extent := ⟨b.startPageIdx, n⟩ with hlow
    set high : Extent := ⟨b.startPageIdx + n, b.pageNum - n⟩ with hhigh
    -- both pieces lie in `big`
    have hcovers : ∀ q, low.Contains q ∨ high.Contains q → b.Covers q := by
      intro q hq
      simp only [hlow, hhigh, Extent.Contains] at hq
      exact ⟨by omega, by omega⟩
    have hsb : small ≠ big := by
      intro hsb
      rw [hsb, live] at slot
      exact absurd slot (by simp)
    have hmapped : ∀ q, b.Covers q → ∃ e ∈ pc.mapped, e.Contains q :=
      fun q hq => (hinv.mapped q).mpr ⟨big, (hinv.getSpan_iff q big).mpr ⟨b, live, hq⟩⟩
    set v : Seen := (pc.seen.write (.create small low)).write (.resize big high) with hv
    have hsmall : Publishes inUse v (stores (some small) low) (v.stored (some small) low) := by
      refine publishes_stores (some small) low (fun j hj => ?_)
        (fun q hq => h.not_contains_of_covers hinv live hfree (hcovers q (Or.inl hq)))
      obtain rfl := Option.some.inj hj
      exact ⟨⟨low, by simp [hv, Seen.write, hsb]⟩, fun q hq => hmapped q (hcovers q (Or.inl hq))⟩
    have hbig : Publishes inUse (v.stored (some small) low) (stores (some big) high)
        ((v.stored (some small) low).stored (some big) high) := by
      refine publishes_stores (some big) high (fun j hj => ?_)
        (fun q hq => h.not_contains_of_covers hinv live hfree (hcovers q (Or.inr hq)))
      obtain rfl := Option.some.inj hj
      exact ⟨⟨high, by simp [hv, Seen.write, Seen.stored]⟩,
        fun q hq => hmapped q (hcovers q (Or.inr hq))⟩
    have hseen : PageCache.seen { (((pc.setList 0 m rest).store small (lowPart b n)).store big
        (highPart b n now)).pushFront 0 (b.pageNum - n) big with
        pageMap := pm, clock := now, env := env } =
        (v.stored (some small) low).stored (some big) high := by
      simp only [seen, Seen.stored, hv, Seen.write, Seen.mk.injEq]
      refine ⟨funext lookup, ?_, rfl⟩
      refine (extents_update _ big _).trans ?_
      exact congrArg (Function.update · big (some high)) (extents_update pc.spans small _)
    rw [hseen]
    refine .cons (show pc.extents small = none by simp [extents, slot]) (.cons hfree ?_)
    exact hsmall.append (hbig.append .nil)

/-- **`AllocSpanLocked`.** A refill leaves the spans in use as they are. -/
lemma Outcome.publishes (hinv : pc.Inv det) (h : pc.Shields inUse) {evs : List SectionEvent}
    {r : Option ℕ} (ho : Outcome 0 n pc evs r pc') :
    Publishes inUse pc.seen (evs.flatMap eventWrites) pc'.seen := by
  cases ho with
  | rejected => exact .nil
  | oversizedFailed _ hf | refillFailed _ _ _ _ hf => exact hf.publishes hinv h
  | oversized _ hf => exact hf.publishes hinv h rfl (extents_update pc.spans _ _) rfl
  | found hn _ _ hc => exact hc.publishes hinv h hn
  | refilled hn _ _ _ hr hc =>
    rw [List.flatMap_append]
    exact (hr.publishes hinv h).append (hc.publishes (hr.inv hinv).1 (hr.shields h) hn)

/-! ## Release -/

/-- A merge loop writes the range of the survivor and nothing else. -/
lemma coalesce_publishes (side : Side) {k i : ℕ} (hi : inUse i = none) (fuel : ℕ)
    {retired retired' : List ℕ}
    (hrun : coalesce side k i fuel pc retired = .ok (pc', retired')) :
    ∃ evs, pc'.env.trace = pc.env.trace ++ evs ∧
      Publishes inUse pc.seen (evs.flatMap eventWrites) pc'.seen := by
  induction fuel generalizing pc retired with
  | zero => exact absurd hrun (by simp [coalesce])
  | succ fuel ih =>
    unfold coalesce at hrun
    obtain ⟨s, hs, hrun⟩ := exists_ok_of_bind hrun
    cases hj : (side.neighbour s).bind pc.pageMap.getSpan with
    | none =>
      rw [hj] at hrun
      obtain ⟨rfl, -⟩ := Prod.mk.inj (Except.ok.inj hrun)
      exact ⟨[], (List.append_nil _).symm, .nil⟩
    | some j =>
      rw [hj] at hrun
      obtain ⟨t, ht, hrun⟩ := exists_ok_of_bind hrun
      by_cases hm : mergeable s t = true
      · rw [if_pos hm] at hrun
        obtain ⟨evs, htrace, hpub⟩ := ih hrun
        refine ⟨.erase j (pc.spanLists k t.pageNum) :: .resize i (side.merged s t).extent :: evs,
          ?_, .cons hi ?_⟩
        · rw [htrace]
          simp [resize, record, store, erase]
        · refine (congrArg (fun v => Publishes inUse v _ _) ?_).mp hpub
          simp only [seen, Seen.write, Seen.mk.injEq]
          exact ⟨rfl, extents_update pc.spans i _, rfl⟩
      · rw [if_neg hm] at hrun
        obtain ⟨rfl, -⟩ := Prod.mk.inj (Except.ok.inj hrun)
        exact ⟨[], (List.append_nil _).symm, .nil⟩

/-- Both merge loops. -/
lemma mergeNeighbours_publishes {k i : ℕ} (hi : inUse i = none) {retired : List ℕ}
    (hrun : pc.mergeNeighbours k i = .ok (pc', retired)) :
    ∃ evs, pc'.env.trace = pc.env.trace ++ evs ∧
      Publishes inUse pc.seen (evs.flatMap eventWrites) pc'.seen := by
  obtain ⟨⟨pc₁, r₁⟩, hleft, hright⟩ := exists_ok_of_bind hrun
  obtain ⟨evs₁, htrace₁, hpub₁⟩ := coalesce_publishes .left hi maxPageNum hleft
  obtain ⟨evs₂, htrace₂, hpub₂⟩ := coalesce_publishes .right hi maxPageNum hright
  refine ⟨evs₁ ++ evs₂, by rw [htrace₂, htrace₁, List.append_assoc], ?_⟩
  rw [List.flatMap_append]
  exact hpub₁.append hpub₂

/-- **A release of at most `MAX_PAGE_NUM` pages.** No leaf names an absorbed descriptor when it is
deleted: its pages are pages of the survivor, and their leaves have been stored. -/
lemma Merged.publishes (hinv : pc.Inv det) (h : pc.Shields inUse) {i : ℕ} {s₀ s : Span}
    {retired : List ℕ} (hi : pc.spans i = some s₀) (hu : s₀.used = true) (hfree : inUse i = none)
    (hm : Merged pc i s₀ s retired pc') :
    ∃ evs, pc'.env.trace = pc.env.trace ++ evs ∧
      Publishes inUse pc.seen (evs.flatMap eventWrites) pc'.seen := by
  obtain ⟨pc₂, evs, hloops, hc, hlogs⟩ := hm.loops
  refine ⟨_, hlogs.trace, ?_⟩
  rw [List.flatMap_append, List.flatMap_append]
  have hmerge : Publishes inUse pc.seen (evs.flatMap eventWrites) pc₂.seen := by
    obtain ⟨evs', htrace, hpub⟩ := mergeNeighbours_publishes hfree hloops
    rw [hc.logs.trace] at htrace
    rwa [List.append_cancel_left htrace]
  have hextents₂ : pc₂.extents = Function.update pc.extents i (some s.extent) := by
    funext j
    rw [extents, hc.spans]
    exact congrFun (extents_update pc.spans i (some s)) j
  have hir := hc.used_not_retired hi hu
  -- an absorbed descriptor was free, so no span in use is touched
  have hretired : ∀ j ∈ retired, inUse j = none := by
    intro j hj
    obtain ⟨t, ht, hut⟩ := hc.free j hj
    refine h.eq_none fun t' ht' => ?_
    rw [ht] at ht'
    exact Option.some.inj ht' ▸ hut
  have hold : ∀ q, s.Covers q → ∃ j t, pc.spans j = some t ∧ inUse j = none ∧ t.Covers q := by
    intro q hq
    rcases (hc.covers q).mp hq with h₀ | ⟨j, hj, t, ht, htq⟩
    · exact ⟨i, s₀, hi, hfree, h₀⟩
    · exact ⟨j, t, ht, hretired j hj, htq⟩
  have hstores : Publishes inUse pc₂.seen (stores (some i) s.extent)
      (pc₂.seen.stored (some i) s.extent) := by
    refine publishes_stores (some i) s.extent (fun j hj => ?_) (fun q hq => ?_)
    · obtain rfl := Option.some.inj hj
      refine ⟨⟨s.extent, by simp [seen, hextents₂]⟩, fun q hq => ?_⟩
      obtain ⟨j, t, ht, -, htq⟩ := hold q hq
      show ∃ f ∈ pc₂.mapped, f.Contains q
      rw [hc.mapped]
      exact (hinv.mapped q).mpr ⟨j, (hinv.getSpan_iff q j).mpr ⟨t, ht, htq⟩⟩
    · obtain ⟨j, t, ht, hj, htq⟩ := hold q hq
      exact h.not_contains_of_covers hinv ht hj htq
  -- a leaf that names an absorbed descriptor lies in the survivor
  have hnamed : ∀ j ∈ retired, ∀ q,
      (if s.extent.Contains q then some i else pc₂.pageMap.getSpan q) ≠ some j := by
    intro j hj q hq
    by_cases hqs : s.extent.Contains q
    · rw [if_pos hqs] at hq
      exact hir (Option.some.inj hq ▸ hj)
    · rw [if_neg hqs, hc.pageMap] at hq
      obtain ⟨t, ht, htq⟩ := (hinv.getSpan_iff q j).mp hq
      exact hqs ((hc.covers q).mpr (Or.inr ⟨j, hj, t, ht, htq⟩))
  have hdeletes := publishes_deletes (v := pc₂.seen.stored (some i) s.extent) retired
    fun j hj => ⟨hretired j hj, hnamed j hj⟩
  have hmap : (retired.map SectionEvent.delete).flatMap eventWrites = retired.map .delete := by
    rw [List.flatMap_map, List.map_eq_flatMap]
    rfl
  rw [hmap]
  refine (hmerge.append (hstores.append .nil)).append ?_
  refine (congrArg (Publishes inUse _ _) ?_).mp hdeletes
  simp only [seen, Seen.stored, Seen.mk.injEq]
  refine ⟨?_, ?_, hc.mapped.trans hm.mapped.symm⟩
  · funext q
    rw [hc.pageMap, hm.lookup q]
  · rw [hextents₂]
    funext j
    simp only [extents, hm.spans]
    by_cases hji : j = i
    · subst hji
      simp [hir, freed, Span.extent]
    · by_cases hj : j ∈ retired <;> simp [hji, hj, extents]

/-- **A release of more pages.** The leaves are cleared before the pages go back to the system and
before the descriptor is deleted. -/
lemma Unmapped.publishes (hinv : pc.Inv det) (h : pc.Shields inUse) {i : ℕ} {s : Span}
    (hi : pc.spans i = some s) (hfree : inUse i = none) (hm : Unmapped pc i s pc') :
    ∃ evs, pc'.env.trace = pc.env.trace ++ evs ∧
      Publishes inUse pc.seen (evs.flatMap eventWrites) pc'.seen := by
  refine ⟨_, hm.logs.trace, ?_⟩
  have hstores : Publishes inUse pc.seen (stores none s.extent) (pc.seen.stored none s.extent) :=
    publishes_stores none s.extent (by simp)
      fun q hq => h.not_contains_of_covers hinv hi hfree hq
  refine hstores.append (.cons (fun q hq => if_pos hq) (.cons ⟨hfree, fun q hq => ?_⟩ ?_))
  · have hq' : (if s.extent.Contains q then none else pc.pageMap.getSpan q) = some i := hq
    by_cases hqs : s.extent.Contains q
    · rw [if_pos hqs] at hq'
      exact absurd hq' (by simp)
    · rw [if_neg hqs] at hq'
      obtain ⟨t, ht, htq⟩ := (hinv.getSpan_iff q i).mp hq'
      rw [hi] at ht
      exact hqs (Option.some.inj ht ▸ htq)
  · refine (congrArg (Publishes inUse _ _) ?_).mp .nil
    simp only [seen, Seen.write, Seen.stored, Seen.mk.injEq]
    refine ⟨?_, ?_, hm.mapped.symm⟩
    · funext q
      rw [hm.pageMap]
      exact (PageMap.getSpan_clearRange _ _ _ q).symm
    · funext j
      rw [extents, hm.spans]
      exact (congrFun (extents_update pc.spans i none) j).symm

/-- **`ReleaseSpan`.** -/
lemma releaseSpan_publishes (hinv : pc.Inv det) (h : pc.Shields inUse) {i : ℕ} {s : Span}
    (hi : pc.spans i = some s) (hu : s.used = true) (hfree : inUse i = none) :
    ∃ evs pc', pc.releaseSpan i = .ok pc' ∧ pc'.env.trace = pc.env.trace ++ evs ∧
      Publishes inUse pc.seen (evs.flatMap eventWrites) pc'.seen := by
  rcases Nat.lt_or_ge maxPageNum s.pageNum with hbig | hmax
  · obtain ⟨pc', hrun, hm⟩ := releaseSpan_unmapped hinv hi hbig
    obtain ⟨evs, htrace, hpub⟩ := hm.publishes hinv h hi hfree
    exact ⟨evs, pc', hrun, htrace, hpub⟩
  · obtain ⟨pc', s', retired, hrun, hm⟩ := releaseSpan_merged hinv hi hu hmax
    obtain ⟨evs, htrace, hpub⟩ := hm.publishes hinv h hi hu hfree
    exact ⟨evs, pc', hrun, htrace, hpub⟩

end PageCache

namespace PageSystem

open PageCache

/-- **Lookups between the writes of a critical section are sound.** After every run of the page
layer, with any failures of the system, the pools and the radix nodes, `AllocSpan` of any size and
`ReleaseSpan` of any span that is handed out end in the state that their writes lead to. After
each of these writes every leaf names a live descriptor and a mapped page, and every span in use,
other than the one that is being released, still has its range and is found from all its pages. -/
theorem lookups_sound_during_sections (as : List PageAction) :
    let st := machine.run {} as
    (∀ env n, ∃ r pc', (st.pc.load env).allocSpan n = .ok (r, pc') ∧
      writer.run st.pc.seen pc'.writes = pc'.seen ∧
      ∀ ws, ws <+: pc'.writes → (writer.run st.pc.seen ws).Sound st.pc.usedExtents) ∧
    ∀ env, ∀ i ∈ st.held, ∃ pc', (st.pc.load env).releaseSpan i = .ok pc' ∧
      writer.run st.pc.seen pc'.writes = pc'.seen ∧
      ∀ ws, ws <+: pc'.writes →
        (writer.run st.pc.seen ws).Sound (Function.update st.pc.usedExtents i none) := by
  intro st
  have hst : st.Inv := run_inv as
  refine ⟨fun env n => ?_, fun env i hi => ?_⟩
  · have hinv := hst.scav.inv.load env
    have hshields : (st.pc.load env).Shields st.pc.usedExtents := fun _ _ he => he
    obtain ⟨evs, r, pc', hrun, ho, hlogs, -⟩ := allocSpan_outcome hinv n
    have htrace : pc'.env.trace = evs := hlogs.trace
    have hpub := ho.publishes hinv hshields
    refine ⟨r, pc', hrun, ?_⟩
    rw [writes, htrace]
    exact ⟨hpub.result, hpub.sound (hinv.sound hshields)⟩
  · have hinv := hst.scav.inv.load env
    obtain ⟨⟨s, hs, hu⟩, -⟩ := (hst.held i).mp hi
    have hshields : (st.pc.load env).Shields (Function.update st.pc.usedExtents i none) := by
      intro j e he
      by_cases hji : j = i
      · rw [hji, Function.update_self] at he
        exact absurd he (by simp)
      · rwa [Function.update_of_ne hji] at he
    obtain ⟨evs, pc', hrun, htrace, hpub⟩ := releaseSpan_publishes hinv hshields hs hu (by simp)
    have htrace' : pc'.env.trace = evs := htrace
    refine ⟨pc', hrun, ?_⟩
    rw [writes, htrace']
    exact ⟨hpub.result, hpub.sound (hinv.sound hshields)⟩

end PageSystem

end Ammalloc
