/-
  ZohoOs.Vmm.Clone — what `vmm_clone_address_space` makes of the two trees.

  `Cloning D m` describes the machine in the middle of the walk: the slots at
  the paths `D` are done, the source's other slots are as they were, and the
  clone's other slots are empty.  There is one lemma for each kind of turn (a
  slot with no page below, a page, a table that is attached), and
  `cloneLoop_spec` goes through the loops with them.  It also says how far the
  free frames go: every table of the source takes one, in the order of the
  walk, and the first table that holds a page and gets none has the page
  written through `NULL`.
-/
import ZohoOs.Vmm.Trees
import ZohoOs.Vmm.Shared

namespace ZohoOs

open ZohoOs.Lib
open ZohoOs.Lib.Mem (Aligned)
open ZohoOs.Lib.Radix

/-! ## §1. Sharing one page. -/

section Share

variable {F : PageForest} {a b s t mask : Word} {m : Machine} {p : List (Fin 512)} {i : Fin 512}

theorem shareEntry_eq : shareEntry mask s t m i =
    ((if (m.entry s i &&& flagMask) &&& pageWritable ≠ 0 then
        m.setEntry s i (sharedEntry mask (m.entry s i)) else m).setEntry t i
      (sharedEntry mask (m.entry s i))).refInc (m.entry s i &&& ~~~mask) := rfl

/-- The source's entry, written or not, is `sourceEntry`. -/
theorem Machine.Trees.shareSource (h : m.Trees F) (hs : m.TableOf F a p s)
    (hp : Present (m.entry s i)) (hm : pageMask p.length (m.entry s i) = some mask) :
    ∃ m₁, m₁ = (if (m.entry s i &&& flagMask) &&& pageWritable ≠ 0 then
        m.setEntry s i (sharedEntry mask (m.entry s i)) else m) ∧ m₁.Trees F ∧ m₁.pmm = m.pmm ∧
      m₁.currentPml4 = m.currentPml4 ∧ (∀ r q u, m₁.TableOf F r q u ↔ m.TableOf F r q u) ∧
      ∀ r q u j, m.TableOf F r q u → m₁.entry u j =
        if r = a ∧ q = p ∧ j = i then sourceLeaf p.length (m.entry s i) else m.entry u j := by
  obtain ⟨-, hnone⟩ := pageLeaf_of_mask hp hm
  have hc := covers_of_pageMask hm
  by_cases hw : (m.entry s i &&& flagMask) &&& pageWritable ≠ 0
  · refine ⟨_, (if_pos hw).symm, ?_⟩
    have hclone := pageChild_cloneLeaf hp hm
    rw [cloneLeaf_of_mask hm] at hclone
    refine ⟨h.setLeaf hs hclone.2 (.inl hclone.1), rfl, rfl,
      fun r q u => h.tableOf_setLeaf hs hnone hclone.2, fun r q u j hu => ?_⟩
    rw [h.entry_setEntry_of hs hu, sourceLeaf_of_mask hp hm, sourceEntry, if_pos hw]
  · refine ⟨m, (if_neg hw).symm, h, rfl, rfl, fun _ _ _ => Iff.rfl, fun r q u j hu => ?_⟩
    rw [sourceLeaf_of_mask hp hm, sourceEntry, if_neg hw]
    by_cases hj : r = a ∧ q = p ∧ j = i
    · obtain ⟨rfl, rfl, rfl⟩ := hj
      rw [if_pos ⟨rfl, rfl, rfl⟩, hu.unique hs]
    · rw [if_neg hj]

/-- **Sharing a page** changes one slot of each tree. -/
theorem Machine.Trees.share (h : m.Trees F) (hab : a ≠ b) (hs : m.TableOf F a p s)
    (ht : m.TableOf F b p t) (hp : Present (m.entry s i))
    (hm : pageMask p.length (m.entry s i) = some mask)
    (hold : pageChild p.length (m.entry t i) = none) :
    (shareEntry mask s t m i).Trees F ∧
      (∀ r q u, (shareEntry mask s t m i).TableOf F r q u ↔ m.TableOf F r q u) ∧
      (∀ r q u j, m.TableOf F r q u → (shareEntry mask s t m i).entry u j =
        if q = p ∧ j = i then
          if r = b then cloneLeaf p.length (m.entry s i)
          else if r = a then sourceLeaf p.length (m.entry s i) else m.entry u j
        else m.entry u j) ∧
      (shareEntry mask s t m i).pmm = pmmRefInc m.pmm (m.entry s i &&& ~~~mask) ∧
      (shareEntry mask s t m i).currentPml4 = m.currentPml4 := by
  obtain ⟨m₁, hm₁, htrees, hpmm, hcur, htab, hentry⟩ := h.shareSource hs hp hm
  have hclone := pageChild_cloneLeaf hp hm
  have ht₁ : m₁.TableOf F b p t := (htab _ _ _).mpr ht
  have hold₁ : pageChild p.length (m₁.entry t i) = none := by
    rw [hentry b p t i ht, if_neg fun hr => hab hr.1.symm]
    exact hold
  rw [cloneLeaf_of_mask hm] at hclone ⊢
  have heq : shareEntry mask s t m i = (m₁.setEntry t i (sharedEntry mask (m.entry s i))).refInc
      (m.entry s i &&& ~~~mask) := by
    rw [shareEntry_eq, ← hm₁]
  rw [heq]
  refine ⟨(htrees.setLeaf ht₁ hclone.2 (.inl hclone.1)).refInc _, fun r q u => ?_,
    fun r q u j hu => ?_, ?_, hcur⟩
  · exact (htrees.tableOf_setLeaf ht₁ hold₁ hclone.2).trans (htab r q u)
  · rw [Machine.entry_refInc, htrees.entry_setEntry_of ht₁ ((htab r q u).mpr hu), hentry r q u j hu]
    by_cases hj : q = p ∧ j = i
    · simp only [hj, and_self, and_true, if_true]
    · rw [if_neg fun hr => hj hr.2, if_neg fun hr => hj hr.2, if_neg hj]
  · show pmmRefInc m₁.pmm _ = _
    rw [hpmm]

end Share

/-! ## §2. In the middle of the walk. -/

/-- What the clone's slot holds, next to the source's entry `e`: the page, a
    table where the source has one, or nothing. -/
inductive EntryCloned (d : Nat) (e : Word) : Word → Prop
  | page (h : pageLeaf d e ≠ none) : EntryCloned d e (cloneLeaf d e)
  | table {n : Word} (h : pageChild d e ≠ none) (hn : Aligned n) : EntryCloned d e (tableEntry n)
  | empty (h : pageLeaf d e = none) : EntryCloned d e 0

/-- **In the middle of the walk** from `m₀`, where `a` is the source and `b`
    the clone: the slots at the paths `D` are done. -/
structure Cloning (F : PageForest) (a b : Word) (m₀ : Machine) (D : Set (List (Fin 512)))
    (m : Machine) : Prop where
  trees : m.Trees F
  tables : ∀ r ≠ b, ∀ q u, m.TableOf F r q u ↔ m₀.TableOf F r q u
  kept : ∀ r ≠ b, ∀ q u i, m₀.TableOf F r q u → (r = a → i :: q ∉ D) → m.entry u i = m₀.entry u i
  source : ∀ q u i, m₀.TableOf F a q u → i :: q ∈ D →
    m.entry u i = sourceLeaf q.length (m₀.entry u i)
  fresh : ∀ q u i, m.TableOf F b q u → i ∈ pageSlots q.length → i :: q ∉ D → m.entry u i = 0
  cloned : ∀ q u i, m.TableOf F b q u → i ∈ pageSlots q.length → i :: q ∈ D →
    ∃ s, m₀.TableOf F a q s ∧ EntryCloned q.length (m₀.entry s i) (m.entry u i)
  reach : ∀ q ∈ D, (∃ q', q <:+ q' ∧ HoldsPage m₀ a q') → ∃ u, m.TableOf F b q u
  shared : m.entry b 0 = m₀.entry b 0
  current : m.currentPml4 = m₀.currentPml4

/-- The paths through a slot. -/
def through (x : List (Fin 512)) : Set (List (Fin 512)) := {y | x <:+ y}

namespace Cloning

variable {F : PageForest} {a b s t n mask : Word} {m₀ m : Machine} {D : Set (List (Fin 512))}
  {p : List (Fin 512)} {i : Fin 512} {rest : List Word}

/-- **A slot with no page at it or below it** is done. -/
theorem skip (h : Cloning F a b m₀ D m) (hab : a ≠ b) (hs : m₀.TableOf F a p s)
    (ht : m.TableOf F b p t) (hi : i ∈ pageSlots p.length) (hD : ∀ y ∈ through (i :: p), y ∉ D)
    (hleaf : pageLeaf p.length (m₀.entry s i) = none)
    (hno : ∀ q, i :: p <:+ q → ¬ HoldsPage m₀ a q) :
    Cloning F a b m₀ (D ∪ through (i :: p)) m := by
  have hz : m.entry t i = 0 := h.fresh p t i ht hi (hD _ List.suffix_rfl)
  have hnone : tableAt pageChild m.entry b (i :: p) = none := by
    rw [tableAt_cons ht.2, hz, pageChild_zero]
  refine ⟨h.trees, h.tables, fun r hr q u j hu hj => ?_, fun q u j hu hy => ?_,
    fun q u j hu hj hn => ?_, fun q u j hu hj hy => ?_, fun q hq hpage => ?_, h.shared, h.current⟩
  · exact h.kept r hr q u j hu fun hra hy => hj hra (.inl hy)
  · by_cases hin : j :: q ∈ D
    · exact h.source q u j hu hin
    · -- a slot below the one of the turn holds no page, so that it is as it was
      have hthru : i :: p <:+ j :: q := hy.resolve_left hin
      have hkeep : pageLeaf q.length (m₀.entry u j) = none := by
        rcases List.suffix_cons_iff.mp hthru with heq | hsuf
        · obtain ⟨rfl, rfl⟩ := List.cons.inj heq
          rw [hu.unique hs]
          exact hleaf
        · by_contra hpage
          exact hno q hsuf ⟨u, j, hu.2, hpage⟩
      rw [h.kept a hab q u j hu fun _ => hin, sourceLeaf_of_none hkeep]
  · exact h.fresh q u j hu hj fun hy => hn (.inl hy)
  · rcases hy with hy | hthru
    · exact h.cloned q u j hu hj hy
    · rcases List.suffix_cons_iff.mp hthru with heq | hsuf
      · obtain ⟨rfl, rfl⟩ := List.cons.inj heq
        rw [hu.unique ht, hz]
        exact ⟨s, hs, .empty hleaf⟩
      · have hu' := hu.2
        rw [tableAt_none_of_suffix hnone hsuf] at hu'
        cases hu'
  · rcases hq with hq | hthru
    · exact h.reach q hq hpage
    · obtain ⟨q', hsuf, hpage⟩ := hpage
      exact absurd hpage (hno q' (hthru.trans hsuf))

/-- The slots of a root that the walk looks at are the user's. -/
theorem slot_user (hi : i ∈ pageSlots p.length) (hp : p = []) : i ∈ userSlots := by
  subst hp
  intro h0
  rw [h0] at hi
  exact absurd (mem_pageSlots.mp hi rfl) (by decide)

theorem slot_zero (hi : i ∈ pageSlots p.length) : ¬ (([] : List (Fin 512)) = p ∧ 0 = i) := fun hc =>
  slot_user hi hc.1.symm hc.2.symm

/-- **A page** is done when it is shared. -/
theorem page (h : Cloning F a b m₀ D m) (hab : a ≠ b) (hs : m₀.TableOf F a p s)
    (ht : m.TableOf F b p t) (hi : i ∈ pageSlots p.length) (hD : ∀ y ∈ through (i :: p), y ∉ D)
    (hp : Present (m₀.entry s i)) (hm : pageMask p.length (m₀.entry s i) = some mask) :
    Cloning F a b m₀ (D ∪ through (i :: p)) (shareEntry mask s t m i) := by
  have hself : i :: p ∈ D ∪ through (i :: p) := .inr List.suffix_rfl
  have hse : m.entry s i = m₀.entry s i := h.kept a hab p s i hs fun _ => hD _ List.suffix_rfl
  have hz : m.entry t i = 0 := h.fresh p t i ht hi (hD _ List.suffix_rfl)
  obtain ⟨hleaf, hchild⟩ := pageLeaf_of_mask hp hm
  -- neither tree has a table below the slot
  have hsrc : ∀ q, i :: p <:+ q → tableAt pageChild m₀.entry a q = none := fun q hq =>
    tableAt_none_of_suffix ((tableAt_cons hs.2).trans hchild) hq
  have hdst : ∀ q, i :: p <:+ q → tableAt pageChild m.entry b q = none := fun q hq =>
    tableAt_none_of_suffix ((tableAt_cons ht.2).trans (pageChild_of_zero hz)) hq
  rw [← hse] at hp hm
  obtain ⟨htrees, htab, hentry, -, hcur⟩ :=
    h.trees.share hab ((h.tables a hab p s).mpr hs) ht hp hm (pageChild_of_zero hz)
  rw [hse] at hentry
  refine ⟨htrees, fun r hr q u => (htab r q u).trans (h.tables r hr q u), fun r hr q u j hu hj => ?_,
    fun q u j hu hy => ?_, fun q u j hu hj hn => ?_, fun q u j hu hj hy => ?_, fun q hq hpage => ?_,
    ?_, hcur.trans h.current⟩
  · rw [hentry r q u j ((h.tables r hr q u).mpr hu)]
    by_cases hslot : q = p ∧ j = i
    · obtain ⟨rfl, rfl⟩ := hslot
      have hra : r ≠ a := fun hra => hj hra hself
      rw [if_pos ⟨rfl, rfl⟩, if_neg hr, if_neg hra]
      exact h.kept r hr q u j hu fun he => absurd he hra
    · rw [if_neg hslot]
      exact h.kept r hr q u j hu fun hra hy => hj hra (.inl hy)
  · rw [hentry a q u j ((h.tables a hab q u).mpr hu)]
    by_cases hslot : q = p ∧ j = i
    · obtain ⟨rfl, rfl⟩ := hslot
      rw [if_pos ⟨rfl, rfl⟩, if_neg hab, if_pos rfl, hu.unique hs]
    · rw [if_neg hslot]
      rcases hy with hy | hthru
      · exact h.source q u j hu hy
      · rcases List.suffix_cons_iff.mp hthru with heq | hsuf
        · obtain ⟨rfl, rfl⟩ := List.cons.inj heq
          exact absurd ⟨rfl, rfl⟩ hslot
        · have hu' := hu.2
          rw [hsrc q hsuf] at hu'
          cases hu'
  · have hu' := (htab b q u).mp hu
    rw [hentry b q u j hu']
    by_cases hslot : q = p ∧ j = i
    · obtain ⟨rfl, rfl⟩ := hslot
      exact absurd hself hn
    · rw [if_neg hslot]
      exact h.fresh q u j hu' hj fun hy => hn (.inl hy)
  · have hu' := (htab b q u).mp hu
    rw [hentry b q u j hu']
    by_cases hslot : q = p ∧ j = i
    · obtain ⟨rfl, rfl⟩ := hslot
      rw [if_pos ⟨rfl, rfl⟩, if_pos rfl]
      exact ⟨s, hs, .page (by rw [hleaf]; exact Option.some_ne_none _)⟩
    · rw [if_neg hslot]
      rcases hy with hy | hthru
      · exact h.cloned q u j hu' hj hy
      · rcases List.suffix_cons_iff.mp hthru with heq | hsuf
        · obtain ⟨rfl, rfl⟩ := List.cons.inj heq
          exact absurd ⟨rfl, rfl⟩ hslot
        · have hnone := hu'.2
          rw [hdst q hsuf] at hnone
          cases hnone
  · rcases hq with hq | hthru
    · obtain ⟨u, hu⟩ := h.reach q hq hpage
      exact ⟨u, (htab b q u).mpr hu⟩
    · obtain ⟨q', hsuf, u, j, hu, -⟩ := hpage
      rw [hsrc q' (hthru.trans hsuf)] at hu
      cases hu
  · have hroot : m.TableOf F b [] b := ⟨Forest.Path.root ht.1.1, rfl⟩
    rw [hentry b [] b 0 hroot, if_neg (slot_zero hi)]
    exact h.shared

/-- **An attached table** is one more slot done; what is below it is not. -/
theorem attach (h : Cloning F a b m₀ D m) (hab : a ≠ b) (hslots : userSlots ⊆ F.slots b)
    (hs : m₀.TableOf F a p s) (ht : m.TableOf F b p t) (hi : i ∈ pageSlots p.length)
    (hD : ∀ y ∈ through (i :: p), y ∉ D) (hlen : p.length < 3)
    (hchild : pageChild p.length (m₀.entry s i) ≠ none) (hst : m.pmm.freeStack = n :: rest) :
    Cloning F a b m₀ (insert (i :: p) D) (m.attachTable t i n) ∧
      (m.attachTable t i n).TableOf F b (i :: p) n ∧
      ∀ q u, m.TableOf F b q u → (m.attachTable t i n).TableOf F b q u := by
  have hz : m.entry t i = 0 := h.fresh p t i ht hi (hD _ List.suffix_rfl)
  have hpath : F.Path b (i :: p) := ht.1.cons fun hp => hslots (slot_user hi hp)
  obtain ⟨htrees, htab⟩ := h.trees.attachTable ht hlen hpath (pageChild_of_zero hz) hst
  obtain ⟨hn, -, hfresh⟩ := h.trees.top hst
  -- one entry is written, and the new table is empty
  have hentry : ∀ r q u j, m.TableOf F r q u → (m.attachTable t i n).entry u j
      = if r = b ∧ q = p ∧ j = i then tableEntry n else m.entry u j := fun r q u j hu =>
    h.trees.entry_attachTable_of ht hst hu
  have hnew : ∀ j, (m.attachTable t i n).entry n j = 0 := fun j =>
    h.trees.entry_attachTable_self ht hst j
  refine ⟨⟨htrees, fun r hr q u => ?_, fun r hr q u j hu hj => ?_, fun q u j hu hy => ?_,
    fun q u j hu hj hny => ?_, fun q u j hu hj hy => ?_, fun q hq hpage => ?_, ?_, ?_⟩,
    (htab _ _ _).mpr (.inr ⟨rfl, rfl, rfl⟩), fun q u hu => (htab _ _ _).mpr (.inl hu)⟩
  · rw [htab, or_iff_left fun hc => hr hc.1]
    exact h.tables r hr q u
  · rw [hentry r q u j ((h.tables r hr q u).mpr hu), if_neg fun hc => hr hc.1]
    exact h.kept r hr q u j hu fun hra hy => hj hra (.inr hy)
  · rw [hentry a q u j ((h.tables a hab q u).mpr hu), if_neg fun hc => hab hc.1]
    rcases hy with heq | hy
    · -- the slot of the new table: the source keeps its entry, which is no page
      obtain ⟨rfl, rfl⟩ := List.cons.inj heq
      rw [hu.unique hs, sourceLeaf_of_none (pageLeaf_of_child hchild)]
      exact h.kept a hab q s j hs fun _ => hD _ List.suffix_rfl
    · exact h.source q u j hu hy
  · rcases (htab _ _ _).mp hu with hu | ⟨-, -, rfl⟩
    · rw [hentry b q u j hu, if_neg]
      · exact h.fresh q u j hu hj fun hy => hny (.inr hy)
      · rintro ⟨-, rfl, rfl⟩
        exact hny (.inl rfl)
    · exact hnew j
  · rcases (htab _ _ _).mp hu with hu | ⟨-, rfl, -⟩
    · rw [hentry b q u j hu]
      -- the slot is cloned now; the others were
      by_cases hslot : q = p ∧ j = i
      · obtain ⟨rfl, rfl⟩ := hslot
        rw [if_pos ⟨rfl, rfl, rfl⟩]
        exact ⟨s, hs, .table hchild hn⟩
      · rw [if_neg fun hc => hslot hc.2]
        rcases hy with heq | hy
        · obtain ⟨rfl, rfl⟩ := List.cons.inj heq
          exact absurd ⟨rfl, rfl⟩ hslot
        · exact h.cloned q u j hu hj hy
    · rcases hy with heq | hy
      · exact absurd (congrArg List.length heq) (by simp)
      · exact absurd hy (hD _ (List.suffix_cons j (i :: p)))
  · rcases hq with rfl | hq
    · exact ⟨n, (htab _ _ _).mpr (.inr ⟨rfl, rfl, rfl⟩)⟩
    · obtain ⟨u, hu⟩ := h.reach q hq hpage
      exact ⟨u, (htab _ _ _).mpr (.inl hu)⟩
  · have hroot : m.TableOf F b [] b := ⟨Forest.Path.root ht.1.1, rfl⟩
    rw [hentry b [] b 0 hroot, if_neg fun hc => slot_zero hi hc.2]
    exact h.shared
  · rw [Machine.attachTable, Machine.currentPml4_setEntry, currentPml4_zeroTable]
    exact h.current

end Cloning

/-! ## §3. The allocator. -/

/-- One more reference, in `uint32_t` arithmetic. -/
def countUp (c : Nat) : Nat := (c + 1) % 2 ^ 32

/-- `k` frames were taken, and each page of `pages` got a further reference. -/
structure Charged (p : Pmm) (pages : List Word) (k : Nat) (p' : Pmm) : Prop where
  stack : p'.freeStack = p.freeStack.drop k
  counts : ∀ f < maxFrames, (∀ a ∈ p.freeStack, frameOf a ≠ f) →
    p'.refCounts f = countUp^[pages.countP fun a => frameOf a = f] (p.refCounts f)

namespace Charged

variable {p p' p'' : Pmm} {pages pages' : List Word} {k k' : Nat} {n : Word} {rest : List Word}

theorem refl (p : Pmm) : Charged p [] 0 p := ⟨rfl, fun _ _ _ => rfl⟩

theorem trans (h : Charged p pages k p') (h' : Charged p' pages' k' p'') :
    Charged p (pages ++ pages') (k + k') p'' := by
  refine ⟨by rw [h'.stack, h.stack, List.drop_drop], fun f hf hnot => ?_⟩
  have hnot' : ∀ a ∈ p'.freeStack, frameOf a ≠ f := fun a ha => by
    rw [h.stack] at ha
    exact hnot a (List.mem_of_mem_drop ha)
  rw [h'.counts f hf hnot', h.counts f hf hnot, List.countP_append, Nat.add_comm,
    Function.iterate_add_apply]

theorem alloc (hst : p.freeStack = n :: rest) : Charged p [] 1 (pmmAllocFrame p).2 := by
  rw [pmmAllocFrame_cons hst]
  refine ⟨by rw [hst]; rfl, fun f _ hnot => ?_⟩
  have hne : f ≠ frameOf n := fun he => hnot n (by rw [hst]; exact List.mem_cons_self) he.symm
  exact Function.update_of_ne hne _ _

theorem refInc (p : Pmm) (a : Word) : Charged p [a] 0 (pmmRefInc p a) := by
  refine ⟨freeStack_pmmRefInc p a, fun f hf _ => ?_⟩
  unfold pmmRefInc
  by_cases ha : frameOf a = f
  · subst ha
    simp [hf, countUp]
  · have hne : f ≠ frameOf a := fun he => ha he.symm
    by_cases hlt : frameOf a < maxFrames
    · simp [ha, hlt, Function.update_of_ne hne]
    · simp [ha, hlt]

/-- Without free frames any number may be asked for. -/
theorem empty (hst : p.freeStack = []) (k : Nat) (hst' : p'.freeStack = [])
    (hc : p'.refCounts = p.refCounts) : Charged p [] k p' := by
  refine ⟨by rw [hst, hst', List.drop_nil], fun f _ _ => ?_⟩
  rw [hc]
  rfl

end Charged

/-! ## §4. The loops. -/

/-- The paths of the source's tables below a path, in the order of the walk.
    A path list is long, so that no unification may start to compute it. -/
@[irreducible] def tablesBelow (m : Machine) (root : Word) (n : Nat) (p : List (Fin 512)) :
    List (List (Fin 512)) :=
  (pathsBelow pageSlots n p).filter fun q => (tableAt pageChild m.entry root q).isSome

/-- The frames of the source's pages below a path, in the order of the walk. -/
@[irreducible] def pagesBelow (m : Machine) (root : Word) (n : Nat) (p : List (Fin 512)) : List Word :=
  (pathsBelow pageSlots n p).filterMap (leafAt pageChild pageLeaf m.entry root)

theorem mem_tablesBelow {m : Machine} {root : Word} {n : Nat} {p q : List (Fin 512)} :
    q ∈ tablesBelow m root n p ↔
      q ∈ pathsBelow pageSlots n p ∧ (tableAt pageChild m.entry root q).isSome := by
  rw [tablesBelow]
  exact List.mem_filter

/-- What is at a slot and below it. -/
def tablesAt (m : Machine) (root : Word) (n : Nat) (x : List (Fin 512)) : List (List (Fin 512)) :=
  (x :: pathsBelow pageSlots n x).filter fun q => (tableAt pageChild m.entry root q).isSome

def pagesAt (m : Machine) (root : Word) (n : Nat) (x : List (Fin 512)) : List Word :=
  (x :: pathsBelow pageSlots n x).filterMap (leafAt pageChild pageLeaf m.entry root)

/-- The walk went from `x` to `x'`, past the tables `tables` and the pages
    `pages` of the source. -/
structure CloneWalked (F : PageForest) (a b : Word) (m₀ : Machine) (D : Set (List (Fin 512)))
    (tables : List (List (Fin 512))) (pages : List Word) (x x' : CloneState) : Prop where
  fits : Fits (HoldsPage m₀ a) x.1.pmm.freeStack.length tables
  cloning : Cloning F a b m₀ D x'.1
  kept : ∀ q u, x.1.TableOf F b q u → x'.1.TableOf F b q u
  writes : ∃ ws, x'.2 = x.2 ++ ws ∧ ws.map PageWrite.phys = pages ∧ ∀ w ∈ ws, 0 ∉ w.tables
  charged : Charged x.1.pmm pages tables.length x'.1.pmm

/-- How a part of the walk ends: done, or with a page written through `NULL`
    where the free frames do not suffice. -/
def CloneOutcome (F : PageForest) (a b : Word) (m₀ : Machine) (D : Set (List (Fin 512)))
    (tables : List (List (Fin 512))) (pages : List Word) (x x' : CloneState) : Prop :=
  CloneWalked F a b m₀ D tables pages x x' ∨
    ¬ Fits (HoldsPage m₀ a) x.1.pmm.freeStack.length tables ∧ ThroughNull x'.2

section Walk

variable {F : PageForest} {a b s t : Word} {m₀ : Machine} {D D' : Set (List (Fin 512))}
  {tables tables' : List (List (Fin 512))} {pages pages' : List Word} {x x' x'' : CloneState}
  {p : List (Fin 512)} {i : Fin 512} {n : Nat} {above : List Word}

/-- One part of the walk after the other. -/
theorem CloneWalked.trans (h : CloneWalked F a b m₀ D tables pages x x')
    (h' : CloneWalked F a b m₀ D' tables' pages' x' x'') :
    CloneWalked F a b m₀ D' (tables ++ tables') (pages ++ pages') x x'' := by
  obtain ⟨ws, hws, hpages, hnull⟩ := h.writes
  obtain ⟨ws', hws', hpages', hnull'⟩ := h'.writes
  have hlen : x'.1.pmm.freeStack.length = x.1.pmm.freeStack.length - tables.length := by
    rw [h.charged.stack, List.length_drop]
  refine ⟨fits_append.mpr ⟨h.fits, ?_⟩, h'.cloning, fun q u hu => h'.kept q u (h.kept q u hu),
    ⟨ws ++ ws', ?_, ?_, fun w hw => ?_⟩, ?_⟩
  · have hfits := h'.fits
    rwa [hlen] at hfits
  · rw [hws', hws, List.append_assoc]
  · rw [List.map_append, hpages, hpages']
  · rcases List.mem_append.mp hw with hw | hw
    · exact hnull w hw
    · exact hnull' w hw
  · rw [List.length_append]
    exact h.charged.trans h'.charged

theorem CloneOutcome.trans (h : CloneOutcome F a b m₀ D tables pages x x') (hgrows : x'.2 <+: x''.2)
    (h' : CloneWalked F a b m₀ D tables pages x x' → CloneOutcome F a b m₀ D' tables' pages' x' x'') :
    CloneOutcome F a b m₀ D' (tables ++ tables') (pages ++ pages') x x'' := by
  rcases h with h | ⟨hfits, hnull⟩
  · rcases h' h with h' | ⟨hfits, hnull⟩
    · exact .inl (h.trans h')
    · refine .inr ⟨fun hc => hfits ?_, hnull⟩
      have hrest := (fits_append.mp hc).2
      rwa [h.charged.stack, List.length_drop]
  · exact .inr ⟨fun hc => hfits (fits_append.mp hc).1, hnull.mono hgrows⟩

/-- A failed allocation changes no table. -/
theorem Cloning.failed {m : Machine} (h : Cloning F a b m₀ D m) (k : Nat) :
    Cloning F a b m₀ D (m.failed k) :=
  ⟨h.trees.of_pmm rfl, h.tables, h.kept, h.source, h.fresh, h.cloned, h.reach, h.shared, h.current⟩

/-- A path that extends one of the forest's is one of the forest's. -/
theorem path_of_suffix {r : Word} {q : List (Fin 512)} (h : F.Path r (i :: p)) (hq : i :: p <:+ q) :
    F.Path r q := by
  obtain ⟨front, rfl⟩ := hq
  refine ⟨h.1, fun j hj => h.2 j ?_⟩
  rwa [List.getLast?_append_of_ne_nil _ (List.cons_ne_nil i p)] at hj

/-- Where the walk has not been, the source holds the pages it held. -/
theorem Cloning.holdsPage_iff {m : Machine} (h : Cloning F a b m₀ D m) (hab : a ≠ b)
    (hpath : F.Path a (i :: p)) (hD : ∀ y ∈ through (i :: p), y ∉ D) {q : List (Fin 512)}
    (hq : i :: p <:+ q) : HoldsPage m a q ↔ HoldsPage m₀ a q := by
  have hqpath := path_of_suffix hpath hq
  have hkept : ∀ u j, m₀.TableOf F a q u → m.entry u j = m₀.entry u j := fun u j hu =>
    h.kept a hab q u j hu fun _ => hD _ (hq.trans (List.suffix_cons j q))
  constructor
  · intro hpage
    obtain ⟨u, j, hu, hleaf⟩ := hpage
    have hu₀ : m₀.TableOf F a q u := (h.tables a hab q u).mp ⟨hqpath, hu⟩
    rw [hkept u j hu₀] at hleaf
    exact ⟨u, j, hu₀.2, hleaf⟩
  · intro hpage
    obtain ⟨u, j, hu, hleaf⟩ := hpage
    have hu₀ : m₀.TableOf F a q u := ⟨hqpath, hu⟩
    rw [← hkept u j hu₀] at hleaf
    exact ⟨u, j, ((h.tables a hab q u).mpr hu₀).2, hleaf⟩

theorem Cloning.hasPage_iff {m : Machine} (h : Cloning F a b m₀ D m) (hab : a ≠ b)
    (hpath : F.Path a (i :: p)) (hD : ∀ y ∈ through (i :: p), y ∉ D) :
    HasPage m a n (i :: p) ↔ HasPage m₀ a n (i :: p) := by
  have hiff : ∀ q ∈ (i :: p) :: pathsBelow pageSlots n (i :: p),
      (HoldsPage m a q ↔ HoldsPage m₀ a q) := by
    intro q hq
    refine h.holdsPage_iff hab hpath hD ?_
    rcases List.mem_cons.mp hq with rfl | hq
    · exact List.suffix_rfl
    · exact suffix_of_mem_pathsBelow hq
  unfold HasPage
  constructor
  · intro hpage
    obtain ⟨q, hq, hpage⟩ := hpage
    exact ⟨q, hq, (hiff q hq).mp hpage⟩
  · intro hpage
    obtain ⟨q, hq, hpage⟩ := hpage
    exact ⟨q, hq, (hiff q hq).mpr hpage⟩

/-- The page at the end of a path. -/
theorem leafAt_cons {m : Machine} {root u : Word} (hu : tableAt pageChild m.entry root p = some u) :
    leafAt pageChild pageLeaf m.entry root (i :: p) = pageLeaf p.length (m.entry u i) := by
  rw [leafAt, hu]
  rfl

/-- Without a table at a slot there is only the page at it. -/
theorem tablesAt_none {m : Machine} {root : Word}
    (h : tableAt pageChild m.entry root (i :: p) = none) : tablesAt m root n (i :: p) = [] := by
  rw [tablesAt, List.filter_cons_of_neg (by rw [h]; exact Bool.false_ne_true)]
  exact filter_pathsBelow_none h

/-- Where no slot below a path leads to a page, the sweep finds none. -/
theorem leaves_below_nil {m : Machine} {root : Word}
    (hno : ∀ q j, i :: p <:+ q → leafAt pageChild pageLeaf m.entry root (j :: q) = none) :
    (pathsBelow pageSlots n (i :: p)).filterMap (leafAt pageChild pageLeaf m.entry root) = [] := by
  refine List.filterMap_eq_nil_iff.mpr fun q hq => ?_
  have hsuf := suffix_of_mem_pathsBelow hq
  have hlen := length_lt_of_mem_pathsBelow hq
  match q, hsuf, hlen with
  | j :: q, hsuf, hlen =>
    rcases List.suffix_cons_iff.mp hsuf with heq | hsuf
    · rw [heq] at hlen
      exact absurd hlen (Nat.lt_irrefl _)
    · exact hno q j hsuf

theorem pagesAt_none {m : Machine} {root : Word}
    (h : tableAt pageChild m.entry root (i :: p) = none) :
    pagesAt m root n (i :: p) = (leafAt pageChild pageLeaf m.entry root (i :: p)).toList := by
  have hbelow : (pathsBelow pageSlots n (i :: p)).filterMap
      (leafAt pageChild pageLeaf m.entry root) = [] := by
    apply leaves_below_nil
    intro q j hsuf
    rw [leafAt, tableAt_none_of_suffix h hsuf]
    rfl
  rw [pagesAt, List.filterMap_cons, hbelow]
  cases leafAt pageChild pageLeaf m.entry root (i :: p) <;> rfl

/-- With a table at a slot there is what hangs below it. -/
theorem tablesAt_some {m : Machine} {root u : Word}
    (h : tableAt pageChild m.entry root (i :: p) = some u) :
    tablesAt m root n (i :: p) = (i :: p) :: tablesBelow m root n (i :: p) := by
  rw [tablesAt, List.filter_cons_of_pos (by rw [h]; rfl), tablesBelow]

theorem pagesAt_some {m : Machine} {root : Word}
    (h : leafAt pageChild pageLeaf m.entry root (i :: p) = none) :
    pagesAt m root n (i :: p) = pagesBelow m root n (i :: p) := by
  rw [pagesAt, List.filterMap_cons, h, pagesBelow]

/-- No page below a slot. -/
theorem pagesBelow_nil {m : Machine} {root : Word}
    (hno : ∀ q, i :: p <:+ q → ¬ HoldsPage m root q) : pagesBelow m root n (i :: p) = [] := by
  rw [pagesBelow]
  apply leaves_below_nil
  intro q j hsuf
  cases hu : tableAt pageChild m.entry root q with
  | none =>
    rw [leafAt, hu]
    rfl
  | some u =>
    rw [leafAt_cons hu]
    by_contra hleaf
    exact hno q hsuf ⟨u, j, hu, hleaf⟩

/-- The paths through the slots of a table. -/
def throughSlots (p : List (Fin 512)) (l : List (Fin 512)) : Set (List (Fin 512)) :=
  {y | ∃ i ∈ l, i :: p <:+ y}

/-- What goes through a slot ends there or goes on through a slot of the table
    below. -/
theorem through_eq : insert (i :: p) D ∪ throughSlots (i :: p) (pageSlots (i :: p).length)
    = D ∪ through (i :: p) := by
  have hslots : ∀ j : Fin 512, j ∈ pageSlots (i :: p).length := fun j =>
    mem_pageSlots.mpr fun h0 => absurd h0 (by simp)
  ext y
  constructor
  · intro hy
    rcases hy with (rfl | hy) | ⟨j, -, hy⟩
    · exact .inr List.suffix_rfl
    · exact .inl hy
    · exact .inr ((List.suffix_cons j (i :: p)).trans hy)
  · intro hy
    rcases hy with hy | hy
    · exact .inl (.inr hy)
    · rcases suffix_cases hy with rfl | ⟨j, hj⟩
      · exact .inl (.inl rfl)
      · exact .inr ⟨j, hslots j, hj⟩

/-- The loop over the tables at the slot `x`, below `above`, does its part of
    the walk, wherever it is called. -/
def LoopSpec (F : PageForest) (a b : Word) (m₀ : Machine) (n : Nat) (q : List (Fin 512))
    (above : List Word) : Prop :=
  ∀ s t D (x : CloneState), Cloning F a b m₀ D x.1 → m₀.TableOf F a q s → x.1.TableOf F b q t →
    (∀ j ∈ pageSlots q.length, ∀ y ∈ through (j :: q), y ∉ D) →
    CloneOutcome F a b m₀ (D ∪ throughSlots q (pageSlots q.length)) (tablesBelow m₀ a n q)
      (pagesBelow m₀ a n q) x (cloneLoop n q.length s t above x)

/-- The turn of a page. -/
theorem cloneTurn_page_spec (h : Cloning F a b m₀ D x.1) (hab : a ≠ b) (hs : m₀.TableOf F a p s)
    (ht : x.1.TableOf F b p t) (hi : i ∈ pageSlots p.length) (hD : ∀ y ∈ through (i :: p), y ∉ D)
    (h0 : 0 ∉ above) {mask : Word} (hp : Present (m₀.entry s i))
    (hm : pageMask p.length (m₀.entry s i) = some mask) :
    CloneWalked F a b m₀ (D ∪ through (i :: p)) (tablesAt m₀ a n (i :: p))
      (pagesAt m₀ a n (i :: p)) x
      (cloneTurn (cloneLoop n (p.length + 1)) p.length s t above x i) := by
  have hse : x.1.entry s i = m₀.entry s i := h.kept a hab p s i hs fun _ => hD _ List.suffix_rfl
  have hz : x.1.entry t i = 0 := h.fresh p t i ht hi (hD _ List.suffix_rfl)
  obtain ⟨hleaf, hchild⟩ := pageLeaf_of_mask hp hm
  have hnone : tableAt pageChild m₀.entry a (i :: p) = none := (tableAt_cons hs.2).trans hchild
  have hpage := h.page hab hs ht hi hD hp hm
  rw [tablesAt_none hnone, pagesAt_none hnone, leafAt_cons hs.2, hleaf]
  rw [← hse] at hp hm
  obtain ⟨-, htab, -, hpmm, -⟩ :=
    h.trees.share hab ((h.tables a hab p s).mpr hs) ht hp hm (pageChild_of_zero hz)
  rw [cloneTurn_page hp hm, hse]
  refine ⟨trivial, hpage, fun q u hu => (htab b q u).mpr hu, ⟨_, rfl, rfl, ?_⟩, ?_⟩
  · intro w hw
    rw [List.mem_singleton.mp hw]
    exact fun hmem => (List.mem_cons.mp hmem).elim (fun he => h.trees.nonzero ht he.symm) h0
  · show Charged x.1.pmm _ 0 (shareEntry mask s t x.1 i).pmm
    rw [hpmm, hse]
    exact .refInc x.1.pmm _

/-- The turn of an empty slot. -/
theorem cloneTurn_absent_spec (h : Cloning F a b m₀ D x.1) (hab : a ≠ b) (hs : m₀.TableOf F a p s)
    (ht : x.1.TableOf F b p t) (hi : i ∈ pageSlots p.length) (hD : ∀ y ∈ through (i :: p), y ∉ D)
    (hp : ¬ Present (m₀.entry s i)) :
    CloneWalked F a b m₀ (D ∪ through (i :: p)) (tablesAt m₀ a n (i :: p))
      (pagesAt m₀ a n (i :: p)) x
      (cloneTurn (cloneLoop n (p.length + 1)) p.length s t above x i) := by
  have hse : x.1.entry s i = m₀.entry s i := h.kept a hab p s i hs fun _ => hD _ List.suffix_rfl
  have hleaf : pageLeaf p.length (m₀.entry s i) = none := pageLeaf_of_not_present hp
  have hnone : tableAt pageChild m₀.entry a (i :: p) = none :=
    (tableAt_cons hs.2).trans (pageChild_of_not_present hp)
  rw [tablesAt_none hnone, pagesAt_none hnone, leafAt_cons hs.2, hleaf,
    cloneTurn_absent (by rw [hse]; exact hp)]
  have hskip := h.skip hab hs ht hi hD hleaf fun q hq hpage => by
    obtain ⟨u, j, hu, -⟩ := hpage
    rw [tableAt_none_of_suffix hnone hq] at hu
    cases hu
  exact ⟨trivial, hskip, fun _ _ hu => hu,
    ⟨[], (List.append_nil _).symm, rfl, fun _ hw => absurd hw List.not_mem_nil⟩, .refl _⟩

/-- The turn of a table when a frame is left: the clone gets one there. -/
theorem cloneTurn_attach_spec (h : Cloning F a b m₀ D x.1) (hab : a ≠ b)
    (hsb : userSlots ⊆ F.slots b) (hs : m₀.TableOf F a p s) (ht : x.1.TableOf F b p t)
    (hi : i ∈ pageSlots p.length) (hD : ∀ y ∈ through (i :: p), y ∉ D)
    (hlen : p.length < 3) (hchild : pageChild p.length (m₀.entry s i) ≠ none) {n₁ : Word}
    {rest : List Word} (hst : x.1.pmm.freeStack = n₁ :: rest) :
    ensureNextTable x.1 t i = (n₁, x.1.attachTable t i n₁) ∧
      (x.1.attachTable t i n₁).TableOf F b (i :: p) n₁ ∧
      CloneWalked F a b m₀ (insert (i :: p) D) [i :: p] [] x (x.1.attachTable t i n₁, x.2) := by
  have hz : x.1.entry t i = 0 := h.fresh p t i ht hi (hD _ List.suffix_rfl)
  obtain ⟨hn₁, hn0, hfresh⟩ := h.trees.top hst
  obtain ⟨hatt, hnew, hkept⟩ := h.attach hab hsb hs ht hi hD hlen hchild hst
  refine ⟨ensureNextTable_attach hn₁ hn0 (h.trees.aligned ht) (fun he => hfresh b p (he ▸ ht)) hz hst,
    hnew, ⟨fun _ => by rw [hst]; simp, trivial⟩, hatt, hkept,
    ⟨[], (List.append_nil _).symm, rfl, fun _ hw => absurd hw List.not_mem_nil⟩, ?_⟩
  show Charged x.1.pmm [] 1 (x.1.attachTable t i n₁).pmm
  rw [Machine.Wf.pmm_attachTable]
  exact .alloc hst

/-- The turn of a table when no frame is left: nothing happens, or a page is
    written through `NULL`. -/
theorem cloneTurn_empty_spec (h : Cloning F a b m₀ D x.1) (hab : a ≠ b) (hs : m₀.TableOf F a p s)
    (ht : x.1.TableOf F b p t) (hi : i ∈ pageSlots p.length) (hD : ∀ y ∈ through (i :: p), y ∉ D)
    (hn : n + (i :: p).length = 4) (hleaf : pageLeaf p.length (m₀.entry s i) = none) {s' : Word}
    (hs' : m₀.TableOf F a (i :: p) s') (hst : x.1.pmm.freeStack = []) :
    CloneOutcome F a b m₀ (D ∪ through (i :: p)) ((i :: p) :: tablesBelow m₀ a n (i :: p))
      (pagesBelow m₀ a n (i :: p)) x
      (cloneLoop n (i :: p).length s' 0 (t :: above) (x.1.failed 1, x.2)) := by
  have hst' : (x.1.failed 1).pmm.freeStack = [] := hst
  have hsrc : tableAt pageChild (x.1.failed 1).entry a (i :: p) = some s' :=
    ((h.tables a hab _ _).mpr hs').2
  have hiff : HasPage (x.1.failed 1) a n (i :: p) ↔ HasPage m₀ a n (i :: p) :=
    (h.failed 1).hasPage_iff hab hs'.1 hD
  unfold CloneOutcome
  rw [hst]
  by_cases hpage : HasPage m₀ a n (i :: p)
  · right
    refine ⟨fun hfits => ?_, cloneLoop_null hst' List.mem_cons_self (hiff.mpr hpage) hsrc hn⟩
    obtain ⟨q, hq, hholds⟩ := hpage
    have hq' : q ∈ (i :: p) :: tablesBelow m₀ a n (i :: p) := by
      rcases List.mem_cons.mp hq with rfl | hq
      · exact List.mem_cons_self
      · obtain ⟨u, j, hu, -⟩ := hholds
        refine List.mem_cons_of_mem _ (mem_tablesBelow.mpr ⟨hq, ?_⟩)
        rw [hu]
        rfl
    exact fits_zero.mp hfits q hq' hholds
  · left
    have hno := not_holdsPage hpage hn
    obtain ⟨k, hk⟩ := cloneLoop_empty 0 (t :: above) x.2 hst'
      (fun hc => hpage (hiff.mp hc)) hsrc hn
    rw [failed_failed] at hk
    rw [hk, pagesBelow_nil hno]
    refine ⟨?_, (h.skip hab hs ht hi hD hleaf hno).failed _, fun _ _ hu => hu,
      ⟨[], (List.append_nil _).symm, rfl, fun _ hw => absurd hw List.not_mem_nil⟩,
      .empty hst _ hst rfl⟩
    rw [hst]
    refine fits_zero.mpr fun q hq => hno q ?_
    rcases List.mem_cons.mp hq with rfl | hq
    · exact List.suffix_rfl
    · exact suffix_of_mem_pathsBelow (mem_tablesBelow.mp hq).1

/-- **One turn**, when the loop below does its part. -/
theorem cloneTurn_spec (h : Cloning F a b m₀ D x.1) (hab : a ≠ b) (hsa : userSlots ⊆ F.slots a)
    (hsb : userSlots ⊆ F.slots b) (hs : m₀.TableOf F a p s) (ht : x.1.TableOf F b p t)
    (hi : i ∈ pageSlots p.length) (hD : ∀ y ∈ through (i :: p), y ∉ D) (hn : n + (p.length + 1) = 4)
    (h0 : 0 ∉ above) (hbelow : LoopSpec F a b m₀ n (i :: p) (t :: above)) :
    CloneOutcome F a b m₀ (D ∪ through (i :: p)) (tablesAt m₀ a n (i :: p))
      (pagesAt m₀ a n (i :: p)) x
      (cloneTurn (cloneLoop n (p.length + 1)) p.length s t above x i) := by
  have hse : x.1.entry s i = m₀.entry s i := h.kept a hab p s i hs fun _ => hD _ List.suffix_rfl
  by_cases hp : Present (m₀.entry s i)
  · cases hm : pageMask p.length (m₀.entry s i) with
    | some mask => exact .inl (cloneTurn_page_spec h hab hs ht hi hD h0 hp hm)
    | none =>
      obtain ⟨hlen, hchild, hleaf⟩ := pageChild_of_mask hp hm (by omega)
      have hpath : F.Path a (i :: p) := hs.1.cons fun hp => hsa (Cloning.slot_user hi hp)
      have hs' : m₀.TableOf F a (i :: p) (m₀.entry s i &&& ~~~flagMask) :=
        ⟨hpath, (tableAt_cons hs.2).trans hchild⟩
      rw [tablesAt_some hs'.2, pagesAt_some ((leafAt_cons hs.2).trans hleaf)]
      rw [← hse] at hp hm
      rw [cloneTurn_table hp hm, hse]
      cases hst : x.1.pmm.freeStack with
      | cons n₁ rest =>
        obtain ⟨hens, hnew, hfirst⟩ := cloneTurn_attach_spec h hab hsb hs ht hi hD hlen
          (by rw [hchild]; exact Option.some_ne_none _) hst
        rw [hens, ← through_eq]
        refine CloneOutcome.trans (.inl hfirst) (cloneLoop_grows _ _ _ _ _ _) fun hw => ?_
        refine hbelow _ n₁ _ (x.1.attachTable t i n₁, x.2) hw.cloning hs' hnew fun j _ y hy hc => ?_
        rcases hc with rfl | hc
        · have hle : (j :: i :: p).length ≤ (i :: p).length := hy.length_le
          rw [List.length_cons] at hle
          omega
        · exact hD y ((List.suffix_cons j (i :: p)).trans hy) hc
      | nil =>
        have hz : x.1.entry t i = 0 := h.fresh p t i ht hi (hD _ List.suffix_rfl)
        have hfail : ensureNextTable x.1 t i = (0, x.1.failed 1) := by
          rw [ensureNextTable_fails hz hst, Machine.allocFrame, pmmAllocFrame_nil hst]
          rfl
        rw [hfail]
        exact cloneTurn_empty_spec h hab hs ht hi hD hn hleaf hs' hst
  · exact .inl (cloneTurn_absent_spec h hab hs ht hi hD hp)

/-- What is below a path is at or below one of its slots. -/
theorem tablesBelow_succ {m : Machine} {root : Word} : tablesBelow m root (n + 1) p
    = (pageSlots p.length).flatMap fun i => tablesAt m root n (i :: p) := by
  rw [tablesBelow, pathsBelow, List.filter_flatMap]
  rfl

theorem pagesBelow_succ {m : Machine} {root : Word} : pagesBelow m root (n + 1) p
    = (pageSlots p.length).flatMap fun i => pagesAt m root n (i :: p) := by
  rw [pagesBelow, pathsBelow, List.filterMap_flatMap]
  rfl

theorem nodup_pageSlots (d : Nat) : (pageSlots d).Nodup :=
  (List.nodup_finRange 512).sublist (List.drop_sublist _ _)

/-- **The walk of a table**: all its slots are done, or some page was written
    through `NULL` because the free frames do not suffice. -/
theorem cloneLoop_spec (hab : a ≠ b) (hsa : userSlots ⊆ F.slots a) (hsb : userSlots ⊆ F.slots b)
    (h : Cloning F a b m₀ D x.1) (hs : m₀.TableOf F a p s) (ht : x.1.TableOf F b p t)
    (hD : ∀ i ∈ pageSlots p.length, ∀ y ∈ through (i :: p), y ∉ D) (hn : n + p.length = 4)
    (h0 : 0 ∉ above) :
    CloneOutcome F a b m₀ (D ∪ throughSlots p (pageSlots p.length)) (tablesBelow m₀ a n p)
      (pagesBelow m₀ a n p) x (cloneLoop n p.length s t above x) := by
  induction n generalizing D p s t above x with
  | zero =>
    have hlt := tableAt_length hs.2
    omega
  | succ n ih =>
    rw [tablesBelow_succ, pagesBelow_succ, cloneLoop]
    refine foldl_invariant (fun done x' => CloneOutcome F a b m₀ (D ∪ throughSlots p done)
      (done.flatMap fun i => tablesAt m₀ a n (i :: p)) (done.flatMap fun i => pagesAt m₀ a n (i :: p))
      x x') ?_ fun done i rest x' hl hx' => ?_
    · have hnil : D ∪ throughSlots p [] = D := by
        ext y
        simp [throughSlots]
      rw [hnil]
      exact .inl ⟨trivial, h, fun _ _ hu => hu,
        ⟨[], (List.append_nil _).symm, rfl, fun _ hw => absurd hw List.not_mem_nil⟩, .refl _⟩
    · have hi : i ∈ pageSlots p.length := by
        rw [hl]
        simp
      have hset : D ∪ throughSlots p (done ++ [i]) = D ∪ throughSlots p done ∪ through (i :: p) := by
        ext y
        simp [throughSlots, through, or_and_right, exists_or, or_assoc]
      -- the slots already done are others
      have hfree : ∀ y ∈ through (i :: p), y ∉ D ∪ throughSlots p done := by
        intro y hy hc
        rcases hc with hc | ⟨j, hj, hjy⟩
        · exact hD i hi y hy hc
        · have heq : i :: p = j :: p :=
            (List.suffix_of_suffix_length_le hy hjy (by simp)).eq_of_length (by simp)
          have hnd := nodup_pageSlots p.length
          rw [hl] at hnd
          rw [(List.cons.inj heq).1] at hnd
          exact (List.nodup_append.mp hnd).2.2 j hj j List.mem_cons_self rfl
      rw [hset, List.flatMap_append, List.flatMap_append, List.flatMap_singleton,
        List.flatMap_singleton]
      refine hx'.trans (cloneTurn_grows (fun s t l x => cloneLoop_grows n _ s t l x) x' i) fun hw => ?_
      refine cloneTurn_spec hw.cloning hab hsa hsb hs (hw.kept p t ht) hi hfree
        (by omega) h0 ?_
      intro s' t' D' x'' hc hs' ht' hD'
      have ht0 : (0 : Word) ∉ t :: above := fun hmem =>
        (List.mem_cons.mp hmem).elim (fun he => h.trees.nonzero ht he.symm) h0
      exact ih hc hs' ht' hD' (by rw [List.length_cons]; omega) ht0

end Walk

end ZohoOs
