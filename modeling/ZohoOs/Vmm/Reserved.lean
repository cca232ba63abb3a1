/-
  ZohoOs.Vmm.Reserved — reserved frames in address spaces (vmm.c, pmm.c).

  A frame that the allocator never managed has its bit set and no references,
  and `vmm_map` adds none.  `vmm_clone_address_space` counts a reference for
  every page it shares, whoever owns the frame, and `vmm_destroy_address_space`
  drops one: the destruction that takes the count back to zero finds the bit
  set, and puts the frame on the free list.

  Main results:
    * `vmmCloneAddressSpace_reserved` — a clone puts no frame on the list;
    * `Reserved.frees`, `frees_listed` — when freeing a list of frames does;
    * `OnePage.pagesBelow_eq` — the pages of a space with one page;
    * `reserved_iff` — along a run a reserved frame stays reserved if and only
      if no destruction takes its count to zero.
-/
import ZohoOs.Vmm.CloneAtomic
import ZohoOs.Vmm.Needed

namespace ZohoOs

open ZohoOs.Lib
open ZohoOs.Lib.Mem (Aligned)
open ZohoOs.Lib.Radix

/-! ## §1. Runs. -/

/-- The machine, and the spaces there are: one, its clones, and theirs. -/
structure ForkSystem where
  machine : Machine
  spaces : List Word

inductive ForkAct where
  | clone (root : Word)
  | destroy (root : Word)
  | alloc

inductive ForkStep : ForkSystem → ForkAct → ForkSystem → Prop
  | clone (s : ForkSystem) (root : Word) (hroot : root ∈ s.spaces) :
      ForkStep s (.clone root) ⟨(vmmCloneAddressSpace s.machine root).2,
        (vmmCloneAddressSpace s.machine root).1 :: s.spaces⟩
  | destroy (s : ForkSystem) (root : Word) (hroot : root ∈ s.spaces) :
      ForkStep s (.destroy root) ⟨vmmDestroyAddressSpace s.machine root, s.spaces.erase root⟩
  | alloc (s : ForkSystem) : ForkStep s .alloc ⟨s.machine.allocFrame.2, s.spaces⟩

/-- The next call of `pmm_alloc_frame` returns frame `f`. -/
def NextFrame (p : Pmm) (f : Nat) : Prop := ∃ a rest, p.freeStack = a :: rest ∧ frameOf a = f

/-- Some number of calls of `pmm_alloc_frame` return frame `f`. -/
def Allocatable (p : Pmm) (f : Nat) : Prop :=
  ∃ k, NextFrame ((fun p => (pmmAllocFrame p).2)^[k] p) f

/-- The frame is on the free list. -/
def Listed (p : Pmm) (f : Nat) : Prop := ∃ a ∈ p.freeStack, frameOf a = f

/-- The allocator does not manage the frame: its bit is set, and it is not on
    the free list.  There are no bits for the frames from 4 GiB on. -/
structure Reserved (p : Pmm) (f : Nat) : Prop where
  bit : f < maxFrames → p.frameBitmap f = true
  unlisted : ¬ Listed p f

/-- How often a list of frames has frame `f`. -/
def timesFreed (f : Nat) (frames : List Word) : Nat := frames.countP fun a => frameOf a = f

/-- **The condition** on a destruction: frame `f` has no count, or the space
    has fewer references to it than are counted. -/
def KeepsCount (f : Nat) (s : ForkSystem) : ForkAct → Prop
  | .destroy root => maxFrames ≤ f ∨ s.machine.pmm.refCounts f = 0 ∨
      timesFreed f (freed (destroyTrace s.machine root)) < s.machine.pmm.refCounts f
  | _ => True

/-- What is allocatable is what is on the free list. -/
theorem allocatable_iff {p : Pmm} {f : Nat} : Allocatable p f ↔ Listed p f := by
  constructor
  · intro h
    obtain ⟨k, a, rest, hst, hf⟩ := h
    rw [freeStack_allocs] at hst
    refine ⟨a, List.mem_of_mem_drop (i := k) ?_, hf⟩
    rw [hst]
    exact List.mem_cons_self
  · intro h
    obtain ⟨a, ha, hf⟩ := h
    obtain ⟨k, hk, rfl⟩ := List.mem_iff_getElem.mp ha
    refine ⟨k, p.freeStack[k], p.freeStack.drop (k + 1), ?_, hf⟩
    rw [freeStack_allocs]
    exact List.drop_eq_getElem_cons hk

/-! ## §2. The allocator. -/

section Pmm

variable {p : Pmm} {f : Nat} {a : Word} {frames : List Word}

/-- The frame handed out is another one. -/
theorem Reserved.alloc_ne (h : Reserved p f) (hne : (pmmAllocFrame p).1 ≠ 0) :
    frameOf (pmmAllocFrame p).1 ≠ f := by
  cases hst : p.freeStack with
  | nil =>
    rw [pmmAllocFrame_nil hst] at hne
    exact absurd rfl hne
  | cons b rest =>
    rw [pmmAllocFrame_cons hst]
    intro hf
    exact h.unlisted ⟨b, by rw [hst]; exact List.mem_cons_self, hf⟩

theorem Reserved.alloc (h : Reserved p f) : Reserved (pmmAllocFrame p).2 f := by
  cases hst : p.freeStack with
  | nil =>
    rw [pmmAllocFrame_nil hst]
    exact ⟨h.bit, h.unlisted⟩
  | cons b rest =>
    have hb : frameOf b ≠ f := fun hf =>
      h.unlisted ⟨b, by rw [hst]; exact List.mem_cons_self, hf⟩
    rw [pmmAllocFrame_cons hst]
    refine ⟨fun hlt => ?_, ?_⟩
    · show Function.update p.frameBitmap (frameOf b) true f = true
      rw [Function.update_of_ne hb.symm]
      exact h.bit hlt
    · intro hlist
      obtain ⟨c, hc, hf⟩ := hlist
      exact h.unlisted ⟨c, by rw [hst]; exact List.mem_cons_of_mem _ hc, hf⟩

theorem Reserved.refInc (h : Reserved p f) (a : Word) : Reserved (pmmRefInc p a) f := by
  unfold pmmRefInc
  dsimp only
  by_cases ha : frameOf a < maxFrames
  · rw [if_pos ha]
    exact ⟨h.bit, h.unlisted⟩
  · rw [if_neg ha]
    exact h

/-- **What `pmm_free_frame` does**: nothing, or a count goes down, and at zero a
    frame whose bit is set goes on the list. -/
theorem pmmFreeFrame_cases (p : Pmm) (a : Word) :
    (maxFrames ≤ frameOf a ∨ p.refCounts (frameOf a) = 0) ∧ pmmFreeFrame p a = p ∨
    (frameOf a < maxFrames ∧ 0 < p.refCounts (frameOf a)) ∧
      (¬ (p.refCounts (frameOf a) = 1 ∧ p.frameBitmap (frameOf a) = true) ∧
        pmmFreeFrame p a = { p with
          refCounts := Function.update p.refCounts (frameOf a) (p.refCounts (frameOf a) - 1) } ∨
      (p.refCounts (frameOf a) = 1 ∧ p.frameBitmap (frameOf a) = true) ∧
        pmmFreeFrame p a = { p with
          refCounts := Function.update p.refCounts (frameOf a) (p.refCounts (frameOf a) - 1)
          frameBitmap := bitmapUnset p.frameBitmap (frameOf a), freeStack := a :: p.freeStack }) := by
  unfold pmmFreeFrame
  dsimp only
  by_cases hlt : maxFrames ≤ frameOf a
  · rw [if_pos hlt]
    exact .inl ⟨.inl hlt, rfl⟩
  rw [if_neg hlt]
  by_cases hpos : p.refCounts (frameOf a) > 0
  swap
  · rw [if_neg hpos]
    exact .inl ⟨.inr (by omega), rfl⟩
  rw [if_pos hpos]
  refine .inr ⟨⟨by omega, hpos⟩, ?_⟩
  have hself := Function.update_self (frameOf a) (p.refCounts (frameOf a) - 1) p.refCounts
  by_cases hone : p.refCounts (frameOf a) = 1
  · rw [if_pos (hself.trans (by omega))]
    by_cases hbit : p.frameBitmap (frameOf a) = true
    · rw [if_pos hbit]
      exact .inr ⟨⟨hone, hbit⟩, rfl⟩
    · rw [if_neg hbit]
      exact .inl ⟨fun h => hbit h.2, rfl⟩
  · rw [if_neg fun hz => hone (by have := hself.symm.trans hz; omega)]
    exact .inl ⟨fun h => hone h.1, rfl⟩

/-- The list only grows. -/
theorem Listed.free (h : Listed p f) (a : Word) : Listed (pmmFreeFrame p a) f := by
  obtain ⟨b, hb, hf⟩ := h
  obtain ⟨-, he⟩ | ⟨-, ⟨-, he⟩ | ⟨-, he⟩⟩ := pmmFreeFrame_cases p a <;> rw [he]
  · exact ⟨b, hb, hf⟩
  · exact ⟨b, hb, hf⟩
  · exact ⟨b, List.mem_cons_of_mem _ hb, hf⟩

/-- Freeing another frame. -/
theorem free_other (ha : frameOf a ≠ f) :
    (pmmFreeFrame p a).refCounts f = p.refCounts f ∧ (Reserved p f → Reserved (pmmFreeFrame p a) f) := by
  obtain ⟨-, he⟩ | ⟨-, ⟨-, he⟩ | ⟨-, he⟩⟩ := pmmFreeFrame_cases p a <;> rw [he]
  · exact ⟨rfl, id⟩
  · exact ⟨Function.update_of_ne ha.symm .., fun h => ⟨h.bit, h.unlisted⟩⟩
  · refine ⟨Function.update_of_ne ha.symm .., fun h => ⟨fun hlt => ?_, fun hlist => ?_⟩⟩
    · show Function.update p.frameBitmap (frameOf a) false f = true
      rw [Function.update_of_ne ha.symm]
      exact h.bit hlt
    · obtain ⟨b, hb, hf⟩ := hlist
      rcases List.mem_cons.mp hb with rfl | hb
      · exact ha hf
      · exact h.unlisted ⟨b, hb, hf⟩

/-- A frame without a count is not freed. -/
theorem free_uncounted (h : maxFrames ≤ frameOf a ∨ p.refCounts (frameOf a) = 0) :
    pmmFreeFrame p a = p := by
  obtain ⟨-, he⟩ | ⟨⟨hlt, hpos⟩, -⟩ := pmmFreeFrame_cases p a
  · exact he
  · omega

/-- A frame that keeps a count. -/
theorem Reserved.free_counted (h : Reserved p (frameOf a)) (hcount : 1 < p.refCounts (frameOf a))
    (hlt : frameOf a < maxFrames) :
    (pmmFreeFrame p a).refCounts (frameOf a) = p.refCounts (frameOf a) - 1 ∧
      Reserved (pmmFreeFrame p a) (frameOf a) := by
  obtain ⟨hzero, -⟩ | ⟨-, ⟨-, he⟩ | ⟨hone, -⟩⟩ := pmmFreeFrame_cases p a
  · omega
  · rw [he]
    exact ⟨Function.update_self .., h.bit, h.unlisted⟩
  · omega

/-- The last count of a reserved frame. -/
theorem Reserved.free_last (h : Reserved p (frameOf a)) (hcount : p.refCounts (frameOf a) = 1)
    (hlt : frameOf a < maxFrames) : Listed (pmmFreeFrame p a) (frameOf a) := by
  obtain ⟨hzero, -⟩ | ⟨-, ⟨hnot, -⟩ | ⟨-, he⟩⟩ := pmmFreeFrame_cases p a
  · omega
  · exact absurd ⟨hcount, h.bit hlt⟩ hnot
  · rw [he]
    exact ⟨a, List.mem_cons_self, rfl⟩

/-- **A reserved frame stays reserved** where it has no count, or more than are
    freed. -/
theorem Reserved.frees (h : Reserved p f)
    (hcount : maxFrames ≤ f ∨ p.refCounts f = 0 ∨ timesFreed f frames < p.refCounts f) :
    Reserved (frames.foldl pmmFreeFrame p) f := by
  induction frames generalizing p with
  | nil => exact h
  | cons a frames ih =>
    rw [List.foldl_cons]
    by_cases ha : frameOf a = f
    · subst ha
      have htimes : timesFreed (frameOf a) (a :: frames) = timesFreed (frameOf a) frames + 1 :=
        List.countP_cons_of_pos (decide_eq_true rfl)
      by_cases hnone : maxFrames ≤ frameOf a ∨ p.refCounts (frameOf a) = 0
      · rw [free_uncounted hnone]
        exact ih h (hnone.imp_right .inl)
      · obtain ⟨hrefs, hkept⟩ := h.free_counted (by omega) (by omega)
        exact ih hkept (.inr (.inr (by omega)))
    · obtain ⟨hrefs, hkept⟩ := free_other (p := p) ha
      have htimes : timesFreed f (a :: frames) = timesFreed f frames :=
        List.countP_cons_of_neg fun hc => ha (of_decide_eq_true hc)
      refine ih (hkept h) ?_
      rw [hrefs, ← htimes]
      exact hcount

theorem Listed.frees (h : Listed p f) : Listed (frames.foldl pmmFreeFrame p) f := by
  induction frames generalizing p with
  | nil => exact h
  | cons a frames ih => exact ih (h.free a)

/-- **Else it goes on the list.** -/
theorem Reserved.frees_listed (h : Reserved p f) (hlt : f < maxFrames) (hpos : 0 < p.refCounts f)
    (hcount : p.refCounts f ≤ timesFreed f frames) : Listed (frames.foldl pmmFreeFrame p) f := by
  induction frames generalizing p with
  | nil => exact absurd hcount (Nat.not_le_of_lt hpos)
  | cons a frames ih =>
    rw [List.foldl_cons]
    by_cases ha : frameOf a = f
    · subst ha
      have htimes : timesFreed (frameOf a) (a :: frames) = timesFreed (frameOf a) frames + 1 :=
        List.countP_cons_of_pos (decide_eq_true rfl)
      by_cases hone : p.refCounts (frameOf a) = 1
      · exact (h.free_last hone hlt).frees
      · obtain ⟨hrefs, hkept⟩ := h.free_counted (by omega) hlt
        exact ih hkept (by omega) (by omega)
    · obtain ⟨hrefs, hkept⟩ := free_other (p := p) ha
      have htimes : timesFreed f (a :: frames) = timesFreed f frames :=
        List.countP_cons_of_neg fun hc => ha (of_decide_eq_true hc)
      exact ih (hkept h) (by omega) (by omega)

end Pmm

/-! ## §3. The calls. -/

section Calls

variable {m : Machine} {f : Nat}

/-- A new table comes from the list; it goes back if the entry was filled. -/
theorem ensureNextTable_reserved (h : Reserved m.pmm f) (t : Word) (i : Fin 512) :
    Reserved (ensureNextTable m t i).2.pmm f := by
  unfold ensureNextTable allocZeroedTable
  dsimp only
  by_cases hnext : getExistingTable m t i ≠ 0
  · rw [if_pos hnext]
    exact h
  rw [if_neg hnext]
  by_cases hnone : m.allocFrame.1 = 0
  · rw [if_pos hnone, if_pos rfl]
    exact h.alloc
  rw [if_neg hnone]
  dsimp only
  rw [if_neg hnone]
  have hzeroed : Reserved (zeroTable m.allocFrame.2 m.allocFrame.1).pmm f := by
    rw [pmm_zeroTable]
    exact h.alloc
  by_cases hfilled : getExistingTable (zeroTable m.allocFrame.2 m.allocFrame.1) t i = 0
  · rw [if_pos hfilled]
    dsimp only
    rw [Machine.pmm_setEntry]
    exact hzeroed
  · rw [if_neg hfilled]
    dsimp only [Machine.freeFrame]
    exact (free_other (h.alloc_ne hnone)).2 hzeroed

theorem shareEntry_reserved (h : Reserved m.pmm f) (mask s t : Word) (i : Fin 512) :
    Reserved (shareEntry mask s t m i).pmm f := by
  unfold shareEntry
  dsimp only
  by_cases hw : m.entry s i &&& flagMask &&& pageWritable ≠ 0
  · rw [if_pos hw]
    exact h.refInc _
  · rw [if_neg hw]
    exact h.refInc _

/-- The loops of the clone take frames and count references. -/
theorem cloneLoop_reserved {x : CloneState} (h : Reserved x.1.pmm f) (n d : Nat) (src dst : Word)
    (above : List Word) : Reserved (cloneLoop n d src dst above x).1.pmm f := by
  induction n generalizing d src dst above x with
  | zero => exact h
  | succ n ih =>
    rw [cloneLoop]
    generalize pageSlots d = slots
    induction slots generalizing x with
    | nil => exact h
    | cons i slots ihs =>
      refine ihs ?_
      by_cases hp : Present (x.1.entry src i)
      · cases hm : pageMask d (x.1.entry src i) with
        | some mask =>
          rw [cloneTurn_page hp hm]
          exact shareEntry_reserved h _ _ _ _
        | none =>
          rw [cloneTurn_table hp hm]
          exact ih (ensureNextTable_reserved h dst i) _ _ _ _
      · rw [cloneTurn_absent hp]
        exact h

theorem vmmCreateAddressSpace_reserved (h : Reserved m.pmm f) :
    Reserved (vmmCreateAddressSpace m).2.pmm f := by
  by_cases hnone : m.allocFrame.1 = 0
  · have hcreate : vmmCreateAddressSpace m = (0, m.allocFrame.2) := by
      simp only [vmmCreateAddressSpace, hnone, if_true]
    rw [hcreate]
    exact h.alloc
  · cases hst : m.pmm.freeStack with
    | nil => exact absurd (congrArg Prod.fst (pmmAllocFrame_nil hst)) hnone
    | cons n rest =>
      have hn0 : n ≠ 0 := fun hn =>
        hnone ((congrArg Prod.fst (pmmAllocFrame_cons hst)).trans hn)
      rw [vmmCreateAddressSpace_cons hst hn0]
      dsimp only
      rw [pmm_createdSpace]
      exact h.alloc

/-- What a call leaves, by the pair it returns: the call is not to be computed. -/
theorem Reserved.of_returned {ret : Word × Machine} {dst : Word} (hret : ret = (dst, m))
    (h : Reserved m.pmm f) : Reserved ret.2.pmm f := by
  rw [hret]
  exact h

/-- **A clone keeps a reserved frame reserved.** -/
theorem vmmCloneAddressSpace_reserved (h : Reserved m.pmm f) (root : Word) :
    Reserved (vmmCloneAddressSpace m root).2.pmm f := by
  have hwalk : Reserved (cloneRun m root).1.pmm f := by
    have hcreate := vmmCreateAddressSpace_reserved h
    unfold cloneRun
    generalize vmmCreateAddressSpace m = created at hcreate ⊢
    exact cloneLoop_reserved (x := (created.2, [])) hcreate 4 0 root created.1 []
  exact .of_returned (vmmCloneAddressSpace_run m root) hwalk

theorem pmm_freeFrames (m : Machine) (frames : List Word) :
    (m.freeFrames frames).pmm = frames.foldl pmmFreeFrame m.pmm := by
  induction frames generalizing m with
  | nil => rfl
  | cons a frames ih => exact ih (m.freeFrame a)

theorem pmm_vmmDestroyAddressSpace (m : Machine) (root : Word) :
    (vmmDestroyAddressSpace m root).pmm =
      (freed (destroyTrace m root)).foldl pmmFreeFrame m.pmm := by
  rw [vmmDestroyAddressSpace_eq, pmm_freeFrames]

end Calls

/-! ## §4. A space with one page. -/

/-- Below `PML4[1..511]` the space has the tables of page `vp`, which maps the
    frame at `phys`, and nothing else. -/
structure OnePage (m : Machine) (root : Word) (vp : VPage) (phys flags : Word) : Prop where
  slot : vp.pml4 ≠ 0
  tables : ∀ i q, i ≠ 0 → [i] <:+ q → m.HasTable root q → q ∈ vp.tablePaths
  pages : ∀ vp' : VPage, vp'.pml4 ≠ 0 →
    pageLookup m root vp' = if vp' = vp then some (smallMapping phys flags) else none

/-- The entry of a 4 KiB page. -/
theorem entry_of_lookup {m : Machine} {root : Word} {vp : VPage} {x : Mapping}
    (hx : pageLookup m root vp = some x) (hsmall : x.huge = false) :
    ∃ pt, tableAt pageChild m.entry root vp.ptPath = some pt ∧ Present (m.entry pt vp.pt) ∧
      m.entry pt vp.pt &&& ~~~flagMask = x.phys := by
  cases hpt : tableAt pageChild m.entry root vp.ptPath with
  | some pt =>
    rw [pageLookup_of_pt hpt] at hx
    by_cases hp : Present (m.entry pt vp.pt)
    · rw [if_pos hp] at hx
      exact ⟨pt, rfl, hp, congrArg Mapping.phys (Option.some.inj hx)⟩
    · rw [if_neg hp] at hx
      cases hx
  | none =>
    rw [pageLookup_eq_none hpt] at hx
    · cases hx
    · intro pd hpd hh
      rw [pageLookup_of_huge hpd hh] at hx
      rw [← Option.some.inj hx] at hsmall
      cases hsmall

/-- A list with one item that counts. -/
theorem filterMap_single {α β : Type} {l : List α} {g : α → Option β} {a : α} {b : β}
    (hnd : l.Nodup) (ha : a ∈ l) (hb : g a = some b) (honly : ∀ x ∈ l, g x ≠ none → x = a) :
    l.filterMap g = [b] := by
  induction l with
  | nil => cases ha
  | cons x l ih =>
    obtain ⟨hx, hnd⟩ := List.nodup_cons.mp hnd
    by_cases hxa : x = a
    · subst hxa
      have hrest : l.filterMap g = [] := by
        refine List.filterMap_eq_nil_iff.mpr fun y hy => ?_
        by_contra hne
        exact hx (honly y (List.mem_cons_of_mem _ hy) hne ▸ hy)
      rw [List.filterMap_cons_some hb, hrest]
    · have hnone : g x = none := by
        by_contra hne
        exact hxa (honly x List.mem_cons_self hne)
      have ha : a ∈ l := (List.mem_cons.mp ha).resolve_left fun h => hxa h.symm
      rw [List.filterMap_cons_none hnone]
      exact ih hnd ha fun y hy => honly y (List.mem_cons_of_mem _ hy)

/-- The paths of the walk lie below user slots. -/
theorem mem_below {q : List (Fin 512)} (hq : q ∈ pathsBelow pageSlots 4 []) : ∃ i, i ≠ 0 ∧ [i] <:+ q := by
  obtain ⟨i, hi, hq⟩ := List.mem_flatMap.mp hq
  refine ⟨i, Cloning.slot_user (p := []) hi rfl, ?_⟩
  rcases List.mem_cons.mp hq with rfl | hq
  · exact List.suffix_rfl
  · exact suffix_of_mem_pathsBelow hq

/-- The walk of a space with the tables of one page meets four tables. -/
theorem length_walkedTables {m : Machine} {root : Word} {vp : VPage}
    (htables : ∀ i q, i ≠ 0 → [i] <:+ q → m.HasTable root q → q ∈ vp.tablePaths) :
    (walkedTables m root).length ≤ 4 := by
  have hnodup : (tablesBelow m root 4 []).Nodup := by
    rw [tablesBelow]
    exact (nodup_pathsBelow nodup_pageSlots).filter _
  have hsub : tablesBelow m root 4 [] ⊆ vp.tablePaths := by
    intro q hq
    obtain ⟨hq, htable⟩ := mem_tablesBelow.mp hq
    obtain ⟨i, hi, hsuf⟩ := mem_below hq
    exact htables i q hi hsuf htable
  have hle : (tablesBelow m root 4 []).length ≤ 3 := (hnodup.subperm hsub).length_le
  unfold walkedTables
  rw [List.length_cons]
  omega

/-- Four frames suffice for its clone. -/
theorem framesSuffice_of_tables {m : Machine} {root : Word} {vp : VPage}
    (htables : ∀ i q, i ≠ 0 → [i] <:+ q → m.HasTable root q → q ∈ vp.tablePaths)
    (hfree : 4 ≤ m.pmm.freeStack.length) : FramesSuffice m root := by
  intro k q hk _
  obtain ⟨hlt, -⟩ := List.getElem?_eq_some_iff.mp hk
  have hlen := length_walkedTables htables
  unfold pmmGetFreeCount
  omega

namespace OnePage

variable {m : Machine} {root phys flags : Word} {vp : VPage} {q : List (Fin 512)}

/-- The page is at its own path. -/
theorem leafAt_page (h : OnePage m root vp phys flags) :
    leafAt pageChild pageLeaf m.entry root vp.path = some (phys &&& ~~~flagMask) := by
  have hx := h.pages vp h.slot
  rw [if_pos rfl] at hx
  obtain ⟨pt, hpt, hp, haddr⟩ := entry_of_lookup hx rfl
  rw [VPage.path, leafAt_cons hpt, show vp.ptPath.length = 3 from rfl, (pageLeaf_of_mask hp rfl).1,
    haddr]
  rfl

/-- There is no page elsewhere. -/
theorem leafAt_only (h : OnePage m root vp phys flags) (hq : q ∈ pathsBelow pageSlots 4 [])
    (hleaf : leafAt pageChild pageLeaf m.entry root q ≠ none) : q = vp.path := by
  obtain ⟨i₀, hi₀, hsuf⟩ := mem_below hq
  cases q with
  | nil => exact absurd rfl hleaf
  | cons i p =>
    cases ht : tableAt pageChild m.entry root p with
    | none => exact absurd (by rw [leafAt, ht]; rfl) hleaf
    | some t =>
      rw [leafAt_cons ht] at hleaf
      rcases List.suffix_cons_iff.mp hsuf with heq | hsuf
      · -- a slot of the root is no page
        obtain rfl : p = [] := (List.cons.inj heq).2.symm
        exact absurd (by simp [pageLeaf]) hleaf
      · have htable : m.HasTable root p := by
          unfold Machine.HasTable
          rw [ht]
          rfl
        have hp := h.tables i₀ p hi₀ hsuf htable
        simp only [VPage.tablePaths, List.mem_cons, List.not_mem_nil, or_false] at hp
        rcases hp with rfl | rfl | rfl
        · exact absurd (by simp [pageLeaf]) hleaf
        · -- no page of this directory is huge
          have hlook := h.pages ⟨vp.pml4, vp.pdpt, i, vp.pt⟩ h.slot
          have hpd : tableAt pageChild m.entry root
              (⟨vp.pml4, vp.pdpt, i, vp.pt⟩ : VPage).pdPath = some t := ht
          by_cases hh : Huge (m.entry t i)
          · rw [pageLookup_of_huge hpd hh] at hlook
            by_cases heq : (⟨vp.pml4, vp.pdpt, i, vp.pt⟩ : VPage) = vp
            · rw [if_pos heq] at hlook
              exact Bool.noConfusion (congrArg Mapping.huge (Option.some.inj hlook))
            · rw [if_neg heq] at hlook
              cases hlook
          · exact absurd (by simp [pageLeaf, VPage.pdPath, hh]) hleaf
        · have hlook := h.pages ⟨vp.pml4, vp.pdpt, vp.pd, i⟩ h.slot
          have hpt : tableAt pageChild m.entry root
              (⟨vp.pml4, vp.pdpt, vp.pd, i⟩ : VPage).ptPath = some t := ht
          rw [pageLookup_of_pt hpt] at hlook
          dsimp only at hlook
          by_cases hp : Present (m.entry t i)
          · rw [if_pos hp] at hlook
            by_cases heq : (⟨vp.pml4, vp.pdpt, vp.pd, i⟩ : VPage) = vp
            · rw [VPage.path, show i = vp.pt from congrArg VPage.pt heq]
            · rw [if_neg heq] at hlook
              cases hlook
          · exact absurd (pageLeaf_of_not_present hp) hleaf

/-- The pages of the space. -/
theorem pagesBelow_eq (h : OnePage m root vp phys flags) :
    pagesBelow m root 4 [] = [phys &&& ~~~flagMask] := by
  rw [pagesBelow]
  refine filterMap_single (nodup_pathsBelow nodup_pageSlots) ?_ h.leafAt_page
    fun q hq => h.leafAt_only hq
  exact mem_walkedPaths h.slot (List.suffix_append [vp.pt, vp.pd, vp.pdpt] [vp.pml4]) (Nat.le_refl 4)

end OnePage

/-- A frame outside the pool of the allocator is reserved, and has no count. -/
theorem Pmm.Inv.reserved {p : Pmm} {pool : Finset Nat} {f : Nat} (h : p.Inv pool) (hf : f ∉ pool) :
    Reserved p f ∧ (f < maxFrames → p.refCounts f = 0) := by
  refine ⟨⟨fun hlt => ?_, fun hlist => ?_⟩, fun hlt => ?_⟩
  · by_contra hbit
    exact hf (h.free_mem f hlt (Bool.eq_false_iff.mpr hbit))
  · obtain ⟨a, ha, rfl⟩ := hlist
    exact hf (h.free_mem _ (h.inRange a ha) (h.bitmap_of_mem ha))
  · by_contra hcount
    exact hf (h.held_mem f hlt (Nat.pos_of_ne_zero hcount))

/-- The frame of the text buffer of the screen is none of a small machine's. -/
theorem vga_notMem_pool : (0xB8 : Nat) ∉ bootPool (smallPmm 8) := fun hmem =>
  absurd (smallPmm_low _ hmem) (by decide)

/-- The first space of a small machine has no tables of its own. -/
theorem boot_created :
    ∃ m₁, vmmCreateAddressSpace (bootMachine (smallPmm 8)) = (0x207000, m₁) ∧
      m₁.Wf (bootPool (smallPmm 8)) (wholeTree 0x207000) ∧ m₁.pmm.freeStack.length = 7 ∧
      ∀ i q, i ≠ 0 → [i] <:+ q → tableAt pageChild m₁.entry 0x207000 q = none := by
  have hboot := bootMachine_small_wf (n := 8) (by decide)
  obtain ⟨rest, hst, hrest⟩ : ∃ rest, (bootMachine (smallPmm 8)).pmm.freeStack
      = 0x207000 :: rest ∧ rest.length = 7 := ⟨_, freeStack_smallPmm 8, rfl⟩
  refine ⟨_, hboot.create_eq hst, hboot.createdSpace_whole hst, ?_, ?_⟩
  · rw [freeStack_createdSpace hst, hrest]
  · intro i q hi hq
    obtain ⟨front, rfl⟩ := hq
    exact tableAt_createdSpace_user hboot hst hi front

/-- The first space of a small machine, with the text buffer of the screen at
    the start of PML4 slot 1. -/
theorem boot_vga_space :
    ∃ m₁, vmmCreateAddressSpace (bootMachine (smallPmm 8)) = (0x207000, m₁) ∧
      (vmmMap m₁ 0x207000 0x8000000000 0xB8000 7).Wf (bootPool (smallPmm 8))
        (spaceForest p4Table {0x207000}) ∧
      (vmmMap m₁ 0x207000 0x8000000000 0xB8000 7).currentPml4 = p4Table ∧
      4 ≤ (vmmMap m₁ 0x207000 0x8000000000 0xB8000 7).pmm.freeStack.length ∧
      OnePage (vmmMap m₁ 0x207000 0x8000000000 0xB8000 7) 0x207000 (VPage.of 0x8000000000) 0xB8000 7 := by
  obtain ⟨m₁, hcreate, hwf, hcur, hfree, hlook⟩ := boot_mapped_space 0xB8000 (show LowFlags 7 by decide)
  refine ⟨m₁, hcreate, hwf, hcur, hfree, by decide, ?_, ?_⟩
  · obtain ⟨m₂, hcreated, hwhole, hlen, hnone⟩ := boot_created
    obtain rfl : m₁ = m₂ := (Prod.mk.inj (hcreate.symm.trans hcreated)).2
    have hempty : pageLookup m₁ 0x207000 (VPage.of 0x8000000000) = none := by
      refine pageLookup_eq_none (hnone _ _ (by decide) ⟨[_, _], rfl⟩) fun pd hpd => ?_
      exact nomatch (hnone _ (VPage.of 0x8000000000).pdPath (by decide) ⟨[_], rfl⟩).symm.trans hpd
    have hfits := vmmMap_allocFailures (m := m₁) (by omega) 0x207000 0x8000000000 0xB8000 7
    have hplain : (7 : Word) &&& pageHuge = 0 := by decide
    have hsmall : ∀ x, pageLookup m₁ 0x207000 (VPage.of 0x8000000000) = some x → x.huge = false :=
      fun x hx => nomatch hempty.symm.trans hx
    obtain ⟨-, -, htables⟩ | ⟨hbad, -⟩ := hwhole.vmmMap_needs 0xB8000 hplain hsmall
    · intro i q hi hq htable
      refine ((htables q).mp htable).resolve_left fun hold => ?_
      unfold Machine.HasTable at hold
      rw [hnone i q hi hq] at hold
      cases hold
    · omega
  · intro vp hvp
    have h := hlook vp hvp
    rw [if_neg (by decide)] at h
    exact h

/-- The space can be cloned with four frames, and the frame of the text buffer
    then has one count. -/
theorem OnePage.vga_cloned {m : Machine} {vp : VPage} (hpage : OnePage m 0x207000 vp 0xB8000 7)
    (hwf : m.Wf (bootPool (smallPmm 8)) (spaceForest p4Table {0x207000}))
    (hcur : m.currentPml4 = p4Table) (hfree : 4 ≤ m.pmm.freeStack.length) :
    ∃ n m', vmmCloneAddressSpace m 0x207000 = (n, m') ∧ CompleteClone m 0x207000 m' n ∧
      m'.pmm.refCounts 0xB8 = 1 := by
  obtain ⟨hreserved, hnone⟩ := hwf.pmm.reserved vga_notMem_pool
  have hsuff : FramesSuffice m 0x207000 := framesSuffice_of_tables hpage.tables hfree
  cases hst : m.pmm.freeStack with
  | nil =>
    rw [hst] at hfree
    exact absurd hfree (by decide)
  | cons n rest =>
    obtain ⟨hret, -, ⟨-, hclone, -⟩ | ⟨hbad, -⟩⟩ := cloneRun_cases (.of_wf hwf) firstSpace_roots.1
      (firstSpace_slots _) (by rw [hcur]; exact firstSpace_roots.2) hst
    · have hrun := vmmCloneAddressSpace_run m 0x207000
      rw [hret] at hrun
      refine ⟨n, _, hrun, hclone, ?_⟩
      rw [hclone.charged.counts 0xB8 (by decide) fun a ha hf => hreserved.unlisted ⟨a, ha, hf⟩,
        hpage.pagesBelow_eq, hnone (by decide)]
      decide
    · exact absurd hsuff hbad

/-- A page that is mapped is freed with its space. -/
theorem mem_freed_of_lookup {m : Machine} {root : Word} {vp : VPage} {x : Mapping}
    (hslot : vp.pml4 ≠ 0) (hx : pageLookup m root vp = some x) (hsmall : x.huge = false) :
    x.phys ∈ freed (destroyTrace m root) := by
  obtain ⟨pt, hpt, hp, haddr⟩ := entry_of_lookup hx hsmall
  have hmem : ∀ (d : Nat) (s : Fin 512), s ∈ pageSlots (d + 1) := fun d s =>
    mem_pageSlots.mpr fun h => absurd h (Nat.succ_ne_zero d)
  have hroot : vp.pml4 ∈ pageSlots ([] : List (Fin 512)).length := by
    refine mem_pageSlots.mpr fun _ => ?_
    have hv : vp.pml4.val ≠ 0 := fun hz => hslot (Fin.ext hz)
    omega
  have hswept : Swept vp.ptPath := ⟨hmem 1 _, hmem 0 _, hroot, trivial⟩
  have hfree : .free x.phys ∈ loopTrace m 1 vp.ptPath pt := by
    rw [loopTrace]
    refine List.mem_flatMap.mpr ⟨vp.pt, hmem 2 _, List.mem_cons_of_mem _ ?_⟩
    rw [if_pos hp, haddr]
    exact List.mem_append_right _ (List.mem_singleton_self _)
  have htrace := loopTrace_subset_destroyTrace (n := 1) hpt hswept rfl hfree
  exact List.mem_filterMap.mpr ⟨_, htrace, rfl⟩

/-! ## §5. Runs keep a reserved frame. -/

/-- **A reserved frame stays reserved** along a run of clones, destructions and
    allocations exactly if no destruction takes its count to zero. -/
theorem reserved_iff {s t : ForkSystem} {tr : List (Transition ForkSystem ForkAct)} {f : Nat}
    (hrun : Run ForkStep s tr t) (hf : Reserved s.machine.pmm f) :
    (∀ x ∈ tr, ¬ Allocatable x.2.2.machine.pmm f) ↔ ∀ x ∈ tr, KeepsCount f x.1 x.2.1 := by
  refine hrun.always_iff (I := fun s => Reserved s.machine.pmm f)
    (P := fun s => ¬ Allocatable s.machine.pmm f) (C := KeepsCount f) ?_ ?_ ?_ hf
  · intro s a s' hs hkeeps hstep
    cases hstep with
    | clone root _ => exact vmmCloneAddressSpace_reserved hs root
    | alloc => exact hs.alloc
    | destroy root _ =>
      show Reserved (vmmDestroyAddressSpace s.machine root).pmm f
      rw [pmm_vmmDestroyAddressSpace]
      exact hs.frees hkeeps
  · intro s hs hlost
    exact hs.unlisted (allocatable_iff.mp hlost)
  · intro s a s' hs hstep hlost
    cases hstep with
    | clone root _ => exact absurd trivial hlost
    | alloc => exact absurd trivial hlost
    | destroy root _ =>
      obtain ⟨hlt, hcount⟩ := not_or.mp hlost
      obtain ⟨hpos, htimes⟩ := not_or.mp hcount
      rw [not_not, allocatable_iff]
      show Listed (vmmDestroyAddressSpace s.machine root).pmm f
      rw [pmm_vmmDestroyAddressSpace]
      exact hs.frees_listed (by omega) (by omega) (by omega)

/-- The first space with the text buffer, cloned once. -/
theorem reserved_iff_cloned :
    ∃ m, Reserved m.pmm 0xB8 ∧
      pageLookup m 0x207000 (VPage.of 0x8000000000) = some (smallMapping 0xB8000 7) ∧
      ¬ Allocatable (vmmCloneAddressSpace m 0x207000).2.pmm 0xB8 := by
  obtain ⟨m₁, -, hwf, hcur, hfree, hpage⟩ := boot_vga_space
  generalize vmmMap m₁ 0x207000 0x8000000000 0xB8000 7 = m at hwf hcur hfree hpage
  have hreserved := (hwf.pmm.reserved vga_notMem_pool).1
  have hmapped := hpage.pages _ hpage.slot
  rw [if_pos rfl] at hmapped
  obtain ⟨n, m', hcloned, -⟩ := hpage.vga_cloned hwf hcur hfree
  have hstep := ForkStep.clone ⟨m, [0x207000]⟩ 0x207000 (List.mem_singleton_self _)
  dsimp only at hstep
  rw [hcloned] at hstep
  refine ⟨m, hreserved, hmapped, ?_⟩
  rw [hcloned]
  refine (reserved_iff ((Run.nil _).snoc hstep) hreserved).mpr ?_ _ (List.mem_singleton_self _)
  intro x hx
  rw [List.mem_singleton.mp hx]
  trivial

/-- **A clone and a destruction hand out the text buffer**: the frame was never
    on the free list, and the destruction of the first space puts it there. -/
theorem vga_frame_allocatable :
    ∃ m tr t, Reserved m.pmm 0xB8 ∧
      pageLookup m 0x207000 (VPage.of 0x8000000000) = some (smallMapping 0xB8000 7) ∧
      Run ForkStep ⟨m, [0x207000]⟩ tr t ∧ Allocatable t.machine.pmm 0xB8 := by
  obtain ⟨m₁, -, hwf, hcur, hfree, hpage⟩ := boot_vga_space
  generalize vmmMap m₁ 0x207000 0x8000000000 0xB8000 7 = m at hwf hcur hfree hpage
  have hreserved := (hwf.pmm.reserved vga_notMem_pool).1
  have hmapped := hpage.pages _ hpage.slot
  rw [if_pos rfl] at hmapped
  obtain ⟨n, m', hcloned, hclone, hcount⟩ := hpage.vga_cloned hwf hcur hfree
  have hkept := vmmCloneAddressSpace_reserved hreserved 0x207000
  have hstep := ForkStep.clone ⟨m, [0x207000]⟩ 0x207000 (List.mem_singleton_self _)
  dsimp only at hstep
  rw [hcloned] at hkept hstep
  have hshared := hclone.source _ hpage.slot
  rw [hmapped] at hshared
  have hfreed : 0xB8000 ∈ freed (destroyTrace m' 0x207000) :=
    mem_freed_of_lookup hpage.slot hshared rfl
  have hdestroy := ForkStep.destroy ⟨m', [n, 0x207000]⟩ 0x207000
    (List.mem_cons_of_mem _ (List.mem_singleton_self _))
  refine ⟨m, _, _, hreserved, hmapped, ((Run.nil _).snoc hstep).snoc hdestroy, ?_⟩
  rw [allocatable_iff]
  show Listed (vmmDestroyAddressSpace m' 0x207000).pmm 0xB8
  rw [pmm_vmmDestroyAddressSpace]
  refine Reserved.frees_listed hkept (by decide) (by rw [hcount]; decide) ?_
  rw [hcount]
  exact List.countP_pos_iff.mpr ⟨_, hfreed, by decide⟩

end ZohoOs
