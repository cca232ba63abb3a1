/-
  ZohoOs.Vmm.CloneAtomic — a clone is complete, or there is none.

  `vmm_clone_address_space` ignores every failed allocation.  With a frame for
  every table that holds a page, or comes before one that does, the clone maps
  what the source maps, with the same flags in both.  With fewer frames a page
  is written through `NULL`, after source pages were already made read-only.
-/
import ZohoOs.Vmm.Clone

namespace ZohoOs

open ZohoOs.Lib
open ZohoOs.Lib.Mem (Aligned)
open ZohoOs.Lib.Radix

/-! ## §1. Translations after the walk. -/

/-- The translation of a page that a clone shares. -/
def Mapping.share (x : Mapping) : Mapping := { x with flags := shareFlags x.flags }

namespace Cloning

variable {F : PageForest} {a b : Word} {m₀ m : Machine} {D : Set (List (Fin 512))} {vp : VPage}

/-- A page's slots above a path that is done are done. -/
theorem done (hD : through [vp.pml4] ⊆ D) (q : List (Fin 512)) : q ++ [vp.pml4] ∈ D :=
  hD (List.suffix_append q _)

theorem pageMask_huge {e : Word} (hh : Huge e) : pageMask 2 e = some hugeMask := by
  simp [pageMask, hh]

/-- Without a page directory a page is not mapped. -/
theorem lookup_no_pd {m : Machine} {r : Word} (h : tableAt pageChild m.entry r vp.pdPath = none) :
    pageLookup m r vp = none := by
  refine pageLookup_eq_none (tableAt_none_of_suffix h (List.suffix_cons vp.pd vp.pdPath)) ?_
  intro pd hpd
  rw [h] at hpd
  cases hpd

/-- **The source** keeps its translations, with the shared flags. -/
theorem lookup_source (h : Cloning F a b m₀ D m) (h₀ : m₀.Trees F) (hab : a ≠ b)
    (hvp : F.Path a [vp.pml4]) (hD : through [vp.pml4] ⊆ D) :
    pageLookup m a vp = (pageLookup m₀ a vp).map Mapping.share := by
  have hpdpath : F.Path a vp.pdPath := Machine.Wf.path_pd hvp
  have hptpath : F.Path a vp.ptPath := Machine.Wf.path_pt hvp
  have hpd : tableAt pageChild m.entry a vp.pdPath = tableAt pageChild m₀.entry a vp.pdPath :=
    Machine.Wf.tableAt_eq_of_iff hpdpath fun s => h.tables a hab vp.pdPath s
  have hpt : tableAt pageChild m.entry a vp.ptPath = tableAt pageChild m₀.entry a vp.ptPath :=
    Machine.Wf.tableAt_eq_of_iff hptpath fun s => h.tables a hab vp.ptPath s
  cases hd : tableAt pageChild m₀.entry a vp.pdPath with
  | none =>
    rw [lookup_no_pd hd, lookup_no_pd (hpd.trans hd)]
    rfl
  | some pd =>
    have hpde : m.entry pd vp.pd = sourceLeaf 2 (m₀.entry pd vp.pd) :=
      h.source vp.pdPath pd vp.pd ⟨hpdpath, hd⟩ (done hD [vp.pd, vp.pdpt])
    by_cases hh : Huge (m₀.entry pd vp.pd)
    · -- a 2 MB page in the directory
      have hp : Present (m₀.entry pd vp.pd) := by
        refine (h₀.clean ⟨hpdpath, hd⟩ hptpath).resolve_right fun hz => ?_
        rw [hz] at hh
        exact not_huge_zero hh
      have hm := pageMask_huge hh
      have hc := covers_of_pageMask hm
      rw [sourceLeaf_of_mask hp hm] at hpde
      have hh' : Huge (m.entry pd vp.pd) := by
        rw [hpde]
        exact (huge_sourceEntry hc hp).mpr hh
      rw [pageLookup_of_huge hd hh, pageLookup_of_huge (hpd.trans hd) hh', hpde,
        sourceEntry_addr hc hp, sourceEntry_flags hc hp]
      rfl
    · -- the directory's entry is a table or nothing, and is not changed
      have hkeep : m.entry pd vp.pd = m₀.entry pd vp.pd := by
        rw [hpde, sourceLeaf_of_none]
        simp [pageLeaf, hh]
      have hnh : ∀ pd', some pd = some pd' → ¬ Huge (m₀.entry pd' vp.pd) := by
        intro pd' he
        rw [← Option.some.inj he]
        exact hh
      cases ht : tableAt pageChild m₀.entry a vp.ptPath with
      | none =>
        rw [pageLookup_eq_none ht (by rw [hd]; exact hnh), pageLookup_eq_none (hpt.trans ht)]
        · rfl
        · rw [hpd, hd]
          intro pd' he
          rw [← Option.some.inj he, hkeep]
          exact hh
      | some pt =>
        have hpte : m.entry pt vp.pt = sourceLeaf 3 (m₀.entry pt vp.pt) :=
          h.source vp.ptPath pt vp.pt ⟨hptpath, ht⟩ (done hD [vp.pt, vp.pd, vp.pdpt])
        have hm3 : pageMask 3 (m₀.entry pt vp.pt) = some flagMask := rfl
        rw [pageLookup_of_pt ht, pageLookup_of_pt (hpt.trans ht), hpte]
        -- the entry of the table is rewritten to be shared
        by_cases hp : Present (m₀.entry pt vp.pt)
        · have hc := covers_of_pageMask hm3
          rw [if_pos (present_sourceLeaf.mpr hp), if_pos hp, sourceLeaf_of_mask hp hm3,
            sourceEntry_addr hc hp, sourceEntry_flags hc hp]
          rfl
        · rw [if_neg fun hc => hp (present_sourceLeaf.mp hc), if_neg hp]
          rfl

/-- A huge entry of a page directory is a page. -/
theorem pageLeaf_of_huge (h₀ : m₀.Trees F) (hva : F.Path a [vp.pml4]) {pd : Word}
    (hd : tableAt pageChild m₀.entry a vp.pdPath = some pd) (hh : Huge (m₀.entry pd vp.pd)) :
    Present (m₀.entry pd vp.pd) ∧ HoldsPage m₀ a vp.pdPath := by
  have hp : Present (m₀.entry pd vp.pd) := by
    refine (h₀.clean ⟨Machine.Wf.path_pd hva, hd⟩ (Machine.Wf.path_pt hva)).resolve_right ?_
    intro hz
    rw [hz] at hh
    exact not_huge_zero hh
  refine ⟨hp, pd, vp.pd, hd, ?_⟩
  rw [show vp.pdPath.length = 2 from rfl, (pageLeaf_of_mask hp (pageMask_huge hh)).1]
  exact Option.some_ne_none _

/-- Where neither table on the way holds a page, nothing is mapped. -/
theorem lookup_none
    (hnh : ∀ pd, tableAt pageChild m₀.entry a vp.pdPath = some pd → ¬ Huge (m₀.entry pd vp.pd))
    (hno : ¬ HoldsPage m₀ a vp.ptPath) : pageLookup m₀ a vp = none := by
  cases ht : tableAt pageChild m₀.entry a vp.ptPath with
  | none => exact pageLookup_eq_none ht hnh
  | some pt =>
    rw [pageLookup_of_pt ht, if_neg]
    intro hp
    refine hno ⟨pt, vp.pt, ht, ?_⟩
    rw [show vp.ptPath.length = 3 from rfl, (pageLeaf_of_mask hp rfl).1]
    exact Option.some_ne_none _

/-- **The clone** has the source's translations, with the shared flags. -/
theorem lookup_clone (h : Cloning F a b m₀ D m) (h₀ : m₀.Trees F) (hva : F.Path a [vp.pml4])
    (hvb : F.Path b [vp.pml4]) (hD : through [vp.pml4] ⊆ D) :
    pageLookup m b vp = (pageLookup m₀ a vp).map Mapping.share := by
  have hslot : ∀ (d : Nat) (j : Fin 512), j ∈ pageSlots (d + 1) := fun d j =>
    mem_pageSlots.mpr fun h0 => absurd h0 (Nat.succ_ne_zero _)
  cases hd' : tableAt pageChild m.entry b vp.pdPath with
  | none =>
    -- the clone has no page directory there, so that the source has no page
    have hno : ∀ q, vp.pdPath <:+ q → ¬ HoldsPage m₀ a q := by
      intro q hq hpage
      obtain ⟨u, hu⟩ := h.reach vp.pdPath (done hD [vp.pdpt]) ⟨q, hq, hpage⟩
      have hu' := hu.2
      rw [hd'] at hu'
      cases hu'
    rw [lookup_no_pd hd', lookup_none (fun pd hd hh => hno _ List.suffix_rfl
      (pageLeaf_of_huge h₀ hva hd hh).2) (hno _ (List.suffix_cons vp.pd vp.pdPath))]
    rfl
  | some pd' =>
    obtain ⟨pd, hpd, hcl⟩ := h.cloned vp.pdPath pd' vp.pd ⟨Machine.Wf.path_pd hvb, hd'⟩
      (hslot 1 vp.pd) (done hD [vp.pd, vp.pdpt])
    have hpt' : tableAt pageChild m.entry b vp.ptPath = pageChild 2 (m.entry pd' vp.pd) :=
      tableAt_cons hd'
    have hpt : tableAt pageChild m₀.entry a vp.ptPath = pageChild 2 (m₀.entry pd vp.pd) :=
      tableAt_cons hpd.2
    have hnh : ¬ Huge (m₀.entry pd vp.pd) → ∀ pd', tableAt pageChild m₀.entry a vp.pdPath = some pd' →
        ¬ Huge (m₀.entry pd' vp.pd) := by
      intro hh pd' he
      rw [hpd.2] at he
      rw [← Option.some.inj he]
      exact hh
    generalize he : m.entry pd' vp.pd = e' at hcl hpt'
    cases hcl with
    | page hleaf =>
      have hleaf2 : pageLeaf 2 (m₀.entry pd vp.pd) ≠ none := hleaf
      have hph : Present (m₀.entry pd vp.pd) ∧ Huge (m₀.entry pd vp.pd) := by
        by_contra hcon
        refine hleaf2 ?_
        rw [pageLeaf, if_neg (by simp), if_neg fun hc => hcon ⟨hc.1, hc.2.2⟩]
      obtain ⟨hp, hh⟩ := hph
      have hm := pageMask_huge hh
      have hc := covers_of_pageMask hm
      have hval : m.entry pd' vp.pd = sharedEntry hugeMask (m₀.entry pd vp.pd) :=
        he.trans (cloneLeaf_of_mask hm)
      have hh' : Huge (m.entry pd' vp.pd) := by
        rw [hval]
        exact (huge_sharedEntry hc hp).mpr hh
      rw [pageLookup_of_huge hpd.2 hh, pageLookup_of_huge hd' hh', hval, sharedEntry_addr hc hp,
        sharedEntry_flags hc hp]
      rfl
    | @table n hchild hn =>
      have hn' : tableAt pageChild m.entry b vp.ptPath = some n :=
        hpt'.trans (pageChild_tableEntry hn (by decide))
      have hh : ¬ Huge (m₀.entry pd vp.pd) := fun hh => hchild (pageChild_of_huge hh)
      obtain ⟨pt, hptsome⟩ := Option.ne_none_iff_exists'.mp hchild
      have hpts : tableAt pageChild m₀.entry a vp.ptPath = some pt := hpt.trans hptsome
      obtain ⟨pt₁, hpt₁, hcl⟩ := h.cloned vp.ptPath n vp.pt ⟨Machine.Wf.path_pt hvb, hn'⟩
        (hslot 2 vp.pt) (done hD [vp.pt, vp.pd, vp.pdpt])
      obtain rfl : pt = pt₁ := Option.some.inj (hpts.symm.trans hpt₁.2)
      rw [pageLookup_of_pt hpts, pageLookup_of_pt hn']
      generalize he₃ : m.entry n vp.pt = e₃ at hcl
      cases hcl with
      | page hleaf =>
        have hp : Present (m₀.entry pt vp.pt) := by
          by_contra hp
          exact hleaf (pageLeaf_of_not_present hp)
        have hm3 : pageMask 3 (m₀.entry pt vp.pt) = some flagMask := rfl
        have hc := covers_of_pageMask hm3
        rw [show vp.ptPath.length = 3 from rfl, cloneLeaf_of_mask hm3,
          if_pos (present_sharedEntry hc hp), if_pos hp, sharedEntry_addr hc hp,
          sharedEntry_flags hc hp]
        rfl
      | table hchild₃ => exact absurd (pageChild_leaf (by simp [VPage.ptPath]) _) hchild₃
      | empty hleaf =>
        have hp : ¬ Present (m₀.entry pt vp.pt) := by
          intro hp
          rw [show vp.ptPath.length = 3 from rfl, (pageLeaf_of_mask hp rfl).1] at hleaf
          cases hleaf
        rw [if_neg not_present_zero, if_neg hp]
        rfl
    | empty hleaf =>
      have hh : ¬ Huge (m₀.entry pd vp.pd) := by
        intro hh
        have hp := (pageLeaf_of_huge h₀ hva hpd.2 hh).1
        rw [show vp.pdPath.length = 2 from rfl, (pageLeaf_of_mask hp (pageMask_huge hh)).1] at hleaf
        cases hleaf
      rw [pageChild_zero] at hpt'
      have hno : ¬ HoldsPage m₀ a vp.ptPath := by
        intro hpage
        obtain ⟨u, hu⟩ := h.reach vp.ptPath (done hD [vp.pd, vp.pdpt]) ⟨_, List.suffix_rfl, hpage⟩
        have hu' := hu.2
        rw [hpt'] at hu'
        cases hu'
      rw [lookup_none (hnh hh) hno, pageLookup_eq_none hpt']
      · rfl
      · intro pd₁ hd₁
        rw [hd'] at hd₁
        rw [← Option.some.inj hd₁, he]
        exact not_huge_zero

end Cloning

/-! ## §2. From the first frame on. -/

/-- The run of `vmm_clone_address_space`, with the pages it writes. -/
def cloneRun (m : Machine) (src : Word) : CloneState :=
  cloneLoop 4 0 src (vmmCreateAddressSpace m).1 [] ((vmmCreateAddressSpace m).2, [])

/-- The source's tables in the order of the walk. -/
def walkedTables (m : Machine) (src : Word) : List (List (Fin 512)) := [] :: tablesBelow m src 4 []

/-- **The frames suffice**: every table that holds a page finds a free frame,
    when each table before it takes one. -/
def FramesSuffice (m : Machine) (src : Word) : Prop :=
  ∀ k q, (walkedTables m src)[k]? = some q → HoldsPage m src q → k < pmmGetFreeCount m.pmm

/-- **A complete clone**: the kernel's slot 0, and page by page what the source
    maps, in both spaces with the shared flags; every page shared is counted
    once more, and the frames taken are those of the tables. -/
structure CompleteClone (m : Machine) (src : Word) (m' : Machine) (dst : Word) : Prop where
  kernel : m'.entry dst 0 = m.entry m.currentPml4 0
  clone : ∀ vp : VPage, vp.pml4 ≠ 0 →
    pageLookup m' dst vp = (pageLookup m src vp).map Mapping.share
  source : ∀ vp : VPage, vp.pml4 ≠ 0 →
    pageLookup m' src vp = (pageLookup m src vp).map Mapping.share
  charged : Charged m.pmm (pagesBelow m src 4 []) (walkedTables m src).length m'.pmm

/-- Nothing happened: memory, the reference counts and the free frames are as
    before. -/
structure NothingCloned (m m' : Machine) : Prop where
  mem : m'.mem = m.mem
  refCounts : m'.pmm.refCounts = m.pmm.refCounts
  frameBitmap : m'.pmm.frameBitmap = m.pmm.frameBitmap
  freeStack : m'.pmm.freeStack = m.pmm.freeStack

/-- **A clone is complete, or there is none**, and no page is written through
    `NULL`. -/
structure CloneAtomic (m : Machine) (src : Word) : Prop where
  complete : (vmmCloneAddressSpace m src).1 ≠ 0 →
    CompleteClone m src (vmmCloneAddressSpace m src).2 (vmmCloneAddressSpace m src).1
  nothing : (vmmCloneAddressSpace m src).1 = 0 → NothingCloned m (vmmCloneAddressSpace m src).2
  writes : ¬ ThroughNull (cloneRun m src).2

section Start

variable {F : PageForest} {m : Machine} {src n : Word} {rest : List Word}

theorem vmmCloneAddressSpace_run (m : Machine) (src : Word) :
    vmmCloneAddressSpace m src = ((vmmCreateAddressSpace m).1, (cloneRun m src).1) :=
  vmmCloneAddressSpace_eq m src

theorem framesSuffice_iff : FramesSuffice m src ↔
    Fits (HoldsPage m src) m.pmm.freeStack.length (walkedTables m src) := fits_iff.symm

/-- The walk starts with the new root: nothing is done, and it is empty. -/
theorem cloning_start (h : m.Trees F) (hsrc : src ∈ F.roots) (hst : m.pmm.freeStack = n :: rest)
    (v : Word) : src ≠ n ∧
      Cloning (F.addRoot n userSlots) src n (m.createdSpace n v) ∅ (m.createdSpace n v) := by
  obtain ⟨hn, -, hfresh⟩ := h.top hst
  obtain ⟨htrees, htab⟩ := h.createdSpace hst v
  have hne : src ≠ n := fun he => hfresh n [] ⟨Forest.Path.root (he ▸ hsrc), rfl⟩
  refine ⟨hne, htrees, fun _ _ _ _ => Iff.rfl, fun _ _ _ _ _ _ _ => rfl,
    fun _ _ _ _ hy => absurd hy (Set.notMem_empty _), fun q u i hu hi _ => ?_,
    fun _ _ _ _ _ hy => absurd hy (Set.notMem_empty _),
    fun _ hy _ => absurd hy (Set.notMem_empty _), rfl, rfl⟩
  rcases (htab _ _ _).mp hu with hu | ⟨-, rfl, rfl⟩
  · exact absurd ⟨Forest.Path.root hu.1.1, rfl⟩ (hfresh n [])
  · rw [entry_createdSpace hn hn, if_pos rfl, if_neg (Cloning.slot_user hi rfl)]

/-- The paths the walk lists are the user's. -/
theorem path_of_mem_pathsBelow {k : Nat} (hsrc : src ∈ F.roots) (hslots : userSlots ⊆ F.slots src)
    {q : List (Fin 512)} (hq : q ∈ pathsBelow pageSlots k []) : F.Path src q := by
  cases k with
  | zero => cases hq
  | succ k =>
    obtain ⟨i, hi, hq⟩ := List.mem_flatMap.mp hq
    have hroot : F.Path src [i] := (Forest.Path.root hsrc).cons fun _ =>
      hslots (Cloning.slot_user (p := []) hi rfl)
    refine path_of_suffix hroot ?_
    rcases List.mem_cons.mp hq with rfl | hq
    · exact List.suffix_rfl
    · exact suffix_of_mem_pathsBelow hq

/-- Two machines with the same entries in the source's tables. -/
def SameTree (F : PageForest) (src : Word) (m m' : Machine) : Prop :=
  ∀ q s, m.TableOf F src q s → ∀ j, m'.entry s j = m.entry s j

namespace SameTree

variable {m' : Machine} {q : List (Fin 512)}

theorem tableAt_eq (h : SameTree F src m m') (hq : F.Path src q) :
    tableAt pageChild m'.entry src q = tableAt pageChild m.entry src q :=
  Forest.tableAt_congr_path h hq

theorem holdsPage_iff (h : SameTree F src m m') (hq : F.Path src q) :
    HoldsPage m' src q ↔ HoldsPage m src q := by
  unfold HoldsPage
  rw [h.tableAt_eq hq]
  constructor
  · intro hpage
    obtain ⟨t, i, ht, hleaf⟩ := hpage
    rw [h q t ⟨hq, ht⟩] at hleaf
    exact ⟨t, i, ht, hleaf⟩
  · intro hpage
    obtain ⟨t, i, ht, hleaf⟩ := hpage
    rw [← h q t ⟨hq, ht⟩ i] at hleaf
    exact ⟨t, i, ht, hleaf⟩

theorem leafAt_eq (h : SameTree F src m m') (hq : F.Path src q) :
    leafAt pageChild pageLeaf m'.entry src q = leafAt pageChild pageLeaf m.entry src q := by
  cases q with
  | nil => rw [leafAt, leafAt]
  | cons i q =>
    rw [leafAt, leafAt, h.tableAt_eq hq.tail]
    cases ht : tableAt pageChild m.entry src q with
    | none => rw [Option.bind_none, Option.bind_none]
    | some t => rw [Option.bind_some, Option.bind_some, h q t ⟨hq.tail, ht⟩]

theorem lookup_eq (h : SameTree F src m m') {vp : VPage} (hvp : F.Path src [vp.pml4]) :
    pageLookup m' src vp = pageLookup m src vp :=
  pageLookup_congr (h.tableAt_eq (Machine.Wf.path_pd hvp))
    (fun pd hpd => h _ pd ⟨Machine.Wf.path_pd hvp, hpd⟩ _) (h.tableAt_eq (Machine.Wf.path_pt hvp))
    (fun pt hpt => h _ pt ⟨Machine.Wf.path_pt hvp, hpt⟩ _)

theorem tablesBelow_eq (h : SameTree F src m m') (hsrc : src ∈ F.roots)
    (hslots : userSlots ⊆ F.slots src) : tablesBelow m' src 4 [] = tablesBelow m src 4 [] := by
  rw [tablesBelow, tablesBelow]
  exact List.filter_congr fun q hq => by rw [h.tableAt_eq (path_of_mem_pathsBelow hsrc hslots hq)]

theorem pagesBelow_eq (h : SameTree F src m m') (hsrc : src ∈ F.roots)
    (hslots : userSlots ⊆ F.slots src) : pagesBelow m' src 4 [] = pagesBelow m src 4 [] := by
  rw [pagesBelow, pagesBelow]
  exact List.filterMap_congr fun q hq => h.leafAt_eq (path_of_mem_pathsBelow hsrc hslots hq)

end SameTree

variable (src) in
/-- A new root leaves the source alone. -/
theorem sameTree_createdSpace (h : m.Trees F) (hst : m.pmm.freeStack = n :: rest) (v : Word) :
    SameTree F src m (m.createdSpace n v) := by
  obtain ⟨hn, -, hfresh⟩ := h.top hst
  intro q s hs j
  rw [entry_createdSpace hn (h.aligned hs), if_neg (show s ≠ n from fun he => hfresh _ _ (he ▸ hs))]

/-- The root maps no page. -/
theorem not_holdsPage_root : ¬ HoldsPage m src [] := by
  intro hpage
  obtain ⟨t, i, -, hleaf⟩ := hpage
  rcases pageLeaf_depth hleaf with hd | hd
  · exact absurd hd (by decide)
  · exact absurd hd (by decide)

/-- **The walk from a new root.** -/
theorem cloneRun_outcome (h : m.Trees F) (hsrc : src ∈ F.roots) (hslots : userSlots ⊆ F.slots src)
    (hst : m.pmm.freeStack = n :: rest) :
    ∃ v, vmmCreateAddressSpace m = (n, m.createdSpace n v) ∧
      v = (zeroTable m.allocFrame.2 n).entry m.currentPml4 0 ∧
      CloneOutcome (F.addRoot n userSlots) src n (m.createdSpace n v)
        (∅ ∪ throughSlots [] (pageSlots 0)) (tablesBelow (m.createdSpace n v) src 4 [])
        (pagesBelow (m.createdSpace n v) src 4 []) (m.createdSpace n v, []) (cloneRun m src) := by
  obtain ⟨hn, hn0, -⟩ := h.top hst
  have hcreate := vmmCreateAddressSpace_cons hst hn0
  refine ⟨_, hcreate, rfl, ?_⟩
  set v := (zeroTable m.allocFrame.2 n).entry m.currentPml4 0
  obtain ⟨hne, hstart⟩ := cloning_start h hsrc hst v
  have hsa : userSlots ⊆ (F.addRoot n userSlots).slots src := by
    rw [show (F.addRoot n userSlots).slots src = F.slots src from Function.update_of_ne hne _ _]
    exact hslots
  have hsb : userSlots ⊆ (F.addRoot n userSlots).slots n := by
    rw [show (F.addRoot n userSlots).slots n = userSlots from Function.update_self _ _ _]
  have hroots : ∀ r, r ∈ F.roots ∨ r = n → (m.createdSpace n v).TableOf (F.addRoot n userSlots) r [] r := by
    intro r hr
    refine ⟨Forest.Path.root ?_, rfl⟩
    rcases hr with hr | rfl
    · exact Set.mem_insert_of_mem _ hr
    · exact Set.mem_insert _ _
  unfold cloneRun
  rw [hcreate]
  exact cloneLoop_spec (p := []) hne hsa hsb hstart (hroots src (.inl hsrc)) (hroots n (.inr rfl))
    (fun _ _ _ _ hy => absurd hy (Set.notMem_empty _)) rfl List.not_mem_nil

/-- **With a frame left for the root**: the clone is complete, or the frames do
    not suffice and a page is written through `NULL`. -/
theorem cloneRun_cases (h : m.Trees F) (hsrc : src ∈ F.roots) (hslots : userSlots ⊆ F.slots src)
    (hcur : m.currentPml4 ∈ F.roots) (hst : m.pmm.freeStack = n :: rest) :
    (vmmCreateAddressSpace m).1 = n ∧ n ≠ 0 ∧
      (FramesSuffice m src ∧ CompleteClone m src (cloneRun m src).1 n ∧
          (cloneRun m src).1.Trees (F.addRoot n userSlots) ∧ ¬ ThroughNull (cloneRun m src).2 ∨
        ¬ FramesSuffice m src ∧ ThroughNull (cloneRun m src).2) := by
  obtain ⟨hn, hn0, hfresh⟩ := h.top hst
  obtain ⟨v, hcreate, hv, hout⟩ := cloneRun_outcome h hsrc hslots hst
  refine ⟨by rw [hcreate], hn0, ?_⟩
  obtain ⟨hne, -⟩ := cloning_start h hsrc hst v
  have hsame := sameTree_createdSpace src h hst v
  have hlen : (m.createdSpace n v).pmm.freeStack.length = m.pmm.freeStack.length - 1 := by
    rw [freeStack_createdSpace hst, hst]
    rfl
  -- the root takes a frame, and the rest of the walk goes on with the others
  have hsuff : FramesSuffice m src ↔ Fits (HoldsPage (m.createdSpace n v) src)
      (m.createdSpace n v).pmm.freeStack.length (tablesBelow m src 4 []) := by
    rw [framesSuffice_iff, walkedTables, Fits, hlen, fits_iff, fits_iff,
      and_iff_right fun hroot => absurd hroot not_holdsPage_root]
    refine forall_congr' fun k => forall_congr' fun q => imp_congr_right fun hq => ?_
    have hpath := path_of_mem_pathsBelow hsrc hslots
      (mem_tablesBelow.mp (List.mem_of_getElem? hq)).1
    rw [hsame.holdsPage_iff hpath]
  rw [hsame.tablesBelow_eq hsrc hslots, hsame.pagesBelow_eq hsrc hslots] at hout
  rcases hout with hw | ⟨hfits, hnull⟩
  · left
    obtain ⟨ws, hws, -, hnull⟩ := hw.writes
    have hfits := hw.fits
    have hcharged := hw.charged
    dsimp only at hfits hcharged
    have hpath : ∀ vp : VPage, vp.pml4 ≠ 0 → F.Path src [vp.pml4] := fun vp hvp =>
      (Forest.Path.root hsrc).cons fun _ => hslots hvp
    have hpaths : ∀ vp : VPage, vp.pml4 ≠ 0 → (F.addRoot n userSlots).Path src [vp.pml4] ∧
        (F.addRoot n userSlots).Path n [vp.pml4] := by
      intro vp hvp
      refine ⟨(addRoot_path_of_ne hne).mpr (hpath vp hvp),
        (Forest.Path.root (Set.mem_insert _ _)).cons fun _ => ?_⟩
      rw [show (F.addRoot n userSlots).slots n = userSlots from Function.update_self _ _ _]
      exact hvp
    have hdone : ∀ vp : VPage, vp.pml4 ≠ 0 →
        through [vp.pml4] ⊆ ∅ ∪ throughSlots [] (pageSlots 0) := by
      intro vp hvp y hy
      refine .inr ⟨vp.pml4, mem_pageSlots.mpr fun _ => ?_, hy⟩
      have hv : vp.pml4.val ≠ 0 := fun hz => hvp (Fin.ext hz)
      omega
    have hstart : (m.createdSpace n v).Trees (F.addRoot n userSlots) := (h.createdSpace hst v).1
    refine ⟨hsuff.mpr hfits, ⟨?_, fun vp hvp => ?_, fun vp hvp => ?_, ?_⟩, hw.cloning.trees, ?_⟩
    · have hkernel : m.TableOf F m.currentPml4 [] m.currentPml4 := ⟨Forest.Path.root hcur, rfl⟩
      rw [hw.cloning.shared, entry_createdSpace hn hn, if_pos rfl, if_pos rfl, hv,
        entry_zeroTable_of_ne hn (h.aligned hkernel) fun he => hfresh _ _ (he ▸ hkernel)]
      rfl
    · rw [hw.cloning.lookup_clone hstart (hpaths vp hvp).1 (hpaths vp hvp).2 (hdone vp hvp),
        hsame.lookup_eq (hpath vp hvp)]
    · rw [hw.cloning.lookup_source hstart hne (hpaths vp hvp).1 (hdone vp hvp),
        hsame.lookup_eq (hpath vp hvp)]
    · rw [pmm_createdSpace] at hcharged
      have hall := (Charged.alloc hst).trans hcharged
      rwa [Nat.add_comm] at hall
    · rw [hws]
      intro hc
      obtain ⟨w, hw, h0⟩ := hc
      exact hnull w hw h0
  · right
    dsimp only at hfits
    exact ⟨fun hc => hfits (hsuff.mp hc), hnull⟩

variable (src) in
/-- **With no frame left**: nothing happens, or the frames do not suffice and a
    page is written through `NULL`. -/
theorem cloneRun_empty (hst : m.pmm.freeStack = []) :
    (vmmCreateAddressSpace m).1 = 0 ∧
      (FramesSuffice m src ∧ NothingCloned m (cloneRun m src).1 ∧ ¬ ThroughNull (cloneRun m src).2 ∨
        ¬ FramesSuffice m src ∧ ThroughNull (cloneRun m src).2) := by
  have hcreate : vmmCreateAddressSpace m = (0, m.failed 1) := by
    rw [vmmCreateAddressSpace_nil hst, Machine.allocFrame, pmmAllocFrame_nil hst]
    rfl
  have hst' : (m.failed 1).pmm.freeStack = [] := hst
  have hroot : tableAt pageChild (m.failed 1).entry src [] = some src := rfl
  have hpages : HasPage m src 4 [] ↔ ¬ FramesSuffice m src := by
    rw [framesSuffice_iff, hst, List.length_nil, fits_zero]
    constructor
    · intro hpage hnone
      obtain ⟨q, hq, hholds⟩ := hpage
      refine hnone q ?_ hholds
      rcases List.mem_cons.mp hq with rfl | hq
      · exact List.mem_cons_self
      · obtain ⟨t, i, ht, -⟩ := hholds
        refine List.mem_cons_of_mem _ (mem_tablesBelow.mpr ⟨hq, ?_⟩)
        rw [ht]
        rfl
    · intro hnone
      by_contra hno
      refine hnone fun q hq hholds => hno ⟨q, ?_, hholds⟩
      rcases List.mem_cons.mp hq with rfl | hq
      · exact List.mem_cons_self
      · exact List.mem_cons_of_mem _ (mem_tablesBelow.mp hq).1
  refine ⟨by rw [hcreate], ?_⟩
  unfold cloneRun
  rw [hcreate]
  dsimp only
  by_cases hpage : HasPage m src 4 []
  · right
    have hnull : ThroughNull (cloneLoop 4 ([] : List (Fin 512)).length src 0 [] (m.failed 1, [])).2 :=
      cloneLoop_null hst' List.mem_cons_self hpage hroot rfl
    rw [List.length_nil] at hnull
    exact ⟨hpages.mp hpage, hnull⟩
  · left
    obtain ⟨k, hk⟩ := cloneLoop_empty (p := []) 0 [] [] hst' hpage hroot rfl
    rw [List.length_nil] at hk
    rw [hk]
    refine ⟨by_contra fun hc => hpage (hpages.mpr hc), ⟨rfl, rfl, rfl, rfl⟩, ?_⟩
    intro hc
    obtain ⟨w, hw, -⟩ := hc
    cases hw

/-- A clone that is atomic had the frames it needs. -/
theorem CloneAtomic.framesSuffice (h : m.Trees F) (hsrc : src ∈ F.roots)
    (hslots : userSlots ⊆ F.slots src) (hcur : m.currentPml4 ∈ F.roots)
    (hat : CloneAtomic m src) : FramesSuffice m src := by
  cases hst : m.pmm.freeStack with
  | nil =>
    obtain ⟨-, ⟨hsuff, -⟩ | ⟨-, hnull⟩⟩ := cloneRun_empty src hst
    · exact hsuff
    · exact absurd hnull hat.writes
  | cons n rest =>
    obtain ⟨-, -, ⟨hsuff, -⟩ | ⟨-, hnull⟩⟩ := cloneRun_cases h hsrc hslots hcur hst
    · exact hsuff
    · exact absurd hnull hat.writes

/-- What the call returned decides which part is asked for. -/
theorem CloneAtomic.of_run {dst : Word} {m' : Machine} (hrun : vmmCloneAddressSpace m src = (dst, m'))
    (hcomplete : dst ≠ 0 → CompleteClone m src m' dst) (hnothing : dst = 0 → NothingCloned m m')
    (hwrites : ¬ ThroughNull (cloneRun m src).2) : CloneAtomic m src := by
  refine ⟨?_, ?_, hwrites⟩
  · rw [hrun]
    exact hcomplete
  · rw [hrun]
    exact hnothing

/-- **`vmm_clone_address_space` returns a complete clone, or `NULL` with
    nothing changed, exactly when the free frames suffice.** -/
theorem cloneAtomic_iff (h : m.Trees F) (hsrc : src ∈ F.roots) (hslots : userSlots ⊆ F.slots src)
    (hcur : m.currentPml4 ∈ F.roots) :
    vmmCloneAddressSpace m src = ((vmmCreateAddressSpace m).1, (cloneRun m src).1) ∧
      (CloneAtomic m src ↔ FramesSuffice m src) := by
  have hrun := vmmCloneAddressSpace_run m src
  refine ⟨hrun, fun hat => hat.framesSuffice h hsrc hslots hcur, fun hsuff => ?_⟩
  cases hst : m.pmm.freeStack with
  | nil =>
    obtain ⟨hret, ⟨-, hnothing, hnull⟩ | ⟨hno, -⟩⟩ := cloneRun_empty src hst
    · exact .of_run hrun (fun hne => absurd hret hne) (fun _ => hnothing) hnull
    · exact absurd hsuff hno
  | cons n rest =>
    obtain ⟨hret, hn0, ⟨-, hcomplete, -, hnull⟩ | ⟨hno, -⟩⟩ := cloneRun_cases h hsrc hslots hcur hst
    · rw [hret] at hrun
      exact .of_run hrun (fun _ => hcomplete) (fun hz => absurd hz hn0) hnull
    · exact absurd hsuff hno

end Start

/-! ## §3. The first space of a small machine. -/

/-- The roots of the first space's forest. -/
theorem firstSpace_roots : (0x207000 : Word) ∈ (spaceForest p4Table {0x207000}).roots ∧
    p4Table ∈ (spaceForest p4Table {0x207000}).roots := by
  refine ⟨Set.mem_insert_of_mem _ ?_, Set.mem_insert _ _⟩
  rw [Finset.coe_singleton]
  exact Set.mem_singleton _

theorem firstSpace_slots (r : Word) : userSlots ⊆ (spaceForest p4Table {0x207000}).slots r := by
  intro i hi
  unfold spaceForest
  by_cases hr : r = p4Table
  · simp [hr]
  · simpa [hr] using hi

theorem firstSpace_path {i : Fin 512} (hi : i ≠ 0) :
    (spaceForest p4Table {0x207000}).Path 0x207000 [i] :=
  (Forest.Path.root firstSpace_roots.1).cons fun _ => firstSpace_slots _ hi

/-- The first space of a small machine with one page, or one 2 MiB page, at
    the start of PML4 slot 1. -/
theorem boot_mapped_space (phys : Word) {flags : Word} (hlow : LowFlags flags) :
    ∃ m₁, vmmCreateAddressSpace (bootMachine (smallPmm 8)) = (0x207000, m₁) ∧
      (vmmMap m₁ 0x207000 0x8000000000 phys flags).Wf (bootPool (smallPmm 8))
        (spaceForest p4Table {0x207000}) ∧
      (vmmMap m₁ 0x207000 0x8000000000 phys flags).currentPml4 = p4Table ∧
      4 ≤ (vmmMap m₁ 0x207000 0x8000000000 phys flags).pmm.freeStack.length ∧
      ∀ vp : VPage, vp.pml4 ≠ 0 →
        pageLookup (vmmMap m₁ 0x207000 0x8000000000 phys flags) 0x207000 vp =
          if flags &&& pageHuge ≠ 0 then
            if vp.SameHuge (VPage.of 0x8000000000) then some (hugeMapping phys flags vp) else none
          else if vp = VPage.of 0x8000000000 then some (smallMapping phys flags) else none := by
  have h₀ : (bootMachine (smallPmm 8)).Spaces (bootPool (smallPmm 8)) p4Table ∅ :=
    Machine.Spaces.none (m := bootMachine (smallPmm 8)) (bootMachine_small_wf (by decide))
  obtain ⟨rest, hst₀, hrest⟩ : ∃ rest, (bootMachine (smallPmm 8)).pmm.freeStack
      = 0x207000 :: rest ∧ rest.length = 7 := ⟨_, freeStack_smallPmm 8, rfl⟩
  obtain ⟨hcreate, -, h₁⟩ := h₀.create hst₀
  obtain ⟨hn, -, -, -, hfresh⟩ := h₀.wf.top hst₀
  set m₁ := (bootMachine (smallPmm 8)).createdSpace 0x207000
    ((bootMachine (smallPmm 8)).entry p4Table 0)
  have hlen : m₁.pmm.freeStack.length = 7 := by
    rw [freeStack_createdSpace hst₀, hrest]
  -- nothing is mapped in the new space
  have hempty : ∀ vp : VPage, vp.pml4 ≠ 0 → pageLookup m₁ 0x207000 vp = none := by
    intro vp hvp
    refine pageLookup_eq_none (tableAt_createdSpace_user h₀.wf hst₀ hvp [vp.pd, vp.pdpt]) ?_
    intro pd hpd
    rw [show vp.pdPath = [vp.pdpt] ++ [vp.pml4] from rfl,
      tableAt_createdSpace_user h₀.wf hst₀ hvp] at hpd
    cases hpd
  have hslot : (VPage.of 0x8000000000).pml4 ≠ 0 := by decide
  obtain ⟨hwf, ⟨-, hlook⟩ | ⟨hbad, -⟩⟩ := h₁.wf.vmmMap_lookup phys (Eq.refl (VPage.of 0x8000000000))
    (firstSpace_path hslot) hlow (fun _ x hx => by rw [hempty _ hslot] at hx; cases hx)
  swap
  · have hfail := vmmMap_allocFailures (m := m₁) (by omega) 0x207000 0x8000000000 phys flags
    omega
  refine ⟨m₁, hcreate, hwf, ?_, ?_, fun vp hvp => ?_⟩
  · rw [currentPml4_vmmMap]
    exact h₁.current
  · have hframes := vmmMap_frames m₁ 0x207000 0x8000000000 phys flags
    omega
  · have h := hlook 0x207000 vp (firstSpace_path hvp)
    rw [hempty vp hvp] at h
    simpa using h

/-- With four free frames the first space can be cloned. -/
theorem cloneAtomic_iff_first :
    ∃ m₁, vmmCreateAddressSpace (bootMachine (smallPmm 8)) = (0x207000, m₁) ∧
      (vmmCloneAddressSpace (vmmMap m₁ 0x207000 0x8000000000 0x40000000 7) 0x207000
          = ((vmmCreateAddressSpace (vmmMap m₁ 0x207000 0x8000000000 0x40000000 7)).1,
            (cloneRun (vmmMap m₁ 0x207000 0x8000000000 0x40000000 7) 0x207000).1) ∧
        (CloneAtomic (vmmMap m₁ 0x207000 0x8000000000 0x40000000 7) 0x207000 ↔
          FramesSuffice (vmmMap m₁ 0x207000 0x8000000000 0x40000000 7) 0x207000)) := by
  obtain ⟨m₁, hcreate, hwf, hcur, -⟩ :=
    boot_mapped_space 0x40000000 (show LowFlags 7 by decide)
  refine ⟨m₁, hcreate, cloneAtomic_iff (.of_wf hwf) firstSpace_roots.1 (firstSpace_slots _) ?_⟩
  rw [hcur]
  exact firstSpace_roots.2

/-- Every free frame handed out by `pmm_alloc_frame`. -/
def Machine.exhausted (m : Machine) : Machine :=
  (fun m => m.allocFrame.2)^[m.pmm.freeStack.length] m

section Exhausted

variable {m : Machine}

/-- Handing out frames writes no memory. -/
theorem allocs_eq (m : Machine) (k : Nat) : (fun m => m.allocFrame.2)^[k] m
    = m.withPmm ((fun p => (pmmAllocFrame p).2)^[k] m.pmm) := by
  induction k with
  | zero => rfl
  | succ k ih =>
    rw [Function.iterate_succ_apply', ih, Function.iterate_succ_apply']
    rfl

theorem freeStack_allocs (p : Pmm) (k : Nat) :
    ((fun p => (pmmAllocFrame p).2)^[k] p).freeStack = p.freeStack.drop k := by
  induction k with
  | zero => rfl
  | succ k ih =>
    rw [Function.iterate_succ_apply']
    cases hst : ((fun p => (pmmAllocFrame p).2)^[k] p).freeStack with
    | nil =>
      rw [pmmAllocFrame_nil hst, ← List.drop_drop, ← ih, hst, List.drop_nil]
    | cons a rest =>
      rw [pmmAllocFrame_cons hst, ← List.drop_drop, ← ih, hst]
      rfl

theorem freeStack_exhausted (m : Machine) : m.exhausted.pmm.freeStack = [] := by
  rw [Machine.exhausted, allocs_eq, withPmm_pmm, freeStack_allocs, List.drop_length]

theorem exhausted_wf {pool : Finset Nat} {F : PageForest} (h : m.Wf pool F) :
    m.exhausted.Wf pool F := by
  unfold Machine.exhausted
  generalize m.pmm.freeStack.length = k
  induction k with
  | zero => exact h
  | succ k ih =>
    rw [Function.iterate_succ_apply']
    exact ih.allocFrame

end Exhausted

/-- The walk lists every path below a user slot. -/
theorem mem_walkedPaths {i : Fin 512} {q : List (Fin 512)} (hi : i ≠ 0) (hq : [i] <:+ q)
    (hlen : q.length ≤ 4) : q ∈ pathsBelow pageSlots 4 [] := by
  have hslots : ∀ d, [i].length ≤ d → ∀ j : Fin 512, j ∈ pageSlots d := fun d hd j =>
    mem_pageSlots.mpr fun h0 => by
      rw [List.length_singleton] at hd
      omega
  have hroot : i ∈ pageSlots ([] : List (Fin 512)).length := mem_pageSlots.mpr fun _ => by
    have hv : i.val ≠ 0 := fun hz => hi (Fin.ext hz)
    omega
  refine List.mem_flatMap.mpr ⟨i, hroot, ?_⟩
  rcases mem_pathsBelow (n := 3) hslots hq (by rw [List.length_singleton]; omega) with rfl | hq
  · exact List.mem_cons_self
  · exact List.mem_cons_of_mem _ hq

/-- Without a free frame a space with a page cannot be cloned. -/
theorem not_framesSuffice {m : Machine} {src : Word} {vp : VPage} (hvp : vp.pml4 ≠ 0)
    (hst : m.pmm.freeStack = []) (hpage : HoldsPage m src vp.ptPath) : ¬ FramesSuffice m src := by
  intro hsuff
  rw [framesSuffice_iff, hst, List.length_nil, fits_zero] at hsuff
  refine hsuff vp.ptPath (List.mem_cons_of_mem _ (mem_tablesBelow.mpr ⟨?_, ?_⟩)) hpage
  · exact mem_walkedPaths hvp (List.suffix_append [vp.pd, vp.pdpt] [vp.pml4])
      (by simp [VPage.ptPath])
  · obtain ⟨t, i, ht, -⟩ := hpage
    rw [ht]
    rfl

/-- **With every frame handed out** the page is written through `NULL`. -/
theorem clone_writes_through_null :
    ∃ m₁, vmmCreateAddressSpace (bootMachine (smallPmm 8)) = (0x207000, m₁) ∧
      ¬ CloneAtomic (vmmMap m₁ 0x207000 0x8000000000 0x40000000 7).exhausted 0x207000 := by
  obtain ⟨m₁, hcreate, hwf, hcur, -, hlook⟩ :=
    boot_mapped_space 0x40000000 (show LowFlags 7 by decide)
  refine ⟨m₁, hcreate, fun hat => ?_⟩
  set m := vmmMap m₁ 0x207000 0x8000000000 0x40000000 7
  have hslot : (VPage.of 0x8000000000).pml4 ≠ 0 := by decide
  have hmem : m.exhausted.mem = m.mem := by
    rw [Machine.exhausted, allocs_eq]
    rfl
  have hcur' : m.exhausted.currentPml4 = p4Table := by
    rw [Machine.exhausted, allocs_eq]
    exact hcur
  have hentry : m.exhausted.entry = m.entry := by
    funext t i
    exact entry_of_mem hmem
  have hx : pageLookup m 0x207000 (VPage.of 0x8000000000) = some (smallMapping 0x40000000 7) := by
    rw [hlook _ hslot, if_neg (by decide), if_pos rfl]
  have hpage : HoldsPage m.exhausted 0x207000 (VPage.of 0x8000000000).ptPath := by
    unfold HoldsPage
    rw [hentry]
    by_contra hno
    rw [Cloning.lookup_none (fun pd hpd hh => ?_) hno] at hx
    · cases hx
    · rw [pageLookup_of_huge hpd hh] at hx
      exact Bool.noConfusion (congrArg Mapping.huge (Option.some.inj hx))
  have hsuff := hat.framesSuffice (.of_wf (exhausted_wf hwf)) firstSpace_roots.1
    (firstSpace_slots _) (by rw [hcur']; exact firstSpace_roots.2)
  exact not_framesSuffice hslot (freeStack_exhausted m) hpage hsuff

end ZohoOs
