/-
  ZohoOs.Vmm.Space — creating address spaces.

  A new PML4 is a fresh frame, zero but for slot 0, which is copied from the
  kernel's: the tables below slot 0 are the kernel's own.  What a space owns
  is what hangs below its other slots.
-/
import ZohoOs.Vmm.Map

namespace ZohoOs

open ZohoOs.Lib
open ZohoOs.Lib.Mem (Aligned slotAddr InPage)
open ZohoOs.Lib.Radix

/-! ## §1. What `vmm_create_address_space` does. -/

/-- A fresh frame `n` as a PML4 whose slot 0 holds `v`. -/
def Machine.createdSpace (m : Machine) (n v : Word) : Machine :=
  (zeroTable m.allocFrame.2 n).setEntry n 0 v

theorem vmmCreateAddressSpace_nil {m : Machine} (hst : m.pmm.freeStack = []) :
    vmmCreateAddressSpace m = (0, m.allocFrame.2) := by
  have hret : m.allocFrame.1 = 0 := by rw [Machine.allocFrame, pmmAllocFrame_nil hst]
  simp only [vmmCreateAddressSpace, hret, if_true]

/-- The slot-0 entry a new space gets: the kernel's, unless the kernel's PML4
    is the frame handed out. -/
theorem vmmCreateAddressSpace_cons {m : Machine} {n : Word} {rest : List Word}
    (hst : m.pmm.freeStack = n :: rest) (hn0 : n ≠ 0) :
    vmmCreateAddressSpace m = (n, m.createdSpace n
      ((zeroTable m.allocFrame.2 n).entry m.currentPml4 0)) := by
  have hret : m.allocFrame.1 = n := by rw [Machine.allocFrame, pmmAllocFrame_cons hst]
  simp only [vmmCreateAddressSpace, hret, hn0, if_false, currentPml4_zeroTable]
  rfl

section Created

variable {pool : Finset Nat} {F : PageForest} {m : Machine} {n v : Word} {rest : List Word}

theorem pmm_createdSpace (m : Machine) (n v : Word) :
    (m.createdSpace n v).pmm = (pmmAllocFrame m.pmm).2 := by
  rw [Machine.createdSpace, Machine.pmm_setEntry, pmm_zeroTable]
  rfl

theorem currentPml4_createdSpace (m : Machine) (n v : Word) :
    (m.createdSpace n v).currentPml4 = m.currentPml4 := by
  rw [Machine.createdSpace, Machine.currentPml4_setEntry, currentPml4_zeroTable]
  rfl

theorem entry_createdSpace (hn : Aligned n) {s : Word} (hs : Aligned s) (j : Fin 512) :
    (m.createdSpace n v).entry s j =
      if s = n then if j = 0 then v else 0 else m.entry s j := by
  rw [Machine.createdSpace, Machine.entry_setEntry hn hs]
  by_cases hsn : s = n
  · subst hsn
    by_cases hj : j = 0
    · subst hj; simp
    · rw [write_other _ _ fun h => hj h.2, entry_zeroTable hs, if_pos rfl, if_neg hj]
  · rw [write_other _ _ fun h => hsn h.1, if_neg hsn, entry_zeroTable_of_ne hn hs hsn]
    rfl

/-- The frame handed out is the top of the stack. -/
theorem freeStack_createdSpace (hst : m.pmm.freeStack = n :: rest) :
    (m.createdSpace n v).pmm.freeStack = rest := by
  rw [pmm_createdSpace, pmmAllocFrame_cons hst]

/-! ## §2. One more tree in the forest. -/

/-- The slots of a PML4 that are the address space's own. -/
def userSlots : Set (Fin 512) := {i | i ≠ 0}

/-- The tables after a space was created: the new root, and those there were. -/
theorem tableOf_createdSpace (h : m.Wf pool F) (hst : m.pmm.freeStack = n :: rest)
    {r s : Word} {q : List (Fin 512)} :
    (m.createdSpace n v).TableOf (F.addRoot n userSlots) r q s ↔
      m.TableOf F r q s ∨ (r = n ∧ q = [] ∧ s = n) := by
  obtain ⟨hn, -, -, -, hfresh⟩ := h.top hst
  have hroot : n ∉ F.roots := fun hmem => hfresh n [] ⟨Forest.Path.root hmem, rfl⟩
  have hempty : ∀ i ∈ userSlots, pageChild 0 ((m.createdSpace n v).entry n i) = none := by
    intro i hi
    rw [entry_createdSpace hn hn, if_pos rfl, if_neg hi, pageChild_zero]
  rw [Machine.TableOf, tableOf_addRoot hroot hempty]
  refine or_congr_left (Forest.tableOf_congr fun r q s hs j => ?_)
  rw [entry_createdSpace hn (h.aligned hs), if_neg (show s ≠ n from fun he => hfresh r q (he ▸ hs))]

theorem Machine.Wf.createdSpace (h : m.Wf pool F) (hst : m.pmm.freeStack = n :: rest) :
    (m.createdSpace n v).Wf pool (F.addRoot n userSlots) := by
  obtain ⟨hn, hn0, hnrest, -, hfresh⟩ := h.top hst
  have htab := fun r q s => tableOf_createdSpace (v := v) (r := r) (q := q) (s := s) h hst
  have hslots : (F.addRoot n userSlots).slots n = userSlots := by simp [Forest.addRoot]
  refine ⟨pmm_createdSpace m n v ▸ h.pmm.alloc, h.zero, ?_, ?_, ?_, ?_, ?_⟩
  · intro r hr
    rcases Set.mem_insert_iff.mp hr with rfl | hr
    · exact hn
    · exact h.root r hr
  · intro r₁ p₁ r₂ p₂ s h₁ h₂
    rcases (htab _ _ _).mp h₁ with h₁ | ⟨hr₁, hp₁, hs₁⟩ <;>
      rcases (htab _ _ _).mp h₂ with h₂ | ⟨hr₂, hp₂, hs₂⟩
    · exact h.sep r₁ p₁ r₂ p₂ s h₁ h₂
    · exact absurd (hs₂ ▸ h₁) (hfresh _ _)
    · exact absurd (hs₁ ▸ h₂) (hfresh _ _)
    · exact ⟨hr₁.trans hr₂.symm, hp₁.trans hp₂.symm⟩
  · intro r q s hs
    rcases (htab _ _ _).mp hs with hs | ⟨-, -, rfl⟩
    · exact h.nonzero r q s hs
    · exact hn0
  · intro r q s hs
    rw [freeStack_createdSpace hst]
    rcases (htab _ _ _).mp hs with hs | ⟨-, -, rfl⟩
    · have := h.notFree r q s hs
      rw [hst] at this
      exact fun hm => this (List.mem_cons_of_mem _ hm)
    · exact hnrest
  · intro r q s j hs hp
    rcases (htab _ _ _).mp hs with hs | ⟨rfl, rfl, rfl⟩
    · have hsn : s ≠ n := fun he => hfresh r q (he ▸ hs)
      have hrn : r ≠ n := fun he => hfresh n [] ⟨Forest.Path.root (he ▸ hs.1.1), rfl⟩
      rw [entry_createdSpace hn (h.aligned hs), if_neg hsn]
      exact h.clean r q s j hs ((addRoot_path_of_ne hrn).mp hp)
    · have hj : j ≠ 0 := by
        have := hp.2 j (by simp)
        rwa [hslots] at this
      rw [entry_createdSpace hn hn, if_pos rfl, if_neg hj]
      exact .inr rfl

/-! ## §3. The kernel's tree and a tree that shares its slot 0. -/

/-- A single tree with all its slots. -/
def wholeTree (root : Word) : PageForest := ⟨{root}, fun _ => Set.univ⟩

theorem wholeTree_path {root : Word} {p : List (Fin 512)} : (wholeTree root).Path root p :=
  ⟨Set.mem_singleton _, fun _ _ => Set.mem_univ _⟩

theorem wholeTree_tableOf {root r s : Word} {q : List (Fin 512)} :
    m.TableOf (wholeTree root) r q s ↔ r = root ∧ tableAt pageChild m.entry root q = some s := by
  constructor
  · rintro ⟨⟨hr, -⟩, hs⟩
    cases Set.mem_singleton_iff.mp hr
    exact ⟨rfl, hs⟩
  · rintro ⟨rfl, hs⟩
    exact ⟨wholeTree_path, hs⟩

variable {root : Word}

/-- The kernel's PML4 is no free frame, so a new space gets its slot 0. -/
theorem Machine.Wf.create_eq (h : m.Wf pool (wholeTree m.currentPml4))
    (hst : m.pmm.freeStack = n :: rest) :
    vmmCreateAddressSpace m = (n, m.createdSpace n (m.entry m.currentPml4 0)) := by
  obtain ⟨hn, hn0, -, -, hfresh⟩ := h.top hst
  have hcur : m.TableOf (wholeTree m.currentPml4) m.currentPml4 [] m.currentPml4 :=
    ⟨wholeTree_path, rfl⟩
  have hne : m.currentPml4 ≠ n := fun he =>
    hfresh m.currentPml4 [] ⟨wholeTree_path, by rw [tableAt_nil, he]⟩
  have hslot : (zeroTable m.allocFrame.2 n).entry m.currentPml4 0 = m.entry m.currentPml4 0 :=
    entry_zeroTable_of_ne hn (h.aligned hcur) hne 0
  rw [vmmCreateAddressSpace_cons hst hn0, hslot]

/-- Below slot 0 the new space walks the tables of the tree its slot 0 was
    copied from. -/
theorem tableAt_createdSpace_shared (h : m.Wf pool (wholeTree root))
    (hst : m.pmm.freeStack = n :: rest) (q : List (Fin 512)) :
    tableAt pageChild (m.createdSpace n (m.entry root 0)).entry n (q ++ [0])
      = tableAt pageChild m.entry root (q ++ [0]) := by
  obtain ⟨hn, -, -, -, hfresh⟩ := h.top hst
  refine tableAt_of_shared_slot ?_ (fun q s hs j => ?_) q
  · rw [entry_createdSpace hn hn, if_pos rfl, if_pos rfl]
  · have hs' : m.TableOf (wholeTree root) root (q ++ [0]) s := ⟨wholeTree_path, hs⟩
    rw [entry_createdSpace hn (h.aligned hs'), if_neg (show s ≠ n from fun he => hfresh _ _ (he ▸ hs'))]

/-- Below its other slots the new space is empty. -/
theorem tableAt_createdSpace_user (h : m.Wf pool F) (hst : m.pmm.freeStack = n :: rest)
    {i : Fin 512} (hi : i ≠ 0) (q : List (Fin 512)) :
    tableAt pageChild (m.createdSpace n v).entry n (q ++ [i]) = none := by
  obtain ⟨hn, -, -, -, -⟩ := h.top hst
  refine tableAt_none_of_suffix (p := [i]) ?_ (List.suffix_append q [i])
  show pageChild 0 ((m.createdSpace n v).entry n i) = none
  rw [entry_createdSpace hn hn, if_pos rfl, if_neg hi, pageChild_zero]

/-- A path is empty, or starts at some root slot. -/
theorem path_cases (q : List (Fin 512)) : q = [] ∨ ∃ front i, q = front ++ [i] :=
  List.eq_nil_or_concat' q

/-- **The new space as a tree of its own**, with the kernel's tables below
    slot 0. -/
theorem Machine.Wf.createdSpace_whole (h : m.Wf pool (wholeTree root))
    (hst : m.pmm.freeStack = n :: rest) :
    (m.createdSpace n (m.entry root 0)).Wf pool (wholeTree n) := by
  obtain ⟨hn, hn0, hnrest, -, hfresh⟩ := h.top hst
  -- a table of the new tree is its root, or a table of the kernel's tree
  have htab : ∀ q s, tableAt pageChild (m.createdSpace n (m.entry root 0)).entry n q = some s →
      (q = [] ∧ s = n) ∨ ((∃ front, q = front ++ [0]) ∧ m.TableOf (wholeTree root) root q s) := by
    intro q s hs
    rcases path_cases q with rfl | ⟨front, i, rfl⟩
    · cases hs; exact .inl ⟨rfl, rfl⟩
    · right
      by_cases hi : i = 0
      · subst hi
        rw [tableAt_createdSpace_shared h hst] at hs
        exact ⟨⟨front, rfl⟩, wholeTree_path, hs⟩
      · rw [tableAt_createdSpace_user h hst hi] at hs; cases hs
  refine ⟨pmm_createdSpace m n _ ▸ h.pmm.alloc, h.zero, ?_, ?_, ?_, ?_, ?_⟩
  · intro r hr
    cases Set.mem_singleton_iff.mp hr
    exact hn
  · intro r₁ p₁ r₂ p₂ s h₁ h₂
    obtain ⟨rfl, h₁⟩ := wholeTree_tableOf.mp h₁
    obtain ⟨rfl, h₂⟩ := wholeTree_tableOf.mp h₂
    refine ⟨rfl, ?_⟩
    rcases htab _ _ h₁ with ⟨hp₁, hs₁⟩ | ⟨-, h₁⟩ <;>
      rcases htab _ _ h₂ with ⟨hp₂, hs₂⟩ | ⟨-, h₂⟩
    · exact hp₁.trans hp₂.symm
    · exact absurd (hs₁ ▸ h₂) (hfresh _ _)
    · exact absurd (hs₂ ▸ h₁) (hfresh _ _)
    · exact (h.sep _ _ _ _ _ h₁ h₂).2
  · intro r q s hs
    obtain ⟨rfl, hs⟩ := wholeTree_tableOf.mp hs
    rcases htab _ _ hs with ⟨-, rfl⟩ | ⟨-, hs⟩
    · exact hn0
    · exact h.nonzero _ _ _ hs
  · intro r q s hs
    obtain ⟨rfl, hs⟩ := wholeTree_tableOf.mp hs
    rw [freeStack_createdSpace hst]
    rcases htab _ _ hs with ⟨-, rfl⟩ | ⟨-, hs⟩
    · exact hnrest
    · have := h.notFree _ _ _ hs
      rw [hst] at this
      exact fun hm => this (List.mem_cons_of_mem _ hm)
  · intro r q s j hs _
    obtain ⟨rfl, hs⟩ := wholeTree_tableOf.mp hs
    rcases htab _ _ hs with ⟨rfl, rfl⟩ | ⟨-, hs⟩
    · rw [entry_createdSpace hn hn, if_pos rfl]
      by_cases hj : j = 0
      · subst hj
        rw [if_pos rfl]
        exact h.clean root [] root 0 ⟨wholeTree_path, rfl⟩ wholeTree_path
      · rw [if_neg hj]; exact .inr rfl
    · rw [entry_createdSpace hn (h.aligned hs),
        if_neg (show s ≠ _ from fun he => hfresh _ _ (he ▸ hs))]
      exact h.clean _ _ _ j hs wholeTree_path

/-- What the new space maps: the kernel's pages in slot 0, nothing elsewhere. -/
theorem pageLookup_createdSpace (h : m.Wf pool (wholeTree root))
    (hst : m.pmm.freeStack = n :: rest) (vp : VPage) :
    pageLookup (m.createdSpace n (m.entry root 0)) n vp =
      if vp.pml4 = 0 then pageLookup m root vp else none := by
  obtain ⟨hn, -, -, -, hfresh⟩ := h.top hst
  have hold : ∀ q s, tableAt pageChild m.entry root q = some s → ∀ j,
      (m.createdSpace n (m.entry root 0)).entry s j = m.entry s j := by
    intro q s hs j
    have hs' : m.TableOf (wholeTree root) root q s := ⟨wholeTree_path, hs⟩
    rw [entry_createdSpace hn (h.aligned hs'), if_neg (show s ≠ n from fun he => hfresh _ _ (he ▸ hs'))]
  by_cases hz : vp.pml4 = 0
  · have hpd : vp.pdPath = [vp.pdpt] ++ [0] := by rw [← hz]; rfl
    have hpt : vp.ptPath = [vp.pd, vp.pdpt] ++ [0] := by rw [← hz]; rfl
    have hwpd := tableAt_createdSpace_shared h hst [vp.pdpt]
    have hwpt := tableAt_createdSpace_shared h hst [vp.pd, vp.pdpt]
    rw [if_pos hz]
    unfold pageLookup
    rw [hpd, hpt, hwpd, hwpt]
    cases hd : tableAt pageChild m.entry root ([vp.pdpt] ++ [0]) with
    | none => rfl
    | some pd =>
      cases ht : tableAt pageChild m.entry root ([vp.pd, vp.pdpt] ++ [0]) with
      | none => simp only [hold _ pd hd]
      | some pt => simp only [hold _ pd hd, hold _ pt ht]
  · rw [if_neg hz]
    refine pageLookup_eq_none (tableAt_createdSpace_user h hst hz [vp.pd, vp.pdpt]) fun pd hpd => ?_
    rw [show vp.pdPath = [vp.pdpt] ++ [vp.pml4] from rfl, tableAt_createdSpace_user h hst hz] at hpd
    cases hpd

end Created

end ZohoOs
