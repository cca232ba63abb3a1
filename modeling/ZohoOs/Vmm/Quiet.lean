/-
  ZohoOs.Vmm.Quiet — memory that is neither free nor a table.

  A byte is quiet for a forest of page tables when no free frame and no table
  of the forest has it in its page.  Building the tables takes frames off the
  free stack and stores into tables, old ones and fresh ones, so quiet bytes
  keep their values and stay quiet.

  Main results:
    * `Machine.QuietIn.keep` — tables that were tables or free frames before
      keep a byte quiet;
    * `Machine.QuietIn.grows`, `Machine.QuietIn.vmmMap` — attaching tables and
      mapping a small page leave the quiet bytes alone.
-/
import ZohoOs.Vmm.Trees

namespace ZohoOs

open ZohoOs.Lib
open ZohoOs.Lib.Mem (Aligned InPage)
open ZohoOs.Lib.Radix

/-- The byte `x` lies in no free frame and in no table of the forest. -/
def Machine.QuietIn (m : Machine) (F : PageForest) (x : Word) : Prop :=
  (∀ f ∈ m.pmm.freeStack, ¬ InPage f x) ∧ ∀ r p t, m.TableOf F r p t → ¬ InPage t x

/-- An allocation takes frames off the free stack only. -/
theorem freeStack_alloc_subset (p : Pmm) : (pmmAllocFrame p).2.freeStack ⊆ p.freeStack := by
  intro f hf
  cases hst : p.freeStack with
  | nil =>
    rw [pmmAllocFrame_nil hst, hst] at hf
    exact hf
  | cons a rest =>
    rw [pmmAllocFrame_cons hst] at hf
    exact List.mem_cons_of_mem _ hf

namespace Machine.QuietIn

variable {pool : Finset Nat} {F F' : PageForest} {m m' : Machine} {a b r n s t x mask : Word}
  {p : List (Fin 512)} {i : Fin 512} {rest : List Word}

/-! ## §1. One rule. -/

/-- **The tables there are now** were tables or free frames before. -/
theorem keep (h : m.QuietIn F x) (hstack : m'.pmm.freeStack ⊆ m.pmm.freeStack)
    (htab : ∀ r p t, m'.TableOf F' r p t → m.TableOf F r p t ∨ t ∈ m.pmm.freeStack) :
    m'.QuietIn F' x := by
  refine ⟨fun f hf => h.1 f (hstack hf), fun r p t ht => ?_⟩
  rcases htab r p t ht with ht | ht
  · exact h.2 r p t ht
  · exact h.1 t ht

/-- The top of the free stack is not where a quiet byte lies. -/
theorem not_top (h : m.QuietIn F x) (hst : m.pmm.freeStack = n :: rest) : ¬ InPage n x := by
  refine h.1 n ?_
  rw [hst]
  exact List.mem_cons_self

/-! ## §2. Frames and tables. -/

/-- A frame is taken off the stack. -/
theorem allocFrame (h : m.QuietIn F x) : m.allocFrame.2.QuietIn F x :=
  h.keep (freeStack_alloc_subset m.pmm) fun _ _ _ ht => .inl ht

/-- **The bytes of a frame are quiet once it is handed out.** -/
theorem of_allocated (hwf : m.Wf pool F) (hst : m.pmm.freeStack = n :: rest) (hx : InPage n x) :
    m.allocFrame.2.QuietIn F x := by
  obtain ⟨hn, -, hnot, -, hfresh⟩ := hwf.top hst
  constructor
  · intro f hf
    have hmem : f ∈ m.pmm.freeStack := freeStack_alloc_subset m.pmm hf
    have hrest : f ∈ rest := by
      have hf' : f ∈ (pmmAllocFrame m.pmm).2.freeStack := hf
      rw [pmmAllocFrame_cons hst] at hf'
      exact hf'
    exact Mem.not_inPage_of_ne hn (hwf.pmm.aligned f hmem) (fun he => hnot (he ▸ hrest)) hx
  · intro r p t ht
    have ht' : m.TableOf F r p t := ht
    exact Mem.not_inPage_of_ne hn (hwf.aligned ht') (fun he => hfresh _ _ (he ▸ ht')) hx

/-- A leaf entry of a table is stored. -/
theorem setEntry (h : m.QuietIn F x) (hwf : m.Wf pool F) (ht : m.TableOf F r p t) {v : Word}
    (hold : pageChild p.length (m.entry t i) = none) (hv : pageChild p.length v = none) :
    (m.setEntry t i v).mem x = m.mem x ∧ (m.setEntry t i v).QuietIn F x := by
  refine ⟨Machine.mem_setEntry_of_not_inPage (h.2 r p t ht), ?_⟩
  exact h.keep (List.Subset.refl _) fun _ _ _ hs => .inl ((hwf.tableOf_setLeaf ht hold hv).mp hs)

/-- A fresh table is attached. -/
theorem attachTable (h : m.QuietIn F x) (hwf : m.Wf pool F) (ht : m.TableOf F r p t)
    (hlen : p.length < 3) (hpath : F.Path r (i :: p)) (hz : m.entry t i = 0)
    (hst : m.pmm.freeStack = n :: rest) :
    (m.attachTable t i n).mem x = m.mem x ∧ (m.attachTable t i n).QuietIn F x := by
  constructor
  · unfold Machine.attachTable
    rw [Machine.mem_setEntry_of_not_inPage (h.2 r p t ht), mem_zeroTable_of_not_inPage (h.not_top hst)]
    rfl
  · refine h.keep ?_ fun r' q s hs => ?_
    · rw [Machine.Wf.pmm_attachTable]
      exact freeStack_alloc_subset m.pmm
    · refine ((hwf.tableOf_attachTable ht hlen hpath (pageChild_of_zero hz) hst).mp hs).imp_right ?_
      intro hnew
      rw [hnew.2.2, hst]
      exact List.mem_cons_self

/-- A tree grows. -/
theorem grows (h : m.QuietIn F x) (hwf : m.Wf pool F) (hg : m.Grows F r m') :
    m'.mem x = m.mem x ∧ m'.QuietIn F x := by
  induction hg with
  | refl => exact ⟨rfl, h⟩
  | attach hg ht hlen hpath hz hst ih =>
    obtain ⟨hmem, hq⟩ := ih.2.attachTable (hg.wf hwf) ht hlen hpath hz hst
    exact ⟨hmem.trans ih.1, hq⟩

/-- **`vmm_map` of a small page leaves the quiet bytes alone.** -/
theorem vmmMap (h : m.QuietIn F x) (hwf : m.Wf pool F) {virt : Word} (phys flags : Word)
    (hpath : F.Path r [pml4Index virt]) (hplain : flags &&& pageHuge = 0)
    (hsmall : ∀ y, pageLookup m r (VPage.of virt) = some y → y.huge = false) :
    (vmmMap m r virt phys flags).mem x = m.mem x ∧ (vmmMap m r virt phys flags).QuietIn F x := by
  obtain ⟨m₁, hg, hcases⟩ := hwf.vmmMap_cases phys flags (Eq.refl (VPage.of virt)) hpath fun _ => hsmall
  obtain ⟨hmem, hq⟩ := h.grows hwf hg
  rcases hcases with ⟨-, heq⟩ | ⟨hhuge, -⟩ | ⟨-, pt, hpt, heq⟩
  · rw [heq]
    exact ⟨hmem, hq.allocFrame⟩
  · exact absurd hplain hhuge
  · rw [heq]
    have hleaf : ∀ e, pageChild (VPage.of virt).ptPath.length e = none :=
      fun e => pageChild_leaf (by simp [VPage.ptPath]) e
    obtain ⟨hmem', hq'⟩ := hq.setEntry (hg.wf hwf) hpt (hleaf _) (hleaf _)
    exact ⟨hmem'.trans hmem, hq'⟩

/-! ## §3. Spaces. -/

/-- A space is created. -/
theorem createdSpace (h : m.QuietIn F x) (hwf : m.Wf pool F) (hst : m.pmm.freeStack = n :: rest)
    (v : Word) : (m.createdSpace n v).mem x = m.mem x ∧
      (m.createdSpace n v).QuietIn (F.addRoot n userSlots) x := by
  have hnew := h.not_top hst
  constructor
  · unfold Machine.createdSpace
    rw [Machine.mem_setEntry_of_not_inPage hnew, mem_zeroTable_of_not_inPage hnew]
    rfl
  · refine h.keep ?_ fun r q s hs => ?_
    · rw [pmm_createdSpace]
      exact freeStack_alloc_subset m.pmm
    · refine ((tableOf_createdSpace hwf hst).mp hs).imp_right ?_
      intro hroot
      rw [hroot.2.2, hst]
      exact List.mem_cons_self

/-- A page is shared between two spaces. -/
theorem share (h : m.QuietIn F x) (hs : m.TableOf F a p s) (ht : m.TableOf F b p t)
    (htab : ∀ r q u, (shareEntry mask s t m i).TableOf F r q u → m.TableOf F r q u) :
    (shareEntry mask s t m i).mem x = m.mem x ∧ (shareEntry mask s t m i).QuietIn F x := by
  constructor
  · show ((if _ then _ else m : Machine).setEntry t i _).mem x = m.mem x
    rw [Machine.mem_setEntry_of_not_inPage (h.2 b p t ht)]
    split
    · exact Machine.mem_setEntry_of_not_inPage (h.2 a p s hs)
    · rfl
  · refine h.keep ?_ fun r q u hu => .inl (htab r q u hu)
    have hstack : (shareEntry mask s t m i).pmm.freeStack = m.pmm.freeStack := by
      refine (freeStack_pmmRefInc _ _).trans ?_
      show (if _ then _ else m : Machine).pmm.freeStack = _
      split <;> rfl
    rw [hstack]
    exact List.Subset.refl _

end Machine.QuietIn

end ZohoOs
