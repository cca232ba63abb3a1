/-
  ZohoOs.Vmm.Trees — the page-table trees without the reference counts.

  What is reached from where does not depend on the counts of the frames, and
  cloning a space counts references to frames that the allocator never
  managed.  `Machine.Trees` is the well-formedness that is left when the counts
  are forgotten; each operation on the tables keeps it.
-/
import ZohoOs.Vmm.Spaces

namespace ZohoOs

open ZohoOs.Lib
open ZohoOs.Lib.Mem (Aligned)
open ZohoOs.Lib.Radix

/-! ## §1. Another allocator. -/

/-- The machine with another allocator. -/
def Machine.withPmm (m : Machine) (q : Pmm) : Machine := { m with pmm := q }

section WithPmm

variable {m : Machine} {q : Pmm} {t n : Word} {i : Fin 512}

@[simp] theorem withPmm_pmm : (m.withPmm q).pmm = q := rfl

@[simp] theorem withPmm_self : m.withPmm m.pmm = m := rfl

@[simp] theorem entry_withPmm : (m.withPmm q).entry t i = m.entry t i := rfl

theorem tableOf_withPmm {F : PageForest} {r s : Word} {p : List (Fin 512)} :
    (m.withPmm q).TableOf F r p s ↔ m.TableOf F r p s := Iff.rfl

@[simp] theorem withPmm_withPmm (q' : Pmm) : (m.withPmm q).withPmm q' = m.withPmm q' := rfl

theorem setEntry_withPmm (v : Word) :
    (m.withPmm q).setEntry t i v = (m.setEntry t i v).withPmm q := rfl

theorem allocFrame_withPmm : m.allocFrame.2 = m.withPmm (pmmAllocFrame m.pmm).2 := rfl

theorem zeroSlots_withPmm (l : List (Fin 512)) :
    l.foldl (fun m i => m.setEntry n i 0) (m.withPmm q)
      = (l.foldl (fun m i => m.setEntry n i 0) m).withPmm q := by
  induction l generalizing m with
  | nil => rfl
  | cons i l ih =>
    rw [List.foldl_cons, List.foldl_cons, setEntry_withPmm]
    exact ih

theorem zeroTable_withPmm : zeroTable (m.withPmm q) n = (zeroTable m n).withPmm q :=
  zeroSlots_withPmm (slotsFrom 0)

/-- Attaching changes memory as it does with another allocator. -/
theorem attachTable_withPmm :
    (m.withPmm q).attachTable t i n = (m.attachTable t i n).withPmm (pmmAllocFrame q).2 := by
  rw [Machine.attachTable, Machine.attachTable, allocFrame_withPmm, allocFrame_withPmm,
    withPmm_withPmm, withPmm_pmm, zeroTable_withPmm, zeroTable_withPmm, setEntry_withPmm,
    setEntry_withPmm, withPmm_withPmm]

/-- So does creating a space. -/
theorem createdSpace_withPmm (v : Word) :
    (m.withPmm q).createdSpace n v = (m.createdSpace n v).withPmm (pmmAllocFrame q).2 := by
  rw [Machine.createdSpace, Machine.createdSpace, allocFrame_withPmm, allocFrame_withPmm,
    withPmm_withPmm, withPmm_pmm, zeroTable_withPmm, zeroTable_withPmm, setEntry_withPmm,
    setEntry_withPmm, withPmm_withPmm]

/-- A further reference frees nothing. -/
theorem freeStack_pmmRefInc (p : Pmm) (a : Word) : (pmmRefInc p a).freeStack = p.freeStack := by
  rw [pmmRefInc]
  by_cases hf : frameOf a < maxFrames
  · rw [if_pos hf]
  · rw [if_neg hf]

end WithPmm

/-! ## §2. Well-formed trees. -/

/-- **Well-formed trees**: they are well formed with some allocator that has
    the same free frames. -/
def Machine.Trees (F : PageForest) (m : Machine) : Prop :=
  ∃ pool q, q.freeStack = m.pmm.freeStack ∧ (m.withPmm q).Wf pool F

namespace Machine.Trees

variable {F : PageForest} {m : Machine} {r t n : Word} {p : List (Fin 512)} {i : Fin 512}
  {rest : List Word}

theorem of_wf {pool : Finset Nat} (h : m.Wf pool F) : m.Trees F := ⟨pool, m.pmm, rfl, h⟩

theorem aligned (h : m.Trees F) (ht : m.TableOf F r p t) : Aligned t := by
  obtain ⟨pool, q, -, h⟩ := h
  exact h.aligned ht

theorem sep (h : m.Trees F) : Separated pageChild m.entry F := by
  obtain ⟨pool, q, -, h⟩ := h
  exact h.sep

theorem nonzero (h : m.Trees F) (ht : m.TableOf F r p t) : t ≠ 0 := by
  obtain ⟨pool, q, -, h⟩ := h
  exact h.nonzero r p t ht

theorem clean (h : m.Trees F) (ht : m.TableOf F r p t) (hpath : F.Path r (i :: p)) :
    Present (m.entry t i) ∨ m.entry t i = 0 := by
  obtain ⟨pool, q, -, h⟩ := h
  exact h.clean r p t i ht hpath

theorem nodup (h : m.Trees F) : m.pmm.freeStack.Nodup := by
  obtain ⟨pool, q, hst, h⟩ := h
  rw [← hst]
  exact h.pmm.nodup

/-- The frame on top of the stack. -/
theorem top (h : m.Trees F) (hst : m.pmm.freeStack = n :: rest) :
    Aligned n ∧ n ≠ 0 ∧ ∀ r p, ¬ m.TableOf F r p n := by
  obtain ⟨pool, q, hq, h⟩ := h
  obtain ⟨hn, hn0, -, -, hfresh⟩ := h.top (hq.trans hst)
  exact ⟨hn, hn0, hfresh⟩

/-- Another allocator with the same free frames. -/
theorem of_pmm (h : m.Trees F) {p' : Pmm} (hp : p'.freeStack = m.pmm.freeStack) :
    (m.withPmm p').Trees F := by
  obtain ⟨pool, q, hst, h⟩ := h
  exact ⟨pool, q, hst.trans hp.symm, h⟩

theorem refInc (h : m.Trees F) (a : Word) : (m.refInc a).Trees F :=
  h.of_pmm (freeStack_pmmRefInc m.pmm a)

theorem setLeaf (h : m.Trees F) (ht : m.TableOf F r p t) {v : Word}
    (hv : pageChild p.length v = none) (hclean : Present v ∨ v = 0) : (m.setEntry t i v).Trees F := by
  obtain ⟨pool, q, hst, h⟩ := h
  exact ⟨pool, q, hst, h.setLeaf ht hv hclean⟩

theorem tableOf_setLeaf (h : m.Trees F) (ht : m.TableOf F r p t) {v : Word}
    (hold : pageChild p.length (m.entry t i) = none) (hv : pageChild p.length v = none)
    {r' s : Word} {q : List (Fin 512)} :
    (m.setEntry t i v).TableOf F r' q s ↔ m.TableOf F r' q s := by
  obtain ⟨pool, q', -, h⟩ := h
  exact h.tableOf_setLeaf ht hold hv

/-- What a store to a slot of a table changes. -/
theorem entry_setEntry_of (h : m.Trees F) (ht : m.TableOf F r p t) {v r' s : Word}
    {q : List (Fin 512)} {j : Fin 512} (hs : m.TableOf F r' q s) :
    (m.setEntry t i v).entry s j = if r' = r ∧ q = p ∧ j = i then v else m.entry s j := by
  obtain ⟨pool, q', -, h⟩ := h
  exact h.entry_setEntry_of ht hs

theorem attachTable (h : m.Trees F) (ht : m.TableOf F r p t) (hlen : p.length < 3)
    (hpath : F.Path r (i :: p)) (hnone : pageChild p.length (m.entry t i) = none)
    (hst : m.pmm.freeStack = n :: rest) :
    (m.attachTable t i n).Trees F ∧ ∀ r' q s, (m.attachTable t i n).TableOf F r' q s ↔
      m.TableOf F r' q s ∨ (r' = r ∧ q = i :: p ∧ s = n) := by
  obtain ⟨pool, q, hq, h⟩ := h
  have hqst : q.freeStack = n :: rest := hq.trans hst
  have hwf : ((m.withPmm q).attachTable t i n).Wf pool F :=
    h.attachTable ht hlen hpath hnone hqst
  have htab : ∀ r' q' s, ((m.withPmm q).attachTable t i n).TableOf F r' q' s ↔
      m.TableOf F r' q' s ∨ (r' = r ∧ q' = i :: p ∧ s = n) := fun r' q' s =>
    h.tableOf_attachTable ht hlen hpath hnone hqst
  rw [attachTable_withPmm] at hwf htab
  refine ⟨⟨pool, (pmmAllocFrame q).2, ?_, hwf⟩, fun r' q' s => ?_⟩
  · have hpmm : (m.attachTable t i n).pmm.freeStack = (pmmAllocFrame m.pmm).2.freeStack :=
      congrArg Pmm.freeStack (Machine.Wf.pmm_attachTable m t n i)
    rw [hpmm, pmmAllocFrame_cons hst, pmmAllocFrame_cons hqst]
  · exact tableOf_withPmm.symm.trans (htab r' q' s)

/-- What an attached table changes at the tables there were. -/
theorem entry_attachTable_of (h : m.Trees F) (ht : m.TableOf F r p t)
    (hst : m.pmm.freeStack = n :: rest) {r' s : Word} {q : List (Fin 512)} {j : Fin 512}
    (hs : m.TableOf F r' q s) :
    (m.attachTable t i n).entry s j
      = if r' = r ∧ q = p ∧ j = i then tableEntry n else m.entry s j := by
  obtain ⟨hn, -, hfresh⟩ := h.top hst
  rw [Machine.Wf.entry_attachTable hn (h.aligned ht) (h.aligned hs) (fun he => hfresh r p (he ▸ ht)),
    if_neg (show s ≠ n from fun he => hfresh r' q (he ▸ hs))]
  by_cases hst' : s = t ∧ j = i
  · obtain ⟨rfl, rfl⟩ := hst'
    obtain ⟨rfl, rfl⟩ := h.sep _ _ _ _ _ hs ht
    rw [write_self, if_pos ⟨rfl, rfl, rfl⟩]
  · rw [write_other _ _ hst', if_neg]
    rintro ⟨rfl, rfl, rfl⟩
    exact hst' ⟨hs.unique ht, rfl⟩

/-- The attached table is empty. -/
theorem entry_attachTable_self (h : m.Trees F) (ht : m.TableOf F r p t)
    (hst : m.pmm.freeStack = n :: rest) (j : Fin 512) : (m.attachTable t i n).entry n j = 0 := by
  obtain ⟨hn, -, hfresh⟩ := h.top hst
  rw [Machine.Wf.entry_attachTable hn (h.aligned ht) hn (fun he => hfresh r p (he ▸ ht)), if_pos rfl]

/-- A new root. -/
theorem createdSpace (h : m.Trees F) (hst : m.pmm.freeStack = n :: rest) (v : Word) :
    (m.createdSpace n v).Trees (F.addRoot n userSlots) ∧ ∀ r q s,
      (m.createdSpace n v).TableOf (F.addRoot n userSlots) r q s ↔
        m.TableOf F r q s ∨ (r = n ∧ q = [] ∧ s = n) := by
  obtain ⟨pool, q, hq, h⟩ := h
  have hqst : q.freeStack = n :: rest := hq.trans hst
  have hwf : ((m.withPmm q).createdSpace n v).Wf pool (F.addRoot n userSlots) :=
    h.createdSpace hqst
  have htab : ∀ r q' s, ((m.withPmm q).createdSpace n v).TableOf (F.addRoot n userSlots) r q' s ↔
      m.TableOf F r q' s ∨ (r = n ∧ q' = [] ∧ s = n) := fun r q' s =>
    tableOf_createdSpace h hqst
  rw [createdSpace_withPmm] at hwf htab
  refine ⟨⟨pool, (pmmAllocFrame q).2, ?_, hwf⟩, fun r q' s => ?_⟩
  · have hpmm : (m.createdSpace n v).pmm.freeStack = (pmmAllocFrame m.pmm).2.freeStack :=
      congrArg Pmm.freeStack (pmm_createdSpace m n v)
    rw [hpmm, pmmAllocFrame_cons hst, pmmAllocFrame_cons hqst]
  · exact tableOf_withPmm.symm.trans (htab r q' s)

end Machine.Trees

end ZohoOs
