/-
  ZohoOs.Vmm.Needed — how many frames `vmm_map` takes.

  Mapping a page makes the tables on its path that are not there yet, one
  frame each, and nothing else.  So whether it runs out of frames is decided
  beforehand, by the free frames and the missing tables.

  Main results:
    * `Machine.Wf.vmmMap_needs` — the missing tables are made, or the frames
      do not suffice and are used up;
    * `Machine.Wf.vmmMap_huge_tables` — a huge page needs two tables.
-/
import ZohoOs.Vmm.Space

namespace ZohoOs

open ZohoOs.Lib
open ZohoOs.Lib.Mem (Aligned)
open ZohoOs.Lib.Radix

/-! ## §1. The tables on the path of a page. -/

/-- There is a table at the path. -/
def Machine.HasTable (m : Machine) (root : Word) (q : List (Fin 512)) : Prop :=
  (tableAt pageChild m.entry root q).isSome = true

instance (m : Machine) (root : Word) (q : List (Fin 512)) : Decidable (m.HasTable root q) :=
  inferInstanceAs (Decidable (_ = true))

/-- The paths of the page's three tables below the root. -/
def VPage.tablePaths (vp : VPage) : List (List (Fin 512)) := [[vp.pml4], vp.pdPath, vp.ptPath]

/-- How many of them are not there. -/
def Machine.missing (m : Machine) (root : Word) (vp : VPage) : Nat :=
  (vp.tablePaths.filter fun q => ¬ m.HasTable root q).length

section Paths

variable {m m' : Machine} {root : Word} {vp : VPage} {q : List (Fin 512)}

theorem hasTable_iff : m.HasTable root q ↔ ∃ t, m.TableOf (wholeTree root) root q t := by
  unfold Machine.HasTable
  rw [Option.isSome_iff_exists]
  exact exists_congr fun t => ⟨fun h => ⟨wholeTree_path, h⟩, fun h => h.2⟩

/-- One frame for a table that is not there. -/
def Machine.need (m : Machine) (root : Word) (q : List (Fin 512)) : Nat :=
  if m.HasTable root q then 0 else 1

theorem missing_eq : m.missing root vp =
    m.need root [vp.pml4] + m.need root vp.pdPath + m.need root vp.ptPath := by
  unfold Machine.missing VPage.tablePaths Machine.need
  simp only [List.filter_cons, List.filter_nil, decide_not, Bool.not_eq_true', decide_eq_false_iff_not]
  by_cases h₁ : m.HasTable root [vp.pml4] <;> by_cases h₂ : m.HasTable root vp.pdPath <;>
    by_cases h₃ : m.HasTable root vp.ptPath <;> simp [h₁, h₂, h₃]

/-- A page without a page table is not mapped, unless by a huge page. -/
theorem pageLookup_of_not_hasTable (h : ¬ m.HasTable root vp.ptPath)
    (hsmall : ∀ x, pageLookup m root vp = some x → x.huge = false) : pageLookup m root vp = none := by
  have hpt : tableAt pageChild m.entry root vp.ptPath = none := by
    unfold Machine.HasTable at h
    rw [Bool.not_eq_true, Option.isSome_eq_false_iff, Option.isNone_iff_eq_none] at h
    exact h
  refine pageLookup_eq_none hpt fun pd hpd hh => ?_
  have hsmall := hsmall _ (pageLookup_of_huge hpd hh)
  cases hsmall

end Paths

/-! ## §2. One table. -/

namespace Machine.Wf

variable {pool : Finset Nat} {m : Machine} {root t : Word} {p : List (Fin 512)} {i : Fin 512}

/-- `m'` is `m` with a table at `q`, made from a free frame if there was
    none. -/
structure Made (m : Machine) (root : Word) (q : List (Fin 512)) (m' : Machine) : Prop where
  grows : m.Grows (wholeTree root) root m'
  tables : ∀ q', m'.HasTable root q' ↔ m.HasTable root q' ∨ q' = q
  frames : m'.pmm.freeStack.length + m.need root q = m.pmm.freeStack.length

/-- **`ensure_next_table`** makes the table, or finds no frame for it. -/
theorem ensureNextTable_needs (h : m.Wf pool (wholeTree root))
    (ht : m.TableOf (wholeTree root) root p t) (hlen : p.length < 3)
    (hh : p.length = 2 → ¬ Huge (m.entry t i)) :
    (∃ n m', ensureNextTable m t i = (n, m') ∧ n ≠ 0 ∧ m'.TableOf (wholeTree root) root (i :: p) n ∧
      Made m root (i :: p) m') ∨
    (¬ m.HasTable root (i :: p) ∧ m.pmm.freeStack = [] ∧ ensureNextTable m t i = (0, m.allocFrame.2)) := by
  have hempty : m.entry t i = 0 → ¬ m.HasTable root (i :: p) := by
    intro hz
    unfold Machine.HasTable
    rw [tableAt_cons ht.2, pageChild_of_zero hz]
    simp
  rcases h.ensureNextTable_cases ht hlen wholeTree_path hh with
    ⟨n, hn, heq⟩ | ⟨n, rest, hz, hst, heq⟩ | ⟨hz, hst, heq⟩
  · left
    have hhas : m.HasTable root (i :: p) := hasTable_iff.mpr ⟨n, hn⟩
    refine ⟨n, m, heq, h.nonzero _ _ _ hn, hn, .refl, fun q' => ?_, ?_⟩
    · constructor
      · exact .inl
      · rintro (hq | rfl)
        · exact hq
        · exact hhas
    · unfold Machine.need
      rw [if_pos hhas, Nat.add_zero]
  · left
    have hnew : ∀ {q' s}, (m.attachTable t i n).TableOf (wholeTree root) root q' s ↔
        m.TableOf (wholeTree root) root q' s ∨ (root = root ∧ q' = i :: p ∧ s = n) :=
      h.tableOf_attachTable ht hlen wholeTree_path (pageChild_of_zero hz) hst
    refine ⟨n, _, heq, (h.top hst).2.1, hnew.mpr (.inr ⟨rfl, rfl, rfl⟩),
      .attach .refl ht hlen wholeTree_path hz hst, fun q' => ?_, ?_⟩
    · rw [hasTable_iff, hasTable_iff]
      constructor
      · rintro ⟨s, hs⟩
        rcases hnew.mp hs with hs | ⟨-, rfl, -⟩
        · exact .inl ⟨s, hs⟩
        · exact .inr rfl
      · rintro (⟨s, hs⟩ | rfl)
        · exact ⟨s, hnew.mpr (.inl hs)⟩
        · exact ⟨n, hnew.mpr (.inr ⟨rfl, rfl, rfl⟩)⟩
    · unfold Machine.need
      rw [if_neg (hempty hz), pmm_attachTable, pmmAllocFrame_cons hst, hst]
      rfl
  · exact .inr ⟨hempty hz, hst, heq⟩

/-! ## §3. One page. -/

/-- **What `vmm_map` of a small page needs.** -/
theorem vmmMap_needs (h : m.Wf pool (wholeTree root)) {virt : Word} (phys : Word) {flags : Word}
    (hplain : flags &&& pageHuge = 0)
    (hsmall : ∀ x, pageLookup m root (VPage.of virt) = some x → x.huge = false) :
    let m' := vmmMap m root virt phys flags
    (m'.pmm.allocFailures = m.pmm.allocFailures ∧
      m'.pmm.freeStack.length + m.missing root (VPage.of virt) = m.pmm.freeStack.length ∧
      ∀ q, m'.HasTable root q ↔ m.HasTable root q ∨ q ∈ (VPage.of virt).tablePaths) ∨
    (m'.pmm.allocFailures = m.pmm.allocFailures + 1 ∧
      m.pmm.freeStack.length < m.missing root (VPage.of virt) ∧ m'.pmm.freeStack = [] ∧
      ¬ m.HasTable root (VPage.of virt).ptPath) := by
  intro m'
  have hfail : ∀ {m₁ : Machine}, m₁.pmm.freeStack = [] →
      m₁.allocFrame.2.pmm.allocFailures = m₁.pmm.allocFailures + 1 ∧ m₁.allocFrame.2.pmm.freeStack = [] := by
    intro m₁ hst
    rw [Machine.allocFrame, pmmAllocFrame_nil hst]
    exact ⟨rfl, hst⟩
  have hroot : m.TableOf (wholeTree root) root [] root := ⟨wholeTree_path, rfl⟩
  have hdown : ∀ {q q' : List (Fin 512)}, ¬ m.HasTable root q → q <:+ q' → ¬ m.HasTable root q' := by
    intro q q' hq hsuf
    unfold Machine.HasTable at hq ⊢
    rw [Bool.not_eq_true, Option.isSome_eq_false_iff, Option.isNone_iff_eq_none] at hq ⊢
    exact tableAt_none_of_suffix hq hsuf
  have hpd₁ : [(VPage.of virt).pml4] <:+ (VPage.of virt).ptPath := ⟨[_, _], rfl⟩
  have hpd₂ : (VPage.of virt).pdPath <:+ (VPage.of virt).ptPath := ⟨[_], rfl⟩
  have hm' : m' = vmmMap m root virt phys flags := rfl
  unfold vmmMap at hm'
  rw [missing_eq]
  rcases h.ensureNextTable_needs (i := (VPage.of virt).pml4) hroot (by simp) (by simp) with
    ⟨pdpt, m₁, heq₁, hne₁, hpdpt, hmade₁⟩ | ⟨hno, hst, heq₁⟩
  · have h₁ := hmade₁.grows.wf h
    rw [VPage.pml4_of] at heq₁
    -- the next table is as missing as before
    have hneed₂ : m₁.need root (VPage.of virt).pdPath = m.need root (VPage.of virt).pdPath := by
      have hiff := hmade₁.tables (VPage.of virt).pdPath
      have hne : (VPage.of virt).pdPath ≠ [(VPage.of virt).pml4] := by simp [VPage.pdPath]
      unfold Machine.need
      simp only [hiff, hne, or_false]
    rcases h₁.ensureNextTable_needs (i := (VPage.of virt).pdpt) hpdpt (by simp) (by simp) with
      ⟨pd, m₂, heq₂, hne₂, hpd, hmade₂⟩ | ⟨hno, hst, heq₂⟩
    · have hg := hmade₁.grows.trans hmade₂.grows
      have h₂ := hg.wf h
      rw [VPage.pdpt_of] at heq₂
      have hnh : ¬ Huge (m₂.entry pd (VPage.of virt).pd) := by
        refine not_huge_of_lookup hpd fun x hx => hsmall x ?_
        rw [← hg.pageLookup h wholeTree_path]
        exact hx
      have hneed₃ : m₂.need root (VPage.of virt).ptPath = m.need root (VPage.of virt).ptPath := by
        have hiff := (hmade₂.tables (VPage.of virt).ptPath).trans
          (or_congr_left (hmade₁.tables (VPage.of virt).ptPath))
        have hne : (VPage.of virt).ptPath ≠ [(VPage.of virt).pml4] := by simp [VPage.ptPath]
        have hne' : (VPage.of virt).ptPath ≠ [(VPage.of virt).pdpt, (VPage.of virt).pml4] := by
          simp [VPage.ptPath]
        unfold Machine.need
        simp only [hiff, hne, hne', or_false]
      have hfr₁ := hmade₁.frames
      have hfr₂ := hmade₂.frames
      rw [show [(VPage.of virt).pdpt, (VPage.of virt).pml4] = (VPage.of virt).pdPath from rfl, hneed₂] at hfr₂
      rcases h₂.ensureNextTable_needs (i := (VPage.of virt).pd) hpd (by simp) (fun _ => hnh) with
        ⟨pt, m₃, heq₃, hne₃, hpt, hmade₃⟩ | ⟨hno, hst, heq₃⟩
      · rw [VPage.pd_of] at heq₃
        left
        have hval : m' = m₃.setEntry pt (ptIndex virt) ((phys &&& ~~~flagMask) ||| flags ||| pagePresent) := by
          rw [hm']
          simp only [heq₁, hne₁, if_false, heq₂, hne₂, hplain, ne_eq, not_true_eq_false, heq₃, hne₃]
        have hg₃ := hg.trans hmade₃.grows
        have hfr₃ := hmade₃.frames
        rw [show [(VPage.of virt).pd, (VPage.of virt).pdpt, (VPage.of virt).pml4] =
          (VPage.of virt).ptPath from rfl, hneed₃] at hfr₃
        have hleaf : ∀ e, pageChild (VPage.of virt).ptPath.length e = none :=
          fun e => pageChild_leaf (by simp [VPage.ptPath]) e
        have htables : ∀ q, m'.HasTable root q ↔ m₃.HasTable root q := by
          intro q
          rw [hval, hasTable_iff, hasTable_iff]
          exact exists_congr fun s => (hg₃.wf h).tableOf_setLeaf hpt (hleaf _) (hleaf _)
        refine ⟨?_, ?_, fun q => ?_⟩
        · rw [hval]
          exact hg₃.allocFailures
        · rw [hval]
          show m₃.pmm.freeStack.length + _ = _
          have hfr₁' : m₁.pmm.freeStack.length + m.need root [(VPage.of virt).pml4] = _ := hfr₁
          omega
        · rw [htables, hmade₃.tables, hmade₂.tables, hmade₁.tables]
          simp only [VPage.tablePaths, List.mem_cons, List.not_mem_nil, or_false, or_assoc]
          rfl
      · rw [VPage.pd_of] at heq₃
        right
        have hval : m' = m₂.allocFrame.2 := by
          rw [hm']
          simp only [heq₁, hne₁, if_false, heq₂, hne₂, hplain, ne_eq, not_true_eq_false, heq₃, if_true]
        obtain ⟨hf, hnil⟩ := hfail hst
        have hno' : ¬ m.HasTable root (VPage.of virt).ptPath := by
          intro hhas
          exact hno ((hmade₂.tables _).mpr (.inl ((hmade₁.tables _).mpr (.inl hhas))))
        have hone : m.need root (VPage.of virt).ptPath = 1 := if_neg hno'
        have hlen : m₂.pmm.freeStack.length = 0 := by rw [hst]; rfl
        have hfr₁' : m₁.pmm.freeStack.length + m.need root [(VPage.of virt).pml4] = _ := hfr₁
        rw [hval, hf, hg.allocFailures]
        exact ⟨rfl, by omega, hnil, hno'⟩
    · rw [VPage.pdpt_of] at heq₂
      right
      have hval : m' = m₁.allocFrame.2 := by
        rw [hm']
        simp only [heq₁, hne₁, if_false, heq₂, if_true]
      obtain ⟨hf, hnil⟩ := hfail hst
      have hno' : ¬ m.HasTable root (VPage.of virt).pdPath :=
        fun hhas => hno ((hmade₁.tables _).mpr (.inl hhas))
      have hone : m.need root (VPage.of virt).pdPath = 1 := if_neg hno'
      have hlen : m₁.pmm.freeStack.length = 0 := by rw [hst]; rfl
      have hfr₁' : m₁.pmm.freeStack.length + m.need root [(VPage.of virt).pml4] = _ := hmade₁.frames
      rw [hval, hf, hmade₁.grows.allocFailures]
      exact ⟨rfl, by omega, hnil, hdown hno' hpd₂⟩
  · rw [VPage.pml4_of] at heq₁
    right
    have hval : m' = m.allocFrame.2 := by
      rw [hm']
      simp only [heq₁, if_true]
    obtain ⟨hf, hnil⟩ := hfail hst
    have hone : m.need root [(VPage.of virt).pml4] = 1 := if_neg hno
    have hlen : m.pmm.freeStack.length = 0 := by rw [hst]; rfl
    rw [hval, hf]
    exact ⟨rfl, by omega, hnil, hdown hno hpd₁⟩

/-- **`vmm_map` of a huge page** makes no table but the two on its way. -/
theorem vmmMap_huge_tables (h : m.Wf pool (wholeTree root)) {virt : Word} (phys : Word)
    {flags : Word} (hhuge : flags &&& pageHuge ≠ 0) (hnone : ¬ m.HasTable root (VPage.of virt).ptPath)
    (hfree : 2 ≤ m.pmm.freeStack.length) {q : List (Fin 512)}
    (hq : (vmmMap m root virt phys flags).HasTable root q) :
    m.HasTable root q ∨ q ∈ (VPage.of virt).tablePaths := by
  have hroot : m.TableOf (wholeTree root) root [] root := ⟨wholeTree_path, rfl⟩
  have hneed : ∀ (m : Machine) q, m.need root q ≤ 1 := by
    intro m q
    unfold Machine.need
    split
    · exact Nat.zero_le 1
    · exact Nat.le_refl 1
  have hempty : ∀ {m₁ : Machine}, 1 ≤ m₁.pmm.freeStack.length → m₁.pmm.freeStack ≠ [] := by
    intro m₁ hlen hst
    rw [hst] at hlen
    exact absurd hlen (by decide)
  rcases h.ensureNextTable_needs (i := (VPage.of virt).pml4) hroot (by simp) (by simp) with
    ⟨pdpt, m₁, heq₁, hne₁, hpdpt, hmade₁⟩ | ⟨-, hst, -⟩
  swap
  · exact absurd hst (hempty (by omega))
  have hfr₁ := hmade₁.frames
  have hneed₁ := hneed m [(VPage.of virt).pml4]
  have h₁ := hmade₁.grows.wf h
  rcases h₁.ensureNextTable_needs (i := (VPage.of virt).pdpt) hpdpt (by simp) (by simp) with
    ⟨pd, m₂, heq₂, hne₂, hpd, hmade₂⟩ | ⟨-, hst, -⟩
  swap
  · exact absurd hst (hempty (by omega))
  have h₂ := hmade₂.grows.wf h₁
  have htables : ∀ q, m₂.HasTable root q ↔
      (m.HasTable root q ∨ q = [(VPage.of virt).pml4]) ∨ q = (VPage.of virt).pdPath := fun q =>
    (hmade₂.tables q).trans (or_congr_left (hmade₁.tables q))
  rw [VPage.pml4_of] at heq₁
  rw [VPage.pdpt_of] at heq₂
  have hval : vmmMap m root virt phys flags =
      m₂.setEntry pd (pdIndex virt) ((phys &&& ~~~hugeMask) ||| flags ||| pagePresent) := by
    unfold vmmMap
    simp only [heq₁, hne₁, if_false, heq₂, hne₂, if_pos hhuge]
  -- the slot led to no table before
  have hold : pageChild (VPage.of virt).pdPath.length (m₂.entry pd (pdIndex virt)) = none := by
    have hno : ¬ m₂.HasTable root (VPage.of virt).ptPath := by
      rw [htables]
      rintro ((hc | hc) | hc)
      · exact hnone hc
      · exact absurd (congrArg List.length hc) (by simp [VPage.ptPath])
      · exact absurd (congrArg List.length hc) (by simp [VPage.ptPath, VPage.pdPath])
    unfold Machine.HasTable at hno
    rw [Bool.not_eq_true, Option.isSome_eq_false_iff, Option.isNone_iff_eq_none] at hno
    exact (tableAt_cons hpd.2).symm.trans hno
  have hq₂ : m₂.HasTable root q := by
    rw [hval] at hq
    obtain ⟨s, hs⟩ := hasTable_iff.mp hq
    exact hasTable_iff.mpr ⟨s, (h₂.tableOf_setLeaf hpd hold (pageChild_of_huge (huge_pde hhuge))).mp hs⟩
  rcases (htables q).mp hq₂ with (hq | rfl) | rfl
  · exact .inl hq
  · exact .inr (by simp [VPage.tablePaths])
  · exact .inr (by simp [VPage.tablePaths])

end Machine.Wf

end ZohoOs
