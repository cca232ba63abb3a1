/-
  ZohoOs.Vmm.VPage — virtual addresses as table indices.

  The index macros cut an address into four table indices and a page offset.
  On canonical addresses the indices determine the page, and the first three
  of them the 2 MiB region.
-/
import ZohoOs.Vmm.Tables
import Mathlib.Data.Finite.Prod

namespace ZohoOs

open ZohoOs.Lib
open ZohoOs.Lib.Mem (Aligned)

/-! ## §1. The indices of an address. -/

/-- A 4 KiB page of the virtual address space, by its slot in each table. -/
structure VPage where
  pml4 : Fin 512
  pdpt : Fin 512
  pd : Fin 512
  pt : Fin 512
  deriving DecidableEq

namespace VPage

/-- The page of an address. -/
def of (virt : Word) : VPage := ⟨pml4Index virt, pdptIndex virt, pdIndex virt, ptIndex virt⟩

@[simp] theorem pml4_of (v : Word) : (of v).pml4 = pml4Index v := rfl
@[simp] theorem pdpt_of (v : Word) : (of v).pdpt = pdptIndex v := rfl
@[simp] theorem pd_of (v : Word) : (of v).pd = pdIndex v := rfl
@[simp] theorem pt_of (v : Word) : (of v).pt = ptIndex v := rfl

/-- The path of the page directory that maps the page, last index first. -/
def pdPath (vp : VPage) : List (Fin 512) := [vp.pdpt, vp.pml4]

/-- The path of the page table that maps the page. -/
def ptPath (vp : VPage) : List (Fin 512) := [vp.pd, vp.pdpt, vp.pml4]

/-- The path of the page itself. -/
def path (vp : VPage) : List (Fin 512) := vp.pt :: vp.ptPath

instance : Finite VPage :=
  Finite.of_injective (fun vp => (vp.pml4, vp.pdpt, vp.pd, vp.pt)) fun vp vp' h => by
    cases vp
    cases vp'
    simpa using h

theorem ptPath_eq (vp : VPage) : vp.ptPath = vp.pd :: vp.pdPath := rfl

/-- Two pages of one 2 MiB region. -/
def SameHuge (vp vp' : VPage) : Prop := vp.ptPath = vp'.ptPath

instance (vp vp' : VPage) : Decidable (SameHuge vp vp') := inferInstanceAs (Decidable (_ = _))

theorem eq_iff {vp vp' : VPage} : vp = vp' ↔ vp.SameHuge vp' ∧ vp.pt = vp'.pt := by
  cases vp
  cases vp'
  simp [SameHuge, ptPath]
  tauto

theorem sameHuge_iff {vp vp' : VPage} : vp.SameHuge vp' ↔ vp.pdPath = vp'.pdPath ∧ vp.pd = vp'.pd := by
  simp [SameHuge, ptPath, pdPath]
  tauto

/-- The offset of the page in its 2 MiB region. -/
def hugeOffset (vp : VPage) : Word := BitVec.ofNat 64 (vp.pt.val * 4096)

end VPage

/-! ## §2. Canonical addresses. -/

/-- Bits 48 to 63 repeat bit 47. -/
def Canonical (v : Word) : Prop := v.toNat < 2 ^ 47 ∨ 2 ^ 64 - 2 ^ 47 ≤ v.toNat

instance (v : Word) : Decidable (Canonical v) := inferInstanceAs (Decidable (_ ∨ _))

theorem pageIndex_val (shift : Nat) (v : Word) :
    (pageIndex shift v).val = v.toNat / 2 ^ shift % 512 := by
  show ((v >>> shift) &&& 0x1FF).toNat = _
  have hmask : (0x1FF : Word) = Word.lowMask 9 := rfl
  rw [hmask, Word.toNat_and_lowMask _ (by decide), BitVec.toNat_ushiftRight,
    Nat.shiftRight_eq_div_pow]
  rfl

namespace VPage

theorem pml4_of_val (v : Word) : (of v).pml4.val = v.toNat / 2 ^ 39 % 512 := pageIndex_val 39 v
theorem pdpt_of_val (v : Word) : (of v).pdpt.val = v.toNat / 2 ^ 30 % 512 := pageIndex_val 30 v
theorem pd_of_val (v : Word) : (of v).pd.val = v.toNat / 2 ^ 21 % 512 := pageIndex_val 21 v
theorem pt_of_val (v : Word) : (of v).pt.val = v.toNat / 2 ^ 12 % 512 := pageIndex_val 12 v

/-- The first three indices of a canonical address determine its 2 MiB
    region. -/
theorem region_eq_iff {v w : Word} (hv : Canonical v) (hw : Canonical w) :
    (of v).SameHuge (of w) ↔ v.toNat / 2 ^ 21 = w.toNat / 2 ^ 21 := by
  have hvlt := v.isLt
  have hwlt := w.isLt
  have v1 := pml4_of_val v
  have v2 := pdpt_of_val v
  have v3 := pd_of_val v
  have w1 := pml4_of_val w
  have w2 := pdpt_of_val w
  have w3 := pd_of_val w
  unfold Canonical at hv hw
  simp only [SameHuge, ptPath, List.cons.injEq, Fin.ext_iff, and_true]
  omega

/-- The indices of a canonical address determine its page. -/
theorem page_eq_iff {v w : Word} (hv : Canonical v) (hw : Canonical w) :
    of v = of w ↔ v.toNat / 2 ^ 12 = w.toNat / 2 ^ 12 := by
  have hvlt := v.isLt
  have hwlt := w.isLt
  have v4 := pt_of_val v
  have w4 := pt_of_val w
  rw [eq_iff, region_eq_iff hv hw, Fin.ext_iff]
  omega

theorem of_eq_iff {v w : Word} (hv : Canonical v) (hw : Canonical w) :
    of v = of w ↔ v &&& ~~~flagMask = w &&& ~~~flagMask := by
  rw [page_eq_iff hv hw, ← BitVec.toNat_inj, flagMask_eq, Word.toNat_and_not_lowMask _ (by decide),
    Word.toNat_and_not_lowMask _ (by decide)]
  omega

theorem sameHuge_of_iff {v w : Word} (hv : Canonical v) (hw : Canonical w) :
    (of v).SameHuge (of w) ↔ v &&& ~~~hugeMask = w &&& ~~~hugeMask := by
  rw [region_eq_iff hv hw, ← BitVec.toNat_inj, hugeMask_eq, Word.toNat_and_not_lowMask _ (by decide),
    Word.toNat_and_not_lowMask _ (by decide)]
  omega

theorem toNat_hugeOffset (vp : VPage) : vp.hugeOffset.toNat = vp.pt.val * 4096 := by
  have := vp.pt.isLt
  rw [hugeOffset, BitVec.toNat_ofNat]
  omega

theorem aligned_hugeOffset (vp : VPage) : Aligned vp.hugeOffset := by
  rw [Aligned, toNat_hugeOffset]
  exact Nat.mul_mod_left _ _

/-- The offset in the 2 MiB region is the page's offset and the offset in the
    page. -/
theorem and_hugeMask (v : Word) : v &&& hugeMask = (of v).hugeOffset ||| (v &&& flagMask) := by
  have hoff : (of v).hugeOffset.toNat = v.toNat / 2 ^ 12 % 512 * 4096 := by
    rw [toNat_hugeOffset, pt_of_val]
  have hdisj : (of v).hugeOffset &&& (v &&& flagMask) = 0#64 := by
    rw [← and_not_flagMask (aligned_hugeOffset (of v)), BitVec.and_assoc,
      ← BitVec.and_assoc (~~~flagMask), BitVec.and_comm (~~~flagMask),
      BitVec.and_assoc, BitVec.and_comm (~~~flagMask), BitVec.and_not_self]
    simp
  rw [← BitVec.add_eq_or_of_and_eq_zero _ _ hdisj]
  apply BitVec.eq_of_toNat_eq
  rw [hugeMask_eq, Word.toNat_and_lowMask v (by decide), BitVec.toNat_add, hoff, flagMask_eq,
    Word.toNat_and_lowMask v (by decide)]
  omega

end VPage

end ZohoOs
