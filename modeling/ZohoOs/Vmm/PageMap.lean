/-
  ZohoOs.Vmm.PageMap — page tables refine a finite map.

  Above the trees stands a map from page addresses to mappings, with two
  operations: insert a page (or the 512 pages of a 2 MiB region) and remove
  it.  A run of `vmm_map` and `vmm_unmap` on one address space is simulated by
  a run of these operations, and the readers return what the map holds.
-/
import ZohoOs.Lib.Transition
import ZohoOs.Vmm.Bootstrap

namespace ZohoOs

open ZohoOs.Lib
open ZohoOs.Lib.Mem (Aligned)
open ZohoOs.Lib.Radix

/-! ## §1. The abstract map. -/

/-- The mapping of each page, by page address. -/
abbrev PageMap := Word → Option Mapping

/-- The address of the page that holds `virt`. -/
def pageAddr (virt : Word) : Word := virt &&& ~~~flagMask

/-- Map the page of `virt`, or the 2 MiB region around it. -/
def PageMap.insert (A : PageMap) (virt phys flags : Word) : PageMap := fun w =>
  if flags &&& pageHuge ≠ 0 then
    if w &&& ~~~hugeMask = virt &&& ~~~hugeMask then
      some ⟨(phys &&& ~~~hugeMask) ||| (w &&& hugeMask), flags ||| pagePresent, true⟩
    else A w
  else if w = pageAddr virt then some ⟨phys &&& ~~~flagMask, flags ||| pagePresent, false⟩
  else A w

/-- Unmap the page of `virt`, or the whole 2 MiB page it is part of. -/
def PageMap.remove (A : PageMap) (virt : Word) : PageMap := fun w =>
  if (A (pageAddr virt)).any Mapping.huge then
    if w &&& ~~~hugeMask = virt &&& ~~~hugeMask then none else A w
  else if w = pageAddr virt then none else A w

/-- A call of the memory manager; `ok` says that no frame allocation of the
    call failed. -/
inductive MapCall where
  | map (virt phys flags : Word) (ok : Bool)
  | unmap (virt : Word)
  deriving DecidableEq

/-- One step of the abstract map: a failed mapping changes nothing. -/
inductive PageMapStep : PageMap → MapCall → PageMap → Prop
  | map (A : PageMap) (virt phys flags : Word) :
      PageMapStep A (.map virt phys flags true) (A.insert virt phys flags)
  | mapFailed (A : PageMap) (virt phys flags : Word) :
      PageMapStep A (.map virt phys flags false) A
  | unmap (A : PageMap) (virt : Word) : PageMapStep A (.unmap virt) (A.remove virt)

/-! ## §2. The code's steps. -/

/-- The address lies under a present huge page-directory entry. -/
def UnderHuge (m : Machine) (root virt : Word) : Prop :=
  ∃ pd, tableAt pageChild m.entry root (VPage.of virt).pdPath = some pd ∧
    Present (m.entry pd (VPage.of virt).pd) ∧ Huge (m.entry pd (VPage.of virt).pd)

/-- One call on the address space `root`: a mapping of a canonical address
    with flag bits only, a 4 KiB one not under a huge page, or an unmapping. -/
inductive MapStep (root : Word) : Machine → MapCall → Machine → Prop
  | map (m : Machine) {virt phys flags : Word} (hcanon : Canonical virt) (hlow : LowFlags flags)
      (hsmall : flags &&& pageHuge = 0 → ¬ UnderHuge m root virt) :
      MapStep root m
        (.map virt phys flags
          (decide ((vmmMap m root virt phys flags).pmm.allocFailures = m.pmm.allocFailures)))
        (vmmMap m root virt phys flags)
  | unmap (m : Machine) {virt : Word} (hcanon : Canonical virt) :
      MapStep root m (.unmap virt) (vmmUnmap m root virt)

section Pages

variable {v w : Word}

theorem aligned_pageAddr (v : Word) : Aligned (pageAddr v) := aligned_and_not_flagMask v

theorem toNat_pageAddr (v : Word) : (pageAddr v).toNat = v.toNat / 4096 * 4096 := by
  rw [pageAddr, flagMask_eq, Word.toNat_and_not_lowMask v (by decide)]
  rfl

theorem canonical_pageAddr (h : Canonical v) : Canonical (pageAddr v) := by
  have := toNat_pageAddr v
  unfold Canonical at h ⊢
  omega

theorem of_pageAddr (h : Canonical v) : VPage.of (pageAddr v) = VPage.of v := by
  rw [VPage.of_eq_iff (canonical_pageAddr h) h, pageAddr]
  exact Word.and_not_and_not

/-- Page addresses of canonical addresses are told apart by their indices. -/
theorem of_eq_of_iff (hw : Canonical w) (haw : Aligned w) (hv : Canonical v) :
    VPage.of w = VPage.of v ↔ w = pageAddr v := by
  rw [VPage.of_eq_iff hw hv, and_not_flagMask haw]
  rfl

theorem hugeOffset_of (haw : Aligned w) : (VPage.of w).hugeOffset = w &&& hugeMask := by
  have hz : w &&& flagMask = 0 := by
    rw [← and_not_flagMask haw, BitVec.and_assoc, BitVec.and_comm (~~~flagMask), BitVec.and_not_self]
    simp
  rw [VPage.and_hugeMask, hz, BitVec.ofNat_eq_ofNat, BitVec.or_zero]

end Pages

/-- A page with no mapping is under no huge page. -/
theorem not_underHuge_of_none {m : Machine} {root v : Word}
    (hnone : pageLookup m root (VPage.of v) = none) : ¬ UnderHuge m root v := by
  intro hunder
  obtain ⟨pd, hpd, -, hh⟩ := hunder
  rw [pageLookup_of_huge hpd hh] at hnone
  cases hnone

/-! ## §3. The simulation. -/

/-- The tree under `root` holds the map `A`. -/
def Represents (m : Machine) (root : Word) (A : PageMap) : Prop :=
  ∀ w, Canonical w → Aligned w → pageLookup m root (VPage.of w) = A w

section Simulation

variable {pool : Finset Nat} {m m' : Machine} {root : Word} {A : PageMap} {c : MapCall}

/-- A mapping that is part of a huge page comes from a huge entry. -/
theorem underHuge_of_lookup (h : m.Wf pool (wholeTree root)) {virt : Word} {x : Mapping}
    (hx : pageLookup m root (VPage.of virt) = some x) (hh : x.huge = true) :
    UnderHuge m root virt := by
  set vp := VPage.of virt with hvp
  cases hpt : tableAt pageChild m.entry root vp.ptPath with
  | some pt =>
    rw [pageLookup_of_pt hpt] at hx
    split at hx
    · rw [← Option.some.inj hx] at hh; cases hh
    · cases hx
  | none =>
    by_contra hnot
    rw [pageLookup_eq_none hpt] at hx
    · cases hx
    · intro pd hpd hpde
      refine hnot ⟨pd, hpd, ?_, hpde⟩
      rcases h.clean root vp.pdPath pd vp.pd ⟨wholeTree_path, hpd⟩ wholeTree_path with hp | hz
      · exact hp
      · rw [hz] at hpde; exact absurd hpde not_huge_zero

/-- **One step is simulated.** -/
theorem mapStep_simulates (h : m.Wf pool (wholeTree root)) (hA : Represents m root A)
    (hst : MapStep root m c m') :
    ∃ A', PageMapStep A c A' ∧ m'.Wf pool (wholeTree root) ∧ Represents m' root A' := by
  cases hst with
  | @map virt phys flags hcanon hlow hsmall =>
    have hlookup : flags &&& pageHuge = 0 →
        ∀ x, pageLookup m root (VPage.of virt) = some x → x.huge = false := by
      intro hz x hx
      cases hh : x.huge with
      | false => rfl
      | true => exact absurd (underHuge_of_lookup h hx hh) (hsmall hz)
    obtain ⟨hwf, ⟨hfail, hnew⟩ | ⟨hfail, hnew⟩⟩ :=
      h.vmmMap_lookup phys rfl wholeTree_path hlow hlookup
    · rw [decide_eq_true hfail]
      refine ⟨A.insert virt phys flags, .map A virt phys flags, hwf, fun w hw haw => ?_⟩
      rw [hnew root (VPage.of w) wholeTree_path, PageMap.insert, hA w hw haw]
      simp only [true_and, VPage.sameHuge_of_iff hw hcanon, of_eq_of_iff hw haw hcanon, hugeMapping,
        smallMapping, hugeOffset_of haw]
    · rw [decide_eq_false (by omega)]
      refine ⟨A, .mapFailed A virt phys flags, hwf, fun w hw haw => ?_⟩
      rw [hnew root (VPage.of w) wholeTree_path, hA w hw haw]
  | @unmap virt hcanon =>
    have hof : VPage.of virt = VPage.of virt := rfl
    obtain ⟨hwf, hnew⟩ := h.vmmUnmap_lookup hof wholeTree_path
    refine ⟨A.remove virt, .unmap A virt, hwf, fun w hw haw => ?_⟩
    have hold : pageLookup m root (VPage.of virt) = A (pageAddr virt) := by
      rw [← of_pageAddr hcanon]
      exact hA _ (canonical_pageAddr hcanon) (aligned_pageAddr virt)
    rw [hnew root (VPage.of w) wholeTree_path, PageMap.remove, hold, hA w hw haw]
    simp only [true_and, VPage.sameHuge_of_iff hw hcanon, of_eq_of_iff hw haw hcanon]

/-- What a new address space maps: the kernel's pages in PML4 slot 0. -/
def kernelMap (m : Machine) : PageMap := fun w =>
  if pml4Index w = 0 then pageLookup m m.currentPml4 (VPage.of w) else none

/-- `vmm_create_address_space` establishes the relation. -/
theorem create_represents {n : Word} (h : m.Wf pool (wholeTree m.currentPml4))
    (hcreate : vmmCreateAddressSpace m = (n, m')) (hn : n ≠ 0) :
    m'.Wf pool (wholeTree n) ∧ Represents m' n (kernelMap m) := by
  cases hst : m.pmm.freeStack with
  | nil =>
    rw [vmmCreateAddressSpace_nil hst] at hcreate
    exact absurd (congrArg Prod.fst hcreate).symm hn
  | cons a rest =>
    rw [h.create_eq hst] at hcreate
    cases hcreate
    refine ⟨h.createdSpace_whole hst, fun w _ _ => ?_⟩
    rw [pageLookup_createdSpace h hst]
    rfl

end Simulation

/-- **Page tables refine a finite map.**  Take any run of `vmm_map` and
    `vmm_unmap` on an address space, from `vmm_create_address_space` on, over a
    kernel tree whose tables are not free frames.  A run of the abstract map
    makes the same calls with the same outcomes, from the kernel's own
    mappings, and in the state reached `vmm_get_flags` and `vmm_get_phys`
    return, for every canonical address, what the map holds. -/
theorem page_tables_refine_map {pool : Finset Nat} {m₀ m₁ m : Machine} {root : Word}
    (hkernel : m₀.Wf pool (wholeTree m₀.currentPml4))
    (hcreate : vmmCreateAddressSpace m₀ = (root, m₁)) (hroot : root ≠ 0)
    {tr : List (Transition Machine MapCall)} (hrun : Run (MapStep root) m₁ tr m) :
    ∃ A tr', Run PageMapStep (kernelMap m₀) tr' A ∧ Run.labels tr' = Run.labels tr ∧
      ∀ v, Canonical v →
        vmmGetFlags m root v = ((A (pageAddr v)).map Mapping.flags).getD 0 ∧
        ∀ x, A (pageAddr v) = some x → vmmGetPhys m root v = x.phys ||| (v &&& flagMask) := by
  obtain ⟨hwf₁, hrep₁⟩ := create_represents hkernel hcreate hroot
  obtain ⟨tr', A, hrun', hlab, hwf, hrep⟩ :=
    hrun.simulate (R := fun m (A : PageMap) => m.Wf pool (wholeTree root) ∧ Represents m root A)
      (fun _ _ _ _ hR hst => mapStep_simulates hR.1 hR.2 hst) ⟨hwf₁, hrep₁⟩
  refine ⟨A, tr', hrun', hlab, fun v hv => ?_⟩
  have hlook : pageLookup m root (VPage.of v) = A (pageAddr v) := by
    rw [← of_pageAddr hv]
    exact hrep _ (canonical_pageAddr hv) (aligned_pageAddr v)
  refine ⟨?_, fun x hx => hwf.vmmGetPhys_eq wholeTree_path (hlook.trans hx)⟩
  rw [hwf.vmmGetFlags_eq wholeTree_path, hlook]

/-- The first address space of a small machine maps nothing of its own. -/
theorem boot_first_space : ∃ m₁, vmmCreateAddressSpace (bootMachine (smallPmm 8)) = (0x207000, m₁) ∧
    m₁.Wf (bootPool (smallPmm 8)) (wholeTree 0x207000) ∧ m₁.pmm.freeStack.length = 7 ∧
      ∀ w, Canonical w → Aligned w → pml4Index w ≠ 0 → pageLookup m₁ 0x207000 (VPage.of w) = none := by
  have hwf := bootMachine_small_wf (n := 8) (by decide)
  have hst : (bootMachine (smallPmm 8)).pmm.freeStack
      = 0x207000 :: (((List.range 7).map (512 + ·)).reverse).map frameAddr := freeStack_smallPmm 8
  have hcreate := vmmCreateAddressSpace_cons hst (by decide)
  obtain ⟨hwf₁, hrep⟩ := create_represents hwf hcreate (by decide)
  refine ⟨_, hcreate, hwf₁, ?_, fun w hw haw hslot => ?_⟩
  · rw [freeStack_createdSpace hst]
    rfl
  · rw [hrep w hw haw, kernelMap, if_neg hslot]

/-- A 2 MiB page mapped in PML4 slot 1 of the first address space. -/
theorem page_tables_refine_map_huge :
    ∃ root m₁, vmmCreateAddressSpace (bootMachine (smallPmm 8)) = (root, m₁) ∧ root ≠ 0 ∧
      ∃ A tr', Run PageMapStep (kernelMap (bootMachine (smallPmm 8))) tr' A ∧
        Run.labels tr' = [.map 0x8000000000 0x40000000 0x86
          (decide ((vmmMap m₁ root 0x8000000000 0x40000000 0x86).pmm.allocFailures
            = m₁.pmm.allocFailures))] ∧
        ∀ v, Canonical v →
          vmmGetFlags (vmmMap m₁ root 0x8000000000 0x40000000 0x86) root v
            = ((A (pageAddr v)).map Mapping.flags).getD 0 ∧
          ∀ x, A (pageAddr v) = some x →
            vmmGetPhys (vmmMap m₁ root 0x8000000000 0x40000000 0x86) root v
              = x.phys ||| (v &&& flagMask) := by
  have hwf := bootMachine_small_wf (n := 8) (by decide)
  obtain ⟨rest, hst⟩ : ∃ rest, (bootMachine (smallPmm 8)).pmm.freeStack = 0x207000 :: rest :=
    ⟨_, freeStack_smallPmm 8⟩
  obtain ⟨m₁, hcreate⟩ : ∃ m₁, vmmCreateAddressSpace (bootMachine (smallPmm 8)) = (0x207000, m₁) :=
    ⟨_, vmmCreateAddressSpace_cons hst (by decide)⟩
  refine ⟨_, m₁, hcreate, by decide, ?_⟩
  have hstep : MapStep 0x207000 m₁ (.map 0x8000000000 0x40000000 0x86
      (decide ((vmmMap m₁ 0x207000 0x8000000000 0x40000000 0x86).pmm.allocFailures
        = m₁.pmm.allocFailures))) (vmmMap m₁ 0x207000 0x8000000000 0x40000000 0x86) :=
    MapStep.map m₁ (by decide) (by decide) (fun h => absurd h (by decide))
  have hrun := (Run.nil m₁).snoc hstep
  exact page_tables_refine_map hwf hcreate (by decide) hrun

end ZohoOs
