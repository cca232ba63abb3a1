/-
  ZohoOs.Vmm.Unmapped — what `vmm_get_phys` returns for an unmapped address.

  The header promises 0.  The reader checks the presence bit of the three
  upper levels but not of the page-table entry, so that an unmapped address
  whose page table still exists translates to its own page offset.  Along
  every history of `vmm_map` and `vmm_unmap` whose calls spare the tables, that
  is the only thing that goes wrong.
-/
import ZohoOs.Vmm.HugeConflict

namespace ZohoOs

open ZohoOs.Lib
open ZohoOs.Lib.Mem (Aligned)
open ZohoOs.Lib.Radix

/-! ## §1. Histories. -/

/-- A call on one address space, whatever its arguments. -/
inductive TreeCall where
  | map (virt phys flags : Word)
  | unmap (virt : Word)

/-- What the call does. -/
def TreeCall.exec (root : Word) (m : Machine) : TreeCall → Machine
  | .map virt phys flags => vmmMap m root virt phys flags
  | .unmap virt => vmmUnmap m root virt

def TreeStep (root : Word) (m : Machine) (c : TreeCall) (m' : Machine) : Prop :=
  m' = c.exec root m

/-- The call does not store into a table by mistake.  A 4 KiB mapping under a
    huge page takes the page's first frame for a page table; that frame may not
    be one of the tree's own tables. -/
def SparesTables (root : Word) (m : Machine) : TreeCall → Prop
  | .map virt _ flags => flags &&& pageHuge = 0 → ∀ pd,
      tableAt pageChild m.entry root (VPage.of virt).pdPath = some pd →
      Huge (m.entry pd (VPage.of virt).pd) → ∀ q,
      tableAt pageChild m.entry root q ≠ some (m.entry pd (VPage.of virt).pd &&& ~~~flagMask)
  | .unmap _ => True

section Steps

variable {pool : Finset Nat} {m m' : Machine} {root virt phys flags pd : Word}

/-- A 4 KiB mapping under a huge page, which stores into the page's data or
    hangs a table into its place. -/
theorem vmmMap_under_huge_wf (h : m.Wf pool (wholeTree root)) (hflags : flags &&& pageHuge = 0)
    (hpd : m.TableOf (wholeTree root) root (VPage.of virt).pdPath pd)
    (hh : Huge (m.entry pd (VPage.of virt).pd))
    (hspare : ∀ q, tableAt pageChild m.entry root q
      ≠ some (m.entry pd (VPage.of virt).pd &&& ~~~flagMask)) :
    (vmmMap m root virt phys flags).Wf pool (wholeTree root) := by
  have hpres : Present (m.entry pd (VPage.of virt).pd) := by
    rcases h.clean root _ pd (VPage.of virt).pd hpd wholeTree_path with hp | hz
    · exact hp
    · rw [hz] at hh
      exact absurd hh not_huge_zero
  by_cases haddr : m.entry pd (VPage.of virt).pd &&& ~~~flagMask = 0
  · rw [vmmMap_under_huge h hflags hpd]
    cases hst : m.pmm.freeStack with
    | nil =>
      simp only [ensureNextTable_null_nil haddr hst, if_true]
      exact h.allocFrame
    | cons n rest =>
      have hlen : (VPage.of virt).pdPath.length < 3 := by simp [VPage.pdPath]
      have hnone : pageChild 2 (m.entry pd (VPage.of virt).pd) = none := pageChild_of_huge hh
      have hpt := (h.tableOf_attachTable hpd hlen wholeTree_path hnone hst).mpr (.inr ⟨rfl, rfl, rfl⟩)
      simp only [h.ensureNextTable_null hpd haddr hst, (h.top hst).2.1, if_false]
      exact (h.attachTable hpd hlen wholeTree_path hnone hst).setLeaf hpt
        (pageChild_leaf (by simp [VPage.pdPath]) _) (.inl (present_pte _ _))
  · rw [vmmMap_under_huge_addr h phys hflags hpd hpres haddr]
    set base := m.entry pd (VPage.of virt).pd &&& ~~~flagMask
    set e := (phys &&& ~~~flagMask) ||| flags ||| pagePresent
    have hkeep : ∀ r q s, m.TableOf (wholeTree root) r q s → ∀ j,
        (m.setEntry base (VPage.of virt).pt e).entry s j = m.entry s j := by
      intro r q s hs j
      obtain ⟨rfl, hq⟩ := wholeTree_tableOf.mp hs
      rw [Machine.entry_setEntry (aligned_and_not_flagMask _) (h.aligned hs), write_other]
      intro hsame
      rw [hsame.1] at hq
      exact hspare q hq
    refine (Machine.Wf.of_mem h ?_ hkeep).1
    rfl

/-- **One call** keeps the tree well formed when it spares the tables. -/
theorem treeStep_wf (h : m.Wf pool (wholeTree root)) {c : TreeCall} (hspare : SparesTables root m c)
    (hst : TreeStep root m c m') : m'.Wf pool (wholeTree root) := by
  rw [show m' = c.exec root m from hst]
  cases c with
  | unmap virt => exact (h.vmmUnmap_lookup rfl wholeTree_path).1
  | map virt phys flags =>
    show (vmmMap m root virt phys flags).Wf pool (wholeTree root)
    by_cases hunder : flags &&& pageHuge = 0 ∧ UnderHuge m root virt
    · obtain ⟨hflags, pd, hpd, -, hh⟩ := hunder
      exact vmmMap_under_huge_wf h hflags ⟨wholeTree_path, hpd⟩ hh (hspare hflags pd hpd hh)
    · have hsmall : flags &&& pageHuge = 0 →
          ∀ x, pageLookup m root (VPage.of virt) = some x → x.huge = false := by
        intro hflags x hx
        rw [← Bool.not_eq_true]
        intro hxh
        exact hunder ⟨hflags, underHuge_of_lookup h hx hxh⟩
      obtain ⟨m₁, hg, ⟨-, heq⟩ | ⟨hhuge, pd, hpd, heq⟩ | ⟨-, pt, hpt, heq⟩⟩ :=
        h.vmmMap_cases phys flags rfl wholeTree_path hsmall
      · rw [heq]
        exact (hg.wf h).allocFrame
      · rw [heq]
        exact (hg.wf h).setLeaf hpd (pageChild_of_huge (huge_pde hhuge)) (.inl (present_pde _ _))
      · rw [heq]
        exact (hg.wf h).setLeaf hpt (pageChild_leaf (by simp [VPage.ptPath]) _)
          (.inl (present_pte _ _))

/-! ## §2. The reader. -/

/-- Without a page table an unmapped address reads as 0. -/
theorem vmmGetPhys_of_no_table (h : m.Wf pool (wholeTree root)) {v : Word}
    (hun : pageLookup m root (VPage.of v) = none)
    (hpt : tableAt pageChild m.entry root (VPage.of v).ptPath = none) :
    vmmGetPhys m root v = 0 := by
  have hroot : m.TableOf (wholeTree root) root [] root := ⟨wholeTree_path, rfl⟩
  cases hpd : tableAt pageChild m.entry root (VPage.of v).pdPath with
  | some pd =>
    have hpd' : m.TableOf (wholeTree root) root (VPage.of v).pdPath pd := ⟨wholeTree_path, hpd⟩
    have hnh : ¬ Huge (m.entry pd (VPage.of v).pd) := by
      intro hh
      rw [pageLookup_of_huge hpd hh] at hun
      cases hun
    rw [h.vmmGetPhys_of_pd wholeTree_path hpd', if_neg hnh]
    rcases h.getExistingTable_cases hpd' (by simp [VPage.pdPath]) wholeTree_path (fun _ => hnh) with
      ⟨pt, hpt', -, -⟩ | ⟨-, -, hget⟩
    · have hsome := hpt'.2
      rw [← VPage.ptPath_eq, hpt] at hsome
      cases hsome
    · simp only [hget, if_true]
  | none =>
    rcases h.walk_cases (show (wholeTree root).Path root [(VPage.of v).pml4] from wholeTree_path) 0 (fun pd =>
        if Huge (m.entry pd (VPage.of v).pd) then
          (m.entry pd (VPage.of v).pd &&& ~~~hugeMask) ||| (v &&& hugeMask)
        else
          let pt := getExistingTable m pd (VPage.of v).pd
          if pt = 0 then 0 else (m.entry pt (VPage.of v).pt &&& ~~~flagMask) ||| (v &&& flagMask))
      with ⟨pd, hpd', -⟩ | ⟨-, hwalk⟩
    · have hsome := hpd'.2
      rw [hpd] at hsome
      cases hsome
    · exact hwalk

/-- With one it reads as its page offset. -/
theorem vmmGetPhys_of_table (h : m.Wf pool (wholeTree root)) {v pt : Word}
    (hun : pageLookup m root (VPage.of v) = none)
    (hpt : tableAt pageChild m.entry root (VPage.of v).ptPath = some pt) :
    vmmGetPhys m root v = v &&& flagMask := by
  have hpt' : m.TableOf (wholeTree root) root (VPage.of v).ptPath pt := ⟨wholeTree_path, hpt⟩
  have hz : m.entry pt (VPage.of v).pt = 0 := by
    rw [pageLookup_of_pt hpt] at hun
    rcases h.clean _ _ _ (VPage.of v).pt hpt' wholeTree_path with hp | hz
    · rw [if_pos hp] at hun
      cases hun
    · exact hz
  rw [h.vmmGetPhys_of_pt wholeTree_path hpt', hz]
  simp

/-- **An unmapped address reads as 0** exactly when it is page aligned or no
    page table covers it. -/
theorem vmmGetPhys_unmapped_iff (h : m.Wf pool (wholeTree root)) {v : Word}
    (hun : pageLookup m root (VPage.of v) = none) :
    vmmGetPhys m root v = 0 ↔
      v &&& flagMask = 0 ∨ tableAt pageChild m.entry root (VPage.of v).ptPath = none := by
  cases hpt : tableAt pageChild m.entry root (VPage.of v).ptPath with
  | none => exact ⟨fun _ => .inr rfl, fun _ => vmmGetPhys_of_no_table h hun hpt⟩
  | some pt =>
    rw [vmmGetPhys_of_table h hun hpt]
    exact ⟨.inl, fun hc => hc.resolve_right (by simp)⟩

end Steps

/-- **Unmapped means zero, exactly.**  Take any history of `vmm_map` and
    `vmm_unmap` calls on an address space, with any arguments, from
    `vmm_create_address_space` on, none of which stores into the tables through
    a huge page.  In the state it reaches, `vmm_get_phys` of an unmapped
    address is 0 if and only if the address is page aligned or no page table
    covers it. -/
theorem unmapped_reads_zero_iff {pool : Finset Nat} {m₀ m₁ m : Machine} {root : Word}
    (hkernel : m₀.Wf pool (wholeTree m₀.currentPml4))
    (hcreate : vmmCreateAddressSpace m₀ = (root, m₁)) (hroot : root ≠ 0)
    {tr : List (Transition Machine TreeCall)} (hrun : Run (TreeStep root) m₁ tr m)
    (hspare : ∀ x ∈ tr, SparesTables root x.1 x.2.1) {v : Word}
    (hun : pageLookup m root (VPage.of v) = none) :
    vmmGetPhys m root v = 0 ↔
      v &&& flagMask = 0 ∨ tableAt pageChild m.entry root (VPage.of v).ptPath = none := by
  have hwf₁ := (create_represents hkernel hcreate hroot).1
  have hwf : m.Wf pool (wholeTree root) :=
    hrun.invariant (fun s a s' hI hC hst => treeStep_wf hI hC hst) hspare hwf₁
  exact vmmGetPhys_unmapped_iff hwf hun

/-! ## §3. A page mapped and unmapped again. -/

/-- **A stale page table**: the page at 0x8000000000 is mapped and unmapped,
    and byte 5 of it translates to 5. -/
theorem unmapped_reads_offset :
    ∃ m₁, vmmCreateAddressSpace (bootMachine (smallPmm 8)) = (0x207000, m₁) ∧
      pageLookup (vmmUnmap (vmmMap m₁ 0x207000 0x8000000000 0x40000000 0x6) 0x207000 0x8000000000)
        0x207000 (VPage.of 0x8000000005) = none ∧
      vmmGetPhys (vmmUnmap (vmmMap m₁ 0x207000 0x8000000000 0x40000000 0x6) 0x207000 0x8000000000)
        0x207000 0x8000000005 = 5 := by
  obtain ⟨m₁, hcreate, hwf₁, hframes, hempty⟩ := boot_first_space
  set virt : Word := 0x8000000000 with hvirt
  have hof : VPage.of 0x8000000005 = VPage.of virt := by decide
  have hnone : pageLookup m₁ 0x207000 (VPage.of virt) = none :=
    hempty virt (by decide) (by decide) (by decide)
  have hlow : LowFlags 0x6 := by decide
  -- the mapping succeeds
  have hfail := vmmMap_allocFailures (m := m₁) (by omega) 0x207000 virt 0x40000000 0x6
  obtain ⟨hwf₂, ⟨-, hlook⟩ | ⟨hbad, -⟩⟩ := hwf₁.vmmMap_lookup 0x40000000 (Eq.refl (VPage.of virt))
    wholeTree_path hlow (fun _ x hx => by rw [hnone] at hx; cases hx)
  swap
  · omega
  set m₂ := vmmMap m₁ 0x207000 virt 0x40000000 0x6
  have hmapped : pageLookup m₂ 0x207000 (VPage.of virt) = some (smallMapping 0x40000000 0x6) := by
    rw [hlook _ _ wholeTree_path, if_neg (by decide), if_pos ⟨rfl, rfl⟩]
  -- so does the unmapping, which leaves the page table where it is
  rcases hwf₂.vmmUnmap_cases (Eq.refl (VPage.of virt)) wholeTree_path with
    ⟨hgone, -⟩ | ⟨pd, hpd, hh, -⟩ | ⟨pt, hpt, heq⟩
  · rw [hmapped] at hgone
    cases hgone
  · rw [pageLookup_of_huge hpd.2 hh] at hmapped
    have hhuge := congrArg Mapping.huge (Option.some.inj hmapped)
    exact absurd hhuge (by simp [smallMapping])
  · obtain ⟨hwf₃, hlook₃⟩ := hwf₂.vmmUnmap_lookup (Eq.refl (VPage.of virt)) wholeTree_path
    have hun : pageLookup (vmmUnmap m₂ 0x207000 virt) 0x207000 (VPage.of 0x8000000005) = none := by
      rw [hof, hlook₃ _ _ wholeTree_path, hmapped, if_neg (by decide), if_pos ⟨rfl, rfl⟩]
    have hpt₃ : tableAt pageChild (vmmUnmap m₂ 0x207000 virt).entry 0x207000
        (VPage.of 0x8000000005).ptPath = some pt := by
      have hleaf : ∀ e, pageChild (VPage.of virt).ptPath.length e = none :=
        pageChild_leaf (by simp [VPage.ptPath])
      rw [hof, heq]
      exact ((hwf₂.tableOf_setLeaf hpt (hleaf _) (hleaf _)).mpr hpt).2
    refine ⟨m₁, hcreate, hun, ?_⟩
    rw [vmmGetPhys_of_table hwf₃ hun hpt₃]
    decide

/-- The unmapped page read at its first byte. -/
theorem unmapped_reads_zero_iff_aligned :
    ∃ m₁, vmmCreateAddressSpace (bootMachine (smallPmm 8)) = (0x207000, m₁) ∧
      (vmmGetPhys (vmmUnmap m₁ 0x207000 0x8000000000) 0x207000 0x8000000000 = 0 ↔
        (0x8000000000 : Word) &&& flagMask = 0 ∨
          tableAt pageChild (vmmUnmap m₁ 0x207000 0x8000000000).entry 0x207000
            (VPage.of 0x8000000000).ptPath = none) := by
  obtain ⟨m₁, hcreate, hwf₁, -, hempty⟩ := boot_first_space
  refine ⟨m₁, hcreate, ?_⟩
  have hstep : TreeStep 0x207000 m₁ (.unmap 0x8000000000) (vmmUnmap m₁ 0x207000 0x8000000000) := rfl
  have hrun := (Run.nil m₁).snoc hstep
  refine unmapped_reads_zero_iff (bootMachine_small_wf (n := 8) (by decide)) hcreate (by decide) hrun
    (fun x hx => ?_) ?_
  · rw [List.mem_singleton.mp hx]
    trivial
  · obtain ⟨-, hlook⟩ := hwf₁.vmmUnmap_lookup (Eq.refl (VPage.of 0x8000000000)) wholeTree_path
    have hnone := hempty 0x8000000000 (by decide) (by decide) (by decide)
    rw [hlook _ _ wholeTree_path, hnone, if_neg (by decide), if_pos ⟨rfl, rfl⟩]

end ZohoOs
