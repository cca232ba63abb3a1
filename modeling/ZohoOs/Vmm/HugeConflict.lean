/-
  ZohoOs.Vmm.HugeConflict — 4 KiB mappings under a huge page.

  `get_existing_table` does not look at the page-size bit, so below a huge
  page `vmm_map` takes the first page of the mapped data for a page table and
  stores the new entry into it.  Only when the huge page's address reads as
  `NULL` does it do something else: it hangs an empty page table in the huge
  page's place, or gives up when there is no frame.
-/
import ZohoOs.Vmm.PageMap

namespace ZohoOs

open ZohoOs.Lib
open ZohoOs.Lib.Mem (Aligned slotAddr InPage)
open ZohoOs.Lib.Radix

/-! ## §1. What the caller is promised. -/

/-- The 4 KiB mapping `virt ↦ phys` coexists with the huge page `pde` it lies
    under: the call stores only into page tables, never into the huge page's
    data, `virt` translates as asked, and every other mapped page keeps its
    translation. -/
structure CoexistsWithHuge (m : Machine) (root virt phys flags pde : Word) : Prop where
  writes : ∃ new, (vmmMap m root virt phys flags).stores = new ++ m.stores ∧ ∀ a ∈ new,
    (∃ q t, tableAt pageChild (vmmMap m root virt phys flags).entry root q = some t ∧ InPage t a) ∧
      a &&& ~~~hugeMask ≠ pde &&& ~~~hugeMask
  phys_eq : vmmGetPhys (vmmMap m root virt phys flags) root virt
    = (phys &&& ~~~flagMask) ||| (virt &&& flagMask)
  others : ∀ v, Canonical v → pageAddr v ≠ pageAddr virt → Present (vmmGetFlags m root v) →
    vmmGetPhys (vmmMap m root virt phys flags) root v = vmmGetPhys m root v

/-! ## §2. What the call does. -/

section Conflict

variable {pool : Finset Nat} {m : Machine} {root virt phys flags pd : Word}

/-- `ensure_next_table` finds a table that is there. -/
theorem Machine.Wf.ensureNextTable_of_tableOf {F : PageForest} {r t n : Word} {p : List (Fin 512)}
    {i : Fin 512} (h : m.Wf pool F) (ht : m.TableOf F r p t) (hn : m.TableOf F r (i :: p) n) :
    ensureNextTable m t i = (n, m) := by
  have hget : getExistingTable m t i = n := getExistingTable_of_tableOf ht hn
  rw [ensureNextTable, hget, if_pos (h.nonzero _ _ _ hn)]

/-- An entry that points to frame 0 reads as no table, present or not. -/
theorem getExistingTable_null {t : Word} {i : Fin 512} (haddr : m.entry t i &&& ~~~flagMask = 0) :
    getExistingTable m t i = 0 := by
  unfold getExistingTable
  split
  · exact haddr
  · rfl

/-- So `ensure_next_table` hangs a fresh table into its place, -/
theorem Machine.Wf.ensureNextTable_null {F : PageForest} {r t n : Word} {p : List (Fin 512)}
    {i : Fin 512} {rest : List Word} (h : m.Wf pool F) (ht : m.TableOf F r p t)
    (haddr : m.entry t i &&& ~~~flagMask = 0) (hst : m.pmm.freeStack = n :: rest) :
    ensureNextTable m t i = (n, m.attachTable t i n) := by
  obtain ⟨hn, hn0, -, -, hfresh⟩ := h.top hst
  have hne : t ≠ n := fun he => hfresh r p (he ▸ ht)
  have hret : m.allocFrame.1 = n := by rw [Machine.allocFrame, pmmAllocFrame_cons hst]
  have hagain : getExistingTable (zeroTable m.allocFrame.2 n) t i = 0 :=
    getExistingTable_null (by rw [entry_zeroTable_of_ne hn (h.aligned ht) hne]; exact haddr)
  rw [ensureNextTable, getExistingTable_null haddr, if_neg (by simp)]
  simp only [allocZeroedTable, hret, hn0, if_false, hagain, if_true]
  rfl

/-- or gives up when there is no frame. -/
theorem ensureNextTable_null_nil {t : Word} {i : Fin 512} (haddr : m.entry t i &&& ~~~flagMask = 0)
    (hst : m.pmm.freeStack = []) : ensureNextTable m t i = (0, m.allocFrame.2) := by
  have hret : m.allocFrame.1 = 0 := by rw [Machine.allocFrame, pmmAllocFrame_nil hst]
  rw [ensureNextTable, getExistingTable_null haddr, if_neg (by simp)]
  simp only [allocZeroedTable, hret, if_true]

/-- Under a huge page the call reaches the page directory and asks for a page
    table there. -/
theorem vmmMap_under_huge (h : m.Wf pool (wholeTree root)) (hsmall : flags &&& pageHuge = 0)
    (hpd : m.TableOf (wholeTree root) root (VPage.of virt).pdPath pd) :
    vmmMap m root virt phys flags =
      (let (pt, m) := ensureNextTable m pd (VPage.of virt).pd
       if pt = 0 then m
       else m.setEntry pt (VPage.of virt).pt ((phys &&& ~~~flagMask) ||| flags ||| pagePresent)) := by
  obtain ⟨pdpt, hpdpt, -⟩ := hpd.tail
  have hroot : m.TableOf (wholeTree root) root [] root := ⟨wholeTree_path, rfl⟩
  have h₁ : ensureNextTable m root (pml4Index virt) = (pdpt, m) :=
    h.ensureNextTable_of_tableOf hroot hpdpt
  have h₂ : ensureNextTable m pdpt (pdptIndex virt) = (pd, m) :=
    h.ensureNextTable_of_tableOf hpdpt hpd
  simp only [vmmMap, h₁, h.nonzero _ _ _ hpdpt, if_false, h₂, h.nonzero _ _ _ hpd, hsmall, ne_eq,
    not_true_eq_false]
  rfl

/-- A slot of the page at `pde & ~0xFFF` lies in the data of the huge page. -/
theorem slotAddr_in_huge_region (pde : Word) (i : Fin 512) :
    slotAddr (pde &&& ~~~flagMask) i &&& ~~~hugeMask = pde &&& ~~~hugeMask := by
  have hi := i.isLt
  have hb : (pde &&& ~~~flagMask).toNat = pde.toNat / 4096 * 4096 := toNat_pageAddr pde
  have hlt := pde.isLt
  have hoff := Mem.toNat_slotOffset i
  have hslot : (slotAddr (pde &&& ~~~flagMask) i).toNat = pde.toNat / 4096 * 4096 + 8 * i.val := by
    rw [slotAddr, BitVec.toNat_add, hb, hoff]
    omega
  apply BitVec.eq_of_toNat_eq
  rw [hugeMask_eq, Word.toNat_and_not_lowMask _ (by decide), Word.toNat_and_not_lowMask _ (by decide),
    hslot]
  omega

/-- When the huge page's address is not `NULL`, the entry is stored into its
    first page. -/
theorem vmmMap_under_huge_addr (h : m.Wf pool (wholeTree root)) (phys : Word) (hsmall : flags &&& pageHuge = 0)
    (hpd : m.TableOf (wholeTree root) root (VPage.of virt).pdPath pd)
    (hpres : Present (m.entry pd (VPage.of virt).pd))
    (haddr : m.entry pd (VPage.of virt).pd &&& ~~~flagMask ≠ 0) :
    vmmMap m root virt phys flags =
      m.setEntry (m.entry pd (VPage.of virt).pd &&& ~~~flagMask) (VPage.of virt).pt
        ((phys &&& ~~~flagMask) ||| flags ||| pagePresent) := by
  have hget : getExistingTable m pd (VPage.of virt).pd
      = m.entry pd (VPage.of virt).pd &&& ~~~flagMask := by rw [getExistingTable, if_pos hpres]
  rw [vmmMap_under_huge h hsmall hpd]
  simp only [ensureNextTable, hget, haddr, ne_eq, not_false_eq_true, if_true, if_false]

/-- **The corruption**: the new entry is stored into the data of the huge
    page. -/
theorem not_coexists_of_addr (h : m.Wf pool (wholeTree root)) (phys : Word) (hsmall : flags &&& pageHuge = 0)
    (hpd : m.TableOf (wholeTree root) root (VPage.of virt).pdPath pd)
    (hpres : Present (m.entry pd (VPage.of virt).pd))
    (haddr : m.entry pd (VPage.of virt).pd &&& ~~~flagMask ≠ 0) :
    ¬ CoexistsWithHuge m root virt phys flags (m.entry pd (VPage.of virt).pd) := by
  have hmap := vmmMap_under_huge_addr h phys hsmall hpd hpres haddr
  set pde := m.entry pd (VPage.of virt).pd with hpde
  rintro ⟨⟨new, hnew, hsafe⟩, -, -⟩
  rw [hmap] at hnew
  have hone : new = [slotAddr (pde &&& ~~~flagMask) (VPage.of virt).pt] :=
    List.append_cancel_right hnew.symm
  exact (hsafe _ (by rw [hone]; exact List.mem_singleton_self _)).2 (slotAddr_in_huge_region pde _)

/-- An address of another page of the same 2 MiB region that the huge page did
    not map to its own offset 0. -/
theorem exists_other_page (hcanon : Canonical virt) :
    ∃ v, Canonical v ∧ (VPage.of v).SameHuge (VPage.of virt) ∧ pageAddr v ≠ pageAddr virt ∧
      v &&& flagMask = 0 ∧ v &&& hugeMask ≠ 0 := by
  -- page 1 of the region, or page 2 when page 1 is the one asked for
  set k := if virt.toNat / 4096 % 512 = 1 then 2 else 1 with hk
  have hk12 : (k = 1 ∧ virt.toNat / 4096 % 512 ≠ 1) ∨ (k = 2 ∧ virt.toNat / 4096 % 512 = 1) := by
    by_cases h1 : virt.toNat / 4096 % 512 = 1
    · exact .inr ⟨by rw [hk, if_pos h1], h1⟩
    · exact .inl ⟨by rw [hk, if_neg h1], h1⟩
  have hlt := virt.isLt
  set v : Word := BitVec.ofNat 64 (virt.toNat / 2 ^ 21 * 2 ^ 21 + k * 4096) with hv
  have hvn : v.toNat = virt.toNat / 2 ^ 21 * 2 ^ 21 + k * 4096 := by
    rw [hv, BitVec.toNat_ofNat]
    omega
  have hvc : Canonical v := by
    unfold Canonical at hcanon ⊢
    omega
  refine ⟨v, hvc, (VPage.region_eq_iff hvc hcanon).mpr (by omega), fun he => ?_, ?_, fun hz => ?_⟩
  · have := congrArg BitVec.toNat he
    rw [toNat_pageAddr, toNat_pageAddr] at this
    omega
  · apply BitVec.eq_of_toNat_eq
    rw [flagMask_eq, Word.toNat_and_lowMask v (by decide), hvn]
    show _ = 0
    omega
  · have := congrArg BitVec.toNat hz
    rw [hugeMask_eq, Word.toNat_and_lowMask v (by decide), hvn] at this
    have h0 : (0 : Word).toNat = 0 := rfl
    omega

/-- **The replaced huge page**: hanging an empty table in the place of a huge
    page unmaps its other pages. -/
theorem not_coexists_of_free (h : m.Wf pool (wholeTree root)) (phys : Word) (hcanon : Canonical virt)
    (hsmall : flags &&& pageHuge = 0)
    (hpd : m.TableOf (wholeTree root) root (VPage.of virt).pdPath pd)
    (hpres : Present (m.entry pd (VPage.of virt).pd)) (hhuge : Huge (m.entry pd (VPage.of virt).pd))
    (haddr : m.entry pd (VPage.of virt).pd &&& ~~~flagMask = 0) {n : Word} {rest : List Word}
    (hst : m.pmm.freeStack = n :: rest) :
    ¬ CoexistsWithHuge m root virt phys flags (m.entry pd (VPage.of virt).pd) := by
  obtain ⟨hn, hn0, -, -, hfresh⟩ := h.top hst
  set vp := VPage.of virt with hvp
  have hne : pd ≠ n := fun he => hfresh root vp.pdPath (he ▸ hpd)
  have hal := h.aligned hpd
  have hensure : ensureNextTable m pd vp.pd = (n, m.attachTable pd vp.pd n) :=
    h.ensureNextTable_null hpd haddr hst
  set m₁ := m.attachTable pd vp.pd n with hm₁
  have hnone : pageChild vp.pdPath.length (m.entry pd vp.pd) = none := pageChild_of_huge hhuge
  have hwf₁ : m₁.Wf pool (wholeTree root) := h.attachTable hpd (by simp [VPage.pdPath]) wholeTree_path
    hnone hst
  have hpt₁ : m₁.TableOf (wholeTree root) root vp.ptPath n :=
    (h.tableOf_attachTable hpd (by simp [VPage.pdPath]) wholeTree_path hnone hst).mpr
      (.inr ⟨rfl, rfl, rfl⟩)
  set pte := (phys &&& ~~~flagMask) ||| flags ||| pagePresent with hpte
  have hmap : vmmMap m root virt phys flags = m₁.setEntry n vp.pt pte := by
    rw [vmmMap_under_huge h hsmall hpd]
    simp only [← hvp, hensure, hn0, if_false]
    rfl
  have hleaf : ∀ e, pageChild vp.ptPath.length e = none := pageChild_leaf (by simp [VPage.ptPath])
  have hwf₂ : (m₁.setEntry n vp.pt pte).Wf pool (wholeTree root) :=
    hwf₁.setLeaf hpt₁ (hleaf _) (.inl (present_or (by decide)))
  obtain ⟨v, hvc, hsame, hpage, hoff, hhoff⟩ := exists_other_page hcanon
  obtain ⟨hpdq, hpdi⟩ := VPage.sameHuge_iff.mp hsame
  rintro ⟨-, -, hothers⟩
  -- `v` was mapped by the huge page
  have hpdv : m.TableOf (wholeTree root) root (VPage.of v).pdPath pd := by rw [hpdq]; exact hpd
  have hold : vmmGetPhys m root v = v &&& hugeMask := by
    have hbase : m.entry pd vp.pd &&& ~~~hugeMask = 0 := by
      have hsub : ~~~hugeMask = ~~~flagMask &&& ~~~hugeMask := by decide
      rw [hsub, ← BitVec.and_assoc, haddr]
      simp
    rw [h.vmmGetPhys_of_pd wholeTree_path hpdv, hpdi, if_pos hhuge, hbase, BitVec.ofNat_eq_ofNat,
      BitVec.zero_or]
  have hflags : Present (vmmGetFlags m root v) := by
    rw [h.vmmGetFlags_eq wholeTree_path, pageLookup_of_huge hpdv.2 (by rw [hpdi]; exact hhuge), hpdi]
    show (m.entry pd vp.pd &&& flagMask) &&& pagePresent ≠ 0
    rw [BitVec.and_assoc, show flagMask &&& pagePresent = pagePresent by decide]
    exact hpres
  -- and is not mapped by the empty table
  have hptv : (m₁.setEntry n vp.pt pte).TableOf (wholeTree root) root (VPage.of v).ptPath n := by
    rw [show (VPage.of v).ptPath = vp.ptPath from hsame, hwf₁.tableOf_setLeaf hpt₁ (hleaf _) (hleaf _)]
    exact hpt₁
  have hslot : (m₁.setEntry n vp.pt pte).entry n (VPage.of v).pt = 0 := by
    have hidx : (VPage.of v).pt ≠ vp.pt := fun he =>
      hpage ((VPage.of_eq_iff hvc hcanon).mp (VPage.eq_iff.mpr ⟨hsame, he⟩))
    rw [hwf₁.entry_setEntry_of hpt₁ hpt₁, if_neg fun he => hidx he.2.2, hm₁,
      Machine.Wf.entry_attachTable hn hal hn (Ne.symm hne), if_pos rfl]
  have hnew : vmmGetPhys (m₁.setEntry n vp.pt pte) root v = 0 := by
    rw [hwf₂.vmmGetPhys_of_pt wholeTree_path hptv, hslot, hoff]
    rfl
  have hkeep := hothers v hvc hpage hflags
  rw [hmap, hnew, hold] at hkeep
  exact hhoff hkeep.symm

/-- With no frame for a page table nothing is stored. -/
theorem coexists_iff_of_empty (h : m.Wf pool (wholeTree root)) (hsmall : flags &&& pageHuge = 0)
    (hpd : m.TableOf (wholeTree root) root (VPage.of virt).pdPath pd)
    (hhuge : Huge (m.entry pd (VPage.of virt).pd))
    (haddr : m.entry pd (VPage.of virt).pd &&& ~~~flagMask = 0) (hst : m.pmm.freeStack = []) :
    CoexistsWithHuge m root virt phys flags (m.entry pd (VPage.of virt).pd) ↔
      phys &&& ~~~flagMask = (VPage.of virt).hugeOffset := by
  have hmap : vmmMap m root virt phys flags = m.allocFrame.2 := by
    rw [vmmMap_under_huge h hsmall hpd]
    simp only [ensureNextTable_null_nil haddr hst, if_true]
  have hbase : m.entry pd (VPage.of virt).pd &&& ~~~hugeMask = 0 := by
    have hsub : ~~~hugeMask = ~~~flagMask &&& ~~~hugeMask := by decide
    rw [hsub, ← BitVec.and_assoc, haddr]
    simp
  have hphys : vmmGetPhys m.allocFrame.2 root virt
      = (VPage.of virt).hugeOffset ||| (virt &&& flagMask) := by
    show vmmGetPhys m root virt = _
    rw [h.vmmGetPhys_of_pd wholeTree_path hpd, if_pos hhuge, hbase, BitVec.ofNat_eq_ofNat,
      BitVec.zero_or, VPage.and_hugeMask]
  have hoff : (VPage.of virt).hugeOffset &&& ~~~flagMask = (VPage.of virt).hugeOffset :=
    and_not_flagMask (VPage.aligned_hugeOffset _)
  constructor
  · intro hc
    have heq := hc.phys_eq
    rw [hmap, hphys] at heq
    have hmask := congrArg (· &&& ~~~flagMask) heq
    rw [Word.or_and_not hoff Word.and_mask_and_not,
      Word.or_and_not Word.and_not_and_not Word.and_mask_and_not] at hmask
    exact hmask.symm
  · intro heq
    refine ⟨⟨[], by rw [hmap]; rfl, by simp⟩, ?_, fun v _ _ _ => by rw [hmap]; rfl⟩
    rw [hmap, hphys, heq]

/-- **4 KiB mappings and huge pages, exactly.**  For every well-formed tree and
    every 4 KiB `vmm_map` of a canonical address under a present huge page,
    the mapping coexists with the huge page if and only if the huge page's
    address reads as `NULL`, no frame is free, and the mapping asked for is
    the one the huge page makes already. -/
theorem vmmMap_coexists_iff (h : m.Wf pool (wholeTree root)) (hcanon : Canonical virt)
    (hsmall : flags &&& pageHuge = 0)
    (hpd : tableAt pageChild m.entry root (VPage.of virt).pdPath = some pd)
    (hpres : Present (m.entry pd (VPage.of virt).pd))
    (hhuge : Huge (m.entry pd (VPage.of virt).pd)) :
    CoexistsWithHuge m root virt phys flags (m.entry pd (VPage.of virt).pd) ↔
      m.entry pd (VPage.of virt).pd &&& ~~~flagMask = 0 ∧ m.pmm.freeStack = [] ∧
        phys &&& ~~~flagMask = (VPage.of virt).hugeOffset := by
  have hpd' : m.TableOf (wholeTree root) root (VPage.of virt).pdPath pd := ⟨wholeTree_path, hpd⟩
  by_cases haddr : m.entry pd (VPage.of virt).pd &&& ~~~flagMask = 0
  · cases hst : m.pmm.freeStack with
    | nil =>
      rw [coexists_iff_of_empty h hsmall hpd' hhuge haddr hst]
      exact ⟨fun hp => ⟨haddr, rfl, hp⟩, fun hc => hc.2.2⟩
    | cons n rest =>
      have hnot := not_coexists_of_free h phys hcanon hsmall hpd' hpres hhuge haddr hst
      exact ⟨fun hc => absurd hc hnot, fun hc => by cases hc.2.1⟩
  · have hnot := not_coexists_of_addr h phys hsmall hpd' hpres haddr
    exact ⟨fun hc => absurd hc hnot, fun hc => absurd hc.1 haddr⟩

end Conflict

/-! ## §3. The local APIC's page, as `kmain` maps it. -/

/-- The slot of the bootstrap tables that maps the local APIC: the huge page
    at 0xFEE00000. -/
theorem boot_lapic_pde (p : Pmm) :
    tableAt pageChild (bootMachine p).entry p4Table (VPage.of 0xFEE00000).pdPath = some (p2Table 3) ∧
      (bootMachine p).entry (p2Table 3) (VPage.of 0xFEE00000).pd = 0xFEE00083 := by
  have hpdpt : tableAt pageChild (bootMachine p).entry p4Table [0] = some p3Table := by
    rw [tableAt_cons tableAt_nil, entry_bootMachine p (by decide)]
    decide
  refine ⟨?_, ?_⟩
  · rw [show (VPage.of 0xFEE00000).pdPath = [3, 0] by decide, tableAt_cons hpdpt,
      entry_bootMachine p (by decide)]
    decide
  · rw [entry_bootMachine p (by decide)]
    decide

/-- `kmain`'s mapping of the local APIC, under the bootstrap tables. -/
theorem vmmMap_coexists_iff_lapic :
    CoexistsWithHuge (bootMachine (smallPmm 8)) p4Table 0xFEE00000 0xFEE00000 0x1A
        ((bootMachine (smallPmm 8)).entry (p2Table 3) (VPage.of 0xFEE00000).pd) ↔
      (bootMachine (smallPmm 8)).entry (p2Table 3) (VPage.of 0xFEE00000).pd &&& ~~~flagMask = 0 ∧
        (bootMachine (smallPmm 8)).pmm.freeStack = [] ∧
          (0xFEE00000 : Word) &&& ~~~flagMask = (VPage.of 0xFEE00000).hugeOffset := by
  obtain ⟨hpd, hpde⟩ := boot_lapic_pde (smallPmm 8)
  exact vmmMap_coexists_iff (bootMachine_small_wf (by decide)) (by decide) (by decide) hpd
    (by rw [hpde]; decide) (by rw [hpde]; decide)

/-- **The local APIC's mapping does not coexist with the identity map**: its
    entry is stored at 0xFEE00000, into the registers themselves. -/
theorem lapic_mapping_corrupts :
    ¬ ∀ (pool : Finset Nat) (m : Machine) (root virt phys flags pd : Word),
      m.Wf pool (wholeTree root) → Canonical virt → flags &&& pageHuge = 0 →
      tableAt pageChild m.entry root (VPage.of virt).pdPath = some pd →
      Present (m.entry pd (VPage.of virt).pd) → Huge (m.entry pd (VPage.of virt).pd) →
      CoexistsWithHuge m root virt phys flags (m.entry pd (VPage.of virt).pd) := by
  intro hall
  have hwf := bootMachine_small_wf (n := 8) (by decide)
  obtain ⟨hpd, hpde⟩ := boot_lapic_pde (smallPmm 8)
  have hpres : Present ((bootMachine (smallPmm 8)).entry (p2Table 3) (VPage.of 0xFEE00000).pd) := by
    rw [hpde]; decide
  have hflags : (0x1A : Word) &&& pageHuge = 0 := by decide
  refine not_coexists_of_addr hwf 0xFEE00000 hflags ⟨wholeTree_path, hpd⟩ hpres (by rw [hpde]; decide)
    (hall _ _ _ _ _ _ _ hwf (by decide) (by decide) hpd hpres ?_)
  rw [hpde]
  decide

end ZohoOs
