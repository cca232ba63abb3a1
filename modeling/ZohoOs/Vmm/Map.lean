/-
  ZohoOs.Vmm.Map — what `vmm_map` and `vmm_unmap` can do to a tree.

  A tree grows by fresh tables hung into empty slots (`Machine.Grows`), which
  changes no mapping.  `vmm_map` grows the tree and then stores one slot, or
  runs out of frames on the way; `vmm_unmap` stores one slot or does nothing.
-/
import ZohoOs.Vmm.Walk

namespace ZohoOs

open ZohoOs.Lib
open ZohoOs.Lib.Mem (Aligned slotAddr InPage)
open ZohoOs.Lib.Radix

/-! ## §1. Growing a tree. -/

/-- `m'` is `m` with fresh tables hung into empty slots of the tree under
    `r`. -/
inductive Machine.Grows (F : PageForest) (r : Word) (m : Machine) : Machine → Prop
  | refl : Grows F r m m
  | attach {m' : Machine} {t n : Word} {p : List (Fin 512)} {i : Fin 512} {rest : List Word} :
      Grows F r m m' → m'.TableOf F r p t → p.length < 3 → F.Path r (i :: p) → m'.entry t i = 0 →
      m'.pmm.freeStack = n :: rest → Grows F r m (m'.attachTable t i n)

namespace Machine.Grows

variable {pool : Finset Nat} {F : PageForest} {m m' m'' : Machine} {r r' t : Word}
  {p : List (Fin 512)}

theorem trans (h : m.Grows F r m') (h' : m'.Grows F r m'') : m.Grows F r m'' := by
  induction h' with
  | refl => exact h
  | attach _ ht hlen hpath hz hst ih => exact ih.attach ht hlen hpath hz hst

theorem wf (h : m.Grows F r m') (hwf : m.Wf pool F) : m'.Wf pool F := by
  induction h with
  | refl => exact hwf
  | attach _ ht hlen hpath hz hst ih => exact ih.attachTable ht hlen hpath (pageChild_of_zero hz) hst

/-- The tables there were are still there. -/
theorem tableOf (h : m.Grows F r m') (hwf : m.Wf pool F) (ht : m.TableOf F r' p t) :
    m'.TableOf F r' p t := by
  induction h with
  | refl => exact ht
  | attach hg ht' hlen hpath hz hst ih =>
    exact ((hg.wf hwf).tableOf_attachTable ht' hlen hpath (pageChild_of_zero hz) hst).mpr (.inl ih)

/-- The tables of the other trees keep their entries. -/
theorem entry_other (h : m.Grows F r m') (hwf : m.Wf pool F) (hr : r' ≠ r)
    (ht : m.TableOf F r' p t) (j : Fin 512) : m'.entry t j = m.entry t j := by
  induction h with
  | refl => rfl
  | attach hg hs hlen hpath hz hst ih =>
    have hwf' := hg.wf hwf
    have ht' := hg.tableOf hwf ht
    obtain ⟨hn, -, -, -, hfresh⟩ := hwf'.top hst
    rw [Machine.Wf.entry_attachTable hn (hwf'.aligned hs) (hwf'.aligned ht')
      (fun he => hfresh _ _ (he ▸ hs)), if_neg (fun he => hfresh _ _ (he ▸ ht')), write_other, ih]
    rintro ⟨rfl, -⟩
    exact hr (hwf'.sep _ _ _ _ _ ht' hs).1

/-- No mapping changes. -/
theorem pageLookup (h : m.Grows F r m') (hwf : m.Wf pool F) {vp : VPage}
    (hvp : F.Path r' [vp.pml4]) : pageLookup m' r' vp = pageLookup m r' vp := by
  induction h with
  | refl => rfl
  | attach hg ht hlen hpath hz hst ih =>
    rw [(hg.wf hwf).pageLookup_attachTable ht hlen hpath hz hst hvp, ih]

/-- New tables come from the free stack. -/
theorem tableOf_cases (h : m.Grows F r m') (hwf : m.Wf pool F) :
    (m'.pmm.freeStack <:+ m.pmm.freeStack) ∧ ∀ {r' t p}, m'.TableOf F r' p t →
      m.TableOf F r' p t ∨ t ∈ m.pmm.freeStack := by
  induction h with
  | refl => exact ⟨List.suffix_refl _, .inl⟩
  | attach hg hs hlen hpath hz hst ih =>
    obtain ⟨hsuf, hold⟩ := ih
    rw [hst] at hsuf
    refine ⟨?_, fun ht => ?_⟩
    · rw [Machine.Wf.pmm_attachTable, pmmAllocFrame_cons hst]
      exact (List.suffix_cons _ _).trans hsuf
    · rcases ((hg.wf hwf).tableOf_attachTable hs hlen hpath (pageChild_of_zero hz) hst).mp ht with
        ht | ⟨-, -, rfl⟩
      · exact hold ht
      · exact .inr (hsuf.subset List.mem_cons_self)

theorem allocFailures (h : m.Grows F r m') : m'.pmm.allocFailures = m.pmm.allocFailures := by
  induction h with
  | refl => rfl
  | attach _ _ _ _ _ hst ih =>
    rw [Machine.Wf.pmm_attachTable, pmmAllocFrame_cons hst]
    exact ih

end Machine.Grows

namespace Machine.Wf

variable {pool : Finset Nat} {F : PageForest} {m : Machine} {r t : Word} {p : List (Fin 512)}
  {i : Fin 512} {vp : VPage}

/-- `ensure_next_table` grows the tree to the next table or runs out of
    frames. -/
theorem ensureNextTable_grows (h : m.Wf pool F) (ht : m.TableOf F r p t) (hlen : p.length < 3)
    (hpath : F.Path r (i :: p)) (hh : p.length = 2 → ¬ Huge (m.entry t i)) :
    (∃ n m', m.Grows F r m' ∧ m'.TableOf F r (i :: p) n ∧ n ≠ 0 ∧ ensureNextTable m t i = (n, m')) ∨
    (m.pmm.freeStack = [] ∧ ensureNextTable m t i = (0, m.allocFrame.2)) := by
  rcases h.ensureNextTable_cases ht hlen hpath hh with
    ⟨n, hn, heq⟩ | ⟨n, rest, hz, hst, heq⟩ | ⟨-, hst, heq⟩
  · exact .inl ⟨n, m, .refl, hn, h.nonzero _ _ _ hn, heq⟩
  · refine .inl ⟨n, _, .attach .refl ht hlen hpath hz hst, ?_, (h.top hst).2.1, heq⟩
    exact (h.tableOf_attachTable ht hlen hpath (pageChild_of_zero hz) hst).mpr (.inr ⟨rfl, rfl, rfl⟩)
  · exact .inr ⟨hst, heq⟩

/-- The slot of the page directory is not a huge page when the page's mapping
    is not part of one. -/
theorem not_huge_of_lookup {t : Word} (hpd : m.TableOf F r vp.pdPath t)
    (hsmall : ∀ x, pageLookup m r vp = some x → x.huge = false) : ¬ Huge (m.entry t vp.pd) := by
  intro hh
  have := hsmall _ (pageLookup_of_huge hpd.2 hh)
  cases this

/-- **What `vmm_map` can do** for an address that is not under a huge page, or
    for a huge page: grow the tree and store the page's slot, or grow it
    until the frames run out. -/
theorem vmmMap_cases (h : m.Wf pool F) {virt : Word} (phys flags : Word) (hof : VPage.of virt = vp)
    (hvp : F.Path r [vp.pml4])
    (hsmall : flags &&& pageHuge = 0 → ∀ x, pageLookup m r vp = some x → x.huge = false) :
    ∃ m₁, m.Grows F r m₁ ∧
      ((m₁.pmm.freeStack = [] ∧ vmmMap m r virt phys flags = m₁.allocFrame.2) ∨
       (flags &&& pageHuge ≠ 0 ∧ ∃ pd, m₁.TableOf F r vp.pdPath pd ∧ vmmMap m r virt phys flags
          = m₁.setEntry pd vp.pd ((phys &&& ~~~hugeMask) ||| flags ||| pagePresent)) ∨
       (flags &&& pageHuge = 0 ∧ ∃ pt, m₁.TableOf F r vp.ptPath pt ∧ vmmMap m r virt phys flags
          = m₁.setEntry pt vp.pt ((phys &&& ~~~flagMask) ||| flags ||| pagePresent))) := by
  subst hof
  have hroot : m.TableOf F r [] r := ⟨hvp.tail, rfl⟩
  unfold vmmMap
  rcases h.ensureNextTable_grows hroot (by simp) hvp (by simp) with
    ⟨pdpt, m₁, hg₁, hpdpt, hne₁, heq₁⟩ | ⟨hst, heq₁⟩
  · have h₁ := hg₁.wf h
    rw [VPage.pml4_of] at heq₁
    rcases h₁.ensureNextTable_grows hpdpt (by simp) (path_pd hvp) (by simp) with
      ⟨pd, m₂, hg₂, hpd, hne₂, heq₂⟩ | ⟨hst, heq₂⟩
    · have hg := hg₁.trans hg₂
      have h₂ := hg.wf h
      rw [VPage.pdpt_of] at heq₂
      by_cases hhuge : flags &&& pageHuge = 0
      · have hnh : ¬ Huge (m₂.entry pd (VPage.of virt).pd) := by
          refine not_huge_of_lookup hpd fun x hx => hsmall hhuge x ?_
          rw [← hg.pageLookup h hvp]; exact hx
        rcases h₂.ensureNextTable_grows hpd (by simp) (path_pt hvp) (fun _ => hnh) with
          ⟨pt, m₃, hg₃, hpt, hne₃, heq₃⟩ | ⟨hst, heq₃⟩
        · rw [VPage.pd_of] at heq₃
          refine ⟨m₃, hg.trans hg₃, .inr (.inr ⟨hhuge, pt, hpt, ?_⟩)⟩
          simp only [heq₁, hne₁, if_false, heq₂, hne₂, hhuge, ne_eq, not_true_eq_false, heq₃, hne₃,
            VPage.pt_of]
        · rw [VPage.pd_of] at heq₃
          refine ⟨m₂, hg, .inl ⟨hst, ?_⟩⟩
          simp only [heq₁, hne₁, if_false, heq₂, hne₂, hhuge, ne_eq, not_true_eq_false, heq₃, if_true]
      · refine ⟨m₂, hg, .inr (.inl ⟨hhuge, pd, hpd, ?_⟩)⟩
        simp only [heq₁, hne₁, if_false, heq₂, hne₂, ne_eq, hhuge, not_false_eq_true, if_true,
          VPage.pd_of]
    · rw [VPage.pdpt_of] at heq₂
      refine ⟨m₁, hg₁, .inl ⟨hst, ?_⟩⟩
      simp only [heq₁, hne₁, if_false, heq₂, if_true]
  · rw [VPage.pml4_of] at heq₁
    refine ⟨m, .refl, .inl ⟨hst, ?_⟩⟩
    simp only [heq₁, if_true]

/-- **What `vmm_unmap` can do**: nothing when the page has no table, else
    clear the slot of the huge page or of the page. -/
theorem vmmUnmap_cases (h : m.Wf pool F) {virt : Word} (hof : VPage.of virt = vp)
    (hvp : F.Path r [vp.pml4]) :
    (pageLookup m r vp = none ∧ vmmUnmap m r virt = m) ∨
    (∃ pd, m.TableOf F r vp.pdPath pd ∧ Huge (m.entry pd vp.pd) ∧
      vmmUnmap m r virt = m.setEntry pd vp.pd 0) ∨
    (∃ pt, m.TableOf F r vp.ptPath pt ∧ vmmUnmap m r virt = m.setEntry pt vp.pt 0) := by
  have hunfold : vmmUnmap m r virt =
      (let pdpt := getExistingTable m r vp.pml4
       if pdpt = 0 then m
       else
         let pd := getExistingTable m pdpt vp.pdpt
         if pd = 0 then m
         else if Huge (m.entry pd vp.pd) then m.setEntry pd vp.pd 0
         else
           let pt := getExistingTable m pd vp.pd
           if pt = 0 then m else m.setEntry pt vp.pt 0) := by
    rw [← hof]; rfl
  rcases h.walk_cases hvp m (fun pd =>
      if Huge (m.entry pd vp.pd) then m.setEntry pd vp.pd 0
      else
        let pt := getExistingTable m pd vp.pd
        if pt = 0 then m else m.setEntry pt vp.pt 0) with ⟨pd, hpd, hwalk⟩ | ⟨hnone, hwalk⟩
  · rw [hunfold.trans hwalk]
    by_cases hh : Huge (m.entry pd vp.pd)
    · exact .inr (.inl ⟨pd, hpd, hh, by rw [if_pos hh]⟩)
    · rw [if_neg hh]
      rcases h.getExistingTable_cases hpd (by simp [VPage.pdPath]) (path_pt hvp) (fun _ => hh) with
        ⟨pt, hpt, hget, hne⟩ | ⟨hnone, -, hget⟩
      · exact .inr (.inr ⟨pt, hpt, by simp only [hget, hne, if_false]⟩)
      · refine .inl ⟨pageLookup_eq_none hnone fun pd' hpd' => ?_, by simp only [hget, if_true]⟩
        rw [hpd.unique ⟨hpd.1, hpd'⟩] at hh
        exact hh
  · refine .inl ⟨pageLookup_eq_none (tableAt_none_of_suffix hnone (List.suffix_cons _ _)) ?_,
      hunfold.trans hwalk⟩
    intro pd hpd
    rw [hnone] at hpd
    cases hpd

end Machine.Wf

/-! ## §2. The entries they store. -/

/-- Only flag bits. -/
def LowFlags (flags : Word) : Prop := flags &&& ~~~flagMask = 0

instance (flags : Word) : Decidable (LowFlags flags) := inferInstanceAs (Decidable (_ = _))

section Entries

variable {phys flags : Word}

theorem lowFlags_or_present (h : LowFlags flags) : LowFlags (flags ||| pagePresent) :=
  Word.or_within h (by decide)

theorem or_present_assoc (a flags : Word) :
    a ||| flags ||| pagePresent = a ||| (flags ||| pagePresent) := BitVec.or_assoc _ _ _

theorem present_pte (phys flags : Word) :
    Present ((phys &&& ~~~flagMask) ||| flags ||| pagePresent) := present_or (by decide)

theorem present_pde (phys flags : Word) :
    Present ((phys &&& ~~~hugeMask) ||| flags ||| pagePresent) := present_or (by decide)

theorem pte_addr (h : LowFlags flags) :
    ((phys &&& ~~~flagMask) ||| flags ||| pagePresent) &&& ~~~flagMask = phys &&& ~~~flagMask := by
  rw [or_present_assoc]
  exact Word.or_and_not Word.and_not_and_not (lowFlags_or_present h)

theorem pte_flags (h : LowFlags flags) :
    ((phys &&& ~~~flagMask) ||| flags ||| pagePresent) &&& flagMask = flags ||| pagePresent := by
  rw [or_present_assoc]
  exact Word.or_and_mask Word.and_not_and_not (lowFlags_or_present h)

/-- Flag bits are offset bits of a huge page. -/
theorem LowFlags.within_huge (h : LowFlags flags) : flags &&& ~~~hugeMask = 0 := by
  rw [← Word.and_mask_of_within h, BitVec.and_assoc, show flagMask &&& ~~~hugeMask = 0 by decide]
  simp

theorem pde_addr (h : LowFlags flags) :
    ((phys &&& ~~~hugeMask) ||| flags ||| pagePresent) &&& ~~~hugeMask = phys &&& ~~~hugeMask := by
  rw [or_present_assoc]
  exact Word.or_and_not Word.and_not_and_not (lowFlags_or_present h).within_huge

theorem pde_flags (h : LowFlags flags) :
    ((phys &&& ~~~hugeMask) ||| flags ||| pagePresent) &&& flagMask = flags ||| pagePresent := by
  rw [or_present_assoc, Word.or_and_bit (m := hugeMask) Word.and_not_and_not (by decide)]
  exact Word.and_mask_of_within (lowFlags_or_present h)

theorem huge_pde (hh : flags &&& pageHuge ≠ 0) :
    Huge ((phys &&& ~~~hugeMask) ||| flags ||| pagePresent) := by
  rw [or_present_assoc, Huge, Word.or_and_bit (m := hugeMask) Word.and_not_and_not (by decide),
    BitVec.and_or_distrib_right]
  intro hz
  exact hh (BitVec.or_eq_zero_iff.mp hz).1

end Entries

/-! ## §3. The mappings afterwards. -/

/-- The mapping a page-table slot of `vmm_map` stands for. -/
def smallMapping (phys flags : Word) : Mapping :=
  ⟨phys &&& ~~~flagMask, flags ||| pagePresent, false⟩

/-- The mapping of page `vp` under a page-directory slot of `vmm_map`. -/
def hugeMapping (phys flags : Word) (vp : VPage) : Mapping :=
  ⟨(phys &&& ~~~hugeMask) ||| vp.hugeOffset, flags ||| pagePresent, true⟩

namespace Machine.Wf

variable {pool : Finset Nat} {F : PageForest} {m : Machine} {r : Word} {vp : VPage}

/-- **`vmm_map` as an insertion.**  Either no allocation failed, and the page
    (or its 2 MiB region) has the new mapping and every other page of every
    tree has the one it had; or one failed, and nothing changed. -/
theorem vmmMap_lookup (h : m.Wf pool F) {virt : Word} (phys : Word) {flags : Word} (hof : VPage.of virt = vp)
    (hvp : F.Path r [vp.pml4]) (hlow : LowFlags flags)
    (hsmall : flags &&& pageHuge = 0 → ∀ x, pageLookup m r vp = some x → x.huge = false) :
    (vmmMap m r virt phys flags).Wf pool F ∧
    (((vmmMap m r virt phys flags).pmm.allocFailures = m.pmm.allocFailures ∧
        ∀ r' vp', F.Path r' [vp'.pml4] → pageLookup (vmmMap m r virt phys flags) r' vp' =
          if flags &&& pageHuge ≠ 0 then
            if r' = r ∧ vp'.SameHuge vp then some (hugeMapping phys flags vp')
            else pageLookup m r' vp'
          else if r' = r ∧ vp' = vp then some (smallMapping phys flags)
          else pageLookup m r' vp') ∨
      ((vmmMap m r virt phys flags).pmm.allocFailures = m.pmm.allocFailures + 1 ∧
        ∀ r' vp', F.Path r' [vp'.pml4] →
          pageLookup (vmmMap m r virt phys flags) r' vp' = pageLookup m r' vp')) := by
  obtain ⟨m₁, hg, ⟨hst, heq⟩ | ⟨hhuge, pd, hpd, heq⟩ | ⟨hhuge, pt, hpt, heq⟩⟩ :=
    h.vmmMap_cases phys flags hof hvp hsmall
  · rw [heq]
    refine ⟨(hg.wf h).allocFrame, .inr ⟨?_, fun r' vp' hvp' => hg.pageLookup h hvp'⟩⟩
    rw [Machine.allocFrame, pmmAllocFrame_nil hst, ← hg.allocFailures]
  · rw [heq]
    have hv : Huge ((phys &&& ~~~hugeMask) ||| flags ||| pagePresent) := huge_pde hhuge
    refine ⟨(hg.wf h).setLeaf hpd (pageChild_of_huge hv) (.inl (present_pde _ _)), .inl
      ⟨hg.allocFailures, fun r' vp' hvp' => ?_⟩⟩
    rw [(hg.wf h).pageLookup_setPde hpd (.inl hv) hvp', if_pos hv, if_pos hhuge, pde_addr hlow,
      pde_flags hlow, hg.pageLookup h hvp']
    rfl
  · rw [heq]
    refine ⟨(hg.wf h).setLeaf hpt (pageChild_leaf (by simp [VPage.ptPath]) _)
      (.inl (present_pte _ _)), .inl ⟨hg.allocFailures, fun r' vp' hvp' => ?_⟩⟩
    rw [(hg.wf h).pageLookup_setPte hpt hvp', if_pos (present_pte phys flags),
      if_neg (not_not_intro hhuge), pte_addr hlow, pte_flags hlow, hg.pageLookup h hvp']
    rfl

/-- **`vmm_unmap` as a removal**: the page (or its whole 2 MiB region) is no
    longer mapped, and every other page of every tree keeps its mapping. -/
theorem vmmUnmap_lookup (h : m.Wf pool F) {virt : Word} (hof : VPage.of virt = vp)
    (hvp : F.Path r [vp.pml4]) :
    (vmmUnmap m r virt).Wf pool F ∧ ∀ r' vp', F.Path r' [vp'.pml4] →
      pageLookup (vmmUnmap m r virt) r' vp' =
        if (pageLookup m r vp).any Mapping.huge then
          if r' = r ∧ vp'.SameHuge vp then none else pageLookup m r' vp'
        else if r' = r ∧ vp' = vp then none else pageLookup m r' vp' := by
  rcases h.vmmUnmap_cases hof hvp with ⟨hnone, heq⟩ | ⟨pd, hpd, hh, heq⟩ | ⟨pt, hpt, heq⟩
  · rw [heq]
    refine ⟨h, fun r' vp' hvp' => ?_⟩
    rw [hnone, if_neg (by simp)]
    by_cases hsame : r' = r ∧ vp' = vp
    · rw [if_pos hsame, hsame.1, hsame.2, hnone]
    · rw [if_neg hsame]
  · rw [heq]
    refine ⟨h.setLeaf hpd (pageChild_zero _) (.inr rfl), fun r' vp' hvp' => ?_⟩
    have hhuge : (pageLookup m r vp).any Mapping.huge = true := by
      rw [pageLookup_of_huge hpd.2 hh]; rfl
    rw [h.pageLookup_setPde hpd (.inr rfl) hvp', if_neg not_huge_zero, if_pos hhuge]
  · rw [heq]
    refine ⟨h.setLeaf hpt (pageChild_zero _) (.inr rfl), fun r' vp' hvp' => ?_⟩
    have hsmall : ¬ (pageLookup m r vp).any Mapping.huge = true := by
      rw [pageLookup_of_pt hpt.2]
      split <;> simp
    rw [h.pageLookup_setPte hpt hvp', if_neg not_present_zero, if_neg hsmall]

end Machine.Wf

/-! ## §4. Frames taken. -/

theorem pmmFreeFrame_freeStack (p : Pmm) (a : Word) :
    p.freeStack.length ≤ (pmmFreeFrame p a).freeStack.length ∧
      (pmmFreeFrame p a).allocFailures = p.allocFailures := by
  simp only [pmmFreeFrame]
  split
  · exact ⟨Nat.le_refl _, rfl⟩
  · split
    · split
      · split
        · exact ⟨Nat.le_succ _, rfl⟩
        · exact ⟨Nat.le_refl _, rfl⟩
      · exact ⟨Nat.le_refl _, rfl⟩
    · exact ⟨Nat.le_refl _, rfl⟩

theorem allocFrame_failures_le (m : Machine) :
    m.pmm.allocFailures ≤ m.allocFrame.2.pmm.allocFailures := by
  show m.pmm.allocFailures ≤ (pmmAllocFrame m.pmm).2.allocFailures
  cases hst : m.pmm.freeStack with
  | nil =>
    rw [pmmAllocFrame_nil hst]
    exact Nat.le_succ _
  | cons n rest =>
    rw [pmmAllocFrame_cons hst]

theorem allocZeroedTable_pmm (m : Machine) : (allocZeroedTable m).2.pmm = m.allocFrame.2.pmm := by
  unfold allocZeroedTable
  generalize m.allocFrame = x
  obtain ⟨n, m'⟩ := x
  by_cases hn : n = 0
  · simp only [hn, if_true]
  · simp only [hn, if_false, pmm_zeroTable]

theorem allocZeroedTable_frames (m : Machine) :
    m.pmm.freeStack.length ≤ (allocZeroedTable m).2.pmm.freeStack.length + 1 ∧
      (m.pmm.freeStack ≠ [] → (allocZeroedTable m).2.pmm.allocFailures = m.pmm.allocFailures) := by
  rw [allocZeroedTable_pmm, Machine.allocFrame]
  cases hst : m.pmm.freeStack with
  | nil => exact ⟨Nat.zero_le _, fun h => absurd rfl h⟩
  | cons n rest =>
    rw [pmmAllocFrame_cons hst]
    exact ⟨Nat.le_refl _, fun _ => rfl⟩

/-- `ensure_next_table` takes at most one frame, and fails only when there is
    none. -/
theorem ensureNextTable_frames (m : Machine) (t : Word) (i : Fin 512) :
    m.pmm.freeStack.length ≤ (ensureNextTable m t i).2.pmm.freeStack.length + 1 ∧
      (m.pmm.freeStack ≠ [] →
        (ensureNextTable m t i).2.pmm.allocFailures = m.pmm.allocFailures) := by
  have halloc := allocZeroedTable_frames m
  unfold ensureNextTable
  simp only
  split
  · exact ⟨Nat.le_succ _, fun _ => rfl⟩
  generalize allocZeroedTable m = x at halloc
  obtain ⟨newTable, m'⟩ := x
  simp only at halloc ⊢
  split
  · exact halloc
  split
  · exact halloc
  · obtain ⟨hlen, hfail⟩ := pmmFreeFrame_freeStack m'.pmm newTable
    exact ⟨halloc.1.trans (Nat.succ_le_succ hlen), fun h => hfail.trans (halloc.2 h)⟩

/-- Failures are only ever added. -/
theorem ensureNextTable_failures_le (m : Machine) (t : Word) (i : Fin 512) :
    m.pmm.allocFailures ≤ (ensureNextTable m t i).2.pmm.allocFailures := by
  have halloc : m.pmm.allocFailures ≤ (allocZeroedTable m).2.pmm.allocFailures := by
    rw [allocZeroedTable_pmm]
    exact allocFrame_failures_le m
  unfold ensureNextTable
  simp only
  split
  · exact Nat.le_refl _
  split
  · exact halloc
  split
  · exact halloc
  · rw [Machine.freeFrame, (pmmFreeFrame_freeStack _ _).2]
    exact halloc

/-- `vmm_map` keeps what `ensure_next_table` and storing an entry keep. -/
theorem vmmMap_induct {P : Machine → Prop} {m : Machine} {root virt phys flags : Word} (hm : P m)
    (hensure : ∀ m t i, P m → P (ensureNextTable m t i).2)
    (hset : ∀ m t i v, P m → P (m.setEntry t i v)) : P (vmmMap m root virt phys flags) := by
  have h₁ := hensure m root (pml4Index virt) hm
  unfold vmmMap
  generalize ensureNextTable m root (pml4Index virt) = x₁ at h₁
  obtain ⟨pdpt, m₁⟩ := x₁
  simp only at h₁ ⊢
  split
  · exact h₁
  have h₂ := hensure m₁ pdpt (pdptIndex virt) h₁
  generalize ensureNextTable m₁ pdpt (pdptIndex virt) = x₂ at h₂
  obtain ⟨pd, m₂⟩ := x₂
  simp only at h₂ ⊢
  split
  · exact h₂
  split
  · exact hset _ _ _ _ h₂
  have h₃ := hensure m₂ pd (pdIndex virt) h₂
  generalize ensureNextTable m₂ pd (pdIndex virt) = x₃ at h₃
  obtain ⟨pt, m₃⟩ := x₃
  simp only at h₃ ⊢
  split
  · exact h₃
  · exact hset _ _ _ _ h₃

theorem vmmMap_failures_le (m : Machine) (root virt phys flags : Word) :
    m.pmm.allocFailures ≤ (vmmMap m root virt phys flags).pmm.allocFailures :=
  vmmMap_induct (P := fun m' => m.pmm.allocFailures ≤ m'.pmm.allocFailures) (Nat.le_refl _)
    (fun m' t i h => h.trans (ensureNextTable_failures_le m' t i)) fun _ _ _ _ h => h

/-- With three free frames `vmm_map` does not run out. -/
theorem vmmMap_allocFailures {m : Machine} (h : 3 ≤ m.pmm.freeStack.length)
    (root virt phys flags : Word) :
    (vmmMap m root virt phys flags).pmm.allocFailures = m.pmm.allocFailures := by
  have hne : ∀ {m : Machine}, 1 ≤ m.pmm.freeStack.length → m.pmm.freeStack ≠ [] := by
    rintro m hlen hnil
    rw [hnil] at hlen
    cases hlen
  obtain ⟨hl₁, hf₁⟩ := ensureNextTable_frames m root (pml4Index virt)
  unfold vmmMap
  generalize ensureNextTable m root (pml4Index virt) = x₁ at hl₁ hf₁
  obtain ⟨pdpt, m₁⟩ := x₁
  have hf₁ := hf₁ (hne (by omega))
  simp only at hl₁ hf₁ ⊢
  split
  · exact hf₁
  obtain ⟨hl₂, hf₂⟩ := ensureNextTable_frames m₁ pdpt (pdptIndex virt)
  generalize ensureNextTable m₁ pdpt (pdptIndex virt) = x₂ at hl₂ hf₂
  obtain ⟨pd, m₂⟩ := x₂
  have hf₂ := hf₂ (hne (by omega))
  simp only at hl₂ hf₂ ⊢
  split
  · exact hf₂.trans hf₁
  split
  · exact hf₂.trans hf₁
  obtain ⟨-, hf₃⟩ := ensureNextTable_frames m₂ pd (pdIndex virt)
  generalize ensureNextTable m₂ pd (pdIndex virt) = x₃ at hf₃
  obtain ⟨pt, m₃⟩ := x₃
  have hf₃ := hf₃ (hne (by omega))
  simp only at hf₃ ⊢
  split <;> exact hf₃.trans (hf₂.trans hf₁)

/-! ## §5. The active address space. -/

theorem currentPml4_ensureNextTable (m : Machine) (t : Word) (i : Fin 512) :
    (ensureNextTable m t i).2.currentPml4 = m.currentPml4 := by
  have halloc : (allocZeroedTable m).2.currentPml4 = m.currentPml4 := by
    unfold allocZeroedTable
    simp only
    split
    · rfl
    · rw [currentPml4_zeroTable]
      rfl
  unfold ensureNextTable
  simp only
  split
  · rfl
  split
  · exact halloc
  split
  · exact halloc
  · exact halloc

/-- `vmm_map` does not switch address spaces. -/
theorem currentPml4_vmmMap (m : Machine) (root virt phys flags : Word) :
    (vmmMap m root virt phys flags).currentPml4 = m.currentPml4 :=
  vmmMap_induct (P := fun m' => m'.currentPml4 = m.currentPml4) rfl
    (fun m' t i h => (currentPml4_ensureNextTable m' t i).trans h) fun _ _ _ _ h => h

end ZohoOs
