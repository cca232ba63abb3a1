/-
  ZohoOs.Vmm.Walk — what a tree maps a page to.

  `pageLookup` is the mapping of one page as the tree holds it: the frame
  address and the flags, from a huge page or from a page table.  The readers
  `vmm_get_phys` and `vmm_get_flags` return what it says, and the three kinds
  of change to a tree (a page-table slot, a page-directory slot, a fresh
  table) change it where they should and nowhere else.
-/
import ZohoOs.Vmm.VPage

namespace ZohoOs

open ZohoOs.Lib
open ZohoOs.Lib.Mem (Aligned slotAddr InPage)
open ZohoOs.Lib.Radix

/-! ## §1. The translation of a page. -/

/-- What a page is mapped to. -/
structure Mapping where
  phys : Word
  flags : Word
  /-- Part of a 2 MiB page. -/
  huge : Bool
  deriving DecidableEq

/-- The page's mapping under `root`. -/
def pageLookup (m : Machine) (root : Word) (vp : VPage) : Option Mapping :=
  match tableAt pageChild m.entry root vp.pdPath with
  | none => none
  | some pd =>
      let pde := m.entry pd vp.pd
      if Huge pde then some ⟨(pde &&& ~~~hugeMask) ||| vp.hugeOffset, pde &&& flagMask, true⟩
      else
        match tableAt pageChild m.entry root vp.ptPath with
        | none => none
        | some pt =>
            let pte := m.entry pt vp.pt
            if Present pte then some ⟨pte &&& ~~~flagMask, pte &&& flagMask, false⟩ else none

section Lookup

variable {m m' : Machine} {r : Word} {vp : VPage}

theorem tableAt_pd_of_pt {pt : Word} (h : tableAt pageChild m.entry r vp.ptPath = some pt) :
    ∃ pd, tableAt pageChild m.entry r vp.pdPath = some pd ∧
      pageChild 2 (m.entry pd vp.pd) = some pt ∧ ¬ Huge (m.entry pd vp.pd) := by
  obtain ⟨pd, hpd, hc⟩ := tableAt_cons_eq_some.mp h
  refine ⟨pd, hpd, hc, fun hh => ?_⟩
  have hnone := pageChild_of_huge hh
  have hc' : pageChild 2 (m.entry pd vp.pd) = some pt := hc
  rw [hnone] at hc'
  cases hc'

theorem pageLookup_of_huge {pd : Word} (hpd : tableAt pageChild m.entry r vp.pdPath = some pd)
    (hh : Huge (m.entry pd vp.pd)) :
    pageLookup m r vp = some ⟨(m.entry pd vp.pd &&& ~~~hugeMask) ||| vp.hugeOffset,
      m.entry pd vp.pd &&& flagMask, true⟩ := by
  simp only [pageLookup, hpd, if_pos hh]

theorem pageLookup_of_pt {pt : Word} (hpt : tableAt pageChild m.entry r vp.ptPath = some pt) :
    pageLookup m r vp = if Present (m.entry pt vp.pt) then
      some ⟨m.entry pt vp.pt &&& ~~~flagMask, m.entry pt vp.pt &&& flagMask, false⟩ else none := by
  obtain ⟨pd, hpd, -, hnh⟩ := tableAt_pd_of_pt hpt
  simp only [pageLookup, hpd, if_neg hnh, hpt]

theorem pageLookup_eq_none (hpt : tableAt pageChild m.entry r vp.ptPath = none)
    (hnh : ∀ pd, tableAt pageChild m.entry r vp.pdPath = some pd → ¬ Huge (m.entry pd vp.pd)) :
    pageLookup m r vp = none := by
  unfold pageLookup
  cases hpd : tableAt pageChild m.entry r vp.pdPath with
  | none => rfl
  | some pd => simp only [if_neg (hnh pd hpd), hpt]

/-- A 4 KiB mapping goes to a page-aligned frame, and its flags are present. -/
theorem pageLookup_small {x : Mapping} (h : pageLookup m r vp = some x) (hx : x.huge = false) :
    Aligned x.phys ∧ x.flags &&& pagePresent ≠ 0 ∧ x.flags &&& ~~~flagMask = 0 := by
  have key : ∀ pte : Word, Present pte →
      Aligned (pte &&& ~~~flagMask) ∧ (pte &&& flagMask) &&& pagePresent ≠ 0 ∧
        (pte &&& flagMask) &&& ~~~flagMask = 0 := by
    intro pte hp
    refine ⟨aligned_and_not_flagMask pte, ?_, Word.and_mask_and_not⟩
    rw [BitVec.and_assoc, show flagMask &&& pagePresent = pagePresent by decide]
    exact hp
  unfold pageLookup at h
  cases hpd : tableAt pageChild m.entry r vp.pdPath with
  | none => simp only [hpd] at h; cases h
  | some pd =>
    simp only [hpd] at h
    by_cases hh : Huge (m.entry pd vp.pd)
    · rw [if_pos hh] at h
      rw [← Option.some.inj h] at hx
      cases hx
    · rw [if_neg hh] at h
      cases hpt : tableAt pageChild m.entry r vp.ptPath with
      | none => simp only [hpt] at h; cases h
      | some pt =>
        simp only [hpt] at h
        by_cases hp : Present (m.entry pt vp.pt)
        · rw [if_pos hp] at h
          rw [← Option.some.inj h]
          exact key _ hp
        · rw [if_neg hp] at h
          cases h

/-- The translation of a page depends on two walks and two slots. -/
theorem pageLookup_congr
    (hpd : tableAt pageChild m'.entry r vp.pdPath = tableAt pageChild m.entry r vp.pdPath)
    (hpde : ∀ pd, tableAt pageChild m.entry r vp.pdPath = some pd →
      m'.entry pd vp.pd = m.entry pd vp.pd)
    (hpt : tableAt pageChild m'.entry r vp.ptPath = tableAt pageChild m.entry r vp.ptPath)
    (hpte : ∀ pt, tableAt pageChild m.entry r vp.ptPath = some pt →
      m'.entry pt vp.pt = m.entry pt vp.pt) :
    pageLookup m' r vp = pageLookup m r vp := by
  unfold pageLookup
  rw [hpd, hpt]
  cases hd : tableAt pageChild m.entry r vp.pdPath with
  | none => rfl
  | some pd =>
    cases ht : tableAt pageChild m.entry r vp.ptPath with
    | none => simp only [hpde pd hd]
    | some pt => simp only [hpde pd hd, hpte pt ht]

end Lookup

/-! ## §2. The readers. -/

/-- `get_existing_table` reads one slot. -/
theorem getExistingTable_congr {m m' : Machine} {t t' : Word} {i : Fin 512}
    (h : m'.entry t' i = m.entry t i) : getExistingTable m' t' i = getExistingTable m t i := by
  unfold getExistingTable
  rw [h]

/-- Two trees of one memory that share a root slot read alike below it. -/
theorem vmmGetPhys_shared {m : Machine} {r r' virt : Word}
    (h : getExistingTable m r (pml4Index virt) = getExistingTable m r' (pml4Index virt)) :
    vmmGetPhys m r virt = vmmGetPhys m r' virt := by
  unfold vmmGetPhys
  rw [h]

theorem vmmGetFlags_shared {m : Machine} {r r' virt : Word}
    (h : getExistingTable m r (pml4Index virt) = getExistingTable m r' (pml4Index virt)) :
    vmmGetFlags m r virt = vmmGetFlags m r' virt := by
  unfold vmmGetFlags
  rw [h]

namespace Machine.Wf

variable {pool : Finset Nat} {F : PageForest} {m : Machine} {r t : Word} {p : List (Fin 512)}
  {i : Fin 512} {vp : VPage}

theorem path_pd (hvp : F.Path r [vp.pml4]) : F.Path r vp.pdPath :=
  Forest.Path.cons hvp (fun h => absurd h (by simp))

theorem path_pt (hvp : F.Path r [vp.pml4]) : F.Path r vp.ptPath :=
  Forest.Path.cons (path_pd hvp) (fun h => absurd h (by simp))

theorem path_page (hvp : F.Path r [vp.pml4]) : F.Path r (vp.pt :: vp.ptPath) :=
  Forest.Path.cons (path_pt hvp) (fun h => absurd h (by simp [VPage.ptPath]))

/-- `get_existing_table` finds a table that is there. -/
theorem getExistingTable_of_tableOf {n : Word} (ht : m.TableOf F r p t)
    (hn : m.TableOf F r (i :: p) n) : getExistingTable m t i = n := by
  have hc : pageChild p.length (m.entry t i) = some n := (tableAt_cons ht.2).symm.trans hn.2
  unfold pageChild at hc
  split at hc
  · rename_i hcond
    rw [getExistingTable, if_pos hcond.1]
    exact Option.some.inj hc
  · cases hc

/-- What `get_existing_table` can do at a slot of a tree that does not hold a
    huge page. -/
theorem getExistingTable_cases (h : m.Wf pool F) (ht : m.TableOf F r p t) (hlen : p.length < 3)
    (hpath : F.Path r (i :: p)) (hh : p.length = 2 → ¬ Huge (m.entry t i)) :
    (∃ n, m.TableOf F r (i :: p) n ∧ getExistingTable m t i = n ∧ n ≠ 0) ∨
    (tableAt pageChild m.entry r (i :: p) = none ∧ m.entry t i = 0 ∧
      getExistingTable m t i = 0) := by
  rcases h.clean r p t i ht hpath with hpres | hz
  · have hn : m.TableOf F r (i :: p) (m.entry t i &&& ~~~flagMask) :=
      ⟨hpath, (tableAt_cons ht.2).trans (pageChild_of_present hpres hlen hh)⟩
    exact .inl ⟨_, hn, by rw [getExistingTable, if_pos hpres], h.nonzero _ _ _ hn⟩
  · refine .inr ⟨?_, hz, ?_⟩
    · rw [tableAt_cons ht.2, hz, pageChild_zero]
    · rw [getExistingTable, if_neg (by rw [hz]; exact not_present_zero)]

/-- The two upper levels of every reader: they reach the page directory, or
    there is none. -/
theorem walk_cases (h : m.Wf pool F) (hvp : F.Path r [vp.pml4]) {β : Type} (d : β) (k : Word → β) :
    (∃ pd, m.TableOf F r vp.pdPath pd ∧
      (let pdpt := getExistingTable m r vp.pml4
       if pdpt = 0 then d
       else
         let pd := getExistingTable m pdpt vp.pdpt
         if pd = 0 then d else k pd) = k pd) ∨
    (tableAt pageChild m.entry r vp.pdPath = none ∧
      (let pdpt := getExistingTable m r vp.pml4
       if pdpt = 0 then d
       else
         let pd := getExistingTable m pdpt vp.pdpt
         if pd = 0 then d else k pd) = d) := by
  have hroot : m.TableOf F r [] r := ⟨hvp.tail, rfl⟩
  rcases h.getExistingTable_cases hroot (by simp) hvp (by simp) with
    ⟨pdpt, hpdpt, hget, hne⟩ | ⟨hnone, -, hget⟩
  · rcases h.getExistingTable_cases hpdpt (by simp) (path_pd hvp) (by simp) with
      ⟨pd, hpd, hget', hne'⟩ | ⟨hnone, -, hget'⟩
    · left
      exact ⟨pd, hpd, by simp only [hget, hne, if_false, hget', hne']⟩
    · right
      exact ⟨hnone, by simp only [hget, hne, if_false, hget', if_true]⟩
  · right
    refine ⟨tableAt_none_of_suffix hnone (List.suffix_cons _ _), by simp only [hget, if_true]⟩

/-- `vmm_get_flags` returns the flags of the translation, or 0. -/
theorem vmmGetFlags_eq (h : m.Wf pool F) {virt : Word} (hvp : F.Path r [(VPage.of virt).pml4]) :
    vmmGetFlags m r virt = ((pageLookup m r (VPage.of virt)).map Mapping.flags).getD 0 := by
  set vp := VPage.of virt with hdef
  rcases h.walk_cases hvp 0 (fun pd =>
      if Huge (m.entry pd vp.pd) then m.entry pd vp.pd &&& flagMask
      else
        let pt := getExistingTable m pd vp.pd
        if pt = 0 then 0 else m.entry pt vp.pt &&& flagMask) with
    ⟨pd, hpd, hwalk⟩ | ⟨hnone, hwalk⟩
  · refine Eq.trans hwalk ?_
    by_cases hh : Huge (m.entry pd vp.pd)
    · rw [if_pos hh, pageLookup_of_huge hpd.2 hh]
      rfl
    · rw [if_neg hh]
      rcases h.getExistingTable_cases hpd (by simp [VPage.pdPath]) (path_pt hvp) (fun _ => hh) with
        ⟨pt, hpt, hget, hne⟩ | ⟨hnone, -, hget⟩
      · rw [pageLookup_of_pt hpt.2]
        simp only [hget, hne, if_false]
        rcases h.clean _ _ _ vp.pt hpt (path_page hvp) with hp | hz
        · rw [if_pos hp]; rfl
        · rw [hz, if_neg not_present_zero]
          rfl
      · rw [pageLookup_eq_none hnone fun pd' hpd' => by rw [hpd.unique ⟨hpd.1, hpd'⟩] at hh; exact hh]
        simp only [hget, if_true]
        rfl
  · refine Eq.trans hwalk ?_
    rw [pageLookup_eq_none (tableAt_none_of_suffix hnone (List.suffix_cons _ _))
      fun pd hpd => by rw [hnone] at hpd; cases hpd]
    rfl

/-- `vmm_get_phys` of a page with a page directory. -/
theorem vmmGetPhys_of_pd (h : m.Wf pool F) {virt pd : Word} (hvp : F.Path r [(VPage.of virt).pml4])
    (hpd : m.TableOf F r (VPage.of virt).pdPath pd) :
    vmmGetPhys m r virt =
      if Huge (m.entry pd (VPage.of virt).pd) then
        (m.entry pd (VPage.of virt).pd &&& ~~~hugeMask) ||| (virt &&& hugeMask)
      else
        let pt := getExistingTable m pd (VPage.of virt).pd
        if pt = 0 then 0
        else (m.entry pt (VPage.of virt).pt &&& ~~~flagMask) ||| (virt &&& flagMask) := by
  set vp := VPage.of virt with hdef
  rcases h.walk_cases hvp 0 (fun pd =>
      if Huge (m.entry pd vp.pd) then (m.entry pd vp.pd &&& ~~~hugeMask) ||| (virt &&& hugeMask)
      else
        let pt := getExistingTable m pd vp.pd
        if pt = 0 then 0
        else (m.entry pt vp.pt &&& ~~~flagMask) ||| (virt &&& flagMask)) with
    ⟨pd', hpd', hwalk⟩ | ⟨hnone, -⟩
  · rw [hpd.unique hpd']
    exact hwalk
  · rw [hpd.2] at hnone
    cases hnone

/-- `vmm_get_phys` of a page with a page table, mapped or not. -/
theorem vmmGetPhys_of_pt (h : m.Wf pool F) {virt pt : Word} (hvp : F.Path r [(VPage.of virt).pml4])
    (hpt : m.TableOf F r (VPage.of virt).ptPath pt) :
    vmmGetPhys m r virt =
      (m.entry pt (VPage.of virt).pt &&& ~~~flagMask) ||| (virt &&& flagMask) := by
  obtain ⟨pd, hpd, -, hnh⟩ := tableAt_pd_of_pt hpt.2
  have hpd' : m.TableOf F r (VPage.of virt).pdPath pd := ⟨path_pd hvp, hpd⟩
  rw [h.vmmGetPhys_of_pd hvp hpd', if_neg hnh]
  rcases h.getExistingTable_cases hpd' (by simp [VPage.pdPath]) (path_pt hvp) (fun _ => hnh) with
    ⟨pt', hpt', hget, hne⟩ | ⟨hnone, -, -⟩
  · simp only [hget, hne, if_false]
    rw [hpt'.unique hpt]
  · have hsome := hpt.2
    rw [VPage.ptPath_eq, hnone] at hsome
    cases hsome

/-- `vmm_get_phys` of a mapped page: the frame address and the offset. -/
theorem vmmGetPhys_eq (h : m.Wf pool F) {virt : Word} (hvp : F.Path r [(VPage.of virt).pml4])
    {x : Mapping} (hx : pageLookup m r (VPage.of virt) = some x) :
    vmmGetPhys m r virt = x.phys ||| (virt &&& flagMask) := by
  cases hpt : tableAt pageChild m.entry r (VPage.of virt).ptPath with
  | some pt =>
    rw [h.vmmGetPhys_of_pt hvp ⟨path_pt hvp, hpt⟩]
    rw [pageLookup_of_pt hpt] at hx
    by_cases hp : Present (m.entry pt (VPage.of virt).pt)
    · rw [if_pos hp] at hx
      rw [← congrArg Mapping.phys (Option.some.inj hx)]
    · rw [if_neg hp] at hx
      cases hx
  | none =>
    by_cases hhuge : ∃ pd, tableAt pageChild m.entry r (VPage.of virt).pdPath = some pd ∧
        Huge (m.entry pd (VPage.of virt).pd)
    · obtain ⟨pd, hpd, hh⟩ := hhuge
      rw [pageLookup_of_huge hpd hh] at hx
      rw [h.vmmGetPhys_of_pd hvp ⟨path_pd hvp, hpd⟩, if_pos hh,
        ← congrArg Mapping.phys (Option.some.inj hx), VPage.and_hugeMask, BitVec.or_assoc]
    · rw [pageLookup_eq_none hpt fun pd hpd hh => hhuge ⟨pd, hpd, hh⟩] at hx
      cases hx

/-- Two machines that agree on the tables of a tree walk it alike. -/
theorem walk_congr (h : m.Wf pool F) (hvp : F.Path r [vp.pml4]) {m' : Machine}
    (hsame : ∀ q s, m.TableOf F r q s → ∀ j, m'.entry s j = m.entry s j) {β : Type} (d : β)
    {k k' : Word → β} (hk : ∀ pd, m.TableOf F r vp.pdPath pd → k' pd = k pd) :
    (let pdpt := getExistingTable m' r vp.pml4
     if pdpt = 0 then d
     else
       let pd := getExistingTable m' pdpt vp.pdpt
       if pd = 0 then d else k' pd) =
    (let pdpt := getExistingTable m r vp.pml4
     if pdpt = 0 then d
     else
       let pd := getExistingTable m pdpt vp.pdpt
       if pd = 0 then d else k pd) := by
  have hroot : m.TableOf F r [] r := ⟨hvp.tail, rfl⟩
  have hget : getExistingTable m' r vp.pml4 = getExistingTable m r vp.pml4 :=
    getExistingTable_congr (hsame _ _ hroot _)
  rcases h.getExistingTable_cases hroot (by simp) hvp (by simp) with
    ⟨pdpt, hpdpt, heq, hne⟩ | ⟨-, -, heq⟩
  · have hget' : getExistingTable m' pdpt vp.pdpt = getExistingTable m pdpt vp.pdpt :=
      getExistingTable_congr (hsame _ _ hpdpt _)
    rcases h.getExistingTable_cases hpdpt (by simp) (path_pd hvp) (by simp) with
      ⟨pd, hpd, heq', hne'⟩ | ⟨-, -, heq'⟩
    · simp only [hget, heq, hne, if_false, hget', heq', hne', hk pd hpd]
    · simp only [hget, heq, hne, if_false, hget', heq', if_true]
  · simp only [hget, heq, if_true]

/-- The last level of the readers. -/
theorem readPt_congr (h : m.Wf pool F) (hvp : F.Path r [vp.pml4]) {m' : Machine}
    (hsame : ∀ q s, m.TableOf F r q s → ∀ j, m'.entry s j = m.entry s j) {β : Type} (d : β)
    (big small : Word → β) {pd : Word} (hpd : m.TableOf F r vp.pdPath pd) :
    (if Huge (m'.entry pd vp.pd) then big (m'.entry pd vp.pd)
     else
       let pt := getExistingTable m' pd vp.pd
       if pt = 0 then d else small (m'.entry pt vp.pt)) =
    (if Huge (m.entry pd vp.pd) then big (m.entry pd vp.pd)
     else
       let pt := getExistingTable m pd vp.pd
       if pt = 0 then d else small (m.entry pt vp.pt)) := by
  have hpde : m'.entry pd vp.pd = m.entry pd vp.pd := hsame _ _ hpd _
  have hget : getExistingTable m' pd vp.pd = getExistingTable m pd vp.pd := getExistingTable_congr hpde
  rw [hpde, hget]
  by_cases hh : Huge (m.entry pd vp.pd)
  · rw [if_pos hh, if_pos hh]
  · rw [if_neg hh, if_neg hh]
    rcases h.getExistingTable_cases hpd (by simp [VPage.pdPath]) (path_pt hvp) (fun _ => hh) with
      ⟨pt, hpt, heq, hne⟩ | ⟨-, -, heq⟩
    · simp only [heq, hne, if_false, hsame _ _ hpt]
    · simp only [heq, if_true]

/-- `vmm_get_phys` reads the tables of its tree and nothing else. -/
theorem vmmGetPhys_congr (h : m.Wf pool F) {virt : Word} (hvp : F.Path r [(VPage.of virt).pml4])
    {m' : Machine} (hsame : ∀ q s, m.TableOf F r q s → ∀ j, m'.entry s j = m.entry s j) :
    vmmGetPhys m' r virt = vmmGetPhys m r virt :=
  h.walk_congr hvp hsame 0 fun _ hpd => h.readPt_congr hvp hsame 0
    (fun e => (e &&& ~~~hugeMask) ||| (virt &&& hugeMask))
    (fun e => (e &&& ~~~flagMask) ||| (virt &&& flagMask)) hpd

/-- `vmm_get_flags` reads the tables of its tree and nothing else. -/
theorem vmmGetFlags_congr (h : m.Wf pool F) {virt : Word} (hvp : F.Path r [(VPage.of virt).pml4])
    {m' : Machine} (hsame : ∀ q s, m.TableOf F r q s → ∀ j, m'.entry s j = m.entry s j) :
    vmmGetFlags m' r virt = vmmGetFlags m r virt :=
  h.walk_congr hvp hsame 0 fun _ hpd => h.readPt_congr hvp hsame 0 (fun e => e &&& flagMask)
    (fun e => e &&& flagMask) hpd

/-- The mapping of a page depends on the tables of its tree. -/
theorem pageLookup_of_tables {m' : Machine} (hvp : F.Path r [vp.pml4])
    (hsame : ∀ q s, m.TableOf F r q s → ∀ j, m'.entry s j = m.entry s j) :
    pageLookup m' r vp = pageLookup m r vp :=
  pageLookup_congr (Forest.tableAt_congr_path hsame (path_pd hvp))
    (fun _ hpd => hsame _ _ ⟨path_pd hvp, hpd⟩ _)
    (Forest.tableAt_congr_path hsame (path_pt hvp))
    (fun _ hpt => hsame _ _ ⟨path_pt hvp, hpt⟩ _)

/-! ## §3. Changes to a tree. -/

/-- A slot store, seen from any table of the forest. -/
theorem entry_setEntry_of (h : m.Wf pool F) (ht : m.TableOf F r p t) {v r' s : Word}
    {q : List (Fin 512)} {j : Fin 512} (hs : m.TableOf F r' q s) :
    (m.setEntry t i v).entry s j = if r' = r ∧ q = p ∧ j = i then v else m.entry s j := by
  rw [Machine.entry_setEntry (h.aligned ht) (h.aligned hs)]
  by_cases hst : s = t ∧ j = i
  · obtain ⟨rfl, rfl⟩ := hst
    obtain ⟨rfl, rfl⟩ := h.sep _ _ _ _ _ hs ht
    rw [write_self, if_pos ⟨rfl, rfl, rfl⟩]
  · rw [write_other _ _ hst, if_neg]
    rintro ⟨rfl, rfl, rfl⟩
    exact hst ⟨hs.unique ht, rfl⟩

/-- Walks along owned paths are determined by the tables of the forest. -/
theorem tableAt_eq_of_iff {m' : Machine} {r' : Word} {q : List (Fin 512)} (hq : F.Path r' q)
    (hiff : ∀ s, m'.TableOf F r' q s ↔ m.TableOf F r' q s) :
    tableAt pageChild m'.entry r' q = tableAt pageChild m.entry r' q := by
  ext s
  exact ⟨fun hs => ((hiff s).mp ⟨hq, hs⟩).2, fun hs => ((hiff s).mpr ⟨hq, hs⟩).2⟩

/-- **Storing a page-table slot** changes the translation of that page. -/
theorem pageLookup_setPte (h : m.Wf pool F) (hpt : m.TableOf F r vp.ptPath t) {v : Word}
    {r' : Word} {vp' : VPage} (hvp' : F.Path r' [vp'.pml4]) :
    pageLookup (m.setEntry t vp.pt v) r' vp' =
      if r' = r ∧ vp' = vp then
        if Present v then some ⟨v &&& ~~~flagMask, v &&& flagMask, false⟩ else none
      else pageLookup m r' vp' := by
  have hleaf : ∀ e, pageChild vp.ptPath.length e = none := pageChild_leaf (by simp [VPage.ptPath])
  have hwalk : ∀ q, F.Path r' q → tableAt pageChild (m.setEntry t vp.pt v).entry r' q
      = tableAt pageChild m.entry r' q := fun q hq =>
    tableAt_eq_of_iff hq fun s => h.tableOf_setLeaf hpt (hleaf _) (hleaf _)
  by_cases hsame : r' = r ∧ vp' = vp
  · obtain ⟨rfl, rfl⟩ := hsame
    have hpte : (m.setEntry t vp'.pt v).entry t vp'.pt = v := by
      rw [h.entry_setEntry_of hpt hpt, if_pos ⟨rfl, rfl, rfl⟩]
    rw [if_pos ⟨rfl, rfl⟩, pageLookup_of_pt ((hwalk _ hpt.1).trans hpt.2), hpte]
  · rw [if_neg hsame]
    refine pageLookup_congr (hwalk _ (path_pd hvp')) (fun pd hpd => ?_) (hwalk _ (path_pt hvp'))
      (fun pt' hpt' => ?_)
    · rw [h.entry_setEntry_of hpt ⟨path_pd hvp', hpd⟩, if_neg]
      rintro ⟨-, hq, -⟩
      have := congrArg List.length hq
      simp [VPage.pdPath, VPage.ptPath] at this
    · rw [h.entry_setEntry_of hpt ⟨path_pt hvp', hpt'⟩, if_neg]
      rintro ⟨hr, hq, hl⟩
      exact hsame ⟨hr, VPage.eq_iff.mpr ⟨hq, hl⟩⟩

/-- **Storing a page-directory slot** with a huge page or zero changes the
    translations of its 2 MiB region, whatever the slot held before. -/
theorem pageLookup_setPde (h : m.Wf pool F) (hpd : m.TableOf F r vp.pdPath t) {v : Word}
    (hv : Huge v ∨ v = 0) {r' : Word} {vp' : VPage} (hvp' : F.Path r' [vp'.pml4]) :
    pageLookup (m.setEntry t vp.pd v) r' vp' =
      if r' = r ∧ vp'.SameHuge vp then
        if Huge v then some ⟨(v &&& ~~~hugeMask) ||| vp'.hugeOffset, v &&& flagMask, true⟩ else none
      else pageLookup m r' vp' := by
  have hal := h.aligned hpd
  have hcut : pageChild vp.pdPath.length v = none := by
    rcases hv with hv | rfl
    · exact pageChild_of_huge hv
    · exact pageChild_zero _
  -- walks that do not run through the slot
  have hwalk : ∀ q, F.Path r' q → ¬ (r' = r ∧ vp.pd :: vp.pdPath <:+ q) →
      tableAt pageChild (m.setEntry t vp.pd v).entry r' q = tableAt pageChild m.entry r' q := by
    intro q hq hnot
    refine tableAt_eq_of_iff hq fun s => ?_
    rw [Machine.Wf.tableOf_setEntry h.root hal]
    unfold Forest.TableOf
    rw [tableAt_write_other h.sep hpd hq hnot]
    exact Iff.rfl
  have hpdwalk : tableAt pageChild (m.setEntry t vp.pd v).entry r' vp'.pdPath
      = tableAt pageChild m.entry r' vp'.pdPath := by
    refine hwalk _ (path_pd hvp') ?_
    rintro ⟨-, hsuf⟩
    have := hsuf.length_le
    simp [VPage.pdPath] at this
  by_cases hsame : r' = r ∧ vp'.SameHuge vp
  · obtain ⟨rfl, hsame⟩ := hsame
    obtain ⟨hq, hk⟩ := VPage.sameHuge_iff.mp hsame
    have hpd' : tableAt pageChild (m.setEntry t vp.pd v).entry r' vp'.pdPath = some t := by
      rw [hpdwalk, hq]; exact hpd.2
    have hpde : (m.setEntry t vp.pd v).entry t vp'.pd = v := by
      rw [h.entry_setEntry_of hpd hpd, if_pos ⟨rfl, rfl, hk⟩]
    rw [if_pos ⟨rfl, hsame⟩]
    rcases hv with hv | rfl
    · rw [if_pos hv, pageLookup_of_huge hpd' (by rw [hpde]; exact hv), hpde]
    · rw [if_neg not_huge_zero]
      refine pageLookup_eq_none ?_ fun pd' hpd'' => ?_
      · rw [VPage.ptPath_eq, tableAt_cons hpd', hpde, pageChild_zero]
      · rw [hpd'] at hpd''
        injection hpd'' with he
        rw [← he, hpde]
        exact not_huge_zero
  · rw [if_neg hsame]
    refine pageLookup_congr hpdwalk (fun pd' hpd' => ?_) (hwalk _ (path_pt hvp') ?_)
      (fun pt' hpt' => ?_)
    · rw [h.entry_setEntry_of hpd ⟨path_pd hvp', hpd'⟩, if_neg]
      rintro ⟨hr, hq, hk⟩
      exact hsame ⟨hr, VPage.sameHuge_iff.mpr ⟨hq, hk⟩⟩
    · rintro ⟨hr, hsuf⟩
      have heq := hsuf.eq_of_length (by simp [VPage.pdPath, VPage.ptPath])
      exact hsame ⟨hr, heq.symm⟩
    · rw [h.entry_setEntry_of hpd ⟨path_pt hvp', hpt'⟩, if_neg]
      rintro ⟨-, hq, -⟩
      have := congrArg List.length hq
      simp [VPage.pdPath, VPage.ptPath] at this

/-- **Attaching a fresh table** changes no translation. -/
theorem pageLookup_attachTable (h : m.Wf pool F) (ht : m.TableOf F r p t) (hlen : p.length < 3)
    (hpath : F.Path r (i :: p)) (hz : m.entry t i = 0) {n : Word} {rest : List Word}
    (hst : m.pmm.freeStack = n :: rest) {r' : Word} {vp' : VPage} (hvp' : F.Path r' [vp'.pml4]) :
    pageLookup (m.attachTable t i n) r' vp' = pageLookup m r' vp' := by
  obtain ⟨hn, -, -, -, hfresh⟩ := h.top hst
  have hal := h.aligned ht
  have hne : n ≠ t := fun he => hfresh r p (he ▸ ht)
  have htab : ∀ q s, (m.attachTable t i n).TableOf F r' q s ↔
      m.TableOf F r' q s ∨ (r' = r ∧ q = i :: p ∧ s = n) := fun q s =>
    h.tableOf_attachTable ht hlen hpath (pageChild_of_zero hz) hst
  have hnone : tableAt pageChild m.entry r (i :: p) = none := by
    rw [tableAt_cons ht.2, hz, pageChild_zero]
  -- every walk but the one to the new table, and every entry but the one written, is as before
  have hwalk : ∀ q, F.Path r' q → ¬ (r' = r ∧ q = i :: p) →
      tableAt pageChild (m.attachTable t i n).entry r' q = tableAt pageChild m.entry r' q := by
    intro q hq hnot
    refine tableAt_eq_of_iff hq fun s => (htab q s).trans ⟨fun hs => ?_, .inl⟩
    exact hs.resolve_right fun hs => hnot ⟨hs.1, hs.2.1⟩
  have hentry : ∀ q s j, m.TableOf F r' q s → ¬ (r' = r ∧ q = p ∧ j = i) →
      (m.attachTable t i n).entry s j = m.entry s j := by
    intro q s j hs hnot
    rw [entry_attachTable hn hal (h.aligned hs) hne, if_neg (show s ≠ n from fun he =>
      hfresh r' q (he ▸ hs)), write_other]
    rintro ⟨rfl, rfl⟩
    obtain ⟨hr, hq⟩ := h.sep _ _ _ _ _ hs ht
    exact hnot ⟨hr, hq, rfl⟩
  have hnew : ∀ j, (m.attachTable t i n).entry n j = 0 := fun j => by
    rw [entry_attachTable hn hal hn hne, if_pos rfl]
  by_cases hpd : r' = r ∧ vp'.pdPath = i :: p
  · -- the new table is the page's directory: empty now, absent before
    obtain ⟨rfl, hpd⟩ := hpd
    have hpd' : tableAt pageChild (m.attachTable t i n).entry r' vp'.pdPath = some n :=
      ((htab _ _).mpr (.inr ⟨rfl, hpd, rfl⟩)).2
    have hold : tableAt pageChild m.entry r' vp'.pdPath = none := by rw [hpd]; exact hnone
    rw [pageLookup_eq_none, pageLookup_eq_none]
    · exact tableAt_none_of_suffix hold (List.suffix_cons _ _)
    · intro pd h'; rw [hold] at h'; cases h'
    · rw [VPage.ptPath_eq, tableAt_cons hpd', hnew, pageChild_zero]
    · intro pd h'
      rw [hpd'] at h'
      injection h' with h'
      rw [← h', hnew]
      exact not_huge_zero
  · have hpdw := hwalk _ (path_pd hvp') hpd
    by_cases hpt : r' = r ∧ vp'.ptPath = i :: p
    · -- the new table is the page's table: empty now, absent before
      obtain ⟨rfl, hpt⟩ := hpt
      obtain ⟨hi, hp⟩ : vp'.pd = i ∧ vp'.pdPath = p := by
        rw [VPage.ptPath_eq] at hpt
        exact List.cons.inj hpt
      have hpt' : tableAt pageChild (m.attachTable t i n).entry r' vp'.ptPath = some n :=
        ((htab _ _).mpr (.inr ⟨rfl, hpt, rfl⟩)).2
      rw [pageLookup_of_pt hpt', hnew, if_neg not_present_zero, pageLookup_eq_none]
      · rw [hpt]; exact hnone
      · intro pd hpd'
        rw [hp, ht.2] at hpd'
        injection hpd' with hpd'
        rw [← hpd', hi, hz]
        exact not_huge_zero
    · -- neither is the new table: the walk reads what it read before
      refine pageLookup_congr hpdw (fun pd hpd' => ?_) (hwalk _ (path_pt hvp') hpt)
        (fun pt hpt' => ?_)
      · refine hentry _ pd _ ⟨path_pd hvp', hpd'⟩ ?_
        rintro ⟨hr, hq, hk⟩
        exact hpt ⟨hr, by rw [VPage.ptPath_eq, hq, hk]⟩
      · refine hentry _ pt _ ⟨path_pt hvp', hpt'⟩ ?_
        rintro ⟨-, hq, -⟩
        rw [← hq] at hlen
        simp [VPage.ptPath] at hlen

end Machine.Wf

end ZohoOs
