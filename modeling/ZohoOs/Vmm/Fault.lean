/-
  ZohoOs.Vmm.Fault — page faults (idt.c).

  A write to a copy-on-write page faults.  `handle_page_fault` takes a new
  frame, copies the page and maps the copy writable; where the old frame has
  only one count left it maps that frame writable instead.  Every step works on
  the 4 KiB around the faulting address: the count that is read, the bytes that
  are copied, the frame that is taken and the frame that is given back.

  Main results:
    * `vmmGetPhys_in_page` — the bytes the copy reads;
    * `handlePageFault_split`, `handlePageFault_keep` — the machine after a
      fault in a 2 MiB page.
-/
import ZohoOs.Vmm.Shared
import ZohoOs.Vmm.Trees

namespace ZohoOs

open ZohoOs.Lib
open ZohoOs.Lib.Mem (Aligned InPage slotAddr)
open ZohoOs.Lib.Radix

/-! ## §1. The handler. -/

/-- `memcpy((void*)dst, (void*)src, 4096)` with `pml4` loaded: `dst` is a frame,
    which the identity map reaches, and `src` is translated. -/
def Machine.copyPage (m : Machine) (pml4 dst src : Word) : Machine :=
  { m with mem := m.mem.fill dst 4096 fun k => m.mem (vmmGetPhys m pml4 (src + BitVec.ofNat 64 k)) }

/-- The flags of a page that its owner may write again. -/
def ownFlags (flags : Word) : Word := (flags &&& ~~~pageCow) ||| pageWritable

/-- `handle_page_fault` while a task runs on `pml4`; `none` where the fault is
    not handled, and the task is terminated or the kernel halts. -/
def handlePageFault (m : Machine) (pml4 cr2 errorCode : Word) : Option Machine :=
  let flags := vmmGetFlags m pml4 cr2
  -- a write fault, and the page is copy-on-write
  if errorCode &&& 2 ≠ 0 ∧ flags &&& pageCow ≠ 0 then
    let oldPhys := vmmGetPhys m pml4 cr2 &&& ~~~flagMask
    if 1 < pmmGetRef m.pmm oldPhys then
      let (newFrame, m) := m.allocFrame
      let m := m.copyPage pml4 newFrame (cr2 &&& ~~~flagMask)
      some ((vmmMap m pml4 (cr2 &&& ~~~flagMask) newFrame (ownFlags flags)).freeFrame oldPhys)
    else
      -- the last owner
      some (vmmMap m pml4 (cr2 &&& ~~~flagMask) oldPhys (ownFlags flags))
  else none

/-! ## §2. The bytes of a page. -/

section Page

variable {F : PageForest} {m : Machine} {r v : Word} {x : Mapping}

/-- A page is mapped to a page-aligned address, small or huge. -/
theorem aligned_of_lookup {vp : VPage} (hx : pageLookup m r vp = some x) : Aligned x.phys := by
  cases hhuge : x.huge with
  | false => exact (pageLookup_small hx hhuge).1
  | true =>
    unfold pageLookup at hx
    cases hpd : tableAt pageChild m.entry r vp.pdPath with
    | none =>
      rw [hpd] at hx
      cases hx
    | some pd =>
      simp only [hpd] at hx
      by_cases hh : Huge (m.entry pd vp.pd)
      · rw [if_pos hh] at hx
        rw [← congrArg Mapping.phys (Option.some.inj hx), Aligned,
          Word.toNat_or_low (k := 21) (by decide)]
        · rw [hugeMask_eq, Word.toNat_and_not_lowMask _ (by decide), VPage.toNat_hugeOffset]
          omega
        · rw [hugeMask_eq, Word.and_not_and_not]
        · have hlt := vp.pt.isLt
          rw [VPage.toNat_hugeOffset]
          omega
      · rw [if_neg hh] at hx
        cases hpt : tableAt pageChild m.entry r vp.ptPath with
        | none =>
          simp only [hpt] at hx
          cases hx
        | some pt =>
          simp only [hpt] at hx
          by_cases hp : Present (m.entry pt vp.pt)
          · rw [if_pos hp] at hx
            rw [← congrArg Mapping.huge (Option.some.inj hx)] at hhuge
            cases hhuge
          · rw [if_neg hp] at hx
            cases hx

theorem toNat_page_add (v : Word) {k : Nat} (hk : k < 4096) :
    ((v &&& ~~~flagMask) + BitVec.ofNat 64 k).toNat = v.toNat / 4096 * 4096 + k := by
  have hlt := v.isLt
  have hpage : (v &&& ~~~flagMask).toNat = v.toNat / 4096 * 4096 := by
    exact Word.toNat_and_not_lowMask v (k := 12) (by decide)
  rw [BitVec.toNat_add, hpage, BitVec.toNat_ofNat]
  omega

/-- The addresses of a page have its indices. -/
theorem VPage.of_page_add (v : Word) {k : Nat} (hk : k < 4096) :
    VPage.of ((v &&& ~~~flagMask) + BitVec.ofNat 64 k) = VPage.of v := by
  have hindex : ∀ s, 12 ≤ s → pageIndex s ((v &&& ~~~flagMask) + BitVec.ofNat 64 k) = pageIndex s v := by
    intro s hs
    apply Fin.ext
    rw [pageIndex_val, pageIndex_val, toNat_page_add v hk]
    congr 1
    obtain ⟨d, rfl⟩ := Nat.exists_eq_add_of_le hs
    rw [Nat.pow_add, ← Nat.div_div_eq_div_mul, ← Nat.div_div_eq_div_mul]
    congr 1
    omega
  unfold VPage.of pml4Index pdptIndex pdIndex ptIndex
  rw [hindex 39 (by decide), hindex 30 (by decide), hindex 21 (by decide), hindex 12 (by decide)]

theorem VPage.of_page (v : Word) : VPage.of (v &&& ~~~flagMask) = VPage.of v := by
  rw [← VPage.of_page_add v (k := 0) (by decide), BitVec.add_zero]

theorem page_add_and_flagMask (v : Word) {k : Nat} (hk : k < 4096) :
    ((v &&& ~~~flagMask) + BitVec.ofNat 64 k) &&& flagMask = BitVec.ofNat 64 k := by
  apply BitVec.eq_of_toNat_eq
  rw [flagMask_eq, Word.toNat_and_lowMask _ (by decide), ← flagMask_eq, toNat_page_add v hk,
    BitVec.toNat_ofNat]
  omega

/-- An offset into a page-aligned page does not carry. -/
theorem or_page_offset {a : Word} (ha : Aligned a) {k : Nat} (hk : k < 4096) :
    a ||| BitVec.ofNat 64 k = a + BitVec.ofNat 64 k := by
  have hlt := a.isLt
  have hk' : (BitVec.ofNat 64 k).toNat = k := by
    rw [BitVec.toNat_ofNat]
    omega
  unfold Aligned at ha
  apply BitVec.eq_of_toNat_eq
  rw [Word.toNat_or_low (k := 12) (by decide) (and_not_flagMask ha) (by rw [hk']; exact hk),
    BitVec.toNat_add, hk', Nat.mod_eq_of_lt]
  omega

namespace Machine.Trees

/-- What `vmm_get_flags` returns for a mapped page. -/
theorem vmmGetFlags_of_lookup (h : m.Trees F) (hvp : F.Path r [(VPage.of v).pml4])
    (hx : pageLookup m r (VPage.of v) = some x) : vmmGetFlags m r v = x.flags := by
  obtain ⟨pool, q, -, hwf⟩ := h
  have hflags : vmmGetFlags (m.withPmm q) r v = _ := hwf.vmmGetFlags_eq hvp
  rw [show pageLookup (m.withPmm q) r (VPage.of v) = some x from hx] at hflags
  exact hflags

/-- The address `vmm_get_phys` returns for a mapped page. -/
theorem vmmGetPhys_of_lookup (h : m.Trees F) (hvp : F.Path r [(VPage.of v).pml4])
    (hx : pageLookup m r (VPage.of v) = some x) :
    vmmGetPhys m r v = x.phys ||| (v &&& flagMask) := by
  obtain ⟨pool, q, -, hwf⟩ := h
  have hphys : vmmGetPhys (m.withPmm q) r v = _ :=
    hwf.vmmGetPhys_eq hvp (show pageLookup (m.withPmm q) r (VPage.of v) = some x from hx)
  exact hphys

/-- The frame the handler looks at. -/
theorem oldPhys (h : m.Trees F) (hvp : F.Path r [(VPage.of v).pml4])
    (hx : pageLookup m r (VPage.of v) = some x) : vmmGetPhys m r v &&& ~~~flagMask = x.phys := by
  rw [h.vmmGetPhys_of_lookup hvp hx]
  exact Word.or_and_not (and_not_flagMask (aligned_of_lookup hx)) Word.and_mask_and_not

/-- **The bytes of a page** are those of the frame it is mapped to. -/
theorem vmmGetPhys_in_page (h : m.Trees F) (hvp : F.Path r [(VPage.of v).pml4])
    (hx : pageLookup m r (VPage.of v) = some x) {k : Nat} (hk : k < 4096) :
    vmmGetPhys m r ((v &&& ~~~flagMask) + BitVec.ofNat 64 k) = x.phys + BitVec.ofNat 64 k := by
  have hof := VPage.of_page_add v hk
  rw [h.vmmGetPhys_of_lookup (by rw [hof]; exact hvp) (by rw [hof]; exact hx),
    page_add_and_flagMask v hk, or_page_offset (aligned_of_lookup hx) hk]

/-- The copy of a page. -/
theorem copyPage_eq (h : m.Trees F) (hvp : F.Path r [(VPage.of v).pml4])
    (hx : pageLookup m r (VPage.of v) = some x) (n : Word) :
    m.copyPage r n (v &&& ~~~flagMask) =
      { m with mem := m.mem.fill n 4096 fun k => m.mem (x.phys + BitVec.ofNat 64 k) } := by
  unfold Machine.copyPage
  congr 1
  funext w
  unfold Mem.fill
  by_cases hw : (w - n).toNat < 4096
  · rw [if_pos hw, if_pos hw]
    exact congrArg m.mem (h.vmmGetPhys_in_page hvp hx hw)
  · rw [if_neg hw, if_neg hw]

/-- Writing to memory that is no table. -/
theorem of_mem (h : m.Trees F) {m' : Machine} (hp : m'.pmm.freeStack = m.pmm.freeStack)
    (hmem : ∀ r q s, m.TableOf F r q s → ∀ j, m'.entry s j = m.entry s j) : m'.Trees F := by
  obtain ⟨pool, q, hst, hwf⟩ := h
  have hmem' : ∀ r q' s, (m.withPmm q).TableOf F r q' s → ∀ j,
      (m'.withPmm q).entry s j = (m.withPmm q).entry s j := hmem
  have hpmm : (m'.withPmm q).pmm = (m.withPmm q).pmm := rfl
  exact ⟨pool, q, hst.trans hp.symm, (hwf.of_mem hpmm hmem').1⟩

/-- A huge page below a page directory that is there takes its slot. -/
theorem vmmMap_huge (h : m.Trees F) {pd phys flags : Word}
    (hpd : m.TableOf F r (VPage.of v).pdPath pd) (hflags : flags &&& pageHuge ≠ 0) :
    vmmMap m r v phys flags =
      m.setEntry pd (VPage.of v).pd ((phys &&& ~~~hugeMask) ||| flags ||| pagePresent) := by
  obtain ⟨pdpt, hpdpt, -⟩ := hpd.tail
  obtain ⟨root, hroot, -⟩ := hpdpt.tail
  obtain rfl : r = root := (hroot.unique ⟨hroot.1, rfl⟩).symm
  have hget : getExistingTable m r (pml4Index v) = pdpt := Machine.Wf.getExistingTable_of_tableOf hroot hpdpt
  have hget' : getExistingTable m pdpt (pdptIndex v) = pd := Machine.Wf.getExistingTable_of_tableOf hpdpt hpd
  have hensure : ∀ {t n : Word} {i : Fin 512}, getExistingTable m t i = n → n ≠ 0 →
      ensureNextTable m t i = (n, m) := by
    intro t n i heq hn
    rw [ensureNextTable, heq, if_pos hn]
  unfold vmmMap
  simp only [hensure hget (h.nonzero hpdpt), hensure hget' (h.nonzero hpd), h.nonzero hpdpt,
    h.nonzero hpd, if_false, if_pos hflags, VPage.pd_of]

/-- What a huge entry in a page directory changes. -/
theorem lookup_setPde (h : m.Trees F) {vp : VPage} {pd e : Word} (hpd : m.TableOf F r vp.pdPath pd)
    (he : Huge e) {r' : Word} {vp' : VPage} (hvp' : F.Path r' [vp'.pml4]) :
    pageLookup (m.setEntry pd vp.pd e) r' vp' =
      if r' = r ∧ vp'.SameHuge vp then
        some ⟨(e &&& ~~~hugeMask) ||| vp'.hugeOffset, e &&& flagMask, true⟩
      else pageLookup m r' vp' := by
  obtain ⟨pool, q, -, hwf⟩ := h
  have hlook : pageLookup ((m.withPmm q).setEntry pd vp.pd e) r' vp' = _ :=
    hwf.pageLookup_setPde hpd (.inl he) hvp'
  rw [if_pos he] at hlook
  exact hlook

/-- Taking a frame. -/
theorem allocFrame (h : m.Trees F) : m.allocFrame.2.Trees F := by
  obtain ⟨pool, q, hst, hwf⟩ := h
  refine ⟨pool, (pmmAllocFrame q).2, ?_, hwf.allocFrame⟩
  show (pmmAllocFrame q).2.freeStack = (pmmAllocFrame m.pmm).2.freeStack
  cases hq : q.freeStack with
  | nil =>
    rw [pmmAllocFrame_nil hq, pmmAllocFrame_nil (hst.symm.trans hq)]
    exact hst
  | cons n rest => rw [pmmAllocFrame_cons hq, pmmAllocFrame_cons (hst.symm.trans hq)]

/-- The frame that is taken, or `NULL`, is no table. -/
theorem taken (h : m.Trees F) :
    Aligned m.allocFrame.1 ∧ ∀ r q, ¬ m.TableOf F r q m.allocFrame.1 := by
  cases hst : m.pmm.freeStack with
  | nil =>
    rw [show m.allocFrame.1 = 0 by rw [Machine.allocFrame, pmmAllocFrame_nil hst]]
    exact ⟨rfl, fun r q ht => h.nonzero ht rfl⟩
  | cons n rest =>
    rw [show m.allocFrame.1 = n by rw [Machine.allocFrame, pmmAllocFrame_cons hst]]
    obtain ⟨hn, -, hfresh⟩ := h.top hst
    exact ⟨hn, hfresh⟩

end Machine.Trees

/-- Translations are in the memory. -/
theorem pageLookup_of_mem {m' : Machine} (h : m'.mem = m.mem) (vp : VPage) :
    pageLookup m' r vp = pageLookup m r vp := by
  have hentry : m'.entry = m.entry := by
    funext t i
    unfold Machine.entry
    rw [h]
  unfold pageLookup
  rw [hentry]

end Page

/-! ## §3. A fault in a 2 MiB page. -/

section Huge

variable {F : PageForest} {m : Machine} {r v pd : Word} {x : Mapping}

/-- The directory entry the handler stores for a page of frame `n`. -/
def ownEntry (n flags : Word) : Word := (n &&& ~~~hugeMask) ||| ownFlags flags ||| pagePresent

/-- The memory with 4 KiB of a page copied into the frame `n`. -/
def copiedMem (mem : Mem) (n : Word) (x : Mapping) : Mem :=
  mem.fill n 4096 fun k => mem (x.phys + BitVec.ofNat 64 k)

/-- The copy goes to no table. -/
theorem Machine.Trees.entry_copied (h : m.Trees F) {m' : Machine}
    (hmem : m'.mem = copiedMem m.mem m.allocFrame.1 x) {r' s : Word} {q : List (Fin 512)}
    (hs : m.TableOf F r' q s) (j : Fin 512) : m'.entry s j = m.entry s j := by
  obtain ⟨hn, hfresh⟩ := h.taken
  refine Machine.entry_congr fun w hw => ?_
  rw [hmem]
  refine Mem.fill_of_le m.mem _ (Nat.le_of_not_lt ?_)
  exact Mem.not_inPage_of_ne (h.aligned hs) hn (fun he => hfresh r' q (he ▸ hs)) hw

/-- What the flags of a 2 MiB page say. -/
theorem flags_of_huge (hx : pageLookup m r (VPage.of v) = some x) (hhuge : x.huge = true)
    (hpd : tableAt pageChild m.entry r (VPage.of v).pdPath = some pd) :
    Huge (m.entry pd (VPage.of v).pd) ∧ x.flags = m.entry pd (VPage.of v).pd &&& flagMask ∧
      x.phys = (m.entry pd (VPage.of v).pd &&& ~~~hugeMask) ||| (VPage.of v).hugeOffset := by
  by_cases hh : Huge (m.entry pd (VPage.of v).pd)
  · rw [pageLookup_of_huge hpd hh] at hx
    rw [← Option.some.inj hx]
    exact ⟨hh, rfl, rfl⟩
  · unfold pageLookup at hx
    simp only [hpd, if_neg hh] at hx
    cases hpt : tableAt pageChild m.entry r (VPage.of v).ptPath with
    | none =>
      simp only [hpt] at hx
      cases hx
    | some pt =>
      simp only [hpt] at hx
      by_cases hp : Present (m.entry pt (VPage.of v).pt)
      · rw [if_pos hp] at hx
        rw [← congrArg Mapping.huge (Option.some.inj hx)] at hhuge
        cases hhuge
      · rw [if_neg hp] at hx
        cases hx

theorem ownFlags_huge {flags : Word} (h : flags &&& pageHuge ≠ 0) : ownFlags flags &&& pageHuge ≠ 0 := by
  unfold ownFlags
  rw [BitVec.and_or_distrib_right, BitVec.and_assoc, show ~~~pageCow &&& pageHuge = pageHuge by decide,
    show pageWritable &&& pageHuge = 0#64 by decide, BitVec.or_zero]
  exact h

theorem lowFlags_ownFlags {flags : Word} (h : LowFlags flags) : LowFlags (ownFlags flags) :=
  Word.or_within (Word.and_within h) (by decide)

/-- **A fault in a page that is counted more than once**: 4 KiB are copied, and
    the directory entry of the whole page leads to the new frame's 2 MiB. -/
theorem handlePageFault_split (h : m.Trees F) (hvp : F.Path r [(VPage.of v).pml4])
    (hx : pageLookup m r (VPage.of v) = some x) (hhuge : x.huge = true)
    (hpd : m.TableOf F r (VPage.of v).pdPath pd) {errorCode : Word} (herr : errorCode &&& 2 ≠ 0)
    (hcow : x.flags &&& pageCow ≠ 0) (hcount : 1 < pmmGetRef m.pmm x.phys) :
    ∃ m', handlePageFault m r v errorCode = some m' ∧
      m'.mem = (copiedMem m.mem m.allocFrame.1 x).store64 (slotAddr pd (VPage.of v).pd)
        (ownEntry m.allocFrame.1 x.flags) := by
  obtain ⟨hh, hflags, -⟩ := flags_of_huge hx hhuge hpd.2
  have hpage : x.flags &&& pageHuge ≠ 0 := by
    rw [hflags]
    exact huge_and_flagMask.mpr hh
  have hcopy := h.allocFrame.copyPage_eq hvp (show pageLookup m.allocFrame.2 r _ = some x from hx)
    m.allocFrame.1
  have hcopied : (m.allocFrame.2.copyPage r m.allocFrame.1 (v &&& ~~~flagMask)).mem
      = copiedMem m.mem m.allocFrame.1 x := by
    rw [hcopy]
    rfl
  have hsame : ∀ r' q s, m.TableOf F r' q s → ∀ j,
      (m.allocFrame.2.copyPage r m.allocFrame.1 (v &&& ~~~flagMask)).entry s j = m.entry s j :=
    fun r' q s hs j => h.entry_copied hcopied hs j
  have htrees : (m.allocFrame.2.copyPage r m.allocFrame.1 (v &&& ~~~flagMask)).Trees F :=
    h.allocFrame.of_mem rfl hsame
  have hpd' : (m.allocFrame.2.copyPage r m.allocFrame.1 (v &&& ~~~flagMask)).TableOf F r
      (VPage.of (v &&& ~~~flagMask)).pdPath pd := by
    rw [VPage.of_page]
    exact (Forest.tableOf_congr hsame).mpr hpd
  have hmap : vmmMap (m.allocFrame.2.copyPage r m.allocFrame.1 (v &&& ~~~flagMask)) r
      (v &&& ~~~flagMask) m.allocFrame.1 (ownFlags x.flags) = _ :=
    htrees.vmmMap_huge hpd' (ownFlags_huge hpage)
  have hrun : handlePageFault m r v errorCode =
      some ((vmmMap (m.allocFrame.2.copyPage r m.allocFrame.1 (v &&& ~~~flagMask)) r
        (v &&& ~~~flagMask) m.allocFrame.1 (ownFlags x.flags)).freeFrame x.phys) := by
    unfold handlePageFault
    dsimp only
    rw [h.vmmGetFlags_of_lookup hvp hx, h.oldPhys hvp hx, if_pos ⟨herr, hcow⟩, if_pos hcount]
  refine ⟨_, hrun, ?_⟩
  rw [hmap, VPage.of_page]
  show Mem.store64 (Machine.mem (Machine.copyPage _ _ _ _)) _ _ = _
  rw [hcopied]
  rfl

/-- **A fault in a page that is counted once** makes that page writable. -/
theorem handlePageFault_keep (h : m.Trees F) (hvp : F.Path r [(VPage.of v).pml4])
    (hx : pageLookup m r (VPage.of v) = some x) (hhuge : x.huge = true)
    (hpd : m.TableOf F r (VPage.of v).pdPath pd) {errorCode : Word} (herr : errorCode &&& 2 ≠ 0)
    (hcow : x.flags &&& pageCow ≠ 0) (hcount : ¬ 1 < pmmGetRef m.pmm x.phys) :
    ∃ m', handlePageFault m r v errorCode = some m' ∧
      m'.mem = m.mem.store64 (slotAddr pd (VPage.of v).pd) (ownEntry x.phys x.flags) := by
  obtain ⟨hh, hflags, -⟩ := flags_of_huge hx hhuge hpd.2
  have hpage : x.flags &&& pageHuge ≠ 0 := by
    rw [hflags]
    exact huge_and_flagMask.mpr hh
  have hpd' : m.TableOf F r (VPage.of (v &&& ~~~flagMask)).pdPath pd := by
    rw [VPage.of_page]
    exact hpd
  have hrun : handlePageFault m r v errorCode =
      some (vmmMap m r (v &&& ~~~flagMask) x.phys (ownFlags x.flags)) := by
    unfold handlePageFault
    dsimp only
    rw [h.vmmGetFlags_of_lookup hvp hx, h.oldPhys hvp hx, if_pos ⟨herr, hcow⟩, if_neg hcount]
  refine ⟨_, hrun, ?_⟩
  rw [h.vmmMap_huge hpd' (ownFlags_huge hpage), VPage.of_page]
  rfl

end Huge

end ZohoOs
