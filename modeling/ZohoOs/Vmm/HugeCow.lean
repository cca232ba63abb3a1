/-
  ZohoOs.Vmm.HugeCow — copy-on-write of 2 MiB pages.

  `vmm_clone_address_space` shares a 2 MiB page as a whole: one directory
  entry, one count, on the page's first frame.  `handle_page_fault` then works
  on 4 KiB: it reads the count of the frame at the faulting address, copies
  4 KiB and stores a directory entry for 2 MiB.

  With a count of one at that frame the shared page itself becomes writable.
  With more, the page is moved to the 2 MiB block around the new frame, of
  which 4 KiB were copied; it reads as before only if that block held the
  page's bytes already, and the writes reach whatever else lies in the block.

  Main results:
    * `cow_huge_iff` — exactly when a fault is resolved as it should be;
    * `clone_sharesHuge` — cloning a space leads there;
    * `huge_fault_shares` — a fault in the second 4 KiB of a page.
-/
import ZohoOs.Vmm.Fault
import ZohoOs.Vmm.Reserved

namespace ZohoOs

open ZohoOs.Lib
open ZohoOs.Lib.Mem (Aligned InPage slotAddr)
open ZohoOs.Lib.Radix

/-! ## §1. 2 MiB blocks. -/

/-- The 2 MiB block an address lies in. -/
def blockOf (w : Word) : Word := w &&& ~~~hugeMask

/-- The place of the page `vp` in the block of `n`. -/
def blockPage (n : Word) (vp : VPage) : Word := blockOf n ||| vp.hugeOffset

section Block

variable {n t v w : Word} {vp : VPage}

theorem toNat_blockOf (w : Word) : (blockOf w).toNat = w.toNat / 2 ^ 21 * 2 ^ 21 :=
  Word.toNat_and_not_lowMask w (k := 21) (by decide)

theorem blockOf_eq_iff : blockOf v = blockOf w ↔ v.toNat / 2 ^ 21 = w.toNat / 2 ^ 21 := by
  rw [← BitVec.toNat_inj, toNat_blockOf, toNat_blockOf]
  omega

/-- A page-aligned page lies in one block. -/
theorem blockOf_of_inPage (ht : Aligned t) (hw : InPage t w) : blockOf w = blockOf t := by
  have hlt := t.isLt
  have hlt' := w.isLt
  unfold Aligned at ht
  unfold InPage at hw
  rw [BitVec.toNat_sub] at hw
  rw [blockOf_eq_iff]
  omega

theorem toNat_blockPage (n : Word) (vp : VPage) :
    (blockPage n vp).toNat = n.toNat / 2 ^ 21 * 2 ^ 21 + vp.pt.val * 4096 := by
  have hpt := vp.pt.isLt
  have hoff := VPage.toNat_hugeOffset vp
  have habove : blockOf n &&& ~~~Word.lowMask 21 = blockOf n := Word.and_not_and_not
  rw [blockPage, Word.toNat_or_low (k := 21) (by decide) habove (by omega), toNat_blockOf, hoff]

theorem aligned_blockPage (n : Word) (vp : VPage) : Aligned (blockPage n vp) := by
  rw [Aligned, toNat_blockPage]
  omega

theorem blockOf_blockPage (n : Word) (vp : VPage) : blockOf (blockPage n vp) = blockOf n := by
  have hpt := vp.pt.isLt
  rw [blockOf_eq_iff, toNat_blockPage]
  omega

/-- The offsets of a block, page by page. -/
theorem blockPage_add (n : Word) (vp : VPage) (k : Nat) :
    blockPage n vp + BitVec.ofNat 64 k = blockOf n + BitVec.ofNat 64 (vp.pt.val * 4096 + k) := by
  have hpt := vp.pt.isLt
  apply BitVec.eq_of_toNat_eq
  rw [BitVec.toNat_add, BitVec.toNat_add, toNat_blockPage, toNat_blockOf, BitVec.toNat_ofNat,
    BitVec.toNat_ofNat]
  omega

/-- Every address of a block lies in one of its pages. -/
theorem exists_blockPage (vp : VPage) (h : blockOf w = blockOf n) :
    ∃ vp', vp'.SameHuge vp ∧ InPage (blockPage n vp') w := by
  have hlt := w.isLt
  have hblock := blockOf_eq_iff.mp h
  refine ⟨⟨vp.pml4, vp.pdpt, vp.pd, ⟨w.toNat / 4096 % 512, Nat.mod_lt _ (by decide)⟩⟩, rfl, ?_⟩
  rw [InPage, BitVec.toNat_sub, toNat_blockPage]
  dsimp only
  omega

theorem inPage_add (t : Word) {k : Nat} (hk : k < 4096) : InPage t (t + BitVec.ofNat 64 k) := by
  rw [InPage, BitVec.add_comm, BitVec.add_sub_cancel, BitVec.toNat_ofNat]
  omega

end Block

/-! ## §2. What a fault should do. -/

/-- Two spaces share the 2 MiB page of `v` copy-on-write. -/
structure SharesHuge (F : PageForest) (a b v : Word) (m : Machine) (x : Mapping) : Prop where
  trees : m.Trees F
  ne : a ≠ b
  pathA : F.Path a [(VPage.of v).pml4]
  pathB : F.Path b [(VPage.of v).pml4]
  lookupA : pageLookup m a (VPage.of v) = some x
  lookupB : pageLookup m b (VPage.of v) = some x
  huge : x.huge = true
  cow : x.flags &&& pageCow ≠ 0

/-- The byte at `w` belongs to the 2 MiB page of `v`. -/
def Backs (m : Machine) (r v w : Word) : Prop :=
  ∃ vp y, vp.SameHuge (VPage.of v) ∧ pageLookup m r vp = some y ∧ InPage y.phys w

/-- **The fault is resolved**: `a` sees the old contents of the whole page and
    may write them, and whatever is then written through that page, `b` keeps
    all its translations and contents. -/
structure CowResolved (F : PageForest) (a b v : Word) (m m' : Machine) : Prop where
  sees : ∀ vp, vp.SameHuge (VPage.of v) → ∃ x y, pageLookup m a vp = some x ∧
    pageLookup m' a vp = some y ∧ Present y.flags ∧ y.flags &&& pageWritable ≠ 0 ∧
    ∀ k < 4096, m'.mem (y.phys + BitVec.ofNat 64 k) = m.mem (x.phys + BitVec.ofNat 64 k)
  apart : ∀ mem', (∀ w, ¬ Backs m' a v w → mem' w = m'.mem w) →
    ∀ vp y, F.Path b [vp.pml4] → pageLookup m b vp = some y →
      pageLookup { m' with mem := mem' } b vp = some y ∧
        ∀ k < 4096, mem' (y.phys + BitVec.ofNat 64 k) = m.mem (y.phys + BitVec.ofNat 64 k)

/-- **The new frame's block can stand in for the page**: `n` is the frame that
    is free next, `pd` the page directory of `a`. -/
structure BlockReady (F : PageForest) (b v : Word) (m : Machine) (x : Mapping) (pd n : Word) :
    Prop where
  /-- More than one owner is counted at the faulting 4 KiB. -/
  counted : 1 < pmmGetRef m.pmm x.phys
  /-- No table of `b` lies in the block. -/
  tables : ∀ vp y, F.Path b [vp.pml4] → pageLookup m b vp = some y → ∀ q t, q <:+ vp.ptPath →
    tableAt pageChild m.entry b q = some t → blockOf t ≠ blockOf n
  /-- No page of `b` lies in the block, and none is the page directory. -/
  pages : ∀ vp y, F.Path b [vp.pml4] → pageLookup m b vp = some y →
    blockOf y.phys ≠ blockOf n ∧ y.phys ≠ pd
  /-- With the 4 KiB and the directory entry stored, the block holds the page. -/
  contents : ∀ o < 2 ^ 21, ((copiedMem m.mem n x).store64 (slotAddr pd (VPage.of v).pd)
    (ownEntry n x.flags)) (blockOf n + BitVec.ofNat 64 o) = m.mem (blockOf x.phys + BitVec.ofNat 64 o)

/-! ## §3. The machine after a fault. -/

/-- What both branches of the handler leave: `a` has the block of `n`, and `b`
    the tables it had. -/
structure Replaced (F : PageForest) (a b v : Word) (m : Machine) (x : Mapping) (n : Word)
    (m' : Machine) : Prop where
  own : ∀ vp, vp.SameHuge (VPage.of v) →
    pageLookup m' a vp = some ⟨blockPage n vp, ownFlags x.flags ||| pagePresent, true⟩
  other : ∀ vp, F.Path b [vp.pml4] → pageLookup m' b vp = pageLookup m b vp
  trees : (m'.withPmm m.pmm).Trees F
  tables : ∀ q t, m.TableOf F b q t → m'.TableOf F b q t
  kept : ∀ q t, m.TableOf F b q t → ∀ j, m'.entry t j = m.entry t j

section After

variable {F : PageForest} {a b v n w pd : Word} {m m' : Machine} {x : Mapping}

/-- Storing the directory entry. -/
theorem SharesHuge.replaced (h : SharesHuge F a b v m x)
    (hpd : m.TableOf F a (VPage.of v).pdPath pd) {mem : Mem}
    (hsame : ∀ r q s, m.TableOf F r q s → ∀ j, ({ m with mem := mem } : Machine).entry s j = m.entry s j)
    (hmem : m'.mem = mem.store64 (slotAddr pd (VPage.of v).pd) (ownEntry n x.flags)) :
    Replaced F a b v m x n m' := by
  obtain ⟨hh, hflags, -⟩ := flags_of_huge h.lookupA h.huge hpd.2
  have hlow : LowFlags (ownFlags x.flags) := lowFlags_ownFlags (by
    rw [hflags]
    exact Word.and_mask_and_not)
  have hpage : ownFlags x.flags &&& pageHuge ≠ 0 := ownFlags_huge (by
    rw [hflags]
    exact huge_and_flagMask.mpr hh)
  have hentry : Huge (ownEntry n x.flags) := huge_pde hpage
  set mc : Machine := { m with mem := mem } with hmc
  have hiff : ∀ r q s, mc.TableOf F r q s ↔ m.TableOf F r q s := fun r q s =>
    Forest.tableOf_congr hsame
  have htrees : mc.Trees F := h.trees.of_mem rfl hsame
  have hpd' : mc.TableOf F a (VPage.of v).pdPath pd := (hiff _ _ _).mpr hpd
  have hlook : ∀ (r : Word) (vp : VPage), F.Path r [vp.pml4] →
      pageLookup m' r vp =
        if r = a ∧ vp.SameHuge (VPage.of v) then
          some ⟨blockPage n vp, ownFlags x.flags ||| pagePresent, true⟩
        else pageLookup m r vp := by
    intro r vp hvp
    have hsteps : pageLookup (mc.setEntry pd (VPage.of v).pd (ownEntry n x.flags)) r vp = _ :=
      htrees.lookup_setPde hpd' hentry hvp
    rw [pageLookup_of_mem (m := mc.setEntry pd (VPage.of v).pd (ownEntry n x.flags)) hmem, hsteps,
      Machine.Wf.pageLookup_of_tables hvp (hsame r)]
    unfold ownEntry
    rw [pde_addr hlow, pde_flags hlow]
    rfl
  -- the tables are those there were
  have hold : pageChild (VPage.of v).pdPath.length (mc.entry pd (VPage.of v).pd) = none := by
    rw [hsame _ _ _ hpd]
    exact pageChild_of_huge hh
  have hnew : pageChild (VPage.of v).pdPath.length (ownEntry n x.flags) = none :=
    pageChild_of_huge hentry
  have hset : (mc.setEntry pd (VPage.of v).pd (ownEntry n x.flags)).Trees F :=
    htrees.setLeaf hpd' hnew (.inl (present_pde _ _))
  have hentries : ∀ s j, m'.entry s j
      = (mc.setEntry pd (VPage.of v).pd (ownEntry n x.flags)).entry s j := fun s j =>
    entry_of_mem hmem
  refine ⟨fun vp hvp => ?_, fun vp hvp => ?_, ?_, fun q t ht => ?_, fun q t ht j => ?_⟩
  · have hpath : F.Path a [vp.pml4] := by
      have hslot : vp.pml4 = (VPage.of v).pml4 := congrArg (fun l => l.getLastD 0) hvp
      rw [hslot]
      exact h.pathA
    rw [hlook a vp hpath, if_pos ⟨rfl, hvp⟩]
  · rw [hlook b vp hvp, if_neg fun hc => h.ne hc.1.symm]
  · exact hset.of_mem rfl fun _ _ s _ j => hentries s j
  · refine (Forest.tableOf_congr fun _ _ s _ j => hentries s j).mpr ?_
    exact (htrees.tableOf_setLeaf hpd' hold hnew).mpr ((hiff _ _ _).mpr ht)
  · rw [hentries, htrees.entry_setEntry_of hpd' ((hiff _ _ _).mpr ht), if_neg fun hc => h.ne hc.1.symm,
      hsame b q t ht]

namespace Replaced

/-- What `a` can then write is the block of `n`. -/
theorem backs_iff (h : Replaced F a b v m x n m') : Backs m' a v w ↔ blockOf w = blockOf n := by
  constructor
  · intro hw
    obtain ⟨vp, y, hvp, hy, hin⟩ := hw
    rw [h.own vp hvp] at hy
    rw [← congrArg Mapping.phys (Option.some.inj hy)] at hin
    rw [blockOf_of_inPage (aligned_blockPage n vp) hin, blockOf_blockPage]
  · intro hw
    obtain ⟨vp, hvp, hin⟩ := exists_blockPage (VPage.of v) hw
    exact ⟨vp, _, hvp, h.own vp hvp, hin⟩

end Replaced

/-- An empty slot on the way to a page: it is not mapped. -/
theorem lookup_none_of_zero {r t : Word} {vp : VPage} {q : List (Fin 512)} {i : Fin 512}
    (hq : i :: q <:+ vp.path) (ht : tableAt pageChild m.entry r q = some t)
    (hz : m.entry t i = 0) : pageLookup m r vp = none := by
  have hnone : tableAt pageChild m.entry r (i :: q) = none := by
    rw [tableAt_cons ht, hz, pageChild_zero]
  rcases List.suffix_cons_iff.mp hq with heq | hq
  · obtain ⟨rfl, rfl⟩ := List.cons.inj heq
    rw [pageLookup_of_pt ht, hz, if_neg not_present_zero]
  · rcases List.suffix_cons_iff.mp hq with heq | hq
    · obtain ⟨rfl, rfl⟩ := List.cons.inj heq
      refine pageLookup_eq_none hnone fun pd hpd => ?_
      rw [show pd = t from Option.some.inj (hpd.symm.trans ht), hz]
      exact not_huge_zero
    · exact Cloning.lookup_no_pd (tableAt_none_of_suffix hnone hq)

/-- Clearing a slot cuts its path. -/
theorem Machine.Trees.tableAt_clear (h : m.Trees F) {r t : Word} {q : List (Fin 512)} {i : Fin 512}
    (ht : m.TableOf F r q t) :
    tableAt pageChild (m.setEntry t i 0).entry r q = some t ∧ (m.setEntry t i 0).entry t i = 0 := by
  have hroot : ∀ r' ∈ F.roots, Aligned r' := fun r' hr' =>
    h.aligned (p := []) ⟨Forest.Path.root hr', rfl⟩
  have hal := h.aligned ht
  constructor
  · refine ((Machine.Wf.tableOf_setEntry hroot hal).mpr ⟨ht.1, ?_⟩).2
    rw [tableAt_write_other h.sep ht ht.1, ht.2]
    rintro ⟨-, hsuf⟩
    have hlen := hsuf.length_le
    rw [List.length_cons] at hlen
    omega
  · rw [Machine.entry_setEntry hal hal, write_self]

namespace CowResolved

/-- No byte of `b` can be written through `a`'s page. -/
theorem not_backs (h : CowResolved F a b v m m') {vp : VPage} {y : Mapping}
    (hvp : F.Path b [vp.pml4]) (hy : pageLookup m b vp = some y) {k : Nat} (hk : k < 4096) :
    ¬ Backs m' a v (y.phys + BitVec.ofNat 64 k) := by
  intro hbacks
  set w := y.phys + BitVec.ofNat 64 k with hw
  -- the byte as it is, and changed
  obtain ⟨-, hkept⟩ := h.apart m'.mem (fun _ _ => rfl) vp y hvp hy
  obtain ⟨-, hchanged⟩ := h.apart (Function.update m'.mem w (m'.mem w + 1))
    (fun u hu => Function.update_of_ne (show u ≠ w from fun he => hu (by rw [he]; exact hbacks)) _ _)
    vp y hvp hy
  have hk₁ := hkept k hk
  have hk₂ := hchanged k hk
  rw [← hw] at hk₁ hk₂
  rw [Function.update_self, ← hk₁] at hk₂
  generalize m'.mem w = c at hk₂
  revert hk₂
  decide +revert

/-- No page of `b` lies in the block. -/
theorem page_apart (h : CowResolved F a b v m m') (hr : Replaced F a b v m x n m') {vp : VPage}
    {y : Mapping} (hvp : F.Path b [vp.pml4]) (hy : pageLookup m b vp = some y) :
    blockOf y.phys ≠ blockOf n := by
  intro hblock
  refine h.not_backs hvp hy (k := 0) (by decide) (hr.backs_iff.mpr ?_)
  rw [BitVec.add_zero]
  exact hblock

/-- No table on the way to a page of `b` lies in the block. -/
theorem table_apart (h : CowResolved F a b v m m') (hr : Replaced F a b v m x n m') {vp : VPage}
    {y : Mapping} (hvp : F.Path b [vp.pml4]) (hy : pageLookup m b vp = some y)
    {q : List (Fin 512)} {t : Word} (hq : q <:+ vp.ptPath)
    (ht : tableAt pageChild m.entry b q = some t) : blockOf t ≠ blockOf n := by
  intro hblock
  have hpath : F.Path b q := (Machine.Wf.path_pt hvp).of_suffix hq
  have ht' : (m'.withPmm m.pmm).TableOf F b q t := hr.tables q t ⟨hpath, ht⟩
  have hal := hr.trees.aligned ht'
  -- the slot of the table that leads on
  obtain ⟨i, hi⟩ : ∃ i, i :: q <:+ vp.path := by
    obtain ⟨front, hfront⟩ := hq
    obtain ⟨front', i, hlast⟩ : ∃ front' i, vp.pt :: front = front' ++ [i] :=
      List.eq_nil_or_concat' (vp.pt :: front) |>.resolve_left (List.cons_ne_nil _ _)
    refine ⟨i, front', ?_⟩
    rw [VPage.path, ← hfront, ← List.cons_append, hlast, List.append_assoc, List.singleton_append]
  obtain ⟨hcut, hzero⟩ := hr.trees.tableAt_clear (i := i) ht'
  obtain ⟨hsome, -⟩ := h.apart ((m'.withPmm m.pmm).setEntry t i 0).mem (fun w hw => by
    refine Machine.mem_setEntry_of_not_inPage fun hin => hw (hr.backs_iff.mpr ?_)
    rw [blockOf_of_inPage hal hin]
    exact hblock) vp y hvp hy
  have hgone := lookup_none_of_zero hi hcut hzero
  have hcontra := hgone.symm.trans hsome
  cases hcontra

/-- No page of `b` holds the directory entry that changed. -/
theorem page_ne_directory (h : CowResolved F a b v m m') {vp : VPage} {y : Mapping}
    (hvp : F.Path b [vp.pml4]) (hy : pageLookup m b vp = some y)
    (hchanged : m'.entry pd (VPage.of v).pd ≠ m.entry pd (VPage.of v).pd) : y.phys ≠ pd := by
  intro heq
  obtain ⟨-, hsame⟩ := h.apart m'.mem (fun _ _ => rfl) vp y hvp hy
  refine hchanged (Machine.entry_congr fun w hw => ?_)
  have hk := hsame (w - pd).toNat hw
  rw [heq, BitVec.ofNat_toNat, BitVec.setWidth_eq, BitVec.add_comm, BitVec.sub_add_cancel] at hk
  exact hk

end CowResolved

/-! ## §4. Exactly when a fault is resolved. -/

namespace SharesHuge

/-- The whole page, before the fault. -/
theorem lookup_region (h : SharesHuge F a b v m x) (hpd : m.TableOf F a (VPage.of v).pdPath pd)
    {vp : VPage} (hvp : vp.SameHuge (VPage.of v)) :
    pageLookup m a vp = some ⟨blockPage x.phys vp, x.flags, true⟩ := by
  obtain ⟨hh, hflags, hphys⟩ := flags_of_huge h.lookupA h.huge hpd.2
  obtain ⟨hpath, hslot⟩ := VPage.sameHuge_iff.mp hvp
  have hblock : blockOf x.phys = m.entry pd (VPage.of v).pd &&& ~~~hugeMask := by
    rw [hphys]
    exact blockOf_blockPage _ _
  rw [pageLookup_of_huge (by rw [hpath]; exact hpd.2) (by rw [hslot]; exact hh), hslot, blockPage,
    hblock, hflags]

/-- The entry that the handler stores is another one. -/
theorem ownEntry_ne (h : SharesHuge F a b v m x) (hpd : m.TableOf F a (VPage.of v).pdPath pd)
    (n : Word) : ownEntry n x.flags ≠ m.entry pd (VPage.of v).pd := by
  intro heq
  obtain ⟨-, hflags, -⟩ := flags_of_huge h.lookupA h.huge hpd.2
  have hlow : LowFlags (ownFlags x.flags) := lowFlags_ownFlags (by
    rw [hflags]
    exact Word.and_mask_and_not)
  have hpde : ownEntry n x.flags &&& flagMask = ownFlags x.flags ||| pagePresent := pde_flags hlow
  rw [heq, ← hflags] at hpde
  refine h.cow ?_
  rw [hpde]
  unfold ownFlags
  rw [BitVec.and_or_distrib_right, BitVec.and_or_distrib_right, BitVec.and_assoc]
  have h₁ : ~~~pageCow &&& pageCow = 0 := by decide
  have h₂ : pageWritable &&& pageCow = 0 := by decide
  have h₃ : pagePresent &&& pageCow = 0 := by decide
  rw [h₁, h₂, h₃]
  simp

/-- **With one owner counted** the shared page becomes writable, and no fault
    is resolved. -/
theorem not_resolved (h : SharesHuge F a b v m x) (hr : Replaced F a b v m x x.phys m') :
    ¬ CowResolved F a b v m m' := fun hres => hres.page_apart hr h.pathB h.lookupB rfl

/-- **A resolved fault** needs the block of the new frame. -/
theorem blockReady (h : SharesHuge F a b v m x) (hpd : m.TableOf F a (VPage.of v).pdPath pd)
    (hcount : 1 < pmmGetRef m.pmm x.phys) (hr : Replaced F a b v m x n m')
    (hmem : m'.mem = (copiedMem m.mem n x).store64 (slotAddr pd (VPage.of v).pd) (ownEntry n x.flags))
    (hres : CowResolved F a b v m m') : BlockReady F b v m x pd n := by
  have hentry : m'.entry pd (VPage.of v).pd = ownEntry n x.flags := by
    unfold Machine.entry
    rw [hmem]
    exact Mem.load64_store64_same _ _ _
  refine ⟨hcount, fun vp y hvp hy q t hq ht => hres.table_apart hr hvp hy hq ht,
    fun vp y hvp hy => ⟨hres.page_apart hr hvp hy, hres.page_ne_directory hvp hy ?_⟩, fun o ho => ?_⟩
  · rw [hentry]
    exact h.ownEntry_ne hpd n
  · -- the page the offset lies in
    set vp : VPage := ⟨(VPage.of v).pml4, (VPage.of v).pdpt, (VPage.of v).pd,
      ⟨o / 4096, by omega⟩⟩ with hvpdef
    have hvp : vp.SameHuge (VPage.of v) := rfl
    have hk : o % 4096 < 4096 := Nat.mod_lt _ (by decide)
    have hoff : vp.pt.val * 4096 + o % 4096 = o := by
      show o / 4096 * 4096 + o % 4096 = o
      omega
    obtain ⟨x₁, y, hx₁, hy, -, -, hbytes⟩ := hres.sees vp hvp
    rw [h.lookup_region hpd hvp] at hx₁
    rw [hr.own vp hvp] at hy
    have hbyte := hbytes (o % 4096) hk
    rw [← congrArg Mapping.phys (Option.some.inj hx₁), ← congrArg Mapping.phys (Option.some.inj hy)]
      at hbyte
    dsimp only at hbyte
    rw [blockPage_add n vp (o % 4096), blockPage_add x.phys vp (o % 4096), hoff, hmem] at hbyte
    exact hbyte

/-- **The block of the new frame is enough** when it is ready. -/
theorem resolved (h : SharesHuge F a b v m x) (hpd : m.TableOf F a (VPage.of v).pdPath pd)
    (hn : Aligned n) (hr : Replaced F a b v m x n m')
    (hmem : m'.mem = (copiedMem m.mem n x).store64 (slotAddr pd (VPage.of v).pd) (ownEntry n x.flags))
    (hready : BlockReady F b v m x pd n) : CowResolved F a b v m m' := by
  refine ⟨fun vp hvp => ?_, fun mem' hmem' vp y hvp hy => ?_⟩
  · refine ⟨_, _, h.lookup_region hpd hvp, hr.own vp hvp, present_or (by decide), ?_, fun k hk => ?_⟩
    · show (ownFlags x.flags ||| pagePresent) &&& pageWritable ≠ 0
      unfold ownFlags
      rw [BitVec.or_assoc, BitVec.and_or_distrib_right]
      intro hz
      exact absurd (BitVec.or_eq_zero_iff.mp hz).2 (by decide)
    · have hpt := vp.pt.isLt
      have hbyte := hready.contents (vp.pt.val * 4096 + k) (by omega)
      dsimp only
      rw [blockPage_add n vp k, blockPage_add x.phys vp k, hmem]
      exact hbyte
  · -- only the block of `n` is written from here on
    have hkeep : ∀ w, blockOf w ≠ blockOf n → mem' w = m'.mem w := fun w hw =>
      hmem' w fun hbacks => hw (hr.backs_iff.mp hbacks)
    obtain ⟨hblock, hdir⟩ := hready.pages vp y hvp hy
    have hal := aligned_of_lookup hy
    constructor
    · -- the tables on the way are neither in the block nor changed by the handler
      have htables : ∀ q t, q <:+ vp.ptPath → tableAt pageChild m.entry b q = some t → ∀ j,
          ({ m' with mem := mem' } : Machine).entry t j = m.entry t j := by
        intro q t hq ht j
        have htable : m.TableOf F b q t := ⟨(Machine.Wf.path_pt hvp).of_suffix hq, ht⟩
        rw [← hr.kept q t htable j]
        refine Machine.entry_congr fun w hw => hkeep w ?_
        rw [blockOf_of_inPage (h.trees.aligned htable) hw]
        exact hready.tables vp y hvp hy q t hq ht
      have hpd : vp.pdPath <:+ vp.ptPath := List.suffix_cons vp.pd vp.pdPath
      rw [← hy]
      exact pageLookup_congr (tableAt_congr_suffix htables hpd)
        (fun pd' hpd' => htables _ pd' hpd hpd' _) (tableAt_congr_suffix htables List.suffix_rfl)
        (fun pt hpt => htables _ pt List.suffix_rfl hpt _)
    · intro k hk
      have hin := inPage_add y.phys hk
      set w := y.phys + BitVec.ofNat 64 k
      have hw : blockOf w ≠ blockOf n := by
        rw [blockOf_of_inPage hal hin]
        exact hblock
      rw [hkeep w hw, hmem, Mem.store64_slot_of_not_inPage _ _
        (Mem.not_inPage_of_ne hal (h.trees.aligned hpd) hdir hin)]
      refine Mem.fill_of_le m.mem _ (Nat.le_of_not_lt fun hlt => hw ?_)
      exact blockOf_of_inPage hn hlt

end SharesHuge

/-- With one owner counted the handler returns, and has not resolved the
    fault. -/
theorem SharesHuge.kept (h : SharesHuge F a b v m x) (hpd : m.TableOf F a (VPage.of v).pdPath pd)
    {errorCode : Word} (herr : errorCode &&& 2 ≠ 0) (hcount : ¬ 1 < pmmGetRef m.pmm x.phys) :
    ∃ m', handlePageFault m a v errorCode = some m' ∧ ¬ CowResolved F a b v m m' := by
  obtain ⟨m', hrun, hmem⟩ :=
    handlePageFault_keep h.trees h.pathA h.lookupA h.huge hpd herr h.cow hcount
  exact ⟨m', hrun, h.not_resolved (h.replaced hpd (fun _ _ _ _ _ => rfl) hmem)⟩

/-- A shared page has a page directory. -/
theorem SharesHuge.directory (h : SharesHuge F a b v m x) :
    ∃ pd, m.TableOf F a (VPage.of v).pdPath pd := by
  cases hpd : tableAt pageChild m.entry a (VPage.of v).pdPath with
  | none => exact nomatch (Cloning.lookup_no_pd hpd).symm.trans h.lookupA
  | some pd => exact ⟨pd, Machine.Wf.path_pd h.pathA, hpd⟩

/-- **A write fault in a shared 2 MiB page** is resolved exactly when the block
    around the next free frame is ready for the page. -/
theorem cow_huge_iff (h : SharesHuge F a b v m x) {errorCode : Word} (herr : errorCode &&& 2 ≠ 0) :
    ∃ pd m', m.TableOf F a (VPage.of v).pdPath pd ∧
      handlePageFault m a v errorCode = some m' ∧
      (CowResolved F a b v m m' ↔ BlockReady F b v m x pd m.allocFrame.1) := by
  obtain ⟨pd, hpd⟩ := h.directory
  obtain ⟨hn, -⟩ := h.trees.taken
  by_cases hcount : 1 < pmmGetRef m.pmm x.phys
  · obtain ⟨m', hrun, hmem⟩ :=
      handlePageFault_split h.trees h.pathA h.lookupA h.huge hpd herr h.cow hcount
    have hsame : ∀ r q s, m.TableOf F r q s → ∀ j,
        ({ m with mem := copiedMem m.mem m.allocFrame.1 x } : Machine).entry s j = m.entry s j :=
      fun r q s hs j => h.trees.entry_copied rfl hs j
    have hr := h.replaced hpd hsame hmem
    exact ⟨pd, m', hpd, hrun, h.blockReady hpd hcount hr hmem, h.resolved hpd hn hr hmem⟩
  · obtain ⟨m', hrun, hnot⟩ := h.kept hpd herr hcount
    exact ⟨pd, m', hpd, hrun, fun hres => absurd hres hnot,
      fun hready => absurd hready.counted hcount⟩

end After

/-! ## §5. Cloned spaces. -/

/-- **A clone shares** every 2 MiB page that the source could write. -/
theorem clone_sharesHuge {F : PageForest} {m : Machine} {src n v : Word} {rest : List Word}
    {x : Mapping} (h : m.Trees F) (hsrc : src ∈ F.roots) (hslots : userSlots ⊆ F.slots src)
    (hcur : m.currentPml4 ∈ F.roots) (hst : m.pmm.freeStack = n :: rest)
    (hsuff : FramesSuffice m src) (hslot : (VPage.of v).pml4 ≠ 0)
    (hx : pageLookup m src (VPage.of v) = some x) (hhuge : x.huge = true)
    (hw : x.flags &&& pageWritable ≠ 0) :
    ∃ m', vmmCloneAddressSpace m src = (n, m') ∧ CompleteClone m src m' n ∧
      SharesHuge (F.addRoot n userSlots) src n v m' x.share := by
  obtain ⟨hret, -, ⟨-, hclone, htrees, -⟩ | ⟨hbad, -⟩⟩ := cloneRun_cases h hsrc hslots hcur hst
  swap
  · exact absurd hsuff hbad
  have hne : src ≠ n := (cloning_start h hsrc hst 0).1
  have hrun := vmmCloneAddressSpace_run m src
  rw [hret] at hrun
  refine ⟨_, hrun, hclone, htrees, hne, ?_, ?_, ?_, ?_, hhuge, ?_⟩
  · exact (addRoot_path_of_ne hne).mpr ((Forest.Path.root hsrc).cons fun _ => hslots hslot)
  · refine (Forest.Path.root (Set.mem_insert _ _)).cons fun _ => ?_
    rw [show (F.addRoot n userSlots).slots n = userSlots from Function.update_self _ _ _]
    exact hslot
  · rw [hclone.source _ hslot, hx]
    rfl
  · rw [hclone.clone _ hslot, hx]
    rfl
  · show shareFlags x.flags &&& pageCow ≠ 0
    rw [shareFlags, if_pos hw, BitVec.and_or_distrib_right]
    intro hz
    exact absurd (BitVec.or_eq_zero_iff.mp hz).2 (by decide)

/-- Where a space has 2 MiB pages only, their first frames are what it maps. -/
theorem pagesBelow_huge {m : Machine} {root : Word}
    (hall : ∀ vp : VPage, vp.pml4 ≠ 0 → ∀ x, pageLookup m root vp = some x → x.huge = true) :
    ∀ w ∈ pagesBelow m root 4 [], frameOf w % 512 = 0 := by
  intro w hw
  unfold pagesBelow at hw
  obtain ⟨q, hq, hleaf⟩ := List.mem_filterMap.mp hw
  obtain ⟨i, hi, hsuf⟩ := mem_below hq
  cases q with
  | nil => cases hleaf
  | cons j p =>
    cases ht : tableAt pageChild m.entry root p with
    | none =>
      rw [leafAt, ht] at hleaf
      cases hleaf
    | some t =>
      rw [leafAt_cons ht] at hleaf
      unfold pageLeaf at hleaf
      by_cases hsmall : Present (m.entry t j) ∧ p.length = 3
      · -- a page table would map a small page
        obtain ⟨hp, hlen⟩ := hsmall
        obtain ⟨k, l, i', rfl⟩ := List.length_eq_three.mp hlen
        have hi' : i' = i := by
          obtain ⟨front, hfront⟩ := hsuf
          have hlast := congrArg List.getLast? hfront
          rw [List.getLast?_append] at hlast
          simpa using hlast.symm
        have hlook : pageLookup m root ⟨i', l, k, j⟩ = _ := pageLookup_of_pt ht
        rw [if_pos (show Present (m.entry t j) from hp)] at hlook
        have hfalse := hall _ (show i' ≠ 0 by rw [hi']; exact hi) _ hlook
        cases hfalse
      · rw [if_neg hsmall] at hleaf
        by_cases hbig : Present (m.entry t j) ∧ p.length = 2 ∧ Huge (m.entry t j)
        · rw [if_pos hbig] at hleaf
          have hval : (m.entry t j &&& ~~~hugeMask).toNat = (m.entry t j).toNat / 2 ^ 21 * 2 ^ 21 :=
            toNat_blockOf _
          rw [← Option.some.inj hleaf, frameOf, hval, pageSize]
          omega
        · rw [if_neg hbig] at hleaf
          cases hleaf

/-- The first space of a small machine with a 2 MiB page at 1 GiB, cloned. -/
theorem boot_huge_cloned (v : Word) (hv : (VPage.of v).SameHuge (VPage.of 0x8000000000))
    (hslot : (VPage.of v).pml4 ≠ 0) :
    ∃ F m n m' x, vmmCloneAddressSpace m 0x207000 = (n, m') ∧ SharesHuge F 0x207000 n v m' x ∧
      x.phys = 0x40000000 ||| (VPage.of v).hugeOffset ∧
      ∀ f < maxFrames, f % 512 = 1 → f ∉ bootPool (smallPmm 8) → m'.pmm.refCounts f = 0 := by
  obtain ⟨m₁, hcreate, hwf, hcur, hfree, hlook⟩ :=
    boot_mapped_space 0x40000000 (show LowFlags 0x87 by decide)
  obtain ⟨m₂, hcreated, hwhole, hlen, hnone⟩ := boot_created
  obtain rfl : m₁ = m₂ := (Prod.mk.inj (hcreate.symm.trans hcreated)).2
  have hhuge : (0x87 : Word) &&& pageHuge ≠ 0 := by decide
  -- the two tables on the way to the page
  have htables : ∀ i q, i ≠ 0 → [i] <:+ q →
      (vmmMap m₁ 0x207000 0x8000000000 0x40000000 0x87).HasTable 0x207000 q →
      q ∈ (VPage.of 0x8000000000).tablePaths := by
    intro i q hi hq htable
    have hno : ¬ m₁.HasTable 0x207000 (VPage.of 0x8000000000).ptPath := by
      unfold Machine.HasTable
      rw [hnone (VPage.of 0x8000000000).pml4 (VPage.of 0x8000000000).ptPath (by decide) ⟨[_, _], rfl⟩]
      exact Bool.false_ne_true
    refine (hwhole.vmmMap_huge_tables 0x40000000 hhuge hno (by omega) htable).resolve_left ?_
    unfold Machine.HasTable
    rw [hnone i q hi hq]
    exact Bool.false_ne_true
  generalize vmmMap m₁ 0x207000 0x8000000000 0x40000000 0x87 = m at hwf hcur hfree hlook htables
  have hsuff := framesSuffice_of_tables htables hfree
  have hx := hlook (VPage.of v) hslot
  rw [if_pos hhuge, if_pos hv] at hx
  cases hst : m.pmm.freeStack with
  | nil =>
    rw [hst] at hfree
    exact absurd hfree (by decide)
  | cons n rest =>
    obtain ⟨m', hrun, hclone, hshares⟩ := clone_sharesHuge (.of_wf hwf) firstSpace_roots.1
      (firstSpace_slots _) (by rw [hcur]; exact firstSpace_roots.2) hst hsuff hslot hx rfl
      (show ((0x87 : Word) ||| pagePresent) &&& pageWritable ≠ 0 by decide)
    refine ⟨_, m, n, m', _, hrun, hshares, rfl, fun f hf hmod hpool => ?_⟩
    obtain ⟨hreserved, hzero⟩ := hwf.pmm.reserved hpool
    have hcount : (pagesBelow m 0x207000 4 []).countP (fun a => frameOf a = f) = 0 := by
      refine List.countP_eq_zero.mpr fun a ha => ?_
      have hbase := pagesBelow_huge (fun vp hvp y hy => by
        rw [hlook vp hvp, if_pos hhuge] at hy
        split at hy
        · rw [← Option.some.inj hy]
          rfl
        · cases hy) a ha
      rw [decide_eq_true_eq]
      omega
    rw [hclone.charged.counts f hf fun a ha hfa => hreserved.unlisted ⟨a, ha, hfa⟩, hcount, hzero hf]
    rfl

/-- A write fault in the first 4 KiB of the page. -/
theorem cow_huge_iff_cloned :
    ∃ F m n m' x, vmmCloneAddressSpace m 0x207000 = (n, m') ∧
      ∃ pd m'', m'.TableOf F 0x207000 (VPage.of 0x8000000000).pdPath pd ∧
        handlePageFault m' 0x207000 0x8000000000 7 = some m'' ∧
        (CowResolved F 0x207000 n 0x8000000000 m' m'' ↔
          BlockReady F n 0x8000000000 m' x pd m'.allocFrame.1) := by
  obtain ⟨F, m, n, m', x, hrun, hshares, -⟩ := boot_huge_cloned 0x8000000000 rfl (by decide)
  exact ⟨F, m, n, m', x, hrun, cow_huge_iff hshares (by decide)⟩

/-- **A write fault in the second 4 KiB** of a 2 MiB page that a clone shares
    makes the shared page writable. -/
theorem huge_fault_shares :
    ∃ F m n m' x, vmmCloneAddressSpace m 0x207000 = (n, m') ∧
      SharesHuge F 0x207000 n 0x8000001000 m' x ∧
      ∃ m'', handlePageFault m' 0x207000 0x8000001000 7 = some m'' ∧
        ¬ CowResolved F 0x207000 n 0x8000001000 m' m'' := by
  obtain ⟨F, m, n, m', x, hrun, hshares, hphys, hcounts⟩ :=
    boot_huge_cloned 0x8000001000 (by decide) (by decide)
  obtain ⟨pd, hpd⟩ := hshares.directory
  refine ⟨F, m, n, m', x, hrun, hshares, hshares.kept hpd (by decide) ?_⟩
  have hframe : x.phys = 0x40001000 := by
    rw [hphys]
    decide
  have hzero : m'.pmm.refCounts 0x40001 = 0 := by
    refine hcounts 0x40001 (by decide) (by decide) fun hmem => ?_
    exact absurd (smallPmm_frames _ hmem).2 (by decide)
  have hfr : frameOf 0x40001000 = 0x40001 := by decide
  rw [hframe, pmmGetRef, hfr, if_pos (by decide), hzero]
  decide

end ZohoOs
