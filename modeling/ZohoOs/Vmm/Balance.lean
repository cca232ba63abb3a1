/-
  ZohoOs.Vmm.Balance — calls that keep the accounts of the address spaces.

  A space is created, gets pages and has its copy-on-write faults handled.
  Each of these keeps the accounts, as long as no allocation fails: what it
  takes from the allocator and what it refers to is held by the spaces when
  it returns.

  Main results:
    * `Accounts.create` — a new space;
    * `Accounts.mapFresh` — a page with a frame of its own;
    * `Accounts.fault` — a copy-on-write fault.
-/
import ZohoOs.Vmm.Accounts
import ZohoOs.Vmm.CloneAtomic
import ZohoOs.Vmm.Fault
import ZohoOs.Vmm.Quiet

namespace ZohoOs

open ZohoOs.Lib
open ZohoOs.Lib.Mem (Aligned InPage)
open ZohoOs.Lib.Radix

namespace Machine.Accounts

variable {pool : Finset Nat} {own : Set Nat} {kernel r t n a : Word} {roots : Finset Word}
  {extra : Word → Nat} {m m' : Machine} {p q : List (Fin 512)} {i : Fin 512}
  {rest : List Word} {vp : VPage}

/-! ## §1. A new space. -/

/-- The tables after a space was created: its root is one more. -/
theorem tableOf_created (h : m.Spaces pool kernel roots) (hst : m.pmm.freeStack = n :: rest)
    {s : Word} : (m.createdSpace n (m.entry kernel 0)).TableOf (spaceForest kernel (insert n roots)) r q s ↔
      m.TableOf (spaceForest kernel roots) r q s ∨ (r = n ∧ q = [] ∧ s = n) := by
  obtain ⟨-, -, hspaces⟩ := h.create hst
  have hnk : n ≠ kernel := fun he => hspaces.kernel_notMem (he ▸ Finset.mem_insert_self n roots)
  rw [← spaceForest_addRoot hnk]
  exact tableOf_createdSpace h.wf hst

/-- A new space maps nothing, and the others what they mapped. -/
theorem lookup_created (h : m.Spaces pool kernel roots) (hst : m.pmm.freeStack = n :: rest)
    (hr : r ∈ insert n roots) (hvp : vp.pml4 ≠ 0) :
    pageLookup (m.createdSpace n (m.entry kernel 0)) r vp = if r = n then none else pageLookup m r vp := by
  obtain ⟨-, hn, -⟩ := h.create hst
  by_cases hrn : r = n
  · subst hrn
    rw [if_pos rfl]
    refine Cloning.lookup_no_pd ?_
    cases hpd : tableAt pageChild (m.createdSpace r (m.entry kernel 0)).entry r vp.pdPath with
    | none => rfl
    | some pd =>
      have hroot : (spaceForest kernel (insert r roots)).Path r [vp.pml4] := spaceForest_path hr hvp
      have hpath := Machine.Wf.path_pd hroot
      rcases (tableOf_created h hst).mp ⟨hpath, hpd⟩ with hs | ⟨-, hnil, -⟩
      · obtain ⟨-, -, -, -, hfresh⟩ := h.wf.top hst
        exact absurd ⟨Forest.Path.root hs.1.1, rfl⟩ (hfresh r [])
      · exact absurd hnil (List.cons_ne_nil _ _)
  · rw [if_neg hrn]
    have hr' := Finset.mem_of_mem_insert_of_ne hr hrn
    exact (sameTree_createdSpace r (Trees.of_wf h.wf) hst (m.entry kernel 0)).lookup_eq
      (spaceForest_path hr' hvp)

/-- The holders after a space was created: its root is one more. -/
theorem holding_createdSpace (h : m.Spaces pool kernel roots) (hst : m.pmm.freeStack = n :: rest) :
    holding roots m (.table n []) = none ∧
      holding (insert n roots) (m.createdSpace n (m.entry kernel 0)) (.table n []) = some n ∧
      ∀ x, x ≠ .table n [] →
        holding (insert n roots) (m.createdSpace n (m.entry kernel 0)) x = holding roots m x := by
  obtain ⟨-, hn, hspaces⟩ := h.create hst
  refine ⟨?_, ?_, fun x hx => ?_⟩
  · rw [holding_table, if_neg fun hc => hn hc.1]
  · rw [holding_table_iff hspaces.kernel_notMem]
    exact ⟨Finset.mem_insert_self n roots, (tableOf_created h hst).mpr (.inr ⟨rfl, rfl, rfl⟩)⟩
  cases x with
  | table r q =>
    ext s
    rw [holding_table_iff hspaces.kernel_notMem, holding_table_iff h.kernel_notMem, tableOf_created h hst]
    constructor
    · intro hc
      obtain ⟨hr, hs | ⟨rfl, rfl, rfl⟩⟩ := hc
      · have hrk : r ≠ kernel := fun he => hspaces.kernel_notMem (he ▸ hr)
        exact ⟨spaceForest_mem hrk hs.1, hs⟩
      · exact absurd rfl hx
    · intro hc
      exact ⟨Finset.mem_insert_of_mem hc.1, .inl hc.2⟩
  | page r vp =>
    rw [holding_page, holding_page]
    by_cases hvp : vp.pml4 = 0
    · rw [if_neg fun hc => hc.2 hvp, if_neg fun hc => hc.2 hvp]
    by_cases hr : r ∈ insert n roots
    · rw [if_pos ⟨hr, hvp⟩, lookup_created h hst hr hvp]
      by_cases hrn : r = n
      · rw [if_pos hrn, if_neg fun hc => hn (hrn ▸ hc.1)]
        rfl
      · rw [if_neg hrn, if_pos ⟨Finset.mem_of_mem_insert_of_ne hr hrn, hvp⟩]
    · rw [if_neg fun hc => hr hc.1, if_neg fun hc => hr (Finset.mem_insert_of_mem hc.1)]

/-- **Creating a space.** -/
theorem create (h : m.Accounts pool own kernel roots extra) (hst : m.pmm.freeStack = n :: rest) :
    vmmCreateAddressSpace m = (n, m.createdSpace n (m.entry kernel 0)) ∧ n ∉ roots ∧
      (m.createdSpace n (m.entry kernel 0)).Accounts pool own kernel (insert n roots) extra := by
  obtain ⟨hrun, hn, hspaces⟩ := h.spaces.create hst
  obtain ⟨-, hno, hn0, hne, hfresh⟩ := h.top hst
  obtain ⟨hold, hnew, hrest⟩ := holding_createdSpace h.spaces hst
  have huses := uses_take (finitelyHeld_holding roots m) hold hnew hrest
  have hnk : n ≠ kernel := fun he => hspaces.kernel_notMem (he ▸ Finset.mem_insert_self n roots)
  refine ⟨hrun, hn, hspaces, ?_, ?_, ?_, ?_⟩
  · rw [pmm_createdSpace]
    exact h.counts.alloc hst fun a => by rw [huses a]; omega
  · intro x a hx
    by_cases hx0 : x = .table n []
    · rw [hx0, hnew] at hx
      rw [← Option.some.inj hx]
      exact hno
    · rw [hrest x hx0] at hx
      exact h.held_own x a hx
  · intro r' q s hs
    rw [huses s]
    by_cases hx0 : Holder.table r' q = .table n []
    · rw [hx0, hnew] at hs
      rw [← Option.some.inj hs, if_pos rfl]
      omega
    · rw [hrest _ hx0] at hs
      rw [if_neg (show s ≠ n from fun he => hfresh _ (he ▸ hs))]
      exact h.once r' q s hs
  · intro q s hs
    rw [← spaceForest_addRoot hnk] at hs
    rcases (tableOf_createdSpace h.spaces.wf hst).mp hs with hs | ⟨hk, -, -⟩
    · exact h.kernel_not_own q s hs
    · exact absurd hk.symm hnk

/-! ## §2. A page of a space. -/

/-- An allocation that did not fail took the top of the stack. -/
theorem alloc_of_failures (hfail : m.allocFrame.2.pmm.allocFailures = m.pmm.allocFailures) :
    ∃ n rest, m.pmm.freeStack = n :: rest ∧ m.allocFrame.1 = n := by
  cases hst : m.pmm.freeStack with
  | nil =>
    have hmore : m.allocFrame.2.pmm.allocFailures = m.pmm.allocFailures + 1 := by
      show (pmmAllocFrame m.pmm).2.allocFailures = _
      rw [pmmAllocFrame_nil hst]
    omega
  | cons n rest =>
    refine ⟨n, rest, rfl, ?_⟩
    show (pmmAllocFrame m.pmm).1 = n
    rw [pmmAllocFrame_cons hst]

/-- **Storing a page**: the page takes a reference to `phys` from the running
    code, and leaves it the one to what it held before. -/
theorem mapPage (h : m.Accounts pool own kernel roots extra) (hr : r ∈ roots) {virt phys flags : Word}
    (hvirt : pml4Index virt ≠ 0) (hlow : LowFlags flags) (hsmall : flags &&& pageHuge = 0)
    (hphys : Aligned phys) (hown : frameOf phys ∈ own) {extra' : Word → Nat}
    (hfail : (vmmMap m r virt phys flags).pmm.allocFailures = m.pmm.allocFailures)
    (hextra : ∀ a, (extra' a + if a = phys then 1 else 0) =
      extra a + if holding roots m (.page r (VPage.of virt)) = some a then 1 else 0) :
    (vmmMap m r virt phys flags).Accounts pool own kernel roots extra' := by
  obtain ⟨m₁, hg, ⟨hst, heq⟩ | ⟨pt, hpt, heq⟩⟩ := h.spaces.map_cases hr phys hvirt hsmall
  · -- no frame for a table: the allocation failed
    rw [heq, ← hg.allocFailures] at hfail
    obtain ⟨n, rest, hst', -⟩ := alloc_of_failures hfail
    rw [hst] at hst'
    cases hst'
  · have h₁ := h.grows hr hg
    have hpresent := present_pte phys flags
    have haddr : ((phys &&& ~~~flagMask) ||| flags ||| pagePresent) &&& ~~~flagMask = phys := by
      rw [pte_addr hlow, and_not_flagMask hphys]
    have hold : holding roots m₁ (.page r (VPage.of virt)) = holding roots m (.page r (VPage.of virt)) := by
      rw [holding_page, holding_page, hg.pageLookup h.spaces.wf (spaceForest_path hr hvirt)]
    obtain ⟨hnew, hrest⟩ := holding_setPte h₁.spaces hr hvirt hpt hpresent
    rw [haddr] at hnew
    rw [heq]
    refine h₁.setPte hr hvirt hpt hpresent (by rw [haddr]; exact hown) fun a => ?_
    have hbalance := hextra a
    rw [← hold] at hbalance
    cases hwas : holding roots m₁ (.page r (VPage.of virt)) with
    | none =>
      have huses := uses_take (finitelyHeld_holding roots m₁) hwas hnew hrest a
      rw [hwas, if_neg (Option.some_ne_none a).symm] at hbalance
      omega
    | some b =>
      have huses := uses_swap (finitelyHeld_holding roots m₁) hwas hnew hrest a
      rw [hwas, if_congr (show some b = some a ↔ a = b by rw [Option.some.injEq, eq_comm]) rfl rfl] at hbalance
      omega

/-- What a stored page changes. -/
theorem mapPage_lookup (h : m.Spaces pool kernel roots) (hr : r ∈ roots) {virt phys flags : Word}
    (hvirt : pml4Index virt ≠ 0) (hlow : LowFlags flags) (hsmall : flags &&& pageHuge = 0)
    (hfail : (vmmMap m r virt phys flags).pmm.allocFailures = m.pmm.allocFailures) :
    ∀ r' ∈ roots, ∀ vp : VPage, vp.pml4 ≠ 0 → pageLookup (vmmMap m r virt phys flags) r' vp =
      if r' = r ∧ vp = VPage.of virt then some (smallMapping phys flags) else pageLookup m r' vp := by
  intro r' hr' vp hvp
  obtain ⟨-, ⟨-, hlook⟩ | ⟨hbad, -⟩⟩ := h.wf.vmmMap_lookup phys (Eq.refl (VPage.of virt))
    (spaceForest_path hr hvirt) hlow fun _ x hx => h.lookup_small hr hvirt hx
  · rw [hlook r' vp (spaceForest_path hr' hvp), if_neg (not_not_intro hsmall)]
  · omega

/-- **A fresh page.** -/
theorem mapFresh (h : m.Accounts pool own kernel roots noExtra) (hr : r ∈ roots) {virt flags : Word}
    (hvirt : pml4Index virt ≠ 0) (hlow : LowFlags flags) (hsmall : flags &&& pageHuge = 0)
    (hnone : pageLookup m r (VPage.of virt) = none)
    (hfail : (vmmMap m.allocFrame.2 r virt m.allocFrame.1 flags).pmm.allocFailures = m.pmm.allocFailures) :
    (vmmMap m.allocFrame.2 r virt m.allocFrame.1 flags).Accounts pool own kernel roots noExtra ∧
      ∀ r' ∈ roots, ∀ vp : VPage, vp.pml4 ≠ 0 →
        pageLookup (vmmMap m.allocFrame.2 r virt m.allocFrame.1 flags) r' vp =
          if r' = r ∧ vp = VPage.of virt then some (smallMapping m.allocFrame.1 flags)
          else pageLookup m r' vp := by
  have hle := allocFrame_failures_le m
  have hle' := vmmMap_failures_le m.allocFrame.2 r virt m.allocFrame.1 flags
  obtain ⟨n, rest, hst, hn⟩ := alloc_of_failures (m := m) (by omega)
  obtain ⟨halign, hown, -⟩ := h.top hst
  have hunmapped : holding roots m.allocFrame.2 (.page r (VPage.of virt)) = none := by
    rw [holding_page, if_pos ⟨hr, hvirt⟩]
    show (pageLookup m r (VPage.of virt)).map Mapping.phys = none
    rw [hnone]
    rfl
  rw [hn] at hfail hle' ⊢
  refine ⟨(h.alloc hst).mapPage hr hvirt hlow hsmall halign hown (by omega) fun a => ?_,
    mapPage_lookup h.spaces.allocFrame hr hvirt hlow hsmall (by omega)⟩
  rw [hunmapped, if_neg (Option.some_ne_none a).symm]
  rfl

/-! ## §3. A copy-on-write fault. -/

/-- A page of a space is small, and its flags are the low bits of its entry. -/
theorem lowFlags_of_lookup (h : m.Spaces pool kernel roots) (hr : r ∈ roots) (hvp : vp.pml4 ≠ 0)
    {x : Mapping} (hx : pageLookup m r vp = some x) : LowFlags x.flags ∧ Aligned x.phys := by
  obtain ⟨pt, -, -, rfl⟩ := h.lookup_pt hr hvp hx
  exact ⟨Word.and_mask_and_not, aligned_and_not_flagMask _⟩

theorem ownFlags_small {flags : Word} (h : flags &&& pageHuge = 0) : ownFlags flags &&& pageHuge = 0 := by
  unfold ownFlags
  rw [BitVec.and_or_distrib_right, BitVec.and_assoc, show ~~~pageCow &&& pageHuge = pageHuge by decide,
    show pageWritable &&& pageHuge = 0#64 by decide, BitVec.or_zero]
  exact h

/-- The frame a copy goes to, once it holds the page. -/
theorem copyPage (h : m.Accounts pool own kernel roots noExtra) (hr : r ∈ roots) {v : Word}
    (hv : pml4Index v ≠ 0) {x : Mapping} (hx : pageLookup m r (VPage.of v) = some x)
    (hst : m.pmm.freeStack = n :: rest) :
    (m.allocFrame.2.copyPage r n (v &&& ~~~flagMask)).Accounts pool own kernel roots (plusOne noExtra n) ∧
      holding roots (m.allocFrame.2.copyPage r n (v &&& ~~~flagMask)) = holding roots m ∧
      ∀ r' ∈ roots, ∀ vp : VPage, vp.pml4 ≠ 0 →
        pageLookup (m.allocFrame.2.copyPage r n (v &&& ~~~flagMask)) r' vp = pageLookup m r' vp := by
  have hn : m.allocFrame.1 = n := by rw [Machine.allocFrame, pmmAllocFrame_cons hst]
  have htrees : m.Trees (spaceForest kernel roots) := .of_wf h.spaces.wf
  have hcopy := htrees.allocFrame.copyPage_eq (spaceForest_path hr hv)
    (show pageLookup m.allocFrame.2 r (VPage.of v) = some x from hx) n
  have hmem : (m.allocFrame.2.copyPage r n (v &&& ~~~flagMask)).mem = copiedMem m.mem m.allocFrame.1 x := by
    rw [hcopy, hn]
    rfl
  have hsame : holding roots m.allocFrame.2 = holding roots m := holding_congr (fun _ _ _ _ => rfl)
    fun _ _ _ _ => rfl
  obtain ⟨hacc, hhold⟩ : (m.allocFrame.2.copyPage r n (v &&& ~~~flagMask)).Accounts pool own kernel roots
        (plusOne noExtra n) ∧
      holding roots (m.allocFrame.2.copyPage r n (v &&& ~~~flagMask)) = holding roots m.allocFrame.2 :=
    (h.alloc hst).of_mem rfl rfl fun r' q s hs j => htrees.entry_copied hmem hs j
  refine ⟨hacc, hhold.trans hsame, fun r' hr' vp hvp => ?_⟩
  exact Machine.Wf.pageLookup_of_tables (spaceForest_path hr' hvp) fun q s hs j => htrees.entry_copied hmem hs j

/-- The copy has the bytes of the page, and the other quiet bytes are kept. -/
theorem copyPage_mem (h : m.Accounts pool own kernel roots noExtra) (hr : r ∈ roots) {v : Word}
    (hv : pml4Index v ≠ 0) {x : Mapping} (hx : pageLookup m r (VPage.of v) = some x)
    (hst : m.pmm.freeStack = n :: rest) :
    (∀ w, m.QuietIn (spaceForest kernel roots) w →
      (m.allocFrame.2.copyPage r n (v &&& ~~~flagMask)).mem w = m.mem w) ∧
      (∀ k < 4096, (m.allocFrame.2.copyPage r n (v &&& ~~~flagMask)).mem (n + BitVec.ofNat 64 k)
        = m.mem (x.phys + BitVec.ofNat 64 k)) ∧
      ∀ w, m.allocFrame.2.QuietIn (spaceForest kernel roots) w →
        (m.allocFrame.2.copyPage r n (v &&& ~~~flagMask)).QuietIn (spaceForest kernel roots) w := by
  have hn : m.allocFrame.1 = n := by rw [Machine.allocFrame, pmmAllocFrame_cons hst]
  have htrees : m.Trees (spaceForest kernel roots) := .of_wf h.spaces.wf
  have hmem : (m.allocFrame.2.copyPage r n (v &&& ~~~flagMask)).mem = copiedMem m.mem n x := by
    rw [htrees.allocFrame.copyPage_eq (spaceForest_path hr hv)
      (show pageLookup m.allocFrame.2 r (VPage.of v) = some x from hx) n]
    rfl
  refine ⟨fun w hw => ?_, fun k hk => ?_, fun w hw => ?_⟩
  · rw [hmem]
    exact Mem.fill_of_le m.mem _ (Nat.le_of_not_lt (hw.not_top hst))
  · have hk' : (BitVec.ofNat 64 k).toNat = k := by
      rw [BitVec.toNat_ofNat]
      omega
    rw [hmem, copiedMem, Mem.fill_at m.mem _ (by rw [hk']; exact hk), hk']
  · have hmem' : (m.allocFrame.2.copyPage r n (v &&& ~~~flagMask)).mem = copiedMem m.mem m.allocFrame.1 x := by
      rw [hn]
      exact hmem
    obtain ⟨-, hiff⟩ : (m.allocFrame.2.copyPage r n (v &&& ~~~flagMask)).Spaces pool kernel roots ∧
        ∀ r' q s, (m.allocFrame.2.copyPage r n (v &&& ~~~flagMask)).TableOf (spaceForest kernel roots) r' q s ↔
          m.allocFrame.2.TableOf (spaceForest kernel roots) r' q s :=
      h.spaces.allocFrame.of_mem rfl rfl fun r' q s hs j => htrees.entry_copied hmem' hs j
    have hstack : (m.allocFrame.2.copyPage r n (v &&& ~~~flagMask)).pmm.freeStack ⊆
        m.allocFrame.2.pmm.freeStack := fun f hf => hf
    exact hw.keep hstack fun r' q s hs => .inl ((hiff r' q s).mp hs)

/-- Storing a page keeps the quiet bytes. -/
theorem mapPage_mem (h : m.Spaces pool kernel roots) (hr : r ∈ roots) {virt phys flags : Word}
    (hvirt : pml4Index virt ≠ 0) (hsmall : flags &&& pageHuge = 0) {w : Word}
    (hw : m.QuietIn (spaceForest kernel roots) w) : (vmmMap m r virt phys flags).mem w = m.mem w :=
  (hw.vmmMap h.wf phys flags (spaceForest_path hr hvirt) hsmall fun _ hy => h.lookup_small hr hvirt hy).1

theorem inPage_add (a : Word) {k : Nat} (hk : k < 4096) : InPage a (a + BitVec.ofNat 64 k) := by
  unfold InPage
  rw [BitVec.add_comm, BitVec.add_sub_cancel, BitVec.toNat_ofNat]
  omega

/-- What the handler does in a page of a space. -/
theorem handlePageFault_small (h : m.Spaces pool kernel roots) (hr : r ∈ roots) {v : Word}
    (hv : pml4Index v ≠ 0) {x : Mapping} (hx : pageLookup m r (VPage.of v) = some x) (errorCode : Word) :
    handlePageFault m r v errorCode =
      if errorCode &&& 2 ≠ 0 ∧ x.flags &&& pageCow ≠ 0 then
        if 1 < pmmGetRef m.pmm x.phys then
          some ((vmmMap (m.allocFrame.2.copyPage r m.allocFrame.1 (v &&& ~~~flagMask)) r (v &&& ~~~flagMask)
            m.allocFrame.1 (ownFlags x.flags)).freeFrame x.phys)
        else some (vmmMap m r (v &&& ~~~flagMask) x.phys (ownFlags x.flags))
      else none := by
  have htrees : m.Trees (spaceForest kernel roots) := .of_wf h.wf
  unfold handlePageFault
  dsimp only
  rw [htrees.vmmGetFlags_of_lookup (spaceForest_path hr hv) hx, htrees.oldPhys (spaceForest_path hr hv) hx]

/-- A fault in a page that is not mapped is not handled. -/
theorem handlePageFault_unmapped (h : m.Spaces pool kernel roots) (hr : r ∈ roots) {v : Word}
    (hv : pml4Index v ≠ 0) (hx : pageLookup m r (VPage.of v) = none) (errorCode : Word) :
    handlePageFault m r v errorCode = none := by
  have hflags : vmmGetFlags m r v = 0 := by
    rw [h.wf.vmmGetFlags_eq (spaceForest_path hr hv), hx]
    rfl
  unfold handlePageFault
  dsimp only
  rw [hflags, if_neg]
  intro hc
  exact hc.2 BitVec.zero_and

/-- What a handled fault leaves at the page `vp` that was mapped as `x`: a frame
    `f` of its own, with the bytes of the old one. -/
structure PageOwned (kernel : Word) (roots : Finset Word) (r : Word) (vp : VPage) (x : Mapping) (m m' : Machine)
    (f : Word) : Prop where
  lookup : ∀ r' ∈ roots, ∀ vp' : VPage, vp'.pml4 ≠ 0 → pageLookup m' r' vp' =
    if r' = r ∧ vp' = vp then some (smallMapping f (ownFlags x.flags)) else pageLookup m r' vp'
  aligned : Aligned f
  quiet : ∀ w, m.QuietIn (spaceForest kernel roots) w → m'.mem w = m.mem w
  copied : ∀ k < 4096, m'.mem (f + BitVec.ofNat 64 k) = m.mem (x.phys + BitVec.ofNat 64 k)
  alone : ∀ y, holding roots m y = some f → y = .page r vp

/-- The bytes of a frame that a page holds are quiet. -/
theorem quiet_page (h : m.Accounts pool own kernel roots extra)
    (hp : holding roots m (.page r vp) = some a) {w : Word} (hw : InPage a w) :
    m.QuietIn (spaceForest kernel roots) w := by
  have ha := holding_aligned h.spaces hp
  constructor
  · intro f hf
    exact Mem.not_inPage_of_ne ha (h.counts.inv.aligned f hf) (fun he => h.not_free hp (he ▸ hf)) hw
  · intro r' q t ht
    refine Mem.not_inPage_of_ne ha (h.spaces.wf.aligned ht) (fun he => ?_) hw
    by_cases hk : r' = kernel
    · subst hk
      exact h.kernel_not_own q t ht (he ▸ h.held_own _ _ hp)
    · have htab := (holding_table_iff h.spaces.kernel_notMem).mpr ⟨spaceForest_mem hk ht.1, ht⟩
      exact h.page_not_table hp (he ▸ htab)

/-- **A copy-on-write fault.** -/
theorem fault (h : m.Accounts pool own kernel roots noExtra) (hr : r ∈ roots) {v : Word}
    (hv : pml4Index v ≠ 0) {x : Mapping} (hx : pageLookup m r (VPage.of v) = some x)
    (hsmall : x.flags &&& pageHuge = 0) {errorCode : Word}
    (hrun : handlePageFault m r v errorCode = some m')
    (hfail : m'.pmm.allocFailures = m.pmm.allocFailures) :
    m'.Accounts pool own kernel roots noExtra ∧ ∃ f, PageOwned kernel roots r (VPage.of v) x m m' f := by
  obtain ⟨hlow, halign⟩ := lowFlags_of_lookup h.spaces hr hv hx
  have hpage : holding roots m (.page r (VPage.of v)) = some x.phys :=
    holding_page_iff.mpr ⟨hr, hv, x, hx, rfl⟩
  have hown := h.held_own _ _ hpage
  have hv' : pml4Index (v &&& ~~~flagMask) ≠ 0 := by
    rw [← VPage.pml4_of, VPage.of_page]
    exact hv
  have hswap : ∀ a, (some x.phys = some a) ↔ a = x.phys := fun a => by
    rw [Option.some.injEq, eq_comm]
  rw [handlePageFault_small h.spaces hr hv hx] at hrun
  split at hrun
  swap
  · cases hrun
  by_cases hcount : 1 < pmmGetRef m.pmm x.phys
  · -- the page is copied into a fresh frame, which takes its place
    rw [if_pos hcount] at hrun
    obtain rfl := Option.some.inj hrun
    have hle := allocFrame_failures_le m
    have hle' := vmmMap_failures_le (m.allocFrame.2.copyPage r m.allocFrame.1 (v &&& ~~~flagMask)) r
      (v &&& ~~~flagMask) m.allocFrame.1 (ownFlags x.flags)
    have hfree : ∀ (m : Machine) (a : Word), (m.freeFrame a).pmm.allocFailures = m.pmm.allocFailures :=
      fun m a => (pmmFreeFrame_freeStack m.pmm a).2
    rw [hfree] at hfail
    have hkeep : (m.allocFrame.2.copyPage r m.allocFrame.1 (v &&& ~~~flagMask)).pmm.allocFailures
        = m.allocFrame.2.pmm.allocFailures := rfl
    obtain ⟨n, rest, hst, hn⟩ := alloc_of_failures (m := m) (by omega)
    rw [hn] at hfail hle' hkeep ⊢
    obtain ⟨hn', hno, -, -, hnone⟩ := h.top hst
    obtain ⟨hcopied, hhold, hsame⟩ := h.copyPage hr hv hx hst
    -- the copy takes over the page, and what it showed is given back
    have hmapped : (vmmMap (m.allocFrame.2.copyPage r n (v &&& ~~~flagMask)) r (v &&& ~~~flagMask) n
        (ownFlags x.flags)).Accounts pool own kernel roots (plusOne noExtra x.phys) := by
      refine hcopied.mapPage hr hv' (lowFlags_ownFlags hlow) (ownFlags_small hsmall) hn' hno (by omega) fun a => ?_
      rw [hhold, VPage.of_page, hpage]
      simp only [plusOne, noExtra, hswap]
      omega
    obtain ⟨hkept, hbytes, hquiet⟩ := h.copyPage_mem hr hv hx hst
    refine ⟨hmapped.free halign hown, n, ⟨fun r' hr' vp hvp => ?_, hn', fun w hw => ?_, fun k hk => ?_, ?_⟩⟩
    · have hfail' : (vmmMap (m.allocFrame.2.copyPage r n (v &&& ~~~flagMask)) r (v &&& ~~~flagMask) n
          (ownFlags x.flags)).pmm.allocFailures
          = (m.allocFrame.2.copyPage r n (v &&& ~~~flagMask)).pmm.allocFailures := by omega
      have hmap := mapPage_lookup hcopied.spaces hr hv' (lowFlags_ownFlags hlow) (ownFlags_small hsmall)
        hfail' r' hr' vp hvp
      rw [VPage.of_page, hsame r' hr' vp hvp] at hmap
      exact hmap
    · exact (mapPage_mem hcopied.spaces hr hv' (ownFlags_small hsmall) (hquiet w hw.allocFrame)).trans (hkept w hw)
    · have hfresh := QuietIn.of_allocated h.spaces.wf hst (inPage_add n hk)
      exact (mapPage_mem hcopied.spaces hr hv' (ownFlags_small hsmall) (hquiet _ hfresh)).trans (hbytes k hk)
    · exact fun y hy => absurd hy (hnone y)
  · -- the last owner keeps the frame
    rw [if_neg hcount] at hrun
    obtain rfl := Option.some.inj hrun
    refine ⟨h.mapPage hr hv' (lowFlags_ownFlags hlow) (ownFlags_small hsmall) halign hown hfail fun a => ?_,
      x.phys, ⟨fun r' hr' vp hvp => ?_, halign, fun w hw => ?_, fun k hk => ?_, fun y hy => ?_⟩⟩
    · rw [VPage.of_page, hpage]
      simp only [hswap]
    · have hmap := mapPage_lookup h.spaces hr hv' (lowFlags_ownFlags hlow) (ownFlags_small hsmall)
        hfail r' hr' vp hvp
      rw [VPage.of_page] at hmap
      exact hmap
    · exact mapPage_mem h.spaces hr hv' (ownFlags_small hsmall) hw
    · exact mapPage_mem h.spaces hr hv' (ownFlags_small hsmall) (h.quiet_page hpage (inPage_add x.phys hk))
    · -- the count says that the page is its only holder
      have hcounted := h.counts.getRef halign hown
      have hpos := held hpage
      have hone : uses (holding roots m) x.phys = 1 := by
        simp only [noExtra] at hcounted
        omega
      exact eq_of_uses_eq_one hone hy hpage

end Machine.Accounts

end ZohoOs
