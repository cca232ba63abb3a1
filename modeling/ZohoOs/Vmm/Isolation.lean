/-
  ZohoOs.Vmm.Isolation — do mappings of one address space show in another?

  Every space shares the kernel's tables below PML4 slot 0.  A user mapping
  below another slot stays in its space; one in slot 0 goes through the
  kernel's tables.  There it is harmless only when it lies under a huge page
  of the identity map, where `vmm_map` stores into the mapped data instead of
  a table.

    * `address_spaces_isolated` — in every run whose mappings lie below slots
      1 to 511, or are of that harmless kind, no other space and not the
      kernel sees any of them;
    * `slot0_mapping_leaks` — a mapping in slot 0 outside the huge pages
      appears in every other space.
-/
import ZohoOs.Lib.Transition
import ZohoOs.Elf.Frames
import ZohoOs.Vmm.Spaces
import ZohoOs.Vmm.HugeConflict

namespace ZohoOs

open ZohoOs.Lib
open ZohoOs.Lib.Mem (Aligned InPage slotAddr)
open ZohoOs.Lib.Radix

/-! ## §1. User mappings. -/

/-- `user_addr + i * 4096` of `sys_create_window`, in `uint32_t` arithmetic up
    to the last sum. -/
def windowAddr (id i : BitVec 32) : Word :=
  ((0xA0000000 : BitVec 32) + id * 0x1000000).setWidth 64 + (i * 4096).setWidth 64

/-- The body of the mapping loop of `sys_create_window`. -/
def windowMapPage (m : Machine) (pml4 kernelBuf : Word) (id i : BitVec 32) : Machine :=
  vmmMap m pml4 (windowAddr id i) (kernelBuf + (i * 4096).setWidth 64) (pageUser ||| pageWritable)

/-- The machine and the address spaces `vmm_create_address_space` has
    returned. -/
structure SpacesState where
  machine : Machine
  spaces : Finset Word

/-- What happens to address spaces on behalf of user code; `map` names the
    space and the page. -/
inductive UserCall where
  | create
  | map (space virt : Word)

/-- One step: a space is created, a page of a loadable segment is loaded, or a
    page of a window is mapped; headers and arguments are arbitrary. -/
inductive UserStep : SpacesState → UserCall → SpacesState → Prop
  | create {s : SpacesState} {n : Word} {m' : Machine}
      (hcreate : vmmCreateAddressSpace s.machine = (n, m')) (hn : n ≠ 0) :
      UserStep s .create ⟨m', insert n s.spaces⟩
  | elf {s : SpacesState} {a : Word} (ha : a ∈ s.spaces)
      (elfData phdr vaddrStart pageStart p : Word) (phdrFlags : BitVec 32) :
      UserStep s (.map a (pageStart + p * 4096))
        ⟨elfLoadPage s.machine a elfData phdr vaddrStart pageStart (segmentFlags phdrFlags) p,
          s.spaces⟩
  | window {s : SpacesState} {a : Word} (ha : a ∈ s.spaces) (kernelBuf : Word)
      (id i : BitVec 32) :
      UserStep s (.map a (windowAddr id i))
        ⟨windowMapPage s.machine a kernelBuf id i, s.spaces⟩

/-- **Isolation of one step**: a mapping made in one space changes no
    translation and no flags of any other space or of the kernel. -/
def Isolated (s s' : SpacesState) : UserCall → Prop
  | .create => True
  | .map a _ => ∀ b, (b ∈ s.spaces ∧ b ≠ a ∨ b = s.machine.currentPml4) → ∀ v, Canonical v →
      vmmGetPhys s'.machine b v = vmmGetPhys s.machine b v ∧
        vmmGetFlags s'.machine b v = vmmGetFlags s.machine b v

/-- The page lies under a huge page of the kernel whose first frame holds no
    table. -/
def UnderPlainHuge (m : Machine) (spaces : Finset Word) (virt : Word) : Prop :=
  pml4Index virt = 0 ∧
    ∃ pd, tableAt pageChild m.entry m.currentPml4 (VPage.of virt).pdPath = some pd ∧
      Present (m.entry pd (VPage.of virt).pd) ∧ Huge (m.entry pd (VPage.of virt).pd) ∧
      pageAddr (m.entry pd (VPage.of virt).pd) ≠ 0 ∧
      ∀ r q, ¬ m.TableOf (spaceForest m.currentPml4 spaces) r q
        (pageAddr (m.entry pd (VPage.of virt).pd))

/-- The mappings that stay in their space. -/
def StaysApart (s : SpacesState) : UserCall → Prop
  | .create => True
  | .map _ virt => pml4Index virt ≠ 0 ∨ UnderPlainHuge s.machine s.spaces virt

/-! ## §2. Mapping through the kernel's tables. -/

section Shared

variable {pool : Finset Nat} {kernel a : Word} {spaces : Finset Word} {m m' : Machine}
  {virt phys flags : Word}

/-- A mapping in slot 0 of a space is a mapping of the kernel. -/
theorem vmmMap_shared (h : m.Spaces pool kernel spaces) (ha : a ∈ spaces)
    (hi : pml4Index virt = 0) (hpres : Present (m.entry kernel 0)) :
    vmmMap m a virt phys flags = vmmMap m kernel virt phys flags := by
  have hget : getExistingTable m a (pml4Index virt) = getExistingTable m kernel (pml4Index virt) :=
    getExistingTable_congr (by rw [hi, h.shared a ha])
  have hkernel : getExistingTable m kernel (pml4Index virt) ≠ 0 := by
    rcases h.wf.getExistingTable_cases Machine.Spaces.kernel_table (by simp) spaceForest_path_kernel
      (by simp) (i := pml4Index virt) with ⟨n, -, heq, hne⟩ | ⟨-, hz, -⟩
    · rw [heq]; exact hne
    · rw [hi] at hz
      rw [hz] at hpres
      exact absurd hpres not_present_zero
  unfold vmmMap ensureNextTable
  simp only [hget, hkernel, ne_eq, not_false_eq_true, if_true]

/-- Under a huge page that holds no table `vmm_map` changes no table. -/
theorem entry_vmmMap_underPlainHuge (h : m.Spaces pool kernel spaces) (ha : a ∈ spaces)
    (phys : Word) (hsmall : flags &&& pageHuge = 0) (hv : UnderPlainHuge m spaces virt) :
    (vmmMap m a virt phys flags).pmm = m.pmm ∧
      (vmmMap m a virt phys flags).currentPml4 = m.currentPml4 ∧
      ∀ r q s, m.TableOf (spaceForest kernel spaces) r q s → ∀ j,
        (vmmMap m a virt phys flags).entry s j = m.entry s j := by
  obtain ⟨hi, pd, hpd, hpres, -, haddr, hplain⟩ := hv
  rw [h.current] at hpd hplain
  have hpd' : m.TableOf (wholeTree kernel) kernel (VPage.of virt).pdPath pd := ⟨wholeTree_path, hpd⟩
  have hk : Present (m.entry kernel 0) := by
    obtain ⟨pdpt, hpdpt, -⟩ := hpd'.tail
    have hchild : pageChild 0 (m.entry kernel (VPage.of virt).pml4) = some pdpt := hpdpt.2
    rw [show (VPage.of virt).pml4 = 0 from hi] at hchild
    by_contra hnp
    rw [pageChild_of_not_present hnp] at hchild
    cases hchild
  rw [vmmMap_shared h ha hi hk, vmmMap_under_huge_addr h.kernelTree _ hsmall hpd' hpres haddr]
  refine ⟨rfl, rfl, fun r q s hs j => ?_⟩
  rw [Machine.entry_setEntry (aligned_and_not_flagMask _) (h.wf.aligned hs), write_other]
  rintro ⟨rfl, -⟩
  exact hplain r q hs

/-- **One mapping that stays apart**: the spaces are kept, the tables of the
    other spaces and of the kernel do not change, and a table there is
    afterwards was one before or was free. -/
theorem vmmMap_staysApart (h : m.Spaces pool kernel spaces) (ha : a ∈ spaces) (phys : Word)
    (hsmall : flags &&& pageHuge = 0) (hv : pml4Index virt ≠ 0 ∨ UnderPlainHuge m spaces virt) :
    (vmmMap m a virt phys flags).Spaces pool kernel spaces ∧
      (∀ r ≠ a, ∀ q s, m.TableOf (spaceForest kernel spaces) r q s → ∀ j,
        (vmmMap m a virt phys flags).entry s j = m.entry s j) ∧
      ∀ r q s, (vmmMap m a virt phys flags).TableOf (spaceForest kernel spaces) r q s →
        m.TableOf (spaceForest kernel spaces) r q s ∨ s ∈ m.pmm.freeStack := by
  rcases hv with hi | hv
  · obtain ⟨hkeep, hother⟩ := h.map ha phys hi hsmall
    refine ⟨hkeep, hother, fun r q s hs => ?_⟩
    obtain ⟨m₁, hg, ⟨-, heq⟩ | ⟨pt, hpt, heq⟩⟩ := h.map_cases ha phys hi hsmall
    · rw [heq] at hs
      exact (hg.tableOf_cases h.wf).2 hs
    · rw [heq] at hs
      have hs₁ := (((h.grows ha hg).setPte hpt (by simp [VPage.ptPath])
        (.inl (present_pte _ _))).2 r q s).mp hs
      exact (hg.tableOf_cases h.wf).2 hs₁
  · obtain ⟨hp, hc, hsame⟩ := entry_vmmMap_underPlainHuge h ha phys hsmall hv
    obtain ⟨hkeep, hiff⟩ := h.of_mem hp hc hsame
    exact ⟨hkeep, fun r _ q s hs j => hsame r q s hs j, fun r q s hs => .inl ((hiff r q s).mp hs)⟩

/-- What the readers return for a tree whose tables, and the kernel's, did not
    change. -/
theorem readers_eq (h : m.Spaces pool kernel spaces) (h' : m'.Spaces pool kernel spaces)
    (hsame : ∀ r ≠ a, ∀ q s, m.TableOf (spaceForest kernel spaces) r q s → ∀ j,
      m'.entry s j = m.entry s j) (ha : a ∈ spaces) {b : Word} (hb : b ∈ spaces ∧ b ≠ a ∨ b = kernel)
    (v : Word) : vmmGetPhys m' b v = vmmGetPhys m b v ∧ vmmGetFlags m' b v = vmmGetFlags m b v := by
  have hka : kernel ≠ a := Ne.symm (h.ne_kernel ha)
  have hkernel : vmmGetPhys m' kernel v = vmmGetPhys m kernel v ∧
      vmmGetFlags m' kernel v = vmmGetFlags m kernel v :=
    ⟨h.wf.vmmGetPhys_congr spaceForest_path_kernel (hsame kernel hka),
      h.wf.vmmGetFlags_congr spaceForest_path_kernel (hsame kernel hka)⟩
  rcases hb with ⟨hb, hba⟩ | rfl
  · by_cases hi : pml4Index v = 0
    · have hs : getExistingTable m b (pml4Index v) = getExistingTable m kernel (pml4Index v) :=
        getExistingTable_congr (by rw [hi, h.shared b hb])
      have hs' : getExistingTable m' b (pml4Index v) = getExistingTable m' kernel (pml4Index v) :=
        getExistingTable_congr (by rw [hi, h'.shared b hb])
      rw [vmmGetPhys_shared hs, vmmGetPhys_shared hs', vmmGetFlags_shared hs, vmmGetFlags_shared hs']
      exact hkernel
    · exact ⟨h.wf.vmmGetPhys_congr (spaceForest_path hb hi) (hsame b hba),
        h.wf.vmmGetFlags_congr (spaceForest_path hb hi) (hsame b hba)⟩
  · exact hkernel

end Shared

/-! ## §3. One step. -/

section Step

variable {pool : Finset Nat} {kernel : Word} {s s' : SpacesState} {c : UserCall}

/-- A loaded page: its mapping stays apart, and its frame is no table. -/
theorem elfLoadPage_staysApart {m : Machine} {a pageStart flags p : Word} {spaces : Finset Word}
    (elfData phdr vaddrStart : Word) (h : m.Spaces pool kernel spaces) (ha : a ∈ spaces)
    (hsmall : flags &&& pageHuge = 0)
    (hv : pml4Index (pageStart + p * 4096) ≠ 0 ∨ UnderPlainHuge m spaces (pageStart + p * 4096)) :
    (elfLoadPage m a elfData phdr vaddrStart pageStart flags p).Spaces pool kernel spaces ∧
      ∀ r ≠ a, ∀ q t, m.TableOf (spaceForest kernel spaces) r q t → ∀ j,
        (elfLoadPage m a elfData phdr vaddrStart pageStart flags p).entry t j = m.entry t j := by
  set virt := pageStart + p * 4096 with hvirt
  set m₂ := vmmMap m.allocFrame.2 a virt m.allocFrame.1 flags with hm₂
  obtain ⟨h₂, hother, htab⟩ := vmmMap_staysApart h.allocFrame ha m.allocFrame.1 hsmall hv
  -- the frame is no table, before or after the mapping
  have hframe : Aligned m.allocFrame.1 ∧
      (∀ r q, ¬ m.TableOf (spaceForest kernel spaces) r q m.allocFrame.1) ∧
      ∀ r q, ¬ m₂.TableOf (spaceForest kernel spaces) r q m.allocFrame.1 := by
    cases hst : m.pmm.freeStack with
    | nil =>
      rw [show m.allocFrame.1 = 0 by rw [Machine.allocFrame, pmmAllocFrame_nil hst]]
      exact ⟨rfl, fun r q ht => h.wf.nonzero r q 0 ht rfl, fun r q ht => h₂.wf.nonzero r q 0 ht rfl⟩
    | cons n rest =>
      obtain ⟨hn, -, hnrest, -, hfresh⟩ := h.wf.top hst
      rw [show m.allocFrame.1 = n by rw [Machine.allocFrame, pmmAllocFrame_cons hst]]
      refine ⟨hn, hfresh, fun r q ht => ?_⟩
      rcases htab r q n ht with hold | hmem
      · exact hfresh r q hold
      · rw [Machine.allocFrame, pmmAllocFrame_cons hst] at hmem
        exact hnrest hmem
  obtain ⟨hal, hbefore, hafter⟩ := hframe
  obtain ⟨hp, hc, hmem⟩ := elfFillPage_frame m₂ elfData phdr vaddrStart m.allocFrame.1 p
  have hfill : ∀ t, Aligned t → t ≠ m.allocFrame.1 → ∀ j,
      (elfLoadPage m a elfData phdr vaddrStart pageStart flags p).entry t j = m₂.entry t j :=
    fun t ht hne j => Machine.entry_congr fun x hx =>
      hmem x (Mem.not_inPage_of_ne ht hal hne hx)
  refine ⟨(h₂.of_mem hp hc fun r q t ht => hfill t (h₂.wf.aligned ht) fun he =>
    hafter r q (he ▸ ht)).1, fun r hr q t ht j => ?_⟩
  rw [hfill t (h.wf.aligned ht) (fun he => hbefore r q (he ▸ ht)) j]
  exact hother r hr q t ht j

/-- **One step** that stays apart keeps the spaces and is isolated. -/
theorem userStep_isolated (h : s.machine.Spaces pool kernel s.spaces) (hv : StaysApart s c)
    (hst : UserStep s c s') : s'.machine.Spaces pool kernel s'.spaces ∧ Isolated s s' c := by
  cases hst with
  | @create n m' hcreate hn =>
    cases hstack : s.machine.pmm.freeStack with
    | nil =>
      rw [vmmCreateAddressSpace_nil hstack] at hcreate
      exact absurd (congrArg Prod.fst hcreate).symm hn
    | cons a rest =>
      obtain ⟨heq, -, hkeep⟩ := h.create hstack
      rw [heq] at hcreate
      cases hcreate
      exact ⟨hkeep, trivial⟩
  | @elf a ha elfData phdr vaddrStart pageStart p f =>
    obtain ⟨hkeep, hsame⟩ := elfLoadPage_staysApart elfData phdr vaddrStart h ha
      (segmentFlags_small f) hv
    exact ⟨hkeep, fun b hb v _ => readers_eq h hkeep hsame ha (h.current ▸ hb) v⟩
  | @window a ha kernelBuf id i =>
    have hflags : (pageUser ||| pageWritable) &&& pageHuge = 0 := by decide
    obtain ⟨hkeep, hsame, -⟩ := vmmMap_staysApart h ha (kernelBuf + (i * 4096).setWidth 64)
      hflags hv
    exact ⟨hkeep, fun b hb v _ => readers_eq h hkeep hsame ha (h.current ▸ hb) v⟩

end Step

/-! ## §4. The calls as runs of these steps. -/

/-- The calls map into the space `a` only. -/
def MapsInto (a : Word) (c : UserCall) : Prop := c = .create ∨ ∃ v, c = .map a v

/-- A loop that maps into one space. -/
theorem foldl_run {a : Word} {spaces : Finset Word} {g : Machine → Nat → Machine}
    (hstep : ∀ m k, ∃ v, UserStep ⟨m, spaces⟩ (.map a v) ⟨g m k, spaces⟩) (l : List Nat)
    (m : Machine) :
    ∃ tr, Run UserStep ⟨m, spaces⟩ tr ⟨l.foldl g m, spaces⟩ ∧ ∀ x ∈ tr, MapsInto a x.2.1 := by
  induction l generalizing m with
  | nil => exact ⟨[], .nil _, by simp⟩
  | cons k l ih =>
    obtain ⟨v, hv⟩ := hstep m k
    obtain ⟨tr, hrun, hmaps⟩ := ih (g m k)
    refine ⟨_, ((Run.nil _).snoc hv).append hrun, fun x hx => ?_⟩
    rcases List.mem_append.mp hx with hx | hx
    · rw [List.mem_singleton.mp hx]
      exact .inr ⟨v, rfl⟩
    · exact hmaps x hx

theorem elfLoadPhdrs_run {pml4 : Word} {spaces : Finset Word} (elfData : Word)
    (hp : pml4 ∈ spaces) (fuel i : Nat) (m : Machine) :
    ∃ tr, Run UserStep ⟨m, spaces⟩ tr ⟨elfLoadPhdrs pml4 elfData fuel i m, spaces⟩ ∧
      ∀ x ∈ tr, MapsInto pml4 x.2.1 := by
  induction fuel generalizing i m with
  | zero => exact ⟨[], .nil _, by simp⟩
  | succ fuel ih =>
    unfold elfLoadPhdrs
    by_cases hi : i < (headerPhnum m.mem elfData).toNat
    · rw [if_pos hi]
      by_cases hload : phdrType m.mem (phdrAddr m.mem elfData i) = ptLoad
      · simp only [hload, if_true]
        obtain ⟨tr, hrun, hmaps⟩ := foldl_run (fun m k => ⟨_, UserStep.elf (s := ⟨m, spaces⟩) hp
          elfData _ _ _ (BitVec.ofNat 64 k) _⟩) (List.range _) m
        obtain ⟨tr', hrun', hmaps'⟩ := ih (i + 1)
          (elfLoadSegment m pml4 elfData (phdrAddr m.mem elfData i))
        refine ⟨_, hrun.append hrun', fun x hx => ?_⟩
        rcases List.mem_append.mp hx with hx | hx
        · exact hmaps x hx
        · exact hmaps' x hx
      · simp only [hload, if_false]
        exact ih (i + 1) m
    · rw [if_neg hi]
      exact ⟨[], .nil _, by simp⟩

/-- **`elf_load` is a run**: it creates a space and then maps into it. -/
theorem elfLoad_run {s : SpacesState} {elfData entryPoint pml4 : Word} {m' : Machine}
    (h : elfLoad s.machine elfData = (some (entryPoint, pml4), m')) (hp : pml4 ≠ 0) :
    ∃ tr, Run UserStep s tr ⟨m', insert pml4 s.spaces⟩ ∧ ∀ x ∈ tr, MapsInto pml4 x.2.1 := by
  unfold elfLoad at h
  split at h
  · cases h
  · cases hcreate : vmmCreateAddressSpace s.machine with
    | mk n m₁ =>
      simp only [hcreate, Prod.mk.injEq, Option.some.injEq] at h
      obtain ⟨⟨-, rfl⟩, rfl⟩ := h
      obtain ⟨tr, hrun, hmaps⟩ := elfLoadPhdrs_run elfData
        (Finset.mem_insert_self n s.spaces) 65536 0 m₁
      refine ⟨_, ((Run.nil _).snoc (.create hcreate hp)).append hrun, fun x hx => ?_⟩
      rcases List.mem_append.mp hx with hx | hx
      · rw [List.mem_singleton.mp hx]
        exact .inl rfl
      · exact hmaps x hx

/-- The mapping loop of `sys_create_window`. -/
def windowMapPages (m : Machine) (pml4 kernelBuf : Word) (id : BitVec 32) (numPages : Nat) : Machine :=
  (List.range numPages).foldl (fun m i => windowMapPage m pml4 kernelBuf id (BitVec.ofNat 32 i)) m

theorem windowMapPages_run {m : Machine} {pml4 kernelBuf : Word} {id : BitVec 32} {numPages : Nat}
    {spaces : Finset Word} (hp : pml4 ∈ spaces) :
    ∃ tr, Run UserStep ⟨m, spaces⟩ tr ⟨windowMapPages m pml4 kernelBuf id numPages, spaces⟩ ∧
      ∀ x ∈ tr, MapsInto pml4 x.2.1 :=
  foldl_run (fun m k => ⟨_, UserStep.window (s := ⟨m, spaces⟩) hp kernelBuf id (BitVec.ofNat 32 k)⟩)
    (List.range numPages) m

/-! ## §5. Isolation. -/

/-- **Address spaces are isolated** along every run whose mappings stay apart:
    below PML4 slots 1 to 511, or under a huge page of the kernel that holds
    no table. -/
theorem address_spaces_isolated {pool : Finset Nat} {m₀ : Machine}
    (hkernel : m₀.Wf pool (wholeTree m₀.currentPml4)) {tr : List (Transition SpacesState UserCall)}
    {s : SpacesState} (hrun : Run UserStep ⟨m₀, ∅⟩ tr s)
    (hapart : ∀ x ∈ tr, StaysApart x.1 x.2.1) : ∀ x ∈ tr, Isolated x.1 x.2.2 x.2.1 := by
  have hinv := hrun.step_of_mem
    (I := fun s => s.machine.Spaces pool m₀.currentPml4 s.spaces) (C := StaysApart)
    (fun s c s' h hv hst => (userStep_isolated h hv hst).1) hapart (Machine.Spaces.none hkernel)
  intro x hx
  obtain ⟨h, hst⟩ := hinv x hx
  exact (userStep_isolated h (hapart x hx) hst).2

/-! ## §6. Mappings in slot 0. -/

section Leak

variable {pool : Finset Nat} {kernel a b : Word} {spaces : Finset Word} {m : Machine}
  {virt phys flags : Word}

/-- A mapping in slot 0 outside the huge pages stores into the kernel's
    tables. -/
theorem vmmMap_slot0 (h : m.Spaces pool kernel spaces) (ha : a ∈ spaces) (phys : Word)
    (hi : pml4Index virt = 0) (hpres : Present (m.entry kernel 0)) (hsmall : flags &&& pageHuge = 0)
    (hnh : ∀ x, pageLookup m kernel (VPage.of virt) = some x → x.huge = false)
    (hfree : 3 ≤ m.pmm.freeStack.length) :
    ∃ m₁ pt, m.Grows (spaceForest kernel spaces) kernel m₁ ∧
      m₁.TableOf (spaceForest kernel spaces) kernel (VPage.of virt).ptPath pt ∧
      vmmMap m a virt phys flags = m₁.setEntry pt (VPage.of virt).pt
        ((phys &&& ~~~flagMask) ||| flags ||| pagePresent) := by
  rw [vmmMap_shared h ha hi hpres]
  obtain ⟨m₁, hg, ⟨hst, heq⟩ | ⟨hhuge, -⟩ | ⟨-, pt, hpt, heq⟩⟩ :=
    h.wf.vmmMap_cases phys flags rfl spaceForest_path_kernel fun _ => hnh
  · have hfail := vmmMap_allocFailures hfree kernel virt phys flags
    rw [heq, Machine.allocFrame, pmmAllocFrame_nil hst, ← hg.allocFailures] at hfail
    exact absurd hfail (Nat.succ_ne_self _)
  · exact absurd hsmall hhuge
  · exact ⟨m₁, pt, hg, hpt, heq⟩

/-- **The leak**: a page of a segment loaded in slot 0, outside the huge pages
    of the identity map, appears with its flags in every other space. -/
theorem slot0_mapping_leaks (elfData phdr vaddrStart : Word) {pageStart p : Word}
    (h : m.Spaces pool kernel spaces) (ha : a ∈ spaces) (hb : b ∈ spaces)
    (hi : pml4Index (pageStart + p * 4096) = 0) (hpres : Present (m.entry kernel 0))
    (hlow : LowFlags flags) (hsmall : flags &&& pageHuge = 0)
    (hnh : ∀ x, pageLookup m kernel (VPage.of (pageStart + p * 4096)) = some x → x.huge = false)
    (hfree : 4 ≤ m.pmm.freeStack.length) :
    vmmGetFlags (elfLoadPage m a elfData phdr vaddrStart pageStart flags p) b
      (pageStart + p * 4096) = flags ||| pagePresent := by
  set virt := pageStart + p * 4096 with hvirt
  obtain ⟨n, rest, hst⟩ : ∃ n rest, m.pmm.freeStack = n :: rest := by
    cases hst : m.pmm.freeStack with
    | nil => rw [hst] at hfree; cases hfree
    | cons n rest => exact ⟨n, rest, rfl⟩
  obtain ⟨hn, -, hnrest, -, hfresh⟩ := h.wf.top hst
  have hframe : m.allocFrame.1 = n := by rw [Machine.allocFrame, pmmAllocFrame_cons hst]
  have hrest : m.allocFrame.2.pmm.freeStack = rest := by
    rw [Machine.allocFrame, pmmAllocFrame_cons hst]
  have hlen : 3 ≤ m.allocFrame.2.pmm.freeStack.length := by
    rw [hst, List.length_cons] at hfree
    rw [hrest]
    omega
  obtain ⟨m₁, pt, hg, hpt, heq⟩ := vmmMap_slot0 h.allocFrame ha n hi hpres hsmall hnh hlen
  set pte := (n &&& ~~~flagMask) ||| flags ||| pagePresent with hpte
  have hwf₁ := hg.wf h.wf.allocFrame
  have hleaf : ∀ e, pageChild (VPage.of virt).ptPath.length e = none :=
    pageChild_leaf (by simp [VPage.ptPath])
  have hwf₂ : (m₁.setEntry pt (VPage.of virt).pt pte).Wf pool (spaceForest kernel spaces) :=
    hwf₁.setLeaf hpt (hleaf _) (.inl (present_pte _ _))
  have hiff : ∀ r q s, (m₁.setEntry pt (VPage.of virt).pt pte).TableOf (spaceForest kernel spaces)
      r q s ↔ m₁.TableOf (spaceForest kernel spaces) r q s := fun r q s =>
    hwf₁.tableOf_setLeaf hpt (hleaf _) (hleaf _)
  -- the frame itself is no table, so filling it changes no entry
  have hfill : ∀ r q t, (m₁.setEntry pt (VPage.of virt).pt pte).TableOf
      (spaceForest kernel spaces) r q t → ∀ j,
      (elfLoadPage m a elfData phdr vaddrStart pageStart flags p).entry t j
        = (m₁.setEntry pt (VPage.of virt).pt pte).entry t j := by
    intro r q t ht j
    have htn : t ≠ n := by
      rintro rfl
      rcases (hg.tableOf_cases h.wf.allocFrame).2 ((hiff _ _ _).mp ht) with hold | hmem
      · exact hfresh r q hold
      · exact hnrest (hrest ▸ hmem)
    have hload : elfLoadPage m a elfData phdr vaddrStart pageStart flags p = elfCopyPage
        ((m₁.setEntry pt (VPage.of virt).pt pte).memset n 0 4096) elfData phdr vaddrStart n p := by
      rw [← heq]
      show elfCopyPage ((vmmMap m.allocFrame.2 a virt m.allocFrame.1 flags).memset m.allocFrame.1 0
        4096) elfData phdr vaddrStart m.allocFrame.1 p = _
      rw [hframe]
    rw [hload]
    exact Machine.entry_congr fun x hx => (elfFillPage_frame _ elfData phdr vaddrStart n p).2.2 x
      (Mem.not_inPage_of_ne (hwf₂.aligned ht) hn htn hx)
  -- the space `b` reaches the kernel's table through its own slot 0
  have hpdpt : m.TableOf (spaceForest kernel spaces) kernel [pml4Index virt]
      (m.entry kernel 0 &&& ~~~flagMask) := by
    refine ⟨spaceForest_path_kernel, ?_⟩
    rw [tableAt_cons tableAt_nil, hi]
    exact pageChild_of_present hpres (by simp) (by simp)
  have hpdpt₂ := (hiff _ _ _).mpr (hg.tableOf h.wf.allocFrame hpdpt)
  have hb₂ := (hiff _ _ _).mpr (hg.tableOf h.wf.allocFrame (Machine.Spaces.root_table hb))
  have hbentry : (m₁.setEntry pt (VPage.of virt).pt pte).entry b (pml4Index virt)
      = m.entry b (pml4Index virt) := by
    rw [hwf₁.entry_setEntry_of hpt ((hiff _ _ _).mp hb₂), if_neg fun he => h.ne_kernel hb he.1,
      hg.entry_other h.wf.allocFrame (h.ne_kernel hb) (Machine.Spaces.root_table hb)]
    rfl
  have hshared : getExistingTable (elfLoadPage m a elfData phdr vaddrStart pageStart flags p) b
        (pml4Index virt)
      = getExistingTable (elfLoadPage m a elfData phdr vaddrStart pageStart flags p) kernel
        (pml4Index virt) := by
    rw [getExistingTable_congr (hfill _ _ _ hb₂ _), getExistingTable_congr hbentry,
      getExistingTable_congr (hfill _ _ _ Machine.Spaces.kernel_table _),
      Machine.Wf.getExistingTable_of_tableOf Machine.Spaces.kernel_table hpdpt₂,
      ← Machine.Wf.getExistingTable_of_tableOf Machine.Spaces.kernel_table hpdpt]
    exact getExistingTable_congr (by rw [hi, h.shared b hb])
  rw [vmmGetFlags_shared hshared, hwf₂.vmmGetFlags_congr spaceForest_path_kernel (hfill kernel),
    hwf₂.vmmGetFlags_eq spaceForest_path_kernel,
    hwf₁.pageLookup_setPte hpt spaceForest_path_kernel, if_pos ⟨rfl, rfl⟩,
    if_pos (present_pte n flags), pte_flags hlow]
  rfl

end Leak

/-! ## §7. Two spaces after boot. -/

/-- The first two address spaces of a machine with eight free frames. -/
def firstSpaces : Finset Word := insert 0x206000 (insert 0x207000 ∅)

theorem mem_firstSpaces : (0x206000 : Word) ∈ firstSpaces ∧ (0x207000 : Word) ∈ firstSpaces :=
  ⟨Finset.mem_insert_self _ _, Finset.mem_insert_of_mem (Finset.mem_insert_self _ _)⟩

/-- Two address spaces created after boot, with six free frames left. -/
theorem boot_two_spaces :
    ∃ m tr, Run UserStep ⟨bootMachine (smallPmm 8), ∅⟩ tr ⟨m, firstSpaces⟩ ∧
      (∀ x ∈ tr, x.2.1 = UserCall.create) ∧
      m.Spaces (bootPool (smallPmm 8)) p4Table firstSpaces ∧
      m.pmm.freeStack.length = 6 ∧ m.entry p4Table 0 = p3Table ||| 0b11 ∧ m.entry p3Table 4 = 0 := by
  have h₀ : (bootMachine (smallPmm 8)).Spaces (bootPool (smallPmm 8)) p4Table ∅ :=
    Machine.Spaces.none (m := bootMachine (smallPmm 8)) (bootMachine_small_wf (by decide))
  obtain ⟨rest, hst₀, hrest⟩ : ∃ rest, (bootMachine (smallPmm 8)).pmm.freeStack
      = 0x207000 :: 0x206000 :: rest ∧ rest.length = 6 := ⟨_, freeStack_smallPmm 8, rfl⟩
  obtain ⟨hc₁, -, h₁⟩ := h₀.create hst₀
  set v := (bootMachine (smallPmm 8)).entry p4Table 0 with hv
  have hst₁ := freeStack_createdSpace (v := v) hst₀
  obtain ⟨hc₂, -, h₂⟩ := h₁.create hst₁
  have hentry : ∀ (t : Word) (i : Fin 512), Aligned t → t ≠ 0x206000 → t ≠ 0x207000 → ∀ w,
      (((bootMachine (smallPmm 8)).createdSpace 0x207000 v).createdSpace 0x206000 w).entry t i
        = bootEntry t i := by
    intro t i ht h6 h7 w
    rw [entry_createdSpace (by decide) ht, if_neg h6, entry_createdSpace (by decide) ht, if_neg h7,
      entry_bootMachine _ ht]
  have hs₁ := UserStep.create (s := ⟨bootMachine (smallPmm 8), ∅⟩) hc₁ (by decide)
  have hs₂ := UserStep.create
    (s := ⟨(bootMachine (smallPmm 8)).createdSpace 0x207000 v, insert 0x207000 ∅⟩) hc₂ (by decide)
  refine ⟨_, _, ((Run.nil _).snoc hs₁).snoc hs₂, ?_, h₂, ?_, ?_, ?_⟩
  · simp
  · rw [freeStack_createdSpace hst₁, hrest]
  · rw [hentry _ _ (by decide) (by decide) (by decide)]
    decide
  · rw [hentry _ _ (by decide) (by decide) (by decide)]
    decide

/-- A page loaded at the start of PML4 slot 1 of one space is not seen by the
    other. -/
theorem address_spaces_isolated_slot1 :
    ∃ (m : Machine) (tr : List (Transition SpacesState UserCall)),
      (∀ x ∈ tr, StaysApart x.1 x.2.1) ∧ ∀ x ∈ tr ++
        [((⟨m, firstSpaces⟩ : SpacesState), UserCall.map 0x207000 (0x8000000000 + 0 * 4096),
          (⟨elfLoadPage m 0x207000 0 0 0x8000000000 0x8000000000 (segmentFlags 6) 0,
            firstSpaces⟩ : SpacesState))], Isolated x.1 x.2.2 x.2.1 := by
  obtain ⟨m, tr, hrun, hcreate, -⟩ := boot_two_spaces
  have hapart : ∀ x ∈ tr, StaysApart x.1 x.2.1 := fun x hx => by
    rw [hcreate x hx]
    trivial
  have hstep := UserStep.elf (s := ⟨m, firstSpaces⟩) (a := 0x207000) mem_firstSpaces.2 0 0
    0x8000000000 0x8000000000 0 6
  refine ⟨m, tr, hapart, address_spaces_isolated
    (bootMachine_small_wf (n := 8) (by decide)) (hrun.snoc hstep) fun x hx => ?_⟩
  rcases List.mem_append.mp hx with hx | hx
  · exact hapart x hx
  · rw [List.mem_singleton.mp hx]
    exact .inl (by decide)

/-- **A segment at 4 GiB is seen by the other space**: its page table hangs
    below the kernel's page-directory-pointer table. -/
theorem elf_at_4GiB_not_isolated :
    ¬ ∀ (pool : Finset Nat) (m₀ : Machine) (tr : List (Transition SpacesState UserCall))
        (s : SpacesState), m₀.Wf pool (wholeTree m₀.currentPml4) → Run UserStep ⟨m₀, ∅⟩ tr s →
        ∀ x ∈ tr, Isolated x.1 x.2.2 x.2.1 := by
  intro hall
  obtain ⟨m, tr, hrun, -, h, hfree, hk, h4⟩ := boot_two_spaces
  have hstep := UserStep.elf (s := ⟨m, firstSpaces⟩) (a := 0x207000) mem_firstSpaces.2 0 0
    0x100000000 0x100000000 0 4
  have hiso := hall _ _ _ _ (bootMachine_small_wf (n := 8) (by decide)) (hrun.snoc hstep) _
    (List.mem_append_right _ (List.mem_singleton_self _)) 0x206000
    (.inl ⟨mem_firstSpaces.1, by decide⟩) (0x100000000 + 0 * 4096) (by decide)
  -- before the load the page is not mapped
  have hwalk : tableAt pageChild m.entry p4Table [0] = some p3Table := by
    rw [tableAt_cons tableAt_nil, hk]
    decide
  have hnopd : tableAt pageChild m.entry p4Table (VPage.of (0x100000000 + 0 * 4096)).pdPath = none := by
    rw [show (VPage.of (0x100000000 + 0 * 4096)).pdPath = [4, 0] by decide, tableAt_cons hwalk, h4,
      pageChild_zero]
  have hnone : pageLookup m p4Table (VPage.of (0x100000000 + 0 * 4096)) = none :=
    pageLookup_eq_none (tableAt_none_of_suffix hnopd (List.suffix_cons _ _)) fun pd hpd => by
      rw [hnopd] at hpd
      cases hpd
  have hbefore : vmmGetFlags m 0x206000 (0x100000000 + 0 * 4096) = 0 := by
    have hshared : getExistingTable m 0x206000 (pml4Index (0x100000000 + 0 * 4096))
        = getExistingTable m p4Table (pml4Index (0x100000000 + 0 * 4096)) :=
      getExistingTable_congr (h.shared 0x206000 mem_firstSpaces.1)
    rw [vmmGetFlags_shared hshared, h.wf.vmmGetFlags_eq spaceForest_path_kernel, hnone]
    rfl
  have hafter : vmmGetFlags (elfLoadPage m 0x207000 0 0 0x100000000 0x100000000 (segmentFlags 4) 0)
      0x206000 (0x100000000 + 0 * 4096) = segmentFlags 4 ||| pagePresent :=
    slot0_mapping_leaks 0 0 0x100000000 h mem_firstSpaces.2 mem_firstSpaces.1 (by decide)
      (by rw [hk]; decide) (segmentFlags_low _) (segmentFlags_small _)
      (fun x hx => by rw [hnone] at hx; cases hx) (by omega)
  rw [hbefore, hafter] at hiso
  exact absurd hiso.2 (by decide)

end ZohoOs
