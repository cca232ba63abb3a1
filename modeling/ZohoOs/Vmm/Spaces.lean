/-
  ZohoOs.Vmm.Spaces — all address spaces at once.

  The kernel's tree and the trees of the live address spaces form one forest:
  the kernel owns all of its tree, a space owns what hangs below its slots 1
  to 511, and slot 0 of every space is a copy of the kernel's.
  `Machine.Spaces` says that this forest is well formed and that the spaces
  hold 4 KiB pages only.  Creating a space, growing its tree, storing a page
  and writing to memory that is no table keep it.
-/
import ZohoOs.Vmm.Space

namespace ZohoOs

open ZohoOs.Lib
open ZohoOs.Lib.Mem (Aligned InPage)
open ZohoOs.Lib.Radix

/-! ## §1. The forest. -/

/-- The kernel's tree under `kernel` and the trees of the spaces `roots`. -/
def spaceForest (kernel : Word) (roots : Finset Word) : PageForest where
  roots := insert kernel ↑roots
  slots := fun r => if r = kernel then Set.univ else userSlots

section Forest

variable {kernel r n : Word} {roots : Finset Word} {p : List (Fin 512)} {i : Fin 512}

theorem spaceForest_path_kernel : (spaceForest kernel roots).Path kernel p :=
  ⟨Set.mem_insert _ _, fun i _ => by simp [spaceForest]⟩

theorem spaceForest_path_nil (hr : r ∈ roots) : (spaceForest kernel roots).Path r [] :=
  Forest.Path.root (Set.mem_insert_of_mem _ hr)

theorem spaceForest_path (hr : r ∈ roots) (hi : i ≠ 0) : (spaceForest kernel roots).Path r [i] := by
  refine (spaceForest_path_nil hr).cons fun _ => ?_
  by_cases hk : r = kernel
  · simp [spaceForest, hk]
  · simp [spaceForest, hk, userSlots, hi]

theorem spaceForest_path_ne (hk : r ≠ kernel) (h : (spaceForest kernel roots).Path r [i]) :
    i ≠ 0 := by
  have hi : i ∈ (spaceForest kernel roots).slots r := h.2 i rfl
  simpa [spaceForest, hk, userSlots] using hi

theorem spaceForest_mem (hk : r ≠ kernel) (h : (spaceForest kernel roots).Path r p) : r ∈ roots :=
  (Set.mem_insert_iff.mp h.1).resolve_left hk

theorem spaceForest_addRoot (hn : n ≠ kernel) :
    (spaceForest kernel roots).addRoot n userSlots = spaceForest kernel (insert n roots) := by
  simp only [Forest.addRoot, spaceForest, Finset.coe_insert, Set.insert_comm n kernel,
    Forest.mk.injEq, true_and]
  funext r
  by_cases hr : r = n
  · subst hr; simp [hn]
  · simp [hr]

end Forest

/-! ## §2. The invariant. -/

/-- **The live address spaces**: the kernel and the spaces `roots` form a
    well-formed forest, every space shares the kernel's slot 0, and above its
    page tables a space holds nothing but tables. -/
structure Machine.Spaces (pool : Finset Nat) (kernel : Word) (roots : Finset Word) (m : Machine) :
    Prop where
  wf : m.Wf pool (spaceForest kernel roots)
  current : m.currentPml4 = kernel
  kernel_notMem : kernel ∉ roots
  shared : ∀ r ∈ roots, m.entry r 0 = m.entry kernel 0
  slots : ∀ r ∈ roots, ∀ p t i, m.TableOf (spaceForest kernel roots) r p t → p.length < 3 →
    (p = [] → i ≠ 0) → m.entry t i = 0 ∨ ∃ n, Aligned n ∧ m.entry t i = tableEntry n

/-- A smaller forest of a well-formed one is well formed. -/
theorem Machine.Wf.mono {pool : Finset Nat} {F F' : PageForest} {m : Machine} (h : m.Wf pool F)
    (hroots : F'.roots ⊆ F.roots) (hslots : ∀ r ∈ F'.roots, F'.slots r ⊆ F.slots r) :
    m.Wf pool F' := by
  have hpath : ∀ {r p}, F'.Path r p → F.Path r p := fun hp =>
    ⟨hroots hp.1, fun i hi => hslots _ hp.1 (hp.2 i hi)⟩
  exact ⟨h.pmm, h.zero, fun r hr => h.root r (hroots hr), h.sep.mono hroots hslots,
    fun r p t ht => h.nonzero r p t ⟨hpath ht.1, ht.2⟩,
    fun r p t ht => h.notFree r p t ⟨hpath ht.1, ht.2⟩,
    fun r p t i ht hp => h.clean r p t i ⟨hpath ht.1, ht.2⟩ (hpath hp)⟩

section Shared

variable {pool : Finset Nat} {kernel r : Word} {m : Machine}

/-- The tree of a space next to the kernel's, as a tree of its own: a table
    below slot 0 is a table of the kernel. -/
theorem tableOf_of_shared (hshared : m.entry r 0 = m.entry kernel 0) {q : List (Fin 512)} {s : Word}
    (hs : tableAt pageChild m.entry r q = some s) :
    m.TableOf (spaceForest kernel {r}) r q s ∨
      ((∃ front, q = front ++ [0]) ∧ m.TableOf (spaceForest kernel {r}) kernel q s) := by
  rcases path_cases q with rfl | ⟨front, i, rfl⟩
  · exact .inl ⟨spaceForest_path_nil (Finset.mem_singleton_self r), hs⟩
  · by_cases hi : i = 0
    · subst hi
      rw [tableAt_of_shared_slot hshared (fun _ _ _ _ => rfl)] at hs
      exact .inr ⟨⟨front, rfl⟩, spaceForest_path_kernel, hs⟩
    · refine .inl ⟨⟨Set.mem_insert_of_mem _ (Finset.mem_coe.mpr (Finset.mem_singleton_self r)), ?_⟩, hs⟩
      intro j hj
      rw [List.getLast?_concat, Option.some.injEq] at hj
      rw [← hj]
      exact (spaceForest_path (Finset.mem_singleton_self r) hi).2 i rfl

/-- **A space that shares the kernel's slot 0 is well formed as a tree.** -/
theorem Machine.Wf.wholeTree_of_shared (h : m.Wf pool (spaceForest kernel {r}))
    (hshared : m.entry r 0 = m.entry kernel 0) : m.Wf pool (wholeTree r) := by
  have hroot : r ∈ (spaceForest kernel {r}).roots := by simp [spaceForest]
  have htab : ∀ {r' q s}, m.TableOf (wholeTree r) r' q s → r' = r ∧
      (m.TableOf (spaceForest kernel {r}) r q s ∨
        ((∃ front, q = front ++ [0]) ∧ m.TableOf (spaceForest kernel {r}) kernel q s)) := by
    intro r' q s hs
    obtain ⟨rfl, hs⟩ := wholeTree_tableOf.mp hs
    exact ⟨rfl, tableOf_of_shared hshared hs⟩
  refine ⟨h.pmm, h.zero, ?_, ?_, ?_, ?_, ?_⟩
  · intro r' hr'
    rw [Set.mem_singleton_iff.mp hr']
    exact h.root r hroot
  · intro r₁ p₁ r₂ p₂ s h₁ h₂
    obtain ⟨rfl, h₁⟩ := htab h₁
    obtain ⟨rfl, h₂⟩ := htab h₂
    refine ⟨rfl, ?_⟩
    rcases h₁ with h₁ | ⟨-, h₁⟩ <;> rcases h₂ with h₂ | ⟨-, h₂⟩ <;>
      exact (h.sep _ _ _ _ _ h₁ h₂).2
  · intro r' q s hs
    obtain ⟨-, hs | ⟨-, hs⟩⟩ := htab hs
    · exact h.nonzero _ _ _ hs
    · exact h.nonzero _ _ _ hs
  · intro r' q s hs
    obtain ⟨-, hs | ⟨-, hs⟩⟩ := htab hs
    · exact h.notFree _ _ _ hs
    · exact h.notFree _ _ _ hs
  · intro r' q s j hs _
    obtain ⟨-, hs | ⟨-, hs⟩⟩ := htab hs
    · by_cases hj : q = [] ∧ j = 0
      · obtain ⟨rfl, rfl⟩ := hj
        rw [← Option.some.inj hs.2, hshared]
        exact h.clean kernel [] kernel 0 ⟨spaceForest_path_kernel, rfl⟩ spaceForest_path_kernel
      · refine h.clean _ _ _ j hs (hs.1.cons fun hq => ?_)
        have hj' : j ≠ 0 := fun hz => hj ⟨hq, hz⟩
        exact (spaceForest_path (Finset.mem_singleton_self r) hj').2 j rfl
    · exact h.clean _ _ _ j hs spaceForest_path_kernel

end Shared

namespace Machine.Spaces

variable {pool : Finset Nat} {kernel r t n : Word} {roots : Finset Word} {m m' : Machine}
  {p : List (Fin 512)} {i : Fin 512} {rest : List Word}

/-- Before any space was created. -/
theorem none (h : m.Wf pool (wholeTree m.currentPml4)) : m.Spaces pool m.currentPml4 ∅ := by
  refine ⟨h.mono (by simp [spaceForest, wholeTree]) (fun _ _ => Set.subset_univ _), rfl, by simp,
    by simp, by simp⟩

theorem root_table (hr : r ∈ roots) : m.TableOf (spaceForest kernel roots) r [] r :=
  ⟨spaceForest_path_nil hr, rfl⟩

theorem kernel_table : m.TableOf (spaceForest kernel roots) kernel [] kernel :=
  ⟨spaceForest_path_kernel, rfl⟩

/-- The kernel's tree on its own. -/
theorem kernelTree (h : m.Spaces pool kernel roots) : m.Wf pool (wholeTree kernel) := by
  refine h.wf.mono ?_ ?_
  · rintro r hr
    rw [Set.mem_singleton_iff.mp hr]
    exact Set.mem_insert _ _
  · rintro r hr
    rw [Set.mem_singleton_iff.mp hr]
    simp [spaceForest]

theorem ne_kernel (h : m.Spaces pool kernel roots) (hr : r ∈ roots) : r ≠ kernel := fun he =>
  h.kernel_notMem (he ▸ hr)

/-- A space holds no huge page. -/
theorem not_huge (h : m.Spaces pool kernel roots) (hr : r ∈ roots)
    (ht : m.TableOf (spaceForest kernel roots) r p t) (hlen : p.length < 3) (hi : p = [] → i ≠ 0) :
    ¬ Huge (m.entry t i) := by
  rcases h.slots r hr p t i ht hlen hi with hz | ⟨n, hn, he⟩
  · rw [hz]; exact not_huge_zero
  · rw [he]; exact not_huge_tableEntry hn

/-- A mapped page of a space has a page table, and its entry there. -/
theorem lookup_pt (h : m.Spaces pool kernel roots) (hr : r ∈ roots) {vp : VPage}
    (hvp : vp.pml4 ≠ 0) {x : Mapping} (hx : pageLookup m r vp = some x) :
    ∃ pt, m.TableOf (spaceForest kernel roots) r vp.ptPath pt ∧ Present (m.entry pt vp.pt) ∧
      x = ⟨m.entry pt vp.pt &&& ~~~flagMask, m.entry pt vp.pt &&& flagMask, false⟩ := by
  cases hpt : tableAt pageChild m.entry r vp.ptPath with
  | some pt =>
    rw [pageLookup_of_pt hpt] at hx
    split at hx
    · rename_i hp
      exact ⟨pt, ⟨Machine.Wf.path_pt (spaceForest_path hr hvp), hpt⟩, hp, (Option.some.inj hx).symm⟩
    · cases hx
  | none =>
    rw [pageLookup_eq_none hpt fun pd hpd => h.not_huge hr
      ⟨Machine.Wf.path_pd (spaceForest_path hr hvp), hpd⟩ (by simp [VPage.pdPath])
      (by simp [VPage.pdPath])] at hx
    cases hx

theorem lookup_small (h : m.Spaces pool kernel roots) (hr : r ∈ roots) {vp : VPage}
    (hvp : vp.pml4 ≠ 0) {x : Mapping} (hx : pageLookup m r vp = some x) : x.huge = false := by
  obtain ⟨pt, -, -, rfl⟩ := h.lookup_pt hr hvp hx
  rfl

/-! ## §3. Memory that is no table. -/

/-- A change of the allocator alone that frees no table. -/
theorem of_pmm (h : m.Spaces pool kernel roots) {p' : Pmm} (hp : p'.Inv pool)
    (hfree : ∀ r p t, m.TableOf (spaceForest kernel roots) r p t → t ∉ p'.freeStack) :
    ({ m with pmm := p' } : Machine).Spaces pool kernel roots :=
  ⟨h.wf.of_pmm hp hfree, h.current, h.kernel_notMem, h.shared, h.slots⟩

theorem allocFrame (h : m.Spaces pool kernel roots) : m.allocFrame.2.Spaces pool kernel roots :=
  ⟨h.wf.allocFrame, h.current, h.kernel_notMem, h.shared, h.slots⟩

/-- A change of the memory outside every table. -/
theorem of_mem (h : m.Spaces pool kernel roots) (hp : m'.pmm = m.pmm)
    (hc : m'.currentPml4 = m.currentPml4)
    (hmem : ∀ r q s, m.TableOf (spaceForest kernel roots) r q s → ∀ j, m'.entry s j = m.entry s j) :
    m'.Spaces pool kernel roots ∧ ∀ r q s, m'.TableOf (spaceForest kernel roots) r q s ↔
      m.TableOf (spaceForest kernel roots) r q s := by
  obtain ⟨hwf, hiff⟩ := h.wf.of_mem hp hmem
  refine ⟨⟨hwf, hc.trans h.current, h.kernel_notMem, fun r hr => ?_, fun r hr p t i ht hlen hi => ?_⟩,
    hiff⟩
  · rw [hmem _ _ _ (root_table hr), hmem _ _ _ kernel_table, h.shared r hr]
  · have ht' := (hiff _ _ _).mp ht
    rw [hmem _ _ _ ht']
    exact h.slots r hr p t i ht' hlen hi

/-! ## §4. Stores to the tables of a space. -/

/-- The slot a store to a user table hits is not one the spaces share. -/
theorem slot_ne (h : m.Spaces pool kernel roots) (hr : r ∈ roots)
    (ht : m.TableOf (spaceForest kernel roots) r p t)
    (hpath : (spaceForest kernel roots).Path r (i :: p)) {r' : Word}
    (hs : m.TableOf (spaceForest kernel roots) r' [] r') : ¬ (r' = t ∧ (0 : Fin 512) = i) := by
  rintro ⟨rfl, rfl⟩
  obtain ⟨rfl, rfl⟩ := h.wf.sep _ _ _ _ _ ht hs
  exact spaceForest_path_ne (h.ne_kernel hr) hpath rfl

/-- Attaching a fresh table. -/
theorem attach (h : m.Spaces pool kernel roots) (hr : r ∈ roots)
    (ht : m.TableOf (spaceForest kernel roots) r p t) (hlen : p.length < 3)
    (hpath : (spaceForest kernel roots).Path r (i :: p)) (hz : m.entry t i = 0)
    (hst : m.pmm.freeStack = n :: rest) : (m.attachTable t i n).Spaces pool kernel roots := by
  obtain ⟨hn, -, -, -, hfresh⟩ := h.wf.top hst
  have hal := h.wf.aligned ht
  have hne : n ≠ t := fun he => hfresh r p (he ▸ ht)
  have hroot : ∀ r', m.TableOf (spaceForest kernel roots) r' [] r' →
      (m.attachTable t i n).entry r' 0 = m.entry r' 0 := fun r' hs => by
    rw [Machine.Wf.entry_attachTable hn hal (h.wf.aligned hs) hne,
      if_neg (show r' ≠ n from fun he => hfresh r' [] (he ▸ hs)),
      write_other _ _ (h.slot_ne hr ht hpath hs)]
  refine ⟨h.wf.attachTable ht hlen hpath (pageChild_of_zero hz) hst, ?_, h.kernel_notMem, ?_, ?_⟩
  · rw [Machine.attachTable, Machine.currentPml4_setEntry, currentPml4_zeroTable]
    exact h.current
  · intro r' hr'
    rw [hroot r' (root_table hr'), hroot kernel kernel_table, h.shared r' hr']
  · intro r' hr' q s j hs hq hj
    rcases (h.wf.tableOf_attachTable ht hlen hpath (pageChild_of_zero hz) hst).mp hs with
      hs | ⟨-, -, rfl⟩
    · rw [Machine.Wf.entry_attachTable hn hal (h.wf.aligned hs) hne,
        if_neg (show s ≠ n from fun he => hfresh r' q (he ▸ hs))]
      by_cases hst' : s = t ∧ j = i
      · obtain ⟨rfl, rfl⟩ := hst'
        rw [write_self]
        exact .inr ⟨n, hn, rfl⟩
      · rw [write_other _ _ hst']
        exact h.slots r' hr' q s j hs hq hj
    · rw [Machine.Wf.entry_attachTable hn hal hn hne, if_pos rfl]
      exact .inl rfl

theorem grows (h : m.Spaces pool kernel roots) (hr : r ∈ roots)
    (hg : m.Grows (spaceForest kernel roots) r m') : m'.Spaces pool kernel roots := by
  induction hg with
  | refl => exact h
  | attach _ ht hlen hpath hz hst ih => exact ih.attach hr ht hlen hpath hz hst

/-- Storing an entry of a page table. -/
theorem setPte (h : m.Spaces pool kernel roots)
    (ht : m.TableOf (spaceForest kernel roots) r p t) (hlen : p.length = 3) {v : Word}
    (hv : Present v ∨ v = 0) :
    (m.setEntry t i v).Spaces pool kernel roots ∧
      ∀ r q s, (m.setEntry t i v).TableOf (spaceForest kernel roots) r q s ↔
        m.TableOf (spaceForest kernel roots) r q s := by
  have hleaf : ∀ e, pageChild p.length e = .none := pageChild_leaf (by omega)
  have hiff : ∀ r q s, (m.setEntry t i v).TableOf (spaceForest kernel roots) r q s ↔
      m.TableOf (spaceForest kernel roots) r q s := fun r q s =>
    h.wf.tableOf_setLeaf ht (hleaf _) (hleaf _)
  have hkeep : ∀ {r' q s j}, m.TableOf (spaceForest kernel roots) r' q s → q.length < 3 →
      (m.setEntry t i v).entry s j = m.entry s j := by
    intro r' q s j hs hq
    rw [h.wf.entry_setEntry_of ht hs, if_neg]
    rintro ⟨-, rfl, -⟩
    omega
  refine ⟨⟨h.wf.setLeaf ht (hleaf _) hv, h.current, h.kernel_notMem, fun r' hr' => ?_,
    fun r' hr' q s j hs hq hj => ?_⟩, hiff⟩
  · rw [hkeep (root_table hr') (by simp), hkeep kernel_table (by simp), h.shared r' hr']
  · have hs' := (hiff _ _ _).mp hs
    rw [hkeep hs' hq]
    exact h.slots r' hr' q s j hs' hq hj

/-! ## §5. Creating a space. -/

/-- **A new space**: a fresh root, with the kernel's slot 0 and nothing else. -/
theorem create (h : m.Spaces pool kernel roots) (hst : m.pmm.freeStack = n :: rest) :
    vmmCreateAddressSpace m = (n, m.createdSpace n (m.entry kernel 0)) ∧ n ∉ roots ∧
      (m.createdSpace n (m.entry kernel 0)).Spaces pool kernel (insert n roots) := by
  obtain ⟨hn, hn0, -, -, hfresh⟩ := h.wf.top hst
  have hnk : n ≠ kernel := fun he => hfresh kernel [] (he ▸ kernel_table)
  have hnr : n ∉ roots := fun hmem => hfresh n [] (root_table hmem)
  have hentry : ∀ {r q s j}, m.TableOf (spaceForest kernel roots) r q s →
      (m.createdSpace n (m.entry kernel 0)).entry s j = m.entry s j := fun hs => by
    rw [entry_createdSpace hn (h.wf.aligned hs), if_neg (fun he => hfresh _ _ (he ▸ hs))]
  have hslot : (zeroTable m.allocFrame.2 n).entry kernel 0 = m.entry kernel 0 :=
    entry_zeroTable_of_ne hn (h.wf.aligned kernel_table) (Ne.symm hnk) 0
  refine ⟨?_, hnr, ?_⟩
  · rw [vmmCreateAddressSpace_cons hst hn0, h.current, hslot]
  have hwf := h.wf.createdSpace (v := m.entry kernel 0) hst
  rw [spaceForest_addRoot hnk] at hwf
  refine ⟨hwf, ?_, ?_, ?_, ?_⟩
  · rw [currentPml4_createdSpace, h.current]
  · rw [Finset.mem_insert, not_or]
    exact ⟨Ne.symm hnk, h.kernel_notMem⟩
  · intro r hr
    rw [hentry kernel_table]
    rcases Finset.mem_insert.mp hr with rfl | hr
    · rw [entry_createdSpace hn hn, if_pos rfl, if_pos rfl]
    · rw [hentry (root_table hr), h.shared r hr]
  · intro r hr p t i ht hlen hi
    rw [← spaceForest_addRoot hnk] at ht
    rcases (tableOf_createdSpace h.wf hst).mp ht with ht | ⟨-, rfl, rfl⟩
    · rw [hentry ht]
      exact h.slots r (spaceForest_mem (fun he => h.kernel_notMem (by
        subst he; exact (Finset.mem_insert.mp hr).resolve_left (Ne.symm hnk))) ht.1) p t i ht hlen hi
    · rw [entry_createdSpace hn hn, if_pos rfl, if_neg (hi rfl)]
      exact .inl rfl

/-! ## §6. Mapping a page of a space. -/

/-- What a 4 KiB `vmm_map` below the slots of a space can do. -/
theorem map_cases (h : m.Spaces pool kernel roots) (hr : r ∈ roots) {virt flags : Word}
    (phys : Word) (hi : pml4Index virt ≠ 0) (hsmall : flags &&& pageHuge = 0) :
    ∃ m₁, m.Grows (spaceForest kernel roots) r m₁ ∧
      ((m₁.pmm.freeStack = [] ∧ vmmMap m r virt phys flags = m₁.allocFrame.2) ∨
       ∃ pt, m₁.TableOf (spaceForest kernel roots) r (VPage.of virt).ptPath pt ∧
        vmmMap m r virt phys flags = m₁.setEntry pt (VPage.of virt).pt
          ((phys &&& ~~~flagMask) ||| flags ||| pagePresent)) := by
  obtain ⟨m₁, hg, hfail | ⟨hhuge, -⟩ | ⟨-, hpt⟩⟩ :=
    h.wf.vmmMap_cases phys flags rfl (spaceForest_path hr hi)
      fun _ x hx => h.lookup_small hr hi hx
  · exact ⟨m₁, hg, .inl hfail⟩
  · exact absurd hsmall hhuge
  · exact ⟨m₁, hg, .inr hpt⟩

/-- **Mapping a page of one space** keeps the spaces, and no table of another
    space or of the kernel changes. -/
theorem map (h : m.Spaces pool kernel roots) (hr : r ∈ roots) {virt flags : Word}
    (phys : Word) (hi : pml4Index virt ≠ 0) (hsmall : flags &&& pageHuge = 0) :
    (vmmMap m r virt phys flags).Spaces pool kernel roots ∧
      ∀ r' ≠ r, ∀ q s, m.TableOf (spaceForest kernel roots) r' q s → ∀ j,
        (vmmMap m r virt phys flags).entry s j = m.entry s j := by
  obtain ⟨m₁, hg, ⟨-, heq⟩ | ⟨pt, hpt, heq⟩⟩ := h.map_cases hr phys hi hsmall
  · rw [heq]
    exact ⟨(h.grows hr hg).allocFrame, fun r' hr' q s hs j => hg.entry_other h.wf hr' hs j⟩
  · rw [heq]
    have h₁ := h.grows hr hg
    refine ⟨(h₁.setPte hpt (by simp [VPage.ptPath]) (.inl (present_pte _ _))).1,
      fun r' hr' q s hs j => ?_⟩
    rw [h₁.wf.entry_setEntry_of hpt (hg.tableOf h.wf hs), if_neg fun he => hr' he.1,
      hg.entry_other h.wf hr' hs j]

end Machine.Spaces

end ZohoOs
