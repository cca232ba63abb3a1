/-
  ZohoOs.Vmm.FrameBalance — every frame of the address spaces is accounted for.

  In every run of creating, filling, cloning and destroying spaces and of
  copy-on-write faults, as long as no allocation fails, a data frame is
  counted once for each leaf entry that maps it, a table frame is counted once
  and is one table of one space, and the frames that were free at the start
  are free again when the last space is gone.

  Main results:
    * `Machine.Balanced.step` — one call;
    * `frames_accounted` — every run.
-/
import ZohoOs.Lib.Transition
import ZohoOs.Vmm.Isolation
import ZohoOs.Vmm.DestroyBalance

namespace ZohoOs

open ZohoOs.Lib
open ZohoOs.Lib.Mem (Aligned)
open ZohoOs.Lib.Radix

/-! ## §1. The calls. -/

/-- What happens to the address spaces. -/
inductive SpaceCall where
  | create
  | map (space virt flags : Word)
  | clone (space : Word)
  | fault (space cr2 errorCode : Word)
  | destroy (space : Word)

/-- One call that finds every frame it asks for: a space is created, a fresh
    frame is mapped at a 4 KiB page of a space where nothing is mapped, a space
    is cloned, a fault in a page of a space is handled, a space is destroyed. -/
inductive SpaceStep : SpacesState → SpaceCall → SpacesState → Prop
  | create {s : SpacesState} {n : Word} {m' : Machine}
      (hrun : vmmCreateAddressSpace s.machine = (n, m'))
      (hframes : m'.pmm.allocFailures = s.machine.pmm.allocFailures) :
      SpaceStep s .create ⟨m', insert n s.spaces⟩
  | map {s : SpacesState} {a virt flags frame : Word} {m' : Machine} (ha : a ∈ s.spaces)
      (hvirt : pml4Index virt ≠ 0) (hlow : LowFlags flags) (hsmall : flags &&& pageHuge = 0)
      (hnone : pageLookup s.machine a (VPage.of virt) = none)
      (halloc : s.machine.allocFrame = (frame, m'))
      (hframes : (vmmMap m' a virt frame flags).pmm.allocFailures = s.machine.pmm.allocFailures) :
      SpaceStep s (.map a virt flags) ⟨vmmMap m' a virt frame flags, s.spaces⟩
  | clone {s : SpacesState} {a n : Word} {m' : Machine} (ha : a ∈ s.spaces)
      (hrun : vmmCloneAddressSpace s.machine a = (n, m'))
      (hframes : m'.pmm.allocFailures = s.machine.pmm.allocFailures) :
      SpaceStep s (.clone a) ⟨m', insert n s.spaces⟩
  | fault {s : SpacesState} {a cr2 errorCode : Word} {m' : Machine} (ha : a ∈ s.spaces)
      (hcr2 : pml4Index cr2 ≠ 0) (hrun : handlePageFault s.machine a cr2 errorCode = some m')
      (hframes : m'.pmm.allocFailures = s.machine.pmm.allocFailures) :
      SpaceStep s (.fault a cr2 errorCode) ⟨m', s.spaces⟩
  | destroy {s : SpacesState} {a : Word} (ha : a ∈ s.spaces) :
      SpaceStep s (.destroy a) ⟨vmmDestroyAddressSpace s.machine a, s.spaces.erase a⟩

/-- The table at a path of a live space, below `PML4[1..511]`. -/
def SpaceTable (s : SpacesState) (r : Word) (q : List (Fin 512)) (t : Word) : Prop :=
  r ∈ s.spaces ∧ q.getLast? ≠ some 0 ∧ tableAt pageChild s.machine.entry r q = some t

/-- The pages of the live spaces whose leaf entry maps the frame `a`. -/
def leafPtes (s : SpacesState) (a : Word) : Set (Word × VPage) :=
  {y | y.1 ∈ s.spaces ∧ y.2.pml4 ≠ 0 ∧ ∃ pt, tableAt pageChild s.machine.entry y.1 y.2.ptPath = some pt ∧
    Present (s.machine.entry pt y.2.pt) ∧ s.machine.entry pt y.2.pt &&& ~~~flagMask = a}

/-- **Every frame is accounted for**, in a run that started on `m₀` with no
    space: data frames and tables were free then and are no longer, a data
    frame is counted as often as it is mapped, a table is counted once, and
    without spaces the same frames are free. -/
structure FramesAccounted (m₀ : Machine) (s : SpacesState) : Prop where
  data : ∀ y a, y ∈ leafPtes s a → pmmGetRef s.machine.pmm a = (leafPtes s a).ncard
  table : ∀ r q t, SpaceTable s r q t → pmmGetRef s.machine.pmm t = 1 ∧
    (∀ r' q', SpaceTable s r' q' t → r' = r ∧ q' = q) ∧
    (∀ q', tableAt pageChild s.machine.entry s.machine.currentPml4 q' ≠ some t) ∧ leafPtes s t = ∅
  drawn : ∀ a, ((∃ y, y ∈ leafPtes s a) ∨ ∃ r q, SpaceTable s r q a) → a ∈ m₀.pmm.freeStack
  free : ∀ a, a ∈ s.machine.pmm.freeStack ↔
    a ∈ m₀.pmm.freeStack ∧ leafPtes s a = ∅ ∧ ∀ r q, ¬ SpaceTable s r q a
  restored : s.spaces = ∅ → ∀ a, a ∈ s.machine.pmm.freeStack ↔ a ∈ m₀.pmm.freeStack

/-! ## §2. One call. -/

/-- **Between two calls** the code keeps no frame, and pages are small. -/
structure SpacesState.Balanced (pool : Finset Nat) (own : Set Nat) (kernel : Word) (s : SpacesState) :
    Prop where
  accounts : s.machine.Accounts pool own kernel s.spaces noExtra
  small : ∀ r ∈ s.spaces, ∀ vp : VPage, vp.pml4 ≠ 0 → ∀ x, pageLookup s.machine r vp = some x →
    x.flags &&& pageHuge = 0

section Step

variable {pool : Finset Nat} {own : Set Nat} {kernel : Word} {s s' : SpacesState} {c : SpaceCall}

theorem present_small {flags : Word} (h : flags &&& pageHuge = 0) :
    (flags ||| pagePresent) &&& pageHuge = 0 := by
  rw [BitVec.and_or_distrib_right, h]
  decide

theorem share_small {x : Mapping} (h : x.flags &&& pageHuge = 0) : x.share.flags &&& pageHuge = 0 :=
  (shareFlags_and (by decide) (by decide)).trans h

/-- **One call** keeps the accounts. -/
theorem SpacesState.Balanced.step (h : s.Balanced pool own kernel) (hst : SpaceStep s c s') :
    s'.Balanced pool own kernel := by
  cases hst with
  | @create n m' hrun hframes =>
    cases hstack : s.machine.pmm.freeStack with
    | nil =>
      rw [vmmCreateAddressSpace_nil hstack] at hrun
      obtain ⟨-, rfl⟩ := Prod.mk.inj hrun
      obtain ⟨n', rest, hst', -⟩ := Machine.Accounts.alloc_of_failures hframes
      rw [hstack] at hst'
      cases hst'
    | cons n' rest =>
      obtain ⟨heq, -, hacc⟩ := h.accounts.create hstack
      rw [heq] at hrun
      obtain ⟨rfl, rfl⟩ := Prod.mk.inj hrun
      refine ⟨hacc, fun r hr vp hvp x hx => ?_⟩
      dsimp only at hr hx
      rw [Machine.Accounts.lookup_created h.accounts.spaces hstack hr hvp] at hx
      split at hx
      · cases hx
      · rename_i hrn
        exact h.small r (Finset.mem_of_mem_insert_of_ne hr hrn) vp hvp x hx
  | @map a virt flags frame m' ha hvirt hlow hsmall hnone halloc hframes =>
    have hframe : s.machine.allocFrame.1 = frame := by rw [halloc]
    have hm' : s.machine.allocFrame.2 = m' := by rw [halloc]
    subst hframe hm'
    obtain ⟨hacc, hlook⟩ := h.accounts.mapFresh ha hvirt hlow hsmall hnone hframes
    refine ⟨hacc, fun r hr vp hvp x hx => ?_⟩
    rw [hlook r hr vp hvp] at hx
    split at hx
    · rw [← Option.some.inj hx]
      exact present_small hsmall
    · exact h.small r hr vp hvp x hx
  | @clone a n m' ha hrun hframes =>
    obtain ⟨-, hacc, hclone, hold, -⟩ := h.accounts.clone ha hrun hframes
    -- a shared page has the other flags it had
    have hshare : ∀ vp : VPage, vp.pml4 ≠ 0 → ∀ x, (pageLookup s.machine a vp).map Mapping.share = some x →
        x.flags &&& pageHuge = 0 := by
      intro vp hvp x hx
      obtain ⟨y, hy, rfl⟩ := Option.map_eq_some_iff.mp hx
      exact share_small (h.small a ha vp hvp y hy)
    refine ⟨hacc, fun r hr vp hvp x hx => ?_⟩
    by_cases hrn : r = n
    · subst hrn
      rw [hclone vp hvp] at hx
      exact hshare vp hvp x hx
    · have hr' := Finset.mem_of_mem_insert_of_ne hr hrn
      rw [hold r hr' vp hvp] at hx
      split at hx
      · exact hshare vp hvp x hx
      · exact h.small r hr' vp hvp x hx
  | @fault a cr2 errorCode m' ha hcr2 hrun hframes =>
    cases hx : pageLookup s.machine a (VPage.of cr2) with
    | none =>
      rw [Machine.Accounts.handlePageFault_unmapped h.accounts.spaces ha hcr2 hx] at hrun
      cases hrun
    | some x =>
      have hsmall := h.small a ha (VPage.of cr2) hcr2 x hx
      obtain ⟨hacc, f, hown⟩ := h.accounts.fault ha hcr2 hx hsmall hrun hframes
      refine ⟨hacc, fun r hr vp hvp y hy => ?_⟩
      rw [hown.lookup r hr vp hvp] at hy
      split at hy
      · rw [← Option.some.inj hy]
        exact present_small (Machine.Accounts.ownFlags_small hsmall)
      · exact h.small r hr vp hvp y hy
  | @destroy a ha =>
    refine ⟨h.accounts.destroy ha, fun r hr vp hvp x hx => ?_⟩
    have hmem : (vmmDestroyAddressSpace s.machine a).mem = s.machine.mem := by
      rw [vmmDestroyAddressSpace_eq]
      exact mem_freeFrames _
    rw [pageLookup_of_mem hmem] at hx
    exact h.small r (Finset.mem_of_mem_erase hr) vp hvp x hx

end Step

/-! ## §3. From the start on. -/

/-- The frames that are free. -/
def freeFramesOf (p : Pmm) : Set Nat := {f | ∃ a ∈ p.freeStack, frameOf a = f}

section Run

variable {pool : Finset Nat} {m₀ : Machine} {s : SpacesState} {a : Word}

theorem mem_freeFramesOf {p : Pmm} (h : p.Inv pool) (ha : Aligned a) :
    frameOf a ∈ freeFramesOf p ↔ a ∈ p.freeStack := by
  constructor
  · intro hmem
    obtain ⟨b, hb, heq⟩ := hmem
    rwa [← frameOf_inj (h.aligned b hb) ha heq]
  · exact fun hmem => ⟨a, hmem, rfl⟩

/-- Before any space was created nobody holds a frame that is free. -/
theorem counts_free {p : Pmm} (h : p.Inv pool) : p.Counts pool (freeFramesOf p) fun _ => 0 := by
  refine ⟨h, ?_, ?_, ?_, fun f hf hno => ?_⟩
  · intro f hf
    obtain ⟨a, ha, rfl⟩ := hf
    exact h.inRange a ha
  · intro a ha ho
    exact h.ref_of_mem ((mem_freeFramesOf h ha).mp ho)
  · intro a ha ho
    exact iff_of_true (h.bitmap_of_mem ((mem_freeFramesOf h ha).mp ho)) rfl
  · by_contra hb
    exact hno ⟨frameAddr f, (h.onStack_iff f hf).mpr (Bool.eq_false_iff.mpr hb), frameOf_frameAddr hf⟩

/-- The start. -/
theorem balanced_start (h : m₀.Wf pool (wholeTree m₀.currentPml4)) :
    SpacesState.Balanced pool (freeFramesOf m₀.pmm) m₀.currentPml4 ⟨m₀, ∅⟩ := by
  have hspaces := Machine.Spaces.none h
  have hnone : ∀ x a, holding ∅ m₀ x ≠ some a := by
    intro x a hx
    cases x with
    | table r q =>
      rw [holding_table, if_neg fun hc => absurd hc.1 (Finset.notMem_empty r)] at hx
      cases hx
    | page r vp => exact absurd (holding_page_iff.mp hx).1 (Finset.notMem_empty r)
  refine ⟨⟨hspaces, ?_, fun x a hx => absurd hx (hnone x a), fun r q t hx => absurd hx (hnone _ t),
    fun q t ht => ?_⟩, fun r hr => absurd hr (Finset.notMem_empty r)⟩
  · refine (counts_free h.pmm).congr fun a _ _ => ?_
    rw [uses_eq_zero fun x => hnone x a]
    rfl
  · rw [mem_freeFramesOf h.pmm (hspaces.wf.aligned ht)]
    exact hspaces.wf.notFree _ q t ht

/-- A leaf entry that maps a frame is the page that holds it. -/
theorem mem_leafPtes {kernel r : Word} {vp : VPage} (h : s.machine.Spaces pool kernel s.spaces) :
    (r, vp) ∈ leafPtes s a ↔ holding s.spaces s.machine (.page r vp) = some a := by
  rw [holding_page_iff]
  constructor
  · intro hy
    obtain ⟨hr, hvp, pt, hpt, hp, ha⟩ := hy
    refine ⟨hr, hvp, ⟨s.machine.entry pt vp.pt &&& ~~~flagMask, s.machine.entry pt vp.pt &&& flagMask, false⟩,
      ?_, ha⟩
    rw [pageLookup_of_pt hpt, if_pos hp]
  · intro hx
    obtain ⟨hr, hvp, x, hx, rfl⟩ := hx
    obtain ⟨pt, hpt, hp, rfl⟩ := h.lookup_pt hr hvp hx
    exact ⟨hr, hvp, pt, hpt.2, hp, rfl⟩

theorem spaceTable_iff {r t : Word} {q : List (Fin 512)} :
    SpaceTable s r q t ↔ holding s.spaces s.machine (.table r q) = some t := by
  rw [holding_table]
  constructor
  · intro h
    rw [if_pos ⟨h.1, h.2.1⟩, h.2.2]
  · intro h
    split at h
    · rename_i hc
      exact ⟨hc.1, hc.2, h⟩
    · cases h

/-- **The accounts, frame by frame.** -/
theorem SpacesState.Balanced.accounted (h₀ : m₀.pmm.Inv pool) {kernel : Word}
    (h : s.Balanced pool (freeFramesOf m₀.pmm) kernel) : FramesAccounted m₀ s := by
  have hacc := h.accounts
  have hkernel : s.machine.currentPml4 = kernel := hacc.spaces.current
  have hown : ∀ x a, holding s.spaces s.machine x = some a → a ∈ m₀.pmm.freeStack := fun x a hx =>
    (mem_freeFramesOf h₀ (holding_aligned hacc.spaces hx)).mp (hacc.held_own x a hx)
  -- a frame is free when it was free at first and nobody holds it
  have hfree : ∀ a, a ∈ s.machine.pmm.freeStack ↔
      a ∈ m₀.pmm.freeStack ∧ uses (holding s.spaces s.machine) a = 0 := by
    intro a
    constructor
    · intro hmem
      obtain ⟨ha, ho, hz⟩ := hacc.counts.of_mem_freeStack hmem
      exact ⟨(mem_freeFramesOf h₀ ha).mp ho, hz⟩
    · intro hmem
      have ha := h₀.aligned a hmem.1
      exact (hacc.counts.mem_freeStack_iff ha ((mem_freeFramesOf h₀ ha).mpr hmem.1)).mpr hmem.2
  have hfree' : ∀ a, a ∈ s.machine.pmm.freeStack ↔
      a ∈ m₀.pmm.freeStack ∧ leafPtes s a = ∅ ∧ ∀ r q, ¬ SpaceTable s r q a := by
    intro a
    rw [hfree]
    refine and_congr_right fun _ => ?_
    constructor
    · intro hz
      have hno : ∀ x, holding s.spaces s.machine x ≠ some a := fun x hx => by
        have hpos := Machine.Accounts.held hx
        omega
      refine ⟨Set.eq_empty_of_forall_notMem fun y hy => ?_, fun r q ht => ?_⟩
      · exact hno _ ((mem_leafPtes hacc.spaces).mp hy)
      · exact hno _ (spaceTable_iff.mp ht)
    · intro hno
      refine uses_eq_zero fun x hx => ?_
      cases x with
      | table r q => exact hno.2 r q (spaceTable_iff.mpr hx)
      | page r vp =>
        have hy : (r, vp) ∈ leafPtes s a := (mem_leafPtes hacc.spaces).mpr hx
        rw [hno.1] at hy
        exact hy
  refine ⟨fun y a hy => ?_, fun r q t ht => ⟨?_, fun r' q' ht' => ?_, fun q' hk => ?_, ?_⟩, fun a ha => ?_,
    hfree', fun hempty a => ?_⟩
  · have hpage := (mem_leafPtes hacc.spaces).mp hy
    rw [hacc.counts.getRef (holding_aligned hacc.spaces hpage) (hacc.held_own _ _ hpage)]
    have hset : holders (holding s.spaces s.machine) a
        = (fun y : Word × VPage => Holder.page y.1 y.2) '' leafPtes s a := by
      ext x
      constructor
      · intro hx
        cases x with
        | table r q => exact absurd hx (hacc.page_not_table hpage)
        | page r vp => exact ⟨(r, vp), (mem_leafPtes hacc.spaces).mpr hx, rfl⟩
      · intro hx
        obtain ⟨z, hz, rfl⟩ := hx
        exact (mem_leafPtes hacc.spaces).mp hz
    have hinj : Function.Injective fun y : Word × VPage => Holder.page y.1 y.2 := by
      intro y z hyz
      injection hyz with h1 h2
      exact Prod.ext h1 h2
    show uses (holding s.spaces s.machine) a + 0 = _
    rw [Nat.add_zero, uses, hset, Set.ncard_image_of_injective _ hinj]
  · have hx := spaceTable_iff.mp ht
    rw [hacc.counts.getRef (holding_aligned hacc.spaces hx) (hacc.held_own _ _ hx)]
    exact hacc.once r q t hx
  · have hone : uses (holding s.spaces s.machine) t = 1 := hacc.once r q t (spaceTable_iff.mp ht)
    injection eq_of_uses_eq_one hone (spaceTable_iff.mp ht') (spaceTable_iff.mp ht) with h1 h2
    exact ⟨h1, h2⟩
  · rw [hkernel] at hk
    exact hacc.kernel_not_own q' t ⟨spaceForest_path_kernel, hk⟩ (hacc.held_own _ _ (spaceTable_iff.mp ht))
  · refine Set.eq_empty_of_forall_notMem fun y hy => ?_
    exact hacc.page_not_table ((mem_leafPtes hacc.spaces).mp hy) (spaceTable_iff.mp ht)
  · rcases ha with ⟨y, hy⟩ | ⟨r, q, ht⟩
    · exact hown _ a ((mem_leafPtes hacc.spaces).mp hy)
    · exact hown _ a (spaceTable_iff.mp ht)
  · rw [hfree']
    refine and_iff_left ⟨Set.eq_empty_of_forall_notMem fun y hy => ?_, fun r q ht => ?_⟩
    · have hmem := hy.1
      rw [hempty] at hmem
      exact absurd hmem (Finset.notMem_empty _)
    · have hmem := ht.1
      rw [hempty] at hmem
      exact absurd hmem (Finset.notMem_empty _)

/-- **Every frame is accounted for** after every run. -/
theorem frames_accounted {tr : List (Transition SpacesState SpaceCall)}
    (h₀ : m₀.Wf pool (wholeTree m₀.currentPml4)) (hrun : Run SpaceStep ⟨m₀, ∅⟩ tr s) :
    FramesAccounted m₀ s :=
  (hrun.invariant' (fun _ _ _ h hst => SpacesState.Balanced.step h hst) (balanced_start h₀)).accounted h₀.pmm

end Run

/-- A space with one page of its own. -/
theorem boot_page_run : ∃ tr s, Run SpaceStep ⟨bootMachine (smallPmm 8), ∅⟩ tr s ∧
    Run.labels tr = [.create, .map 0x207000 0x8000000000 7] ∧ s.spaces = {0x207000} ∧
    ∃ f, pageLookup s.machine 0x207000 (VPage.of 0x8000000000) = some (smallMapping f 7) := by
  have hwf := bootMachine_small_wf (n := 8) (by decide)
  have h₀ : (bootMachine (smallPmm 8)).Spaces (bootPool (smallPmm 8)) p4Table ∅ :=
    Machine.Spaces.none (m := bootMachine (smallPmm 8)) hwf
  obtain ⟨rest, hst₀, hrest⟩ : ∃ rest, (bootMachine (smallPmm 8)).pmm.freeStack
      = 0x207000 :: rest ∧ rest.length = 7 := ⟨_, freeStack_smallPmm 8, rfl⟩
  obtain ⟨hcreate, -, hspaces⟩ := h₀.create hst₀
  have hnone := fun (vp : VPage) (hvp : vp.pml4 ≠ 0) => Machine.Accounts.lookup_created h₀ hst₀
    (Finset.mem_insert_self _ _) hvp
  have hlen : ((bootMachine (smallPmm 8)).createdSpace 0x207000
      ((bootMachine (smallPmm 8)).entry p4Table 0)).pmm.freeStack.length = 7 := by
    rw [freeStack_createdSpace hst₀, hrest]
  have hfail₁ : ((bootMachine (smallPmm 8)).createdSpace 0x207000
      ((bootMachine (smallPmm 8)).entry p4Table 0)).pmm.allocFailures
        = (bootMachine (smallPmm 8)).pmm.allocFailures := by
    rw [pmm_createdSpace, pmmAllocFrame_cons hst₀]
  generalize (bootMachine (smallPmm 8)).createdSpace 0x207000
    ((bootMachine (smallPmm 8)).entry p4Table 0) = m₁ at hcreate hspaces hnone hlen hfail₁
  obtain ⟨n, rest', hst₁⟩ : ∃ n rest', m₁.pmm.freeStack = n :: rest' :=
    List.exists_cons_of_length_pos (by omega)
  have halloc : m₁.allocFrame.2.pmm.freeStack = rest' ∧
      m₁.allocFrame.2.pmm.allocFailures = m₁.pmm.allocFailures := by
    rw [Machine.allocFrame, pmmAllocFrame_cons hst₁]
    exact ⟨rfl, rfl⟩
  rw [hst₁, List.length_cons] at hlen
  have hfail₂ := vmmMap_allocFailures (m := m₁.allocFrame.2) (by rw [halloc.1]; omega) 0x207000
    0x8000000000 m₁.allocFrame.1 7
  have hself := Finset.mem_insert_self (0x207000 : Word) ∅
  have hvirt : pml4Index 0x8000000000 ≠ 0 := by decide
  have hlow : LowFlags 7 := by decide
  have hempty : Run SpaceStep ⟨bootMachine (smallPmm 8), ∅⟩ [] ⟨bootMachine (smallPmm 8), ∅⟩ := .nil _
  have hmapped := (hempty.snoc (.create hcreate hfail₁)).snoc (.map hself hvirt hlow (by decide)
    (hnone _ (by decide)) rfl (hfail₂.trans halloc.2))
  have hlook := Machine.Accounts.mapPage_lookup hspaces.allocFrame hself hvirt hlow (by decide) hfail₂
    0x207000 hself (VPage.of 0x8000000000) hvirt
  rw [if_pos ⟨rfl, rfl⟩] at hlook
  exact ⟨_, _, hmapped, rfl, rfl, _, hlook⟩

/-- A space with one page of its own, created and destroyed. -/
theorem frames_accounted_page : ∃ tr s, Run SpaceStep ⟨bootMachine (smallPmm 8), ∅⟩ tr s ∧
    Run.labels tr = [.create, .map 0x207000 0x8000000000 7, .destroy 0x207000] ∧ s.spaces = ∅ ∧
    FramesAccounted (bootMachine (smallPmm 8)) s := by
  obtain ⟨tr, s, hmapped, hlabels, hspaces, -⟩ := boot_page_run
  have hself : 0x207000 ∈ s.spaces := hspaces ▸ Finset.mem_singleton_self _
  have hrun := hmapped.snoc (.destroy hself)
  refine ⟨_, _, hrun, ?_, ?_, frames_accounted (bootMachine_small_wf (n := 8) (by decide)) hrun⟩
  · rw [Run.labels_append, hlabels]
    rfl
  · show s.spaces.erase 0x207000 = ∅
    rw [hspaces]
    exact Finset.erase_insert (Finset.notMem_empty _)

end ZohoOs
