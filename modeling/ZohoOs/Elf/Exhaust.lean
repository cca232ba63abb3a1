/-
  ZohoOs.Elf.Exhaust — loading a file with too few frames.

  `elf_load` checks none of its allocations: not the PML4, not the frame of a
  page, not the tables `vmm_map` makes.  When one of them fails it goes on,
  clears and maps frame 0 for every page that is left, and returns `true`; it
  frees nothing and never returns `false` but for a wrong magic number.

  Whether the frames suffice is decided before the load: one for the PML4, one
  for each page of each loadable segment, and one for each table on the path
  of a page that the kernel's tree does not lend.

  Main result:
    * `elf_load_atomic_iff` — loading is atomic exactly when the magic number
      is wrong or the frames suffice.
-/
import ZohoOs.Elf.Content
import ZohoOs.Vmm.Needed

namespace ZohoOs

open ZohoOs.Lib
open ZohoOs.Lib.Mem (Aligned InPage SameBytes)
open ZohoOs.Lib.Radix

/-! ## §1. The pages of a file. -/

/-- One turn of a page loop: a page of the segment with the header at
    `phdr`. -/
structure PageJob where
  phdr : Word
  vaddr : Word
  phdrFlags : BitVec 32
  page : Nat
  deriving DecidableEq

namespace PageJob

/-- The page it loads. -/
def vpage (j : PageJob) : VPage := VPage.of (segmentPage j.vaddr j.page)

/-- Load it. -/
def run (root elfData : Word) (m : Machine) (j : PageJob) : Machine :=
  elfLoadPage m root elfData j.phdr j.vaddr (j.vaddr &&& ~~~0xFFF) (segmentFlags j.phdrFlags)
    (BitVec.ofNat 64 j.page)

end PageJob

/-- The pages of one program header. -/
def segmentJobs (mem : Mem) (phdr : Word) : List PageJob :=
  if phdrType mem phdr = ptLoad then
    (List.range (segmentPages (phdrVaddr mem phdr) (phdrMemsz mem phdr))).map fun p =>
      ⟨phdr, phdrVaddr mem phdr, phdrFlags mem phdr, p⟩
  else []

/-- The pages of the headers from the `i`-th on, `n` of them. -/
def phdrJobs (mem : Mem) (elfData : Word) (i n : Nat) : List PageJob :=
  (List.range' i n).flatMap fun k => segmentJobs mem (phdrAddr mem elfData k)

/-- The pages of the file. -/
def imageJobs (mem : Mem) (elfData : Word) : List PageJob :=
  phdrJobs mem elfData 0 (headerPhnum mem elfData).toNat

/-- **The frames that pages need** in a space: one each, and one for each table
    on their paths that is not there. -/
def Machine.neededFrames (m : Machine) (root : Word) (vps : List VPage) : Nat :=
  vps.length + ((vps.flatMap VPage.tablePaths).toFinset.filter fun q => ¬ m.HasTable root q).card

section Needed

variable {m m' : Machine} {root : Word} {vp : VPage} {vps : List VPage}

theorem nodup_tablePaths (vp : VPage) : vp.tablePaths.Nodup := by
  simp [VPage.tablePaths, VPage.pdPath, VPage.ptPath]

theorem card_missing (m : Machine) (root : Word) (vp : VPage) :
    (vp.tablePaths.toFinset.filter fun q => ¬ m.HasTable root q).card = m.missing root vp := by
  have hfilter : (vp.tablePaths.toFinset.filter fun q => ¬ m.HasTable root q) =
      (vp.tablePaths.filter fun q => ¬ m.HasTable root q).toFinset := by
    ext q
    simp
  unfold Machine.missing
  rw [hfilter, List.toFinset_card_of_nodup ((nodup_tablePaths vp).filter _)]

theorem neededFrames_cons (hm' : ∀ q, m'.HasTable root q ↔ m.HasTable root q ∨ q ∈ vp.tablePaths) :
    m.neededFrames root (vp :: vps) = 1 + m.missing root vp + m'.neededFrames root vps := by
  have hunion : ((vp :: vps).flatMap VPage.tablePaths).toFinset.filter (fun q => ¬ m.HasTable root q) =
      (vp.tablePaths.toFinset.filter fun q => ¬ m.HasTable root q) ∪
        ((vps.flatMap VPage.tablePaths).toFinset.filter fun q => ¬ m'.HasTable root q) := by
    ext q
    simp only [List.flatMap_cons, List.toFinset_append, Finset.mem_filter, Finset.mem_union,
      List.mem_toFinset, hm' q]
    by_cases hq : q ∈ vp.tablePaths <;> by_cases hh : m.HasTable root q <;> simp [hq, hh]
  have hdisj : Disjoint (vp.tablePaths.toFinset.filter fun q => ¬ m.HasTable root q)
      ((vps.flatMap VPage.tablePaths).toFinset.filter fun q => ¬ m'.HasTable root q) := by
    rw [Finset.disjoint_left]
    intro q hq hq'
    have hmem := List.mem_toFinset.mp (Finset.mem_filter.mp hq).1
    exact (Finset.mem_filter.mp hq').2 ((hm' q).mpr (.inr hmem))
  unfold Machine.neededFrames
  rw [hunion, Finset.card_union_of_disjoint hdisj, card_missing, List.length_cons]
  omega

theorem le_neededFrames_cons : 1 + m.missing root vp ≤ m.neededFrames root (vp :: vps) := by
  have hsub : (vp.tablePaths.toFinset.filter fun q => ¬ m.HasTable root q) ⊆
      (((vp :: vps).flatMap VPage.tablePaths).toFinset.filter fun q => ¬ m.HasTable root q) := by
    refine Finset.filter_subset_filter _ fun q hq => ?_
    rw [List.flatMap_cons, List.toFinset_append]
    exact Finset.mem_union_left _ hq
  have hcard := Finset.card_le_card hsub
  rw [card_missing] at hcard
  unfold Machine.neededFrames
  rw [List.length_cons]
  omega

end Needed

/-! ## §2. One page. -/

/-- No 2 MiB page covers the page. -/
def Machine.NotHuge (m : Machine) (root : Word) (vp : VPage) : Prop :=
  ∀ x, pageLookup m root vp = some x → x.huge = false

/-- The page has no frame: it is not mapped, or to frame 0. -/
def Machine.Unbacked (m : Machine) (root : Word) (vp : VPage) : Prop :=
  ∀ x, pageLookup m root vp = some x → x.phys = 0

/-- The mappings `m'` has and `m` has not are small ones to frame 0. -/
def Machine.OnlyZeroMapped (m : Machine) (root : Word) (m' : Machine) : Prop :=
  ∀ vp, pageLookup m' root vp = pageLookup m root vp ∨
    ∃ flags, pageLookup m' root vp = some (smallMapping 0 flags)

namespace Machine.OnlyZeroMapped

variable {m m' m'' : Machine} {root : Word} {vp : VPage}

theorem refl : m.OnlyZeroMapped root m := fun _ => .inl rfl

theorem trans (h : m.OnlyZeroMapped root m') (h' : m'.OnlyZeroMapped root m'') :
    m.OnlyZeroMapped root m'' := by
  intro vp
  rcases h' vp with heq | hzero
  · rw [heq]
    exact h vp
  · exact .inr hzero

/-- A page without a frame gets none. -/
theorem unbacked (h : m.OnlyZeroMapped root m') (hvp : m.Unbacked root vp) : m'.Unbacked root vp := by
  intro x hx
  rcases h vp with heq | ⟨flags, hzero⟩
  · rw [heq] at hx
    exact hvp x hx
  · rw [hzero] at hx
    cases hx
    exact BitVec.zero_and

theorem notHuge (h : m.OnlyZeroMapped root m') (hvp : m.NotHuge root vp) : m'.NotHuge root vp := by
  intro x hx
  rcases h vp with heq | ⟨flags, hzero⟩
  · rw [heq] at hx
    exact hvp x hx
  · rw [hzero] at hx
    cases hx
    rfl

end Machine.OnlyZeroMapped

/-- **A page was loaded**: into a frame of its own, with tables made for it. -/
structure PageFits (m : Machine) (root : Word) (vp : VPage) (flags : Word) (m' : Machine) : Prop where
  frames : m'.pmm.freeStack.length + (1 + m.missing root vp) = m.pmm.freeStack.length
  tables : ∀ q, m'.HasTable root q ↔ m.HasTable root q ∨ q ∈ vp.tablePaths
  quiet : ∀ x, m.Quiet root x → m'.mem x = m.mem x ∧ m'.Quiet root x
  loaded : ∃ n rest, m.pmm.freeStack = n :: rest ∧ m'.pmm.freeStack <:+ rest ∧
    ∀ vp', pageLookup m' root vp' = if vp' = vp then some (smallMapping n flags) else pageLookup m root vp'

/-- **A page was not loaded**: the frames do not suffice. -/
structure PageFails (m : Machine) (root : Word) (vp : VPage) (m' : Machine) : Prop where
  needed : m.pmm.freeStack.length < 1 + m.missing root vp
  frames : m'.pmm.freeStack = []
  unbacked : m'.Unbacked root vp

/-- What every turn of the loop keeps: well-formed trees, and the bytes that
    are quiet and not in page 0. -/
structure Keeps (pool : Finset Nat) (m : Machine) (root : Word) (m' : Machine) : Prop where
  wf : m'.Wf pool (wholeTree root)
  quiet : ∀ x, m.Quiet root x → ¬ InPage 0 x → m'.mem x = m.mem x ∧ m'.Quiet root x
  notHuge : ∀ vp, m.NotHuge root vp → m'.NotHuge root vp

section Page

variable {pool : Finset Nat} {m : Machine} {root elfData phdr vaddr pageStart flags p : Word}

theorem hasTable_congr {m' : Machine}
    (h : ∀ q s, m'.TableOf (wholeTree root) root q s ↔ m.TableOf (wholeTree root) root q s)
    (q : List (Fin 512)) : m'.HasTable root q ↔ m.HasTable root q := by
  rw [hasTable_iff, hasTable_iff]
  exact exists_congr fun s => h q s

/-- **`vmm_map` of a small page**: the page is mapped and the missing tables are
    made, or the frames do not suffice for them and the page stays unmapped. -/
theorem vmmMap_outcome (hwf : m.Wf pool (wholeTree root)) (phys : Word) {virt : Word}
    (hpage : SmallPage m root virt flags) :
    let m' := vmmMap m root virt phys flags
    (m'.pmm.freeStack.length + m.missing root (VPage.of virt) = m.pmm.freeStack.length ∧
      (∀ q, m'.HasTable root q ↔ m.HasTable root q ∨ q ∈ (VPage.of virt).tablePaths) ∧
      ∀ vp, pageLookup m' root vp =
        if vp = VPage.of virt then some (smallMapping phys flags) else pageLookup m root vp) ∨
    (m.pmm.freeStack.length < m.missing root (VPage.of virt) ∧ m'.pmm.freeStack = [] ∧
      (∀ vp, pageLookup m' root vp = pageLookup m root vp) ∧
      pageLookup m root (VPage.of virt) = none) := by
  intro m'
  obtain ⟨-, hlook⟩ := hwf.vmmMap_lookup phys (show VPage.of virt = VPage.of virt from rfl)
    wholeTree_path hpage.low fun _ => hpage.small
  rcases hwf.vmmMap_needs phys hpage.plain hpage.small with
    ⟨hsame, hframes, htables⟩ | ⟨hsucc, hlt, hnil, hno⟩
  · left
    refine ⟨hframes, htables, fun vp => ?_⟩
    rcases hlook with ⟨-, hlook⟩ | ⟨hsucc, -⟩
    · rw [hlook root vp wholeTree_path, if_neg (not_not_intro hpage.plain)]
      simp only [true_and]
    · exact absurd (hsucc.symm.trans hsame) (Nat.succ_ne_self _)
  · right
    refine ⟨hlt, hnil, fun vp => ?_, pageLookup_of_not_hasTable hno hpage.small⟩
    rcases hlook with ⟨hsame, -⟩ | ⟨-, hlook⟩
    · exact absurd (hsucc.symm.trans hsame) (Nat.succ_ne_self _)
    · exact hlook root vp wholeTree_path

variable (elfData phdr vaddr) in
/-- Filling the frame of a page changes no tree, also when the frame is
    frame 0. -/
theorem elfLoadPage_pages (hwf : m.Wf pool (wholeTree root))
    (hpage : SmallPage m root (pageStart + p * 4096) flags) :
    let m' := elfLoadPage m root elfData phdr vaddr pageStart flags p
    m'.pmm = (mappedPage m root pageStart flags p).pmm ∧
      (∀ q, m'.HasTable root q ↔ (mappedPage m root pageStart flags p).HasTable root q) ∧
      ∀ vp, pageLookup m' root vp = pageLookup (mappedPage m root pageStart flags p) root vp := by
  have hmapped : (mappedPage m root pageStart flags p).Wf pool (wholeTree root) :=
    (hwf.allocFrame.vmmMap_lookup m.allocFrame.1 rfl wholeTree_path hpage.low fun _ => hpage.small).1
  have hframe : Aligned m.allocFrame.1 ∧ ∀ q, ¬ (mappedPage m root pageStart flags p).TableOf
      (wholeTree root) root q m.allocFrame.1 := by
    cases hst : m.pmm.freeStack with
    | nil =>
      rw [(allocFrame_nil hst).1]
      exact ⟨by decide, fun q hq => hmapped.nonzero _ _ _ hq rfl⟩
    | cons n rest =>
      rw [(allocFrame_cons hst).1]
      exact ⟨(hwf.top hst).1, (mappedPage_fresh hwf hst hpage).2⟩
  intro m'
  obtain ⟨-, hpmm, htables, hpages, -⟩ := fillPage_wf elfData phdr vaddr p hmapped hframe.1 hframe.2
  exact ⟨hpmm, hasTable_congr htables, hpages⟩

variable (elfData phdr vaddr) in
/-- **One turn of the loop** loads the page if the frames suffice; else it uses
    them up and leaves the page without one. -/
theorem elfLoadPage_outcome (hwf : m.Wf pool (wholeTree root))
    (hpage : SmallPage m root (pageStart + p * 4096) flags) :
    let m' := elfLoadPage m root elfData phdr vaddr pageStart flags p
    Keeps pool m root m' ∧ (PageFits m root (VPage.of (pageStart + p * 4096)) flags m' ∨
      m.OnlyZeroMapped root m' ∧ PageFails m root (VPage.of (pageStart + p * 4096)) m') := by
  intro m'
  obtain ⟨hpmm, htables, hpages⟩ := elfLoadPage_pages elfData phdr vaddr hwf hpage
  have hpage' : SmallPage m.allocFrame.2 root (pageStart + p * 4096) flags :=
    ⟨hpage.low, hpage.plain, hpage.small⟩
  have houtcome := vmmMap_outcome hwf.allocFrame m.allocFrame.1 hpage'
  have hmissing : m.allocFrame.2.missing root (VPage.of (pageStart + p * 4096)) =
      m.missing root (VPage.of (pageStart + p * 4096)) := rfl
  rw [hmissing] at houtcome
  cases hst : m.pmm.freeStack with
  | nil =>
    -- no frame for the page itself: what is mapped here is the zero frame
    obtain ⟨hwf', hst', -, hlook, hquiet⟩ := elfLoadPage_nil elfData phdr vaddr hwf hst hpage
    obtain ⟨halloc, -, -⟩ := allocFrame_nil hst
    have hzero : m.OnlyZeroMapped root m' := by
      intro vp
      rcases hlook vp with hsame | ⟨-, heq⟩
      · exact .inl hsame
      · exact .inr ⟨flags, heq⟩
    refine ⟨⟨hwf', hquiet, fun vp => hzero.notHuge⟩, .inr ⟨hzero, ?_, hst', fun x hx => ?_⟩⟩
    · rw [hst]
      exact Nat.lt_of_lt_of_le Nat.zero_lt_one (Nat.le_add_right 1 _)
    · rw [hpages] at hx
      unfold mappedPage at hx
      rcases houtcome with ⟨-, -, hmapped⟩ | ⟨-, -, hkept, hnone⟩
      · rw [hmapped, if_pos rfl, halloc] at hx
        cases hx
        exact BitVec.zero_and
      · rw [hkept, hnone] at hx
        cases hx
  | cons n rest =>
    -- a frame for the page, and the outcome of mapping it with one frame less
    obtain ⟨halloc, -, hrest⟩ := allocFrame_cons hst
    obtain ⟨hloaded, hsuf⟩ := elfLoadPage_spec elfData phdr vaddr hwf hst hpage
    have hlen : m.pmm.freeStack.length = rest.length + 1 := by
      rw [hst]
      rfl
    have hnotHuge : ∀ vp, m.NotHuge root vp → m'.NotHuge root vp := by
      intro vp hvp x hx
      rcases hloaded.lookup with ⟨-, hlook⟩ | ⟨-, hlook⟩
      · rw [hlook] at hx
        split at hx
        · cases hx
          rfl
        · exact hvp x hx
      · rw [hlook] at hx
        exact hvp x hx
    refine ⟨⟨hloaded.wf, fun x hx _ => hloaded.quiet x hx, hnotHuge⟩, ?_⟩
    rw [hrest] at houtcome
    rcases houtcome with ⟨hframes, hhas, hmapped⟩ | ⟨hlt, hnil, hkept, hnone⟩
    · left
      -- the tables fit as well
      have hframes' : (mappedPage m root pageStart flags p).pmm.freeStack.length +
          m.missing root (VPage.of (pageStart + p * 4096)) = rest.length := hframes
      refine ⟨?_, fun q => (htables q).trans (hhas q), hloaded.quiet, n, rest, hst, hsuf, fun vp => ?_⟩
      · rw [hpmm]
        omega
      · rw [hpages]
        unfold mappedPage
        rw [hmapped, halloc]
        rfl
    · right
      -- the tables do not fit, and the page is not mapped
      have hsame : ∀ vp, pageLookup m' root vp = pageLookup m root vp := by
        intro vp
        rw [hpages]
        exact hkept vp
      refine ⟨fun vp => .inl (hsame vp), by omega, ?_, fun x hx => ?_⟩
      · rw [hpmm]
        exact hnil
      · rw [hsame] at hx
        have hnone' : pageLookup m root (VPage.of (pageStart + p * 4096)) = none := hnone
        rw [hnone'] at hx
        cases hx

end Page

/-! ## §3. The pages one after the other. -/

/-- Load the pages. -/
def loadJobs (root elfData : Word) (m : Machine) (jobs : List PageJob) : Machine :=
  jobs.foldl (PageJob.run root elfData) m

/-- **Every page has a frame of its own**, which was free in `m` and is not
    free in `m'`. -/
structure Backed (m : Machine) (root : Word) (vps : List VPage) (m' : Machine) : Prop where
  frames : ∀ vp ∈ vps, ∃ x, pageLookup m' root vp = some x ∧ x.huge = false ∧
    x.phys ∈ m.pmm.freeStack ∧ x.phys ∉ m'.pmm.freeStack
  distinct : ∀ vp ∈ vps, ∀ vp' ∈ vps, ∀ x x', pageLookup m' root vp = some x →
    pageLookup m' root vp' = some x' → x.phys = x'.phys → vp = vp'

section Jobs

variable {pool : Finset Nat} {m m' m'' : Machine} {root elfData : Word} {j : PageJob}
  {jobs : List PageJob}

theorem Keeps.trans (h : Keeps pool m root m') (h' : Keeps pool m' root m'') :
    Keeps pool m root m'' := by
  refine ⟨h'.wf, fun x hx h0 => ?_, fun vp hvp => h'.notHuge vp (h.notHuge vp hvp)⟩
  obtain ⟨hmem, hq⟩ := h.quiet x hx h0
  obtain ⟨hmem', hq'⟩ := h'.quiet x hq h0
  exact ⟨hmem'.trans hmem, hq'⟩

theorem Keeps.start (hwf : m.Wf pool (wholeTree root)) : Keeps pool m root m :=
  ⟨hwf, fun _ hx _ => ⟨rfl, hx⟩, fun _ hvp => hvp⟩

/-- One more page, with the frame on top of the stack unless it is loaded again
    later. -/
theorem Backed.cons {vp : VPage} {vps : List VPage} {n flags : Word} {rest : List Word}
    (h : Backed m' root vps m'') (hst : m.pmm.freeStack = n :: rest) (hn : Aligned n) (hrest : n ∉ rest)
    (hsuf : m'.pmm.freeStack <:+ rest) (hsuf' : m''.pmm.freeStack <:+ m'.pmm.freeStack)
    (hown : vp ∉ vps → pageLookup m'' root vp = some (smallMapping n flags)) :
    Backed m root (vp :: vps) m'' := by
  have hphys : (smallMapping n flags).phys = n := and_not_flagMask hn
  have hold : ∀ vp' ∈ vps, ∀ x, pageLookup m'' root vp' = some x → x.phys ∈ rest := by
    intro vp' hvp' x hx
    obtain ⟨y, hy, -, hfree, -⟩ := h.frames vp' hvp'
    rw [hx] at hy
    cases hy
    exact hsuf.subset hfree
  have hnew : ∀ vp', vp' ∈ vp :: vps → vp' ∉ vps →
      vp' = vp ∧ pageLookup m'' root vp' = some (smallMapping n flags) := by
    intro vp' hvp' hnot
    rcases List.mem_cons.mp hvp' with rfl | hmem
    · exact ⟨rfl, hown hnot⟩
    · exact absurd hmem hnot
  -- a page loaded later and one that is not have different frames
  have hapart : ∀ vp₁ ∈ vps, ∀ vp₂ ∈ vp :: vps, vp₂ ∉ vps → ∀ x y, pageLookup m'' root vp₁ = some x →
      pageLookup m'' root vp₂ = some y → x.phys ≠ y.phys := by
    intro vp₁ h₁ vp₂ h₂ hnot x y hx hy heq
    rw [(hnew vp₂ h₂ hnot).2] at hy
    cases hy
    rw [hphys] at heq
    exact hrest (heq ▸ hold vp₁ h₁ x hx)
  constructor
  · intro vp' hvp'
    by_cases hmem : vp' ∈ vps
    · obtain ⟨x, hx, hsmall, hfree, hused⟩ := h.frames vp' hmem
      refine ⟨x, hx, hsmall, ?_, hused⟩
      rw [hst]
      exact List.mem_cons_of_mem n (hsuf.subset hfree)
    · refine ⟨_, (hnew vp' hvp' hmem).2, rfl, ?_, ?_⟩
      · rw [hphys, hst]
        exact List.mem_cons_self
      · rw [hphys]
        exact fun hused => hrest (hsuf.subset (hsuf'.subset hused))
  · intro vp₁ h₁ vp₂ h₂ x y hx hy heq
    by_cases hm₁ : vp₁ ∈ vps
    · by_cases hm₂ : vp₂ ∈ vps
      · exact h.distinct vp₁ hm₁ vp₂ hm₂ x y hx hy heq
      · exact absurd heq (hapart vp₁ hm₁ vp₂ h₂ hm₂ x y hx hy)
    · by_cases hm₂ : vp₂ ∈ vps
      · exact absurd heq.symm (hapart vp₂ hm₂ vp₁ h₁ hm₁ y x hy hx)
      · rw [(hnew vp₁ h₁ hm₁).1, (hnew vp₂ h₂ hm₂).1]

variable (elfData) in
theorem PageJob.run_outcome (hwf : m.Wf pool (wholeTree root)) (hj : m.NotHuge root j.vpage) :
    let m' := j.run root elfData m
    Keeps pool m root m' ∧
      (PageFits m root j.vpage (segmentFlags j.phdrFlags) m' ∨
        m.OnlyZeroMapped root m' ∧ PageFails m root j.vpage m') :=
  elfLoadPage_outcome elfData j.phdr j.vaddr hwf ⟨segmentFlags_low _, segmentFlags_small _, hj⟩

/-- Every list of turns keeps what one turn keeps. -/
theorem loadJobs_keeps (hwf : m.Wf pool (wholeTree root)) (hjobs : ∀ j ∈ jobs, m.NotHuge root j.vpage) :
    Keeps pool m root (loadJobs root elfData m jobs) := by
  induction jobs generalizing m with
  | nil => exact .start hwf
  | cons j jobs ih =>
    obtain ⟨hkeep, -⟩ := PageJob.run_outcome elfData hwf (hjobs j List.mem_cons_self)
    exact hkeep.trans (ih hkeep.wf fun k hk => hkeep.notHuge _ (hjobs k (List.mem_cons_of_mem j hk)))

/-- **Without frames** the turns map pages to frame 0 only. -/
theorem loadJobs_nil (hwf : m.Wf pool (wholeTree root)) (hjobs : ∀ j ∈ jobs, m.NotHuge root j.vpage)
    (hst : m.pmm.freeStack = []) : m.OnlyZeroMapped root (loadJobs root elfData m jobs) := by
  induction jobs generalizing m with
  | nil => exact .refl
  | cons j jobs ih =>
    obtain ⟨hkeep, hcases⟩ := PageJob.run_outcome elfData hwf (hjobs j List.mem_cons_self)
    rcases hcases with hfits | ⟨hzero, hfails⟩
    · obtain ⟨n, rest, hcons, -⟩ := hfits.loaded
      rw [hst] at hcons
      cases hcons
    · have hnext := ih hkeep.wf (fun k hk => hkeep.notHuge _ (hjobs k (List.mem_cons_of_mem j hk)))
        hfails.frames
      exact hzero.trans hnext

/-- **If the frames do not suffice**, some page is left without one. -/
theorem loadJobs_fails (hwf : m.Wf pool (wholeTree root)) (hjobs : ∀ j ∈ jobs, m.NotHuge root j.vpage)
    (hneed : m.pmm.freeStack.length < m.neededFrames root (jobs.map PageJob.vpage)) :
    ∃ j ∈ jobs, (loadJobs root elfData m jobs).Unbacked root j.vpage := by
  induction jobs generalizing m with
  | nil => exact absurd hneed (Nat.not_lt_zero _)
  | cons j jobs ih =>
    obtain ⟨hkeep, hcases⟩ := PageJob.run_outcome elfData hwf (hjobs j List.mem_cons_self)
    have hrest : ∀ k ∈ jobs, (j.run root elfData m).NotHuge root k.vpage :=
      fun k hk => hkeep.notHuge _ (hjobs k (List.mem_cons_of_mem j hk))
    rcases hcases with hfits | ⟨-, hfails⟩
    · rw [List.map_cons, neededFrames_cons hfits.tables] at hneed
      have hframes := hfits.frames
      obtain ⟨k, hk, hunbacked⟩ := ih hkeep.wf hrest (by omega)
      exact ⟨k, List.mem_cons_of_mem j hk, hunbacked⟩
    · exact ⟨j, List.mem_cons_self, (loadJobs_nil hkeep.wf hrest hfails.frames).unbacked hfails.unbacked⟩

variable (elfData) in
/-- **If they suffice**, every page gets its own, and the other pages stay as
    they are. -/
theorem loadJobs_fits (hwf : m.Wf pool (wholeTree root)) (hjobs : ∀ j ∈ jobs, m.NotHuge root j.vpage)
    (hneed : m.neededFrames root (jobs.map PageJob.vpage) ≤ m.pmm.freeStack.length) :
    let m' := loadJobs root elfData m jobs
    Backed m root (jobs.map PageJob.vpage) m' ∧ m'.pmm.freeStack <:+ m.pmm.freeStack ∧
      (∀ vp, vp ∉ jobs.map PageJob.vpage → pageLookup m' root vp = pageLookup m root vp) ∧
      ∀ x, m.Quiet root x → m'.mem x = m.mem x := by
  induction jobs generalizing m with
  | nil =>
    refine ⟨⟨fun vp hvp => ?_, fun vp hvp => ?_⟩, List.suffix_rfl, fun _ _ => rfl, fun _ _ => rfl⟩
    · exact absurd hvp List.not_mem_nil
    · exact absurd hvp List.not_mem_nil
  | cons j jobs ih =>
    obtain ⟨hkeep, hcases⟩ := PageJob.run_outcome elfData hwf (hjobs j List.mem_cons_self)
    have hrest : ∀ k ∈ jobs, (j.run root elfData m).NotHuge root k.vpage :=
      fun k hk => hkeep.notHuge _ (hjobs k (List.mem_cons_of_mem j hk))
    have hfits : PageFits m root j.vpage (segmentFlags j.phdrFlags) (j.run root elfData m) := by
      rcases hcases with hfits | ⟨-, hfails⟩
      · exact hfits
      · have hle := le_neededFrames_cons.trans hneed
        exact absurd hfails.needed (Nat.not_lt_of_le hle)
    rw [List.map_cons, neededFrames_cons hfits.tables] at hneed
    have hframes := hfits.frames
    obtain ⟨hbacked, hsuf, hothers, hkept⟩ := ih hkeep.wf hrest (by omega)
    obtain ⟨n, rest, hst, hsuf', hlook⟩ := hfits.loaded
    obtain ⟨hn, -, hnrest, -, -⟩ := hwf.top hst
    have hown : j.vpage ∉ jobs.map PageJob.vpage →
        pageLookup (loadJobs root elfData (j.run root elfData m) jobs) root j.vpage =
          some (smallMapping n (segmentFlags j.phdrFlags)) := by
      intro hnew
      rw [hothers _ hnew, hlook, if_pos rfl]
    refine ⟨hbacked.cons hst hn hnrest hsuf' hsuf hown, ?_, fun vp hvp => ?_, fun x hx => ?_⟩
    · rw [hst]
      exact (hsuf.trans hsuf').trans (List.suffix_cons n rest)
    · rw [List.map_cons, List.mem_cons, not_or] at hvp
      exact (hothers vp hvp.2).trans ((hlook vp).trans (if_neg hvp.1))
    · obtain ⟨hmem, hq⟩ := hfits.quiet x hx
      exact (hkept x hq).trans hmem

end Jobs

/-! ## §4. The loops of the loader as one list of pages. -/

/-- A byte that the loops of `elf_load` go by: of the file's header, or of a
    program header. -/
def HeaderByte (mem : Mem) (elfData x : Word) : Prop :=
  (x - elfData).toNat < 58 ∨
    ∃ i < (headerPhnum mem elfData).toNat, (x - phdrAddr mem elfData i).toNat < 48

section Flat

variable {mem mem' : Mem} {root elfData phdr : Word} {m : Machine}

theorem segmentJobs_congr (h : SameBytes phdr 48 mem' mem) : segmentJobs mem' phdr = segmentJobs mem phdr := by
  have hself := At.self phdr
  have htype : phdrType mem' phdr = phdrType mem phdr := h.load32 hself (by decide) (by decide)
  have hflags : phdrFlags mem' phdr = phdrFlags mem phdr :=
    h.load32 (hself.add 4 (by decide)) (by decide) (by decide)
  have hvaddr : phdrVaddr mem' phdr = phdrVaddr mem phdr :=
    h.load64 (hself.add 16 (by decide)) (by decide) (by decide)
  have hmemsz : phdrMemsz mem' phdr = phdrMemsz mem phdr :=
    h.load64 (hself.add 40 (by decide)) (by decide) (by decide)
  unfold segmentJobs
  rw [htype, hflags, hvaddr, hmemsz]

/-- Memories with the same header bytes hold the same headers. -/
theorem headers_congr (h : ∀ x, HeaderByte mem elfData x → mem' x = mem x) :
    headerPhnum mem' elfData = headerPhnum mem elfData ∧
      (∀ i, phdrAddr mem' elfData i = phdrAddr mem elfData i) ∧
      ∀ i < (headerPhnum mem elfData).toNat,
        segmentJobs mem' (phdrAddr mem elfData i) = segmentJobs mem (phdrAddr mem elfData i) := by
  have hheader : SameBytes elfData 58 mem' mem := fun x hx => h x (.inl hx)
  have hself := At.self elfData
  have hphoff : headerPhoff mem' elfData = headerPhoff mem elfData :=
    hheader.load64 (hself.add 32 (by decide)) (by decide) (by decide)
  have hsize : headerPhentsize mem' elfData = headerPhentsize mem elfData :=
    hheader.load16 (hself.add 54 (by decide)) (by decide) (by decide)
  refine ⟨hheader.load16 (hself.add 56 (by decide)) (by decide) (by decide), fun i => ?_, fun i hi => ?_⟩
  · unfold phdrAddr
    rw [hphoff, hsize]
  · exact segmentJobs_congr fun x hx => h x (.inr ⟨i, hi, hx⟩)

/-- One header: its pages, if it is loadable. -/
theorem elfLoadPhdr_jobs (m : Machine) (root elfData phdr : Word) :
    (if phdrType m.mem phdr = ptLoad then elfLoadSegment m root elfData phdr else m) =
      loadJobs root elfData m (segmentJobs m.mem phdr) := by
  unfold segmentJobs loadJobs
  by_cases hload : phdrType m.mem phdr = ptLoad
  · rw [if_pos hload, if_pos hload, elfLoadSegment_eq, List.foldl_map]
    rfl
  · rw [if_neg hload, if_neg hload, List.foldl_nil]

theorem loadJobs_append (m : Machine) (jobs jobs' : List PageJob) :
    loadJobs root elfData m (jobs ++ jobs') = loadJobs root elfData (loadJobs root elfData m jobs) jobs' :=
  List.foldl_append

theorem phdrJobs_succ (mem : Mem) (elfData : Word) (i n : Nat) :
    phdrJobs mem elfData i (n + 1) =
      segmentJobs mem (phdrAddr mem elfData i) ++ phdrJobs mem elfData (i + 1) n := by
  unfold phdrJobs
  rw [List.range'_succ, List.flatMap_cons]

/-- **The loop over the headers is the list of their pages**, when what is
    loaded leaves the header bytes alone. -/
theorem elfLoadPhdrs_jobs {I : Machine → Prop}
    (hheaders : ∀ m, I m → ∀ x, HeaderByte mem elfData x → m.mem x = mem x)
    (hjobs : ∀ m, ∀ jobs ⊆ imageJobs mem elfData, I m → I (loadJobs root elfData m jobs)) (fuel i : Nat)
    (hfuel : (headerPhnum mem elfData).toNat ≤ i + fuel) (hm : I m) :
    elfLoadPhdrs root elfData fuel i m =
      loadJobs root elfData m (phdrJobs mem elfData i ((headerPhnum mem elfData).toNat - i)) := by
  induction fuel generalizing i m with
  | zero =>
    rw [Nat.sub_eq_zero_of_le (show _ ≤ i from hfuel)]
    rfl
  | succ fuel ih =>
    obtain ⟨hphnum, haddr, hsegment⟩ := headers_congr (hheaders m hm)
    unfold elfLoadPhdrs
    rw [hphnum]
    by_cases hi : i < (headerPhnum mem elfData).toNat
    · have hsub : segmentJobs mem (phdrAddr mem elfData i) ⊆ imageJobs mem elfData := by
        intro j hj
        exact List.mem_flatMap.mpr ⟨i, List.mem_range'_1.mpr ⟨Nat.zero_le i, by omega⟩, hj⟩
      have hsplit : (headerPhnum mem elfData).toNat - i = (headerPhnum mem elfData).toNat - (i + 1) + 1 := by
        omega
      rw [if_pos hi, hsplit, phdrJobs_succ, loadJobs_append]
      dsimp only
      rw [elfLoadPhdr_jobs, haddr, hsegment i hi]
      exact ih (i + 1) (by omega) (hjobs m _ hsub hm)
    · rw [if_neg hi, Nat.sub_eq_zero_of_le (Nat.le_of_not_lt hi)]
      rfl

end Flat

/-! ## §5. The new address space. -/

/-- The kernel's tree lends the table at the path to every space. -/
def Machine.Lent (m : Machine) (q : List (Fin 512)) : Prop :=
  q.getLast? = some 0 ∧ m.HasTable m.currentPml4 q

instance (m : Machine) (q : List (Fin 512)) : Decidable (m.Lent q) :=
  inferInstanceAs (Decidable (_ ∧ _))

/-- **The frames `elf_load` needs**: one for the PML4, one for each page, and
    one for each table that the kernel does not lend. -/
def framesNeeded (m : Machine) (elfData : Word) : Nat :=
  let vps := (imageJobs m.mem elfData).map PageJob.vpage
  1 + (vps.length + ((vps.flatMap VPage.tablePaths).toFinset.filter fun q => ¬ m.Lent q).card)

section Created

variable {pool : Finset Nat} {m : Machine} {n x : Word} {rest : List Word} {vps : List VPage}
  {q : List (Fin 512)}

/-- Below its root a new space has the tables it is lent. -/
theorem hasTable_createdSpace (h : m.Wf pool (wholeTree m.currentPml4))
    (hst : m.pmm.freeStack = n :: rest) (hq : q ≠ []) :
    (m.createdSpace n (m.entry m.currentPml4 0)).HasTable n q ↔ m.Lent q := by
  unfold Machine.Lent Machine.HasTable
  rcases path_cases q with rfl | ⟨front, i, rfl⟩
  · exact absurd rfl hq
  · rw [List.getLast?_concat, Option.some.injEq]
    by_cases hi : i = 0
    · rw [hi, tableAt_createdSpace_shared h hst, and_iff_right rfl]
    · rw [tableAt_createdSpace_user h hst hi]
      exact iff_of_false (by simp) fun hc => hi hc.1

theorem neededFrames_createdSpace (h : m.Wf pool (wholeTree m.currentPml4))
    (hst : m.pmm.freeStack = n :: rest) (vps : List VPage) :
    (m.createdSpace n (m.entry m.currentPml4 0)).neededFrames n vps =
      vps.length + ((vps.flatMap VPage.tablePaths).toFinset.filter fun q => ¬ m.Lent q).card := by
  unfold Machine.neededFrames
  congr 2
  refine Finset.filter_congr fun q hq => ?_
  obtain ⟨vp, -, hvp⟩ := List.mem_flatMap.mp (List.mem_toFinset.mp hq)
  have hne : q ≠ [] := by
    rintro rfl
    simp [VPage.tablePaths, VPage.pdPath, VPage.ptPath] at hvp
  rw [hasTable_createdSpace h hst hne]

/-- The bytes that are quiet for the kernel are quiet for the new space. -/
theorem Machine.Quiet.createdSpace (hx : m.Quiet m.currentPml4 x)
    (h : m.Wf pool (wholeTree m.currentPml4)) (hst : m.pmm.freeStack = n :: rest) :
    (m.createdSpace n (m.entry m.currentPml4 0)).mem x = m.mem x ∧
      (m.createdSpace n (m.entry m.currentPml4 0)).Quiet n x := by
  have hfree : ∀ f ∈ n :: rest, ¬ InPage f x := fun f hf => hx.1 f (hst ▸ hf)
  have hn : ¬ InPage n x := hfree n List.mem_cons_self
  refine ⟨?_, fun f hf => ?_, fun q s hs => ?_⟩
  · unfold Machine.createdSpace
    rw [Machine.mem_setEntry_of_not_inPage hn, mem_zeroTable_of_not_inPage hn]
    rfl
  · rw [freeStack_createdSpace hst] at hf
    exact hfree f (List.mem_cons_of_mem n hf)
  · obtain ⟨-, hs⟩ := wholeTree_tableOf.mp hs
    rcases path_cases q with rfl | ⟨front, i, rfl⟩
    · cases hs
      exact hn
    · by_cases hi : i = 0
      · rw [hi, tableAt_createdSpace_shared h hst] at hs
        exact hx.2 _ s ⟨wholeTree_path, hs⟩
      · rw [tableAt_createdSpace_user h hst hi] at hs
        cases hs

/-- Page 0 is no free frame and no table. -/
theorem Machine.Quiet.of_page0 {root : Word} (h : m.Wf pool (wholeTree root)) (hx : InPage 0 x) :
    m.Quiet root x := by
  have hzero : Aligned (0 : Word) := by decide
  refine ⟨fun f hf => ?_, fun q s hs => ?_⟩
  · have hne : f ≠ 0 := by
      rintro rfl
      exact h.zero (h.pmm.free_mem 0 (by decide) (h.pmm.bitmap_of_mem hf))
    exact Mem.not_inPage_of_ne hzero (h.pmm.aligned f hf) hne.symm hx
  · exact Mem.not_inPage_of_ne hzero (h.aligned hs) (h.nonzero _ _ _ hs).symm hx

/-- No 2 MiB page covers a page of the new space, if the kernel has none there
    in slot 0. -/
theorem notHuge_createdSpace (h : m.Wf pool (wholeTree m.currentPml4)) (hst : m.pmm.freeStack = n :: rest)
    {vp : VPage} (hvp : vp.pml4 = 0 → m.NotHuge m.currentPml4 vp) :
    (m.createdSpace n (m.entry m.currentPml4 0)).NotHuge n vp := by
  intro x hx
  rw [pageLookup_createdSpace h hst] at hx
  split at hx
  · rename_i hslot
    exact hvp hslot x hx
  · cases hx

end Created

/-! ## §6. Loading a file. -/

/-- **The headers are settled**: their bytes lie in no free frame, in no table
    of the kernel's tree and not in page 0. -/
def ImageSettled (m : Machine) (elfData : Word) : Prop :=
  ∀ x, HeaderByte m.mem elfData x → m.Quiet m.currentPml4 x ∧ ¬ InPage 0 x

/-- No page of the file lies under a 2 MiB page of the kernel. -/
def ImageClear (m : Machine) (elfData : Word) : Prop :=
  ∀ j ∈ imageJobs m.mem elfData, j.vpage.pml4 = 0 → m.NotHuge m.currentPml4 j.vpage

/-- **Loading is atomic**: `elf_load` returns `true`, and the PML4 and every
    page of the file have a frame of their own that was free before; or it
    returns `false`, and the free frames are what they were.  Either way page 0
    is as before. -/
def LoadAtomic (m : Machine) (elfData : Word) : Prop :=
  (∀ x, InPage 0 x → (elfLoad m elfData).2.mem x = m.mem x) ∧
    match elfLoad m elfData with
    | (some (_, pml4), m') =>
        pml4 ∈ m.pmm.freeStack ∧ pml4 ∉ m'.pmm.freeStack ∧
          Backed m pml4 ((imageJobs m.mem elfData).map PageJob.vpage) m' ∧
          ∀ vp ∈ (imageJobs m.mem elfData).map PageJob.vpage, ∀ x,
            pageLookup m' pml4 vp = some x → x.phys ≠ pml4
    | (none, m') => m'.pmm.freeStack.Perm m.pmm.freeStack

section Load

variable {pool : Finset Nat} {m : Machine} {elfData n : Word} {rest : List Word}

theorem elfLoad_badMagic (h : m.mem.load32 elfData ≠ elfMagic) : elfLoad m elfData = (none, m) :=
  if_pos h

/-- With a wrong magic number nothing happens. -/
theorem loadAtomic_badMagic (h : m.mem.load32 elfData ≠ elfMagic) : LoadAtomic m elfData := by
  unfold LoadAtomic
  rw [elfLoad_badMagic h]
  exact ⟨fun _ _ => rfl, List.Perm.refl _⟩

/-- **`elf_load` as the list of its pages**, once there is a PML4. -/
theorem elfLoad_jobs (hkernel : m.Wf pool (wholeTree m.currentPml4)) (himage : ImageSettled m elfData)
    (hclear : ImageClear m elfData) (hmagic : m.mem.load32 elfData = elfMagic)
    (hst : m.pmm.freeStack = n :: rest) :
    let m₁ := m.createdSpace n (m.entry m.currentPml4 0)
    m₁.Wf pool (wholeTree n) ∧ (∀ j ∈ imageJobs m.mem elfData, m₁.NotHuge n j.vpage) ∧
      elfLoad m elfData = (some (headerEntry m₁.mem elfData, n),
        loadJobs n elfData m₁ (imageJobs m.mem elfData)) := by
  intro m₁
  have hwf : m₁.Wf pool (wholeTree n) := hkernel.createdSpace_whole hst
  have hsmall : ∀ j ∈ imageJobs m.mem elfData, m₁.NotHuge n j.vpage :=
    fun j hj => notHuge_createdSpace hkernel hst (hclear j hj)
  refine ⟨hwf, hsmall, ?_⟩
  have hheaders : ∀ m', Keeps pool m₁ n m' → ∀ x, HeaderByte m.mem elfData x → m'.mem x = m.mem x := by
    intro m' hkeep x hx
    obtain ⟨hquiet, h0⟩ := himage x hx
    obtain ⟨hmem, hquiet'⟩ := hquiet.createdSpace hkernel hst
    exact (hkeep.quiet x hquiet' h0).1.trans hmem
  have hjobs : ∀ m', ∀ jobs ⊆ imageJobs m.mem elfData, Keeps pool m₁ n m' →
      Keeps pool m₁ n (loadJobs n elfData m' jobs) := by
    intro m' jobs hsub hkeep
    exact hkeep.trans (loadJobs_keeps hkeep.wf fun j hj => hkeep.notHuge _ (hsmall j (hsub hj)))
  have hphnum := (headerPhnum m.mem elfData).isLt
  have hloop := elfLoadPhdrs_jobs hheaders hjobs 65536 0 (by omega) (.start hwf)
  unfold elfLoad
  rw [if_neg (not_not_intro hmagic), hkernel.create_eq hst]
  dsimp only
  rw [hloop]
  rfl

/-- With no page under a 2 MiB page of the kernel, the frames decide. -/
theorem loadAtomic_iff_frames (hkernel : m.Wf pool (wholeTree m.currentPml4))
    (himage : ImageSettled m elfData) (hclear : ImageClear m elfData)
    (hmagic : m.mem.load32 elfData = elfMagic) :
    LoadAtomic m elfData ↔ framesNeeded m elfData ≤ m.pmm.freeStack.length := by
  cases hst : m.pmm.freeStack with
  | nil =>
    -- `*pml4` is NULL
    have hone : 1 ≤ framesNeeded m elfData := Nat.le_add_right 1 _
    have hneed : ¬ framesNeeded m elfData ≤ ([] : List Word).length := Nat.not_le_of_lt hone
    refine iff_of_false (fun hatomic => ?_) hneed
    obtain ⟨-, hresult⟩ := hatomic
    unfold elfLoad at hresult
    rw [if_neg (not_not_intro hmagic), vmmCreateAddressSpace_nil hst] at hresult
    have hnull : (0 : Word) ∈ m.pmm.freeStack := hresult.1
    rw [hst] at hnull
    cases hnull
  | cons n rest =>
    obtain ⟨hwf, hsmall, hload⟩ := elfLoad_jobs hkernel himage hclear hmagic hst
    obtain ⟨hn, -, hnrest, -, -⟩ := hkernel.top hst
    set m₁ := m.createdSpace n (m.entry m.currentPml4 0) with hm₁
    set vps := (imageJobs m.mem elfData).map PageJob.vpage with hvps
    have hst₁ : m₁.pmm.freeStack = rest := freeStack_createdSpace hst
    have hneeded : framesNeeded m elfData = 1 + m₁.neededFrames n vps := by
      rw [neededFrames_createdSpace hkernel hst]
      rfl
    have hlen : framesNeeded m elfData ≤ (n :: rest).length ↔
        m₁.neededFrames n vps ≤ m₁.pmm.freeStack.length := by
      rw [hneeded, hst₁, List.length_cons]
      omega
    rw [hlen]
    unfold LoadAtomic
    rw [hload]
    constructor
    · rintro ⟨-, -, -, hbacked, -⟩
      by_contra hmany
      obtain ⟨j, hj, hunbacked⟩ := loadJobs_fails hwf hsmall (Nat.lt_of_not_le hmany)
      obtain ⟨x, hx, -, hfree, -⟩ := hbacked.frames _ (List.mem_map_of_mem hj)
      rw [hunbacked x hx] at hfree
      exact hkernel.zero (hkernel.pmm.free_mem 0 (by decide) (hkernel.pmm.bitmap_of_mem hfree))
    · intro hfew
      obtain ⟨hbacked, hsuf, -, hkept⟩ := loadJobs_fits elfData hwf hsmall hfew
      rw [hst₁] at hsuf
      have hmem : ∀ x, InPage 0 x → (loadJobs n elfData m₁ (imageJobs m.mem elfData)).mem x = m.mem x := by
        intro x hx
        obtain ⟨hmem, hquiet⟩ := (Machine.Quiet.of_page0 hkernel hx).createdSpace hkernel hst
        exact (hkept x hquiet).trans hmem
      have hin : n ∈ m.pmm.freeStack := by
        rw [hst]
        exact List.mem_cons_self
      refine ⟨hmem, hin, fun hused => hnrest (hsuf.subset hused), ⟨fun vp hvp => ?_, hbacked.distinct⟩,
        fun vp hvp x hx heq => ?_⟩
      · obtain ⟨x, hx, hsm, hfree, hused⟩ := hbacked.frames vp hvp
        rw [hst₁] at hfree
        refine ⟨x, hx, hsm, ?_, hused⟩
        rw [hst]
        exact List.mem_cons_of_mem n hfree
      · obtain ⟨y, hy, -, hfree, -⟩ := hbacked.frames vp hvp
        rw [hx] at hy
        cases hy
        rw [hst₁, heq] at hfree
        exact hnrest hfree

/-- **When loading a file is atomic.**  Take any file whose headers are
    settled, and any number of free frames.  If the magic number is wrong, or
    no page of the file lies under a 2 MiB page of the kernel and the frames
    suffice, then loading is atomic.  Of the files without such a page it is
    atomic for no others. -/
theorem elf_load_atomic_iff (hkernel : m.Wf pool (wholeTree m.currentPml4))
    (himage : ImageSettled m elfData) :
    (m.mem.load32 elfData ≠ elfMagic ∨
        ImageClear m elfData ∧ framesNeeded m elfData ≤ m.pmm.freeStack.length →
      LoadAtomic m elfData) ∧
    (ImageClear m elfData → (LoadAtomic m elfData ↔
      m.mem.load32 elfData ≠ elfMagic ∨ framesNeeded m elfData ≤ m.pmm.freeStack.length)) := by
  have hiff : ImageClear m elfData → (LoadAtomic m elfData ↔
      m.mem.load32 elfData ≠ elfMagic ∨ framesNeeded m elfData ≤ m.pmm.freeStack.length) := by
    intro hclear
    by_cases hmagic : m.mem.load32 elfData = elfMagic
    · rw [loadAtomic_iff_frames hkernel himage hclear hmagic]
      exact ⟨.inr, fun h => h.resolve_left (not_not_intro hmagic)⟩
    · exact iff_of_true (loadAtomic_badMagic hmagic) (.inl hmagic)
  refine ⟨fun hcond => ?_, hiff⟩
  rcases hcond with hmagic | ⟨hclear, hfew⟩
  · exact loadAtomic_badMagic hmagic
  · exact (hiff hclear).mpr (.inr hfew)

end Load

/-! ## §7. An example. -/

/-- The bytes that are not zero of a file with one program header, of a
    segment of one page at the start of PML4 slot 1. -/
def imageFile : List (Nat × BitVec 8) :=
  [(0, 0x7F), (1, 0x45), (2, 0x4C), (3, 0x46), (32, 64), (54, 56), (56, 1),
    (64, 1), (68, 6), (84, 0x80), (96, 3), (104, 5)]

/-- `n` free frames, an empty PML4 at 0x1000, and the file at 1.5 MiB. -/
def imageMachine (n : Nat) : Machine :=
  { pmm := smallPmm n
    mem := fun a =>
      if 123 ≤ (a - 0x180000).toNat then 0
      else (imageFile.lookup (a - 0x180000).toNat).getD 0
    currentPml4 := 0x1000
    stores := [] }

theorem imageMachine_small {n : Nat} (hn : n ≤ 1024) : SmallMachine n (imageMachine n) := by
  refine ⟨by simp only [imageMachine], hn, fun x hx => if_pos ?_⟩
  unfold InPage at hx
  bv_omega

theorem imageJobs_imageMachine (n : Nat) :
    imageJobs (imageMachine n).mem 0x180000 = [⟨0x180040, 0x8000000000, 6, 0⟩] := by
  have hmem : (imageMachine n).mem = (imageMachine 0).mem := rfl
  rw [hmem]
  decide

theorem imageMachine_settled {n : Nat} (hn : n ≤ 1024) : ImageSettled (imageMachine n) 0x180000 := by
  have hmem : (imageMachine n).mem = (imageMachine 0).mem := rfl
  have hphnum : (headerPhnum (imageMachine n).mem 0x180000).toNat = 1 := by
    rw [hmem]
    decide
  have hphdr : phdrAddr (imageMachine n).mem 0x180000 0 = 0x180040 := by
    rw [hmem]
    decide
  intro x hx
  have hrange : 0x180000 ≤ x.toNat ∧ x.toNat < 0x181000 := by
    rcases hx with hheader | ⟨i, hi, hphdrByte⟩
    · bv_omega
    · rw [hphnum, Nat.lt_one_iff] at hi
      rw [hi, hphdr] at hphdrByte
      bv_omega
  refine ⟨(imageMachine_small hn).quiet hrange.1 hrange.2, fun h0 => ?_⟩
  unfold InPage at h0
  bv_omega

theorem imageMachine_clear (n : Nat) : ImageClear (imageMachine n) 0x180000 := by
  intro j hj hslot
  rw [imageJobs_imageMachine, List.mem_singleton] at hj
  rw [hj] at hslot
  exact absurd hslot (by decide)

/-- Five frames are enough for one page: with the PML4 and three tables. -/
theorem framesNeeded_imageMachine (n : Nat) :
    2 ≤ framesNeeded (imageMachine n) 0x180000 ∧ framesNeeded (imageMachine n) 0x180000 ≤ 5 := by
  unfold framesNeeded
  rw [imageJobs_imageMachine]
  set paths := [VPage.of (segmentPage 0x8000000000 0)].flatMap VPage.tablePaths with hpaths
  have hcard := (Finset.card_filter_le paths.toFinset fun q => ¬ (imageMachine n).Lent q).trans
    (List.toFinset_card_le paths)
  have hlen : paths.length = 3 := rfl
  have hone : ([⟨0x180040, 0x8000000000, 6, 0⟩] : List PageJob).length = 1 := rfl
  dsimp only
  rw [List.length_map, hone]
  have hcard' : (Finset.filter (fun q => ¬ (imageMachine n).Lent q) (List.flatMap VPage.tablePaths
    (List.map PageJob.vpage [⟨0x180040, 0x8000000000, 6, 0⟩])).toFinset).card ≤ 3 := hlen ▸ hcard
  omega

/-- With eight free frames the file is loaded. -/
theorem elf_load_atomic_eight : LoadAtomic (imageMachine 8) 0x180000 := by
  have hkernel : (imageMachine 8).Wf (bootPool (smallPmm 8)) (wholeTree (imageMachine 8).currentPml4) :=
    (imageMachine_small (by decide)).wf
  have hlen : (imageMachine 8).pmm.freeStack.length = 8 := by
    rw [(imageMachine_small (by decide)).frames, freeStack_smallPmm]
    rfl
  have hfew : framesNeeded (imageMachine 8) 0x180000 ≤ (imageMachine 8).pmm.freeStack.length := by
    have hfive := (framesNeeded_imageMachine 8).2
    omega
  exact (elf_load_atomic_iff hkernel (imageMachine_settled (by decide))).1
    (.inr ⟨imageMachine_clear 8, hfew⟩)

/-- **With one free frame it is not**: the frame becomes the PML4, and frame 0
    is zeroed for the page. -/
theorem one_frame_not_atomic : ¬ LoadAtomic (imageMachine 1) 0x180000 := by
  have hkernel : (imageMachine 1).Wf (bootPool (smallPmm 1)) (wholeTree (imageMachine 1).currentPml4) :=
    (imageMachine_small (by decide)).wf
  have hlen : (imageMachine 1).pmm.freeStack.length = 1 := by
    rw [(imageMachine_small (by decide)).frames, freeStack_smallPmm]
    rfl
  have hmagic : (imageMachine 1).mem.load32 0x180000 = elfMagic := by decide
  have htwo := (framesNeeded_imageMachine 1).1
  rw [loadAtomic_iff_frames hkernel (imageMachine_settled (by decide)) (imageMachine_clear 1) hmagic]
  omega

end ZohoOs
