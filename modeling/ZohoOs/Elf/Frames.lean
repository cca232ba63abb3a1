/-
  ZohoOs.Elf.Frames — what loading a page touches.

  A byte is quiet for an address space when no free frame and no table of the
  space has it in its page.  Mapping pages takes frames off the free stack and
  writes to tables, old ones and fresh ones, so quiet bytes keep their values
  and stay quiet.  The bytes of a frame that was handed out are quiet from
  then on: they are written by the page load that took the frame, and by no
  later one.

  Main results:
    * `Machine.Quiet.vmmMap` — `vmm_map` leaves the quiet bytes alone;
    * `elfLoadPage_spec` — one turn of the page loop of `elf_load`.
-/
import ZohoOs.Elf.Segment
import ZohoOs.Vmm.Quiet

namespace ZohoOs

open ZohoOs.Lib
open ZohoOs.Lib.Mem (Aligned slotAddr InPage)
open ZohoOs.Lib.Radix

/-! ## §1. Quiet bytes. -/

/-- The byte `x` lies in no free frame and in no table under `root`. -/
def Machine.Quiet (m : Machine) (root x : Word) : Prop :=
  (∀ f ∈ m.pmm.freeStack, ¬ InPage f x) ∧
    ∀ p t, m.TableOf (wholeTree root) root p t → ¬ InPage t x

namespace Machine.Quiet

variable {pool : Finset Nat} {m : Machine} {root n x : Word} {rest : List Word}

theorem iff_quietIn : m.Quiet root x ↔ m.QuietIn (wholeTree root) x := by
  refine and_congr_right fun _ => ⟨fun h r p t ht => ?_, fun h p t ht => h root p t ht⟩
  obtain ⟨rfl, -⟩ := wholeTree_tableOf.mp ht
  exact h p t ht

/-- A frame is taken off the stack. -/
theorem allocFrame (h : m.Quiet root x) : m.allocFrame.2.Quiet root x :=
  iff_quietIn.mpr (iff_quietIn.mp h).allocFrame

/-- **The bytes of a frame are quiet once it is handed out.** -/
theorem of_allocated (hwf : m.Wf pool (wholeTree root)) (hst : m.pmm.freeStack = n :: rest)
    (hx : InPage n x) : m.allocFrame.2.Quiet root x :=
  iff_quietIn.mpr (.of_allocated hwf hst hx)

/-- **`vmm_map` of a small page leaves the quiet bytes alone.** -/
theorem vmmMap (h : m.Quiet root x) (hwf : m.Wf pool (wholeTree root)) {virt : Word}
    (phys flags : Word) (hplain : flags &&& pageHuge = 0)
    (hsmall : ∀ y, pageLookup m root (VPage.of virt) = some y → y.huge = false) :
    (vmmMap m root virt phys flags).mem x = m.mem x ∧ (vmmMap m root virt phys flags).Quiet root x := by
  obtain ⟨hmem, hq⟩ := (iff_quietIn.mp h).vmmMap hwf phys flags wholeTree_path hplain hsmall
  exact ⟨hmem, iff_quietIn.mpr hq⟩

end Machine.Quiet

/-- `vmm_map` takes frames off the free stack only. -/
theorem vmmMap_freeStack {pool : Finset Nat} {m : Machine} {root virt : Word}
    (hwf : m.Wf pool (wholeTree root)) (phys flags : Word)
    (hsmall : flags &&& pageHuge = 0 →
      ∀ y, pageLookup m root (VPage.of virt) = some y → y.huge = false) :
    (vmmMap m root virt phys flags).pmm.freeStack <:+ m.pmm.freeStack := by
  obtain ⟨m₁, hg, hcases⟩ := hwf.vmmMap_cases phys flags
    (show VPage.of virt = VPage.of virt from rfl) wholeTree_path hsmall
  have hsuf := (hg.tableOf_cases hwf).1
  rcases hcases with ⟨hst, heq⟩ | ⟨-, pd, -, heq⟩ | ⟨-, pt, -, heq⟩
  · have hstack : (vmmMap m root virt phys flags).pmm.freeStack = [] := by
      rw [heq]
      show (pmmAllocFrame m₁.pmm).2.freeStack = []
      rw [pmmAllocFrame_nil hst]
      exact hst
    rw [hstack]
    exact List.nil_suffix
  · rw [heq]
    exact hsuf
  · rw [heq]
    exact hsuf

/-! ## §2. Filling a frame. -/

section Fill

variable {pool : Finset Nat} {m : Machine} {root n elfData phdr vaddr p : Word}

variable (elfData phdr vaddr p) in
/-- Zeroing a frame that is no table and copying into it changes no tree. -/
theorem fillPage_wf (hwf : m.Wf pool (wholeTree root)) (hn : Aligned n)
    (hfresh : ∀ q, ¬ m.TableOf (wholeTree root) root q n) :
    let m' := elfCopyPage (m.memset n 0 4096) elfData phdr vaddr n p
    m'.Wf pool (wholeTree root) ∧ m'.pmm = m.pmm ∧
      (∀ q s, m'.TableOf (wholeTree root) root q s ↔ m.TableOf (wholeTree root) root q s) ∧
      (∀ vp, pageLookup m' root vp = pageLookup m root vp) ∧
      ∀ x, ¬ InPage n x → m'.mem x = m.mem x := by
  intro m'
  obtain ⟨hpmm, -, hmem⟩ := elfFillPage_frame m elfData phdr vaddr n p
  have hsame : ∀ r q s, m.TableOf (wholeTree root) r q s → ∀ j, m'.entry s j = m.entry s j := by
    intro r q s hs j
    obtain ⟨rfl, -⟩ := wholeTree_tableOf.mp hs
    refine Machine.entry_congr fun x hx => hmem x ?_
    exact Mem.not_inPage_of_ne (hwf.aligned hs) hn (fun he => hfresh q (he ▸ hs)) hx
  obtain ⟨hwf', hiff⟩ := hwf.of_mem hpmm hsame
  exact ⟨hwf', hpmm, fun q s => hiff root q s,
    fun vp => Machine.Wf.pageLookup_of_tables wholeTree_path fun q s hs => hsame root q s hs, hmem⟩

variable (elfData phdr vaddr p) in
theorem fillPage_quiet (hwf : m.Wf pool (wholeTree root)) (hn : Aligned n)
    (hfresh : ∀ q, ¬ m.TableOf (wholeTree root) root q n) {x : Word} (hx : m.Quiet root x) :
    (elfCopyPage (m.memset n 0 4096) elfData phdr vaddr n p).Quiet root x := by
  obtain ⟨-, hpmm, hiff, -, -⟩ :=
    fillPage_wf elfData phdr vaddr p hwf hn hfresh
  exact ⟨fun f hf => hx.1 f (hpmm ▸ hf), fun q s hs => hx.2 q s ((hiff q s).mp hs)⟩

end Fill

/-! ## §3. One turn of the page loop. -/

section Page

variable {pool : Finset Nat} {m : Machine} {root elfData phdr vaddr pageStart flags p : Word}

/-- The machine in which the frame of a page is mapped, and not filled yet. -/
def mappedPage (m : Machine) (root pageStart flags p : Word) : Machine :=
  vmmMap m.allocFrame.2 root (pageStart + p * 4096) m.allocFrame.1 flags

theorem elfLoadPage_eq :
    elfLoadPage m root elfData phdr vaddr pageStart flags p =
      elfCopyPage ((mappedPage m root pageStart flags p).memset m.allocFrame.1 0 4096) elfData phdr vaddr
        m.allocFrame.1 p := rfl

/-- What the page loop asks of the flags and of the page: a small page, which
    no 2 MiB page covers. -/
structure SmallPage (m : Machine) (root virt flags : Word) : Prop where
  low : LowFlags flags
  plain : flags &&& pageHuge = 0
  small : ∀ x, pageLookup m root (VPage.of virt) = some x → x.huge = false

theorem segmentFlags_small (f : BitVec 32) : segmentFlags f &&& pageHuge = 0 := by
  unfold segmentFlags
  split <;> decide

theorem segmentFlags_low (f : BitVec 32) : LowFlags (segmentFlags f) := by
  unfold segmentFlags
  split <;> decide

/-- What one turn of the loop did, with `n` the frame it took. -/
structure PageLoaded (pool : Finset Nat) (m : Machine) (root virt flags n : Word) (m' : Machine) :
    Prop where
  wf : m'.Wf pool (wholeTree root)
  /-- The page is mapped to the frame and the other pages are as before, or a
      table could not be allocated. -/
  lookup : (m'.pmm.allocFailures = m.pmm.allocFailures ∧
      ∀ vp, pageLookup m' root vp =
        if vp = VPage.of virt then some (smallMapping n flags) else pageLookup m root vp) ∨
    (m'.pmm.allocFailures = m.pmm.allocFailures + 1 ∧ ∀ vp, pageLookup m' root vp = pageLookup m root vp)
  quiet : ∀ x, m.Quiet root x → m'.mem x = m.mem x ∧ m'.Quiet root x
  frame : ∀ x, InPage n x → m'.Quiet root x

/-- Mapping the page leaves the quiet bytes alone, and they are not in its
    frame. -/
theorem mappedPage_quiet (hwf : m.Wf pool (wholeTree root)) {n : Word} {rest : List Word}
    (hst : m.pmm.freeStack = n :: rest) (hpage : SmallPage m root (pageStart + p * 4096) flags) {x : Word}
    (hx : m.Quiet root x) :
    (mappedPage m root pageStart flags p).mem x = m.mem x ∧ ¬ InPage n x := by
  have hfree : n ∈ m.pmm.freeStack := by
    rw [hst]
    exact List.mem_cons_self
  exact ⟨(hx.allocFrame.vmmMap hwf.allocFrame _ _ hpage.plain hpage.small).1, hx.1 n hfree⟩

/-- The frame of the page becomes no table: it is quiet since it was taken. -/
theorem mappedPage_fresh (hwf : m.Wf pool (wholeTree root)) {n : Word} {rest : List Word}
    (hst : m.pmm.freeStack = n :: rest) (hpage : SmallPage m root (pageStart + p * 4096) flags) :
    (∀ x, InPage n x → (mappedPage m root pageStart flags p).Quiet root x) ∧
      ∀ q, ¬ (mappedPage m root pageStart flags p).TableOf (wholeTree root) root q n := by
  have hquiet : ∀ x, InPage n x → (mappedPage m root pageStart flags p).Quiet root x := fun x hx =>
    ((Machine.Quiet.of_allocated hwf hst hx).vmmMap hwf.allocFrame _ _ hpage.plain hpage.small).2
  have hself : InPage n n := by
    unfold InPage
    rw [BitVec.sub_self]
    decide
  exact ⟨hquiet, fun q hq => (hquiet n hself).2 q n hq hself⟩

/-- Taking the frame of a page. -/
theorem allocFrame_cons {n : Word} {rest : List Word} (hst : m.pmm.freeStack = n :: rest) :
    m.allocFrame.1 = n ∧ m.allocFrame.2.pmm.allocFailures = m.pmm.allocFailures ∧
      m.allocFrame.2.pmm.freeStack = rest := by
  rw [Machine.allocFrame, pmmAllocFrame_cons hst]
  exact ⟨rfl, rfl, rfl⟩

theorem allocFrame_nil (hst : m.pmm.freeStack = []) :
    m.allocFrame.1 = 0 ∧ m.allocFrame.2.pmm.allocFailures = m.pmm.allocFailures + 1 ∧
      m.allocFrame.2.pmm.freeStack = [] := by
  rw [Machine.allocFrame, pmmAllocFrame_nil hst]
  exact ⟨rfl, rfl, hst⟩

variable (elfData phdr vaddr) in
/-- **One turn of the page loop**, when there is a frame for the page. -/
theorem elfLoadPage_spec (hwf : m.Wf pool (wholeTree root)) {n : Word} {rest : List Word}
    (hst : m.pmm.freeStack = n :: rest) (hpage : SmallPage m root (pageStart + p * 4096) flags) :
    PageLoaded pool m root (pageStart + p * 4096) flags n
        (elfLoadPage m root elfData phdr vaddr pageStart flags p) ∧
      (elfLoadPage m root elfData phdr vaddr pageStart flags p).pmm.freeStack <:+ rest := by
  obtain ⟨hn, -, -, -, -⟩ := hwf.top hst
  obtain ⟨halloc, hfail, hrest⟩ := allocFrame_cons hst
  obtain ⟨hframe, hfresh⟩ := mappedPage_fresh hwf hst hpage
  obtain ⟨hwf₂, hlook⟩ := hwf.allocFrame.vmmMap_lookup m.allocFrame.1
    (show VPage.of (pageStart + p * 4096) = VPage.of (pageStart + p * 4096) from rfl) wholeTree_path
    hpage.low fun _ => hpage.small
  have hsuf := vmmMap_freeStack hwf.allocFrame m.allocFrame.1 flags fun _ => hpage.small
  rw [elfLoadPage_eq]
  obtain ⟨hwf₃, hpmm, -, hpages, hmem⟩ :=
    fillPage_wf elfData phdr vaddr p (m := mappedPage m root pageStart flags p) hwf₂ hn hfresh
  rw [halloc]
  refine ⟨⟨hwf₃, ?_, fun x hx => ⟨?_, ?_⟩, fun x hx => ?_⟩, ?_⟩
  · rw [hpmm, ← hfail]
    rcases hlook with ⟨hsame, hlook⟩ | ⟨hsucc, hlook⟩
    · refine .inl ⟨hsame, fun vp => ?_⟩
      rw [hpages]
      unfold mappedPage
      rw [hlook root vp wholeTree_path, if_neg (not_not_intro hpage.plain), halloc]
      simp only [true_and]
      rfl
    · refine .inr ⟨hsucc, fun vp => ?_⟩
      rw [hpages]
      unfold mappedPage
      rw [hlook root vp wholeTree_path]
      rfl
  · obtain ⟨hmem', hout⟩ := mappedPage_quiet hwf hst hpage hx
    rw [hmem x hout, hmem']
  · exact fillPage_quiet _ _ _ _ (m := mappedPage m root pageStart flags p) hwf₂ hn hfresh
      (hx.allocFrame.vmmMap hwf.allocFrame _ _ hpage.plain hpage.small).2
  · exact fillPage_quiet _ _ _ _ (m := mappedPage m root pageStart flags p) hwf₂ hn hfresh (hframe x hx)
  · rw [hpmm, ← hrest]
    exact hsuf

variable (elfData phdr vaddr) in
/-- **One turn of the page loop**, when the frames are used up: the page is
    mapped to frame 0 or not at all. -/
theorem elfLoadPage_nil (hwf : m.Wf pool (wholeTree root)) (hst : m.pmm.freeStack = [])
    (hpage : SmallPage m root (pageStart + p * 4096) flags) :
    let m' := elfLoadPage m root elfData phdr vaddr pageStart flags p
    m'.Wf pool (wholeTree root) ∧ m'.pmm.freeStack = [] ∧
      m.pmm.allocFailures < m'.pmm.allocFailures ∧
      (∀ vp, pageLookup m' root vp = pageLookup m root vp ∨
        vp = VPage.of (pageStart + p * 4096) ∧ pageLookup m' root vp = some (smallMapping 0 flags)) ∧
      ∀ x, m.Quiet root x → ¬ InPage 0 x → m'.mem x = m.mem x ∧ m'.Quiet root x := by
  obtain ⟨halloc, hfail, hrest⟩ := allocFrame_nil hst
  have hsmall : ∀ y, pageLookup m.allocFrame.2 root (VPage.of (pageStart + p * 4096)) = some y →
      y.huge = false := hpage.small
  obtain ⟨hwf₂, hlook⟩ := hwf.allocFrame.vmmMap_lookup 0
    (show VPage.of (pageStart + p * 4096) = VPage.of (pageStart + p * 4096) from rfl) wholeTree_path hpage.low fun _ => hsmall
  have hsuf := vmmMap_freeStack hwf.allocFrame 0 flags fun _ => hsmall
  rw [hrest, List.suffix_nil] at hsuf
  have hzero : Aligned (0 : Word) := by decide
  have hfresh : ∀ q, ¬ (vmmMap m.allocFrame.2 root (pageStart + p * 4096) 0 flags).TableOf
      (wholeTree root) root q 0 := fun q hq => hwf₂.nonzero _ _ _ hq rfl
  intro m'
  have hm' : m' = elfCopyPage ((vmmMap m.allocFrame.2 root (pageStart + p * 4096) 0 flags).memset 0 0 4096)
      elfData phdr vaddr 0 p := by
    show elfLoadPage m root elfData phdr vaddr pageStart flags p = _
    rw [elfLoadPage_eq, mappedPage, halloc]
  obtain ⟨hwf₃, hpmm, -, hpages, hmem⟩ :=
    fillPage_wf elfData phdr vaddr p hwf₂ hzero hfresh
  rw [hm']
  refine ⟨hwf₃, ?_, ?_, fun vp => ?_, fun x hx h0 => ⟨?_, ?_⟩⟩
  · rw [hpmm]
    exact hsuf
  · rw [hpmm]
    rcases hlook with ⟨hsame, -⟩ | ⟨hsucc, -⟩ <;> omega
  · rw [hpages]
    rcases hlook with ⟨-, hlook⟩ | ⟨-, hlook⟩
    · rw [hlook root vp wholeTree_path, if_neg (not_not_intro hpage.plain)]
      by_cases hvp : vp = VPage.of (pageStart + p * 4096)
      · exact .inr ⟨hvp, if_pos ⟨rfl, hvp⟩⟩
      · left
        rw [if_neg fun hc => hvp hc.2]
        rfl
    · left
      rw [hlook root vp wholeTree_path]
      rfl
  · rw [hmem x h0]
    exact (hx.allocFrame.vmmMap hwf.allocFrame 0 flags hpage.plain hsmall).1
  · exact fillPage_quiet _ _ _ _ hwf₂ hzero hfresh
      (hx.allocFrame.vmmMap hwf.allocFrame 0 flags hpage.plain hsmall).2

end Page

end ZohoOs
