/-
  ZohoOs.Window.Address — where the window buffers are mapped.

  User programs compute the address of a window's buffer from its id in 64
  bits, `sys_create_window` in 32.  The two agree for the ids below 96; at
  that id the kernel's sum wraps and the buffer is mapped at address 0.

  `Gui.BuffersApart` is what a run of window creations should keep:
  every buffer where user programs look for it, no two overlapping, none over
  the kernel.  `window_buffers_apart_iff` says exactly which runs keep it.
-/
import Mathlib.Order.CompletePartialOrder
import Mathlib.Order.Interval.Set.Disjoint
import ZohoOs.Lib.Transition
import ZohoOs.Kmalloc.Safety
import ZohoOs.Vmm.PageMap
import ZohoOs.Window.Basic

namespace ZohoOs

open ZohoOs.Lib

/-! ## §1. The property. -/

/-- The address `user_gui_app` computes for the buffer of window `winId`. -/
def userGuiBuffer (winId : BitVec 32) : Word := 0xA0000000 + winId.setWidth 64 * 0x1000000

/-- The addresses of a mapped buffer. -/
def MappedBuffer.region (b : MappedBuffer) : Set Nat :=
  Set.Ico b.userAddr.toNat (b.userAddr.toNat + b.numPages.toNat * 4096)

/-- The addresses the kernel uses for itself, under its identity mapping: its
    image from 1 MiB up to `kernel_end`, and its heap. -/
def kernelRegion (kernelEnd : Nat) : Set Nat :=
  Set.Ico 0x100000 kernelEnd ∪ Set.Ico heapStart.toNat (heapStart.toNat + heapSize)

/-- Every buffer is where user programs look for it, and the buffers overlap
    neither each other nor the kernel. -/
structure Gui.BuffersApart {S : Type} (kernelEnd : Nat) (g : Gui S) : Prop where
  address : ∀ b ∈ g.mapped, b.numPages ≠ 0 → b.userAddr = userGuiBuffer b.id
  apart : g.mapped.Pairwise fun a b => Disjoint a.region b.region
  kernel : ∀ b ∈ g.mapped, Disjoint b.region (kernelRegion kernelEnd)

/-! ## §2. Runs of window creations. -/

inductive WindowCall where
  /-- `window_create` by the kernel: no buffer is mapped. -/
  | create (x y w h bgColor : BitVec 32)
  /-- `sys_create_window` by the task `pid`. -/
  | sysCreate (pid : Word) (x y w h : BitVec 32)
  /-- Anything that creates no window. -/
  | other
  deriving DecidableEq

inductive WindowStep {S : Type} (vmmMap : S → Word → Word → Word → S) :
    Gui S → WindowCall → Gui S → Prop
  | create (g : Gui S) {fuel : Nat} {win : Word} {heap : Heap} {x y w h bgColor : BitVec 32}
      (hwin : kmalloc fuel g.heap windowSize = some (win, heap)) :
      WindowStep vmmMap g (.create x y w h bgColor)
        { g with heap := heap, windows := windowCreate g.windows win x y w h bgColor }
  | sysCreate (g : Gui S) {fuel : Nat} {g' : Gui S} {pid : Word} {x y w h id : BitVec 32}
      (hret : sysCreateWindow vmmMap fuel g pid x y w h = some (id, g')) :
      WindowStep vmmMap g (.sysCreate pid x y w h) g'
  | other (g g' : Gui S) (hnext : g'.windows.nextWindowId = g.windows.nextWindowId)
      (hmapped : g'.mapped = g.mapped) : WindowStep vmmMap g .other g'

/-- The window to be created gets an id below 96, and its buffer fits between
    those mapped before: 16 MiB an id. -/
def Gui.Fits {S : Type} (g : Gui S) : WindowCall → Prop
  | .sysCreate _ _ _ w h =>
      let id := g.windows.nextWindowId
      bufferPages w h ≠ 0 → id.toNat < 96 ∧
        ∀ b ∈ g.mapped, b.numPages ≠ 0 →
          b.id.toNat * 2 ^ 24 + b.numPages.toNat * 4096 ≤ id.toNat * 2 ^ 24 ∨
            id.toNat * 2 ^ 24 + (bufferPages w h).toNat * 4096 ≤ b.id.toNat * 2 ^ 24
  | _ => True

/-! ## §3. The two address computations. -/

theorem toNat_userGuiBuffer (id : BitVec 32) :
    (userGuiBuffer id).toNat = 0xA0000000 + id.toNat * 2 ^ 24 := by
  have hid : id.toNat < 2 ^ 32 := id.isLt
  unfold userGuiBuffer
  rw [BitVec.toNat_add, BitVec.toNat_mul, BitVec.toNat_setWidth,
    Nat.mod_eq_of_lt (show id.toNat < 2 ^ 64 by omega)]
  show (0xA0000000 + id.toNat * 2 ^ 24 % 2 ^ 64) % 2 ^ 64 = 0xA0000000 + id.toNat * 2 ^ 24
  omega

theorem toNat_windowUserAddr (id : BitVec 32) :
    (windowUserAddr id).toNat = (0xA0000000 + id.toNat * 2 ^ 24) % 2 ^ 32 := by
  unfold windowUserAddr
  rw [BitVec.toNat_setWidth, BitVec.toNat_add, BitVec.toNat_mul]
  show (0xA0000000 + id.toNat * 2 ^ 24 % 2 ^ 32) % 2 ^ 32 % 2 ^ 64 = _
  omega

/-- **The two computations agree exactly for the ids below 96.** -/
theorem windowUserAddr_eq_iff (id : BitVec 32) :
    windowUserAddr id = userGuiBuffer id ↔ id.toNat < 96 := by
  rw [← BitVec.toNat_inj, toNat_windowUserAddr, toNat_userGuiBuffer]
  omega

/-! ## §4. The condition is exact. -/

section Run

variable {S : Type} {vmmMap : S → Word → Word → Word → S} {kernelEnd : Nat} {g g' : Gui S}
  {a b : MappedBuffer}

theorem disjoint_Ico_iff {x m y n : Nat} :
    Disjoint (Set.Ico x (x + m)) (Set.Ico y (y + n)) ↔ m = 0 ∨ n = 0 ∨ x + m ≤ y ∨ y + n ≤ x := by
  rw [Set.Ico_disjoint_Ico]
  omega

theorem MappedBuffer.region_disjoint_iff (ha : a.userAddr = userGuiBuffer a.id)
    (hb : b.userAddr = userGuiBuffer b.id) :
    Disjoint a.region b.region ↔ a.numPages.toNat = 0 ∨ b.numPages.toNat = 0 ∨
      a.id.toNat * 2 ^ 24 + a.numPages.toNat * 4096 ≤ b.id.toNat * 2 ^ 24 ∨
        b.id.toNat * 2 ^ 24 + b.numPages.toNat * 4096 ≤ a.id.toNat * 2 ^ 24 := by
  unfold MappedBuffer.region
  rw [disjoint_Ico_iff, ha, hb, toNat_userGuiBuffer, toNat_userGuiBuffer]
  omega

theorem MappedBuffer.region_empty (hb : b.numPages = 0) : b.region = ∅ := by
  unfold MappedBuffer.region
  rw [hb]
  exact Set.Ico_self _

/-- A buffer where user programs look for it is above the kernel. -/
theorem MappedBuffer.disjoint_kernel (hend : kernelEnd ≤ 2 ^ 30)
    (hb : b.userAddr = userGuiBuffer b.id) : Disjoint b.region (kernelRegion kernelEnd) := by
  have hheap : heapStart.toNat + heapSize = 0x2000000 := by decide
  unfold MappedBuffer.region kernelRegion
  rw [hb, toNat_userGuiBuffer, Set.disjoint_left]
  intro v hv hk
  rw [Set.mem_Ico] at hv
  rw [Set.mem_union, Set.mem_Ico, Set.mem_Ico] at hk
  omega

/-- Mapping one more buffer keeps the property if and only if it fits. -/
theorem Gui.buffersApart_cons_iff (hend : kernelEnd ≤ 2 ^ 30) (h : g.BuffersApart kernelEnd)
    {id numPages : BitVec 32} (hg' : g'.mapped = ⟨id, windowUserAddr id, numPages⟩ :: g.mapped) :
    g'.BuffersApart kernelEnd ↔ (numPages ≠ 0 → id.toNat < 96 ∧
      ∀ b ∈ g.mapped, b.numPages ≠ 0 →
        b.id.toNat * 2 ^ 24 + b.numPages.toNat * 4096 ≤ id.toNat * 2 ^ 24 ∨
          id.toNat * 2 ^ 24 + numPages.toNat * 4096 ≤ b.id.toNat * 2 ^ 24) := by
  have hnz : ∀ p : BitVec 32, p ≠ 0 → p.toNat ≠ 0 := fun p hp h0 => hp (BitVec.eq_of_toNat_eq h0)
  constructor
  · intro h' hp
    have haddr : windowUserAddr id = userGuiBuffer id :=
      h'.address ⟨id, windowUserAddr id, numPages⟩ (by rw [hg']; exact List.mem_cons_self) hp
    refine ⟨(windowUserAddr_eq_iff id).mp haddr, fun b hb hbp => ?_⟩
    have hpair := h'.apart
    rw [hg', List.pairwise_cons] at hpair
    have hdisj := (MappedBuffer.region_disjoint_iff haddr (h.address b hb hbp)).mp (hpair.1 b hb)
    have hn := hnz numPages hp
    have hbn := hnz b.numPages hbp
    have hdisj := (hdisj.resolve_left hn).resolve_left hbn
    exact hdisj.symm
  · intro hfits
    have hmem : ∀ b ∈ g'.mapped, b = ⟨id, windowUserAddr id, numPages⟩ ∨ b ∈ g.mapped := by
      intro b hb
      rw [hg'] at hb
      exact List.mem_cons.mp hb
    refine ⟨fun b hb hbp => ?_, ?_, fun b hb => ?_⟩
    · rcases hmem b hb with rfl | hb
      · exact (windowUserAddr_eq_iff id).mpr (hfits hbp).1
      · exact h.address b hb hbp
    · rw [hg', List.pairwise_cons]
      refine ⟨fun b hb => ?_, h.apart⟩
      -- a buffer without a page overlaps nothing
      by_cases hp : numPages = 0
      · rw [MappedBuffer.region_empty (b := ⟨id, windowUserAddr id, numPages⟩) hp]
        exact Set.empty_disjoint _
      by_cases hbp : b.numPages = 0
      · rw [MappedBuffer.region_empty hbp]
        exact Set.disjoint_empty _
      have haddr := (windowUserAddr_eq_iff id).mpr (hfits hp).1
      rw [MappedBuffer.region_disjoint_iff haddr (h.address b hb hbp)]
      exact .inr (.inr ((hfits hp).2 b hb hbp).symm)
    · rcases hmem b hb with rfl | hb
      · by_cases hp : numPages = 0
        · rw [MappedBuffer.region_empty (b := ⟨id, windowUserAddr id, numPages⟩) hp]
          exact Set.empty_disjoint _
        · exact MappedBuffer.disjoint_kernel hend ((windowUserAddr_eq_iff id).mpr (hfits hp).1)
      · exact h.kernel b hb

theorem Gui.BuffersApart.congr (h : g.BuffersApart kernelEnd) (hm : g'.mapped = g.mapped) :
    g'.BuffersApart kernelEnd := by
  refine ⟨?_, ?_, ?_⟩ <;> rw [hm]
  · exact h.address
  · exact h.apart
  · exact h.kernel

/-- A creation keeps the property if and only if the new buffer fits. -/
theorem Gui.BuffersApart.step_iff (hend : kernelEnd ≤ 2 ^ 30) (h : g.BuffersApart kernelEnd)
    {c : WindowCall} (hstep : WindowStep vmmMap g c g') : g'.BuffersApart kernelEnd ↔ g.Fits c := by
  cases hstep with
  | create hwin => exact ⟨fun _ => trivial, fun _ => h.congr rfl⟩
  | other _ _ hmapped => exact ⟨fun _ => trivial, fun _ => h.congr hmapped⟩
  | sysCreate hret =>
    obtain ⟨_, _, _, -, -, hid, -, -, hmapped⟩ := sysCreateWindow_eq_some hret
    rw [Gui.buffersApart_cons_iff hend h hmapped, hid]
    rfl

/-- **Where the buffers are mapped.**  Take any sequence of window creations,
    with anything else in between, from a state in which no buffer is mapped.
    The buffers are always where user programs look for them, apart from each
    other and from the kernel, if and only if every window created with a
    buffer gets an id below 96 and a buffer that fits between those mapped
    before. -/
theorem window_buffers_apart_iff (hend : kernelEnd ≤ 2 ^ 30) {g₀ : Gui S}
    {tr : List (Transition (Gui S) WindowCall)} (hrun : Run (WindowStep vmmMap) g₀ tr g)
    (h0 : g₀.mapped = []) :
    (∀ x ∈ tr, x.2.2.BuffersApart kernelEnd) ↔ ∀ x ∈ tr, x.1.Fits x.2.1 := by
  have hstart : g₀.BuffersApart kernelEnd := by
    refine ⟨?_, ?_, ?_⟩ <;> rw [h0]
    · exact fun b hb => nomatch hb
    · exact List.Pairwise.nil
    · exact fun b hb => nomatch hb
  have hkeep : ∀ s c s', s.BuffersApart kernelEnd → s.Fits c → WindowStep vmmMap s c s' →
      s'.BuffersApart kernelEnd := by
    intro s c s' h hfits hstep
    exact (h.step_iff hend hstep).mpr hfits
  have hbreak : ∀ s c s', s.BuffersApart kernelEnd → WindowStep vmmMap s c s' → ¬ s.Fits c →
      ¬ s'.BuffersApart kernelEnd := by
    intro s c s' h hstep hnot hP
    exact hnot ((h.step_iff hend hstep).mp hP)
  exact hrun.always_iff hkeep (fun _ h => h) hbreak hstart

/-- A heap from which windows can be allocated, whatever else is live. -/
def Gui.HeapOk (g : Gui S) : Prop :=
  ∃ live bs, HeapSystem.Inv ⟨g.heap, live⟩ bs

/-- `kmalloc` returns and leaves such a heap. -/
theorem Gui.HeapOk.kmalloc (hg : g.HeapOk) {n : Word} (hn : n.toNat ≤ 2 ^ 64 - 8) :
    ∃ bound ret heap, (∀ fuel, bound < fuel → ZohoOs.kmalloc fuel g.heap n = some (ret, heap)) ∧
      ∀ g' : Gui S, g'.heap = heap → g'.HeapOk := by
  obtain ⟨live, bs, hinv⟩ := hg
  obtain ⟨ret, heap, hret, -⟩ := hinv.next_kmalloc hn
  obtain ⟨bs', hinv'⟩ := hinv.kmalloc hn (hret (bs.length + 1) (Nat.lt_succ_self _))
  refine ⟨bs.length, ret, heap, hret, fun g' hg' => ?_⟩
  rw [← hg'] at hinv'
  exact ⟨_, bs', hinv'⟩

/-- `sys_create_window` returns. -/
theorem Gui.HeapOk.sysCreateWindow (hg : g.HeapOk) (vmmMap : S → Word → Word → Word → S)
    (pid : Word) (x y w h : BitVec 32) :
    ∃ fuel id g', ZohoOs.sysCreateWindow vmmMap fuel g pid x y w h = some (id, g') := by
  obtain ⟨bound₁, win, heap₁, hwin, hok₁⟩ := hg.kmalloc (n := windowSize) (by decide)
  obtain ⟨bound₂, buf, heap₂, hbuf, -⟩ :=
    (hok₁ { g with heap := heap₁ } rfl).kmalloc (n := (bufferPages w h * 4096).setWidth 64) (by
      rw [BitVec.toNat_setWidth]
      have := (bufferPages w h * 4096).isLt
      omega)
  obtain ⟨g', hret, -⟩ := sysCreateWindow_of_alloc vmmMap pid x y
    (hwin (bound₁ + bound₂ + 1) (by omega)) (hbuf (bound₁ + bound₂ + 1) (by omega))
  exact ⟨_, _, g', hret⟩

/-- The kernel can create any number of windows. -/
theorem Gui.HeapOk.create_many (hg : g.HeapOk) (vmmMap : S → Word → Word → Word → S) (k : Nat) :
    ∃ tr g', Run (WindowStep vmmMap) g tr g' ∧ g'.HeapOk ∧ g'.mapped = g.mapped ∧
      g'.windows.nextWindowId = g.windows.nextWindowId + BitVec.ofNat 32 k := by
  induction k with
  | zero => exact ⟨[], g, .nil g, hg, rfl, (BitVec.add_zero _).symm⟩
  | succ k ih =>
    obtain ⟨tr, g₁, hrun, hok, hmapped, hnext⟩ := ih
    obtain ⟨bound, win, heap, hwin, hok'⟩ := hok.kmalloc (n := windowSize) (by decide)
    have hstep : WindowStep vmmMap g₁ (.create 700 50 250 400 0xFF222222) _ :=
      WindowStep.create g₁ (hwin _ (Nat.lt_succ_self _))
    refine ⟨_, _, hrun.snoc hstep, hok' _ rfl, hmapped, ?_⟩
    show g₁.windows.nextWindowId + 1 = _
    rw [hnext, BitVec.add_assoc, BitVec.ofNat_add]
    rfl

end Run

/-- The kernel after boot, with an empty address space for the caller. -/
def bootGui : Gui PageMap where
  heap := heapInit fun _ => ⟨0, false, 0⟩
  windows := ⟨fun _ => ⟨0, 0, 0, 0, 0, 0, 0, 0, 0, false, false, 0, fun _ => ⟨0, 0, 0, 0⟩, 0, 0, 0⟩,
    0, 1⟩
  mem := fun _ => 0
  space := fun _ => none
  mapped := []

theorem bootGui_heapOk : bootGui.HeapOk := by
  refine ⟨fun _ => none, [⟨heapSize - 24, true⟩], heapInit_tiled _, fun p n hp => ?_⟩
  cases hp

/-- `window_buffers_apart_iff` at the first window `user_gui_app` creates. -/
theorem window_buffers_apart_first :
    ∃ tr g, Run (WindowStep PageMap.insert) bootGui tr g ∧ tr.length = 1 ∧
      ∀ x ∈ tr, x.2.2.BuffersApart 0x200000 := by
  obtain ⟨fuel, id, g, hret⟩ :=
    bootGui_heapOk.sysCreateWindow PageMap.insert 1 200 200 300 225
  have hrun := (Run.nil bootGui).snoc (WindowStep.sysCreate bootGui hret)
  refine ⟨_, g, hrun, rfl, (window_buffers_apart_iff (by decide) hrun rfl).mpr ?_⟩
  intro x hx
  rw [List.nil_append, List.mem_singleton] at hx
  subst hx
  have hid : bootGui.windows.nextWindowId.toNat < 96 := by decide
  exact fun _ => ⟨hid, fun b hb => nomatch hb⟩

/-- After 95 windows the next one, of the size `user_gui_app` asks for, is
    mapped at address 0. -/
theorem window_96_at_zero :
    ∃ tr g, Run (WindowStep PageMap.insert) bootGui tr g ∧
      (∃ b ∈ g.mapped, b.id = 96 ∧ b.userAddr = 0 ∧ userGuiBuffer b.id = 0x100000000) ∧
        ¬ g.BuffersApart 0x200000 := by
  obtain ⟨tr, g, hrun, hok, hmapped, hnext⟩ :=
    bootGui_heapOk.create_many PageMap.insert 95
  obtain ⟨fuel, id, g', hret⟩ := hok.sysCreateWindow PageMap.insert 1 200 200 300 225
  obtain ⟨_, _, _, -, -, hid, -, -, hnew⟩ := sysCreateWindow_eq_some hret
  rw [hnext, show bootGui.windows.nextWindowId + BitVec.ofNat 32 95 = 96 from rfl] at hid
  rw [hid] at hnew
  have hmem : ⟨96, windowUserAddr 96, bufferPages 300 225⟩ ∈ g'.mapped := by
    rw [hnew]
    exact List.mem_cons_self
  refine ⟨_, g', hrun.snoc (.sysCreate g hret), ⟨_, hmem, rfl, by decide, by decide⟩, fun h => ?_⟩
  exact absurd (h.address _ hmem (by decide)) (by decide)

end ZohoOs
