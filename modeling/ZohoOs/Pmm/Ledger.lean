/-
  ZohoOs.Pmm.Ledger — the allocator against a ledger of who holds what.

  The ledger counts, for every frame, the references its callers hold: a
  successful allocation starts the count at 1, a further reference adds one, a
  free drops one.  It is kept from the calls and their results alone, so it
  says what the callers are entitled to.  The run of the allocator keeps its
  reference counts equal to the ledger, and hands out no frame the ledger
  still has an entry for.
-/
import ZohoOs.Lib.Transition
import ZohoOs.Pmm.Multiboot

namespace ZohoOs

open ZohoOs.Lib
open ZohoOs.Lib.Mem (Aligned)

/-! ## §1. Calls and the ledger. -/

/-- A call of the allocator. -/
inductive PmmCall where
  | alloc
  | free (frame : Word)
  | refInc (frame : Word)
  deriving DecidableEq

/-- The allocator and the references held per frame. -/
structure PmmSystem where
  pmm : Pmm
  held : Nat → Nat

/-- The ledger after `pmm_alloc_frame` returned `ret`. -/
def ledgerAlloc (held : Nat → Nat) (ret : Word) : Nat → Nat :=
  if ret = 0 then held else Function.update held (frameOf ret) 1

def ledgerFree (held : Nat → Nat) (frame : Word) : Nat → Nat :=
  Function.update held (frameOf frame) (held (frameOf frame) - 1)

def ledgerRefInc (held : Nat → Nat) (frame : Word) : Nat → Nat :=
  Function.update held (frameOf frame) (held (frameOf frame) + 1)

/-- One call.  Any page-aligned address may be freed, at any time; a reference
    is taken only to a frame that is held, and no count reaches `2 ^ 32`. -/
inductive PmmStep : PmmSystem → PmmCall → PmmSystem → Prop
  | alloc (s : PmmSystem) :
      PmmStep s .alloc ⟨(pmmAllocFrame s.pmm).2, ledgerAlloc s.held (pmmAllocFrame s.pmm).1⟩
  | free (s : PmmSystem) {a : Word} (ha : Aligned a) :
      PmmStep s (.free a) ⟨pmmFreeFrame s.pmm a, ledgerFree s.held a⟩
  | refInc (s : PmmSystem) {a : Word} (hheld : 0 < s.held (frameOf a))
      (hbound : s.held (frameOf a) + 1 < 2 ^ 32) :
      PmmStep s (.refInc a) ⟨pmmRefInc s.pmm a, ledgerRefInc s.held a⟩

/-! ## §2. The counts are the ledger. -/

/-- The allocator's counts are the ledger's, and frame 0 is not managed. -/
structure PmmSystem.Inv (pool : Finset Nat) (s : PmmSystem) : Prop where
  pmm : s.pmm.Inv pool
  counts : ∀ f < maxFrames, s.pmm.refCounts f = s.held f
  beyond : ∀ f, maxFrames ≤ f → s.held f = 0
  zero : 0 ∉ pool

/-- The address on top of the stack is not `NULL`. -/
theorem ne_zero_of_mem_freeStack {pool : Finset Nat} {p : Pmm} (h : p.Inv pool) (hz : 0 ∉ pool)
    {a : Word} (ha : a ∈ p.freeStack) : a ≠ 0 := by
  rintro rfl
  have hb := h.bitmap_of_mem ha
  exact hz (h.free_mem 0 (by decide) hb)

namespace PmmSystem.Inv

variable {pool : Finset Nat} {s : PmmSystem}

theorem alloc (h : s.Inv pool) :
    PmmSystem.Inv pool
      ⟨(pmmAllocFrame s.pmm).2, ledgerAlloc s.held (pmmAllocFrame s.pmm).1⟩ := by
  cases hst : s.pmm.freeStack with
  | nil =>
    have hinv := h.pmm.alloc
    rw [pmmAllocFrame_nil hst] at hinv ⊢
    exact ⟨hinv, by simpa [ledgerAlloc] using h.counts, by simpa [ledgerAlloc] using h.beyond, h.zero⟩
  | cons a rest =>
    have hmem : a ∈ s.pmm.freeStack := by rw [hst]; exact List.mem_cons_self
    have ha0 : a ≠ 0 := ne_zero_of_mem_freeStack h.pmm h.zero hmem
    have hlt := h.pmm.inRange a hmem
    have hinv := h.pmm.alloc
    rw [pmmAllocFrame_cons hst] at hinv ⊢
    refine ⟨hinv, ?_, ?_, h.zero⟩
    · intro f hf
      simp only [ledgerAlloc, ha0, if_false]
      by_cases hfa : f = frameOf a
      · subst hfa; rw [Function.update_self, Function.update_self]
      · rw [Function.update_of_ne hfa, Function.update_of_ne hfa]
        exact h.counts f hf
    · intro f hf
      simp only [ledgerAlloc, ha0, if_false]
      rw [Function.update_of_ne (by omega)]
      exact h.beyond f hf

/-- What `pmm_free_frame` does to the counts. -/
theorem refCounts_free (p : Pmm) (a : Word) (f : Nat) (hf : f < maxFrames) :
    (pmmFreeFrame p a).refCounts f =
      if f = frameOf a then p.refCounts f - 1 else p.refCounts f := by
  by_cases hfa : f = frameOf a
  · subst hfa
    simp only [pmmFreeFrame, if_true]
    rw [if_neg (by omega)]
    split
    · split
      · split <;> simp
      · simp
    · omega
  · simp only [pmmFreeFrame, hfa, if_false]
    split
    · rfl
    · split
      · split
        · split <;> simp [Function.update_of_ne hfa]
        · simp [Function.update_of_ne hfa]
      · rfl

theorem free (h : s.Inv pool) {a : Word} (ha : Aligned a) :
    PmmSystem.Inv pool ⟨pmmFreeFrame s.pmm a, ledgerFree s.held a⟩ := by
  refine ⟨h.pmm.free ha, ?_, ?_, h.zero⟩
  · intro f hf
    show (pmmFreeFrame s.pmm a).refCounts f = ledgerFree s.held a f
    rw [refCounts_free s.pmm a f hf, h.counts f hf, ledgerFree]
    by_cases hfa : f = frameOf a
    · subst hfa; simp
    · simp [hfa]
  · intro f hf
    show ledgerFree s.held a f = 0
    unfold ledgerFree
    by_cases hfa : f = frameOf a
    · subst hfa; simp [h.beyond _ hf]
    · rw [Function.update_of_ne hfa]; exact h.beyond f hf

theorem refInc (h : s.Inv pool) {a : Word} (hheld : 0 < s.held (frameOf a))
    (hbound : s.held (frameOf a) + 1 < 2 ^ 32) :
    PmmSystem.Inv pool ⟨pmmRefInc s.pmm a, ledgerRefInc s.held a⟩ := by
  have hlt : frameOf a < maxFrames := by
    by_contra hge
    have := h.beyond (frameOf a) (by omega)
    omega
  have hcount := h.counts _ hlt
  refine ⟨h.pmm.refInc (by omega), ?_, ?_, h.zero⟩
  · intro f hf
    show (pmmRefInc s.pmm a).refCounts f = ledgerRefInc s.held a f
    simp only [pmmRefInc, hlt, if_true, ledgerRefInc]
    by_cases hfa : f = frameOf a
    · subst hfa
      rw [Function.update_self, Function.update_self, hcount, Nat.mod_eq_of_lt hbound]
    · rw [Function.update_of_ne hfa, Function.update_of_ne hfa]
      exact h.counts f hf
  · intro f hf
    show ledgerRefInc s.held a f = 0
    unfold ledgerRefInc
    rw [Function.update_of_ne (by omega)]
    exact h.beyond f hf

theorem step (h : s.Inv pool) {c : PmmCall} {s' : PmmSystem} (hs : PmmStep s c s') :
    s'.Inv pool := by
  cases hs with
  | alloc => exact h.alloc
  | free ha => exact h.free ha
  | refInc hheld hbound => exact h.refInc hheld hbound

/-- The frame an allocation hands out was held by nobody. -/
theorem held_of_alloc (h : s.Inv pool) (hne : (pmmAllocFrame s.pmm).1 ≠ 0) :
    s.held (frameOf (pmmAllocFrame s.pmm).1) = 0 := by
  cases hst : s.pmm.freeStack with
  | nil => rw [pmmAllocFrame_nil hst] at hne; exact absurd rfl hne
  | cons a rest =>
    have hmem : a ∈ s.pmm.freeStack := by rw [hst]; exact List.mem_cons_self
    rw [pmmAllocFrame_cons hst]
    rw [← h.counts _ (h.pmm.inRange a hmem)]
    exact h.pmm.ref_of_mem hmem

end PmmSystem.Inv

/-! ## §3. Every reachable state. -/

/-- The state right after `pmm_init`: nothing is held. -/
def bootSystem (p : Pmm) : PmmSystem := ⟨p, fun _ => 0⟩

theorem bootSystem_inv {fuel : Nat} {mem : Mem} {mbInfo kernelEnd : Word} {p : Pmm}
    (h : pmmInit fuel mem mbInfo kernelEnd = some p) (hk : 0 < kernelEnd) :
    (bootSystem p).Inv (bootPool p) := by
  refine ⟨pmmInit_inv h, ?_, fun _ _ => rfl, zero_notMem_bootPool h hk⟩
  intro f _
  obtain ⟨s, -, -, -, hp⟩ := pmmInit_eq_some h
  rw [buildFreeStack_eq] at hp
  show p.refCounts f = 0
  rw [hp]

/-- The three tables of the allocator agree. -/
structure AllocatorConsistent (p : Pmm) : Prop where
  /-- The stack entries are pairwise distinct page-aligned frames. -/
  distinct : p.freeStack.Nodup
  aligned : ∀ a ∈ p.freeStack, Aligned a ∧ frameOf a < maxFrames
  /-- A frame is on the stack exactly when its bit is clear. -/
  onStack_iff : ∀ f < maxFrames, frameAddr f ∈ p.freeStack ↔ p.frameBitmap f = false
  refZero : ∀ f < maxFrames, p.frameBitmap f = false → p.refCounts f = 0
  /-- `stack_ptr + 1 <= total_frames`. -/
  bounded : pmmGetFreeCount p ≤ p.totalFrames

theorem Pmm.Inv.consistent {pool : Finset Nat} {p : Pmm} (h : p.Inv pool) :
    AllocatorConsistent p :=
  ⟨h.nodup, fun a ha => ⟨h.aligned a ha, h.inRange a ha⟩, h.onStack_iff, h.refZero, h.length_le⟩

/-- **The allocator invariant.**  In every state reached from `pmm_init` by
    allocations, frees of any page-aligned address and references to held
    frames, the tables agree and the counts are what callers hold; so an
    allocation never returns a frame that somebody still holds. -/
theorem pmm_never_hands_out_held {fuel : Nat} {mem : Mem} {mbInfo kernelEnd : Word} {p : Pmm}
    (hinit : pmmInit fuel mem mbInfo kernelEnd = some p) (hk : 0 < kernelEnd)
    {tr : List (Transition PmmSystem PmmCall)} {s : PmmSystem}
    (hrun : Run PmmStep (bootSystem p) tr s) :
    AllocatorConsistent s.pmm ∧
      ((pmmAllocFrame s.pmm).1 ≠ 0 → s.held (frameOf (pmmAllocFrame s.pmm).1) = 0) := by
  have hinv : s.Inv (bootPool p) :=
    hrun.invariant' (fun _ _ _ hI hst => hI.step hst) (bootSystem_inv hinit hk)
  exact ⟨hinv.pmm.consistent, hinv.held_of_alloc⟩

/-- One allocation on a machine with four free frames. -/
theorem pmm_never_hands_out_held_once :
    ∃ fuel p, pmmInit fuel (oneRegionBlock 0x10000 0x200000 0x4000) 0x10000 0x180000 = some p ∧
      AllocatorConsistent (pmmAllocFrame p).2 ∧
      ((pmmAllocFrame (pmmAllocFrame p).2).1 ≠ 0 →
        ledgerAlloc (fun _ => 0) (pmmAllocFrame p).1
          (frameOf (pmmAllocFrame (pmmAllocFrame p).2).1) = 0) := by
  have hmbi := oneRegionBlock_at 0x10000 0x200000 0x4000 (by decide) (by decide)
  obtain ⟨N, hN⟩ := pmmInit_returns 0x180000 hmbi (by decide)
    (oneRegionTags_below (by decide))
  obtain ⟨p, hp⟩ := hN N (Nat.le_refl N)
  have hrun : Run PmmStep (bootSystem p)
      ([] ++ [(bootSystem p, PmmCall.alloc, _)]) _ := (Run.nil _).snoc (PmmStep.alloc _)
  exact ⟨N, p, hp, pmm_never_hands_out_held hp (by decide) hrun⟩

end ZohoOs
