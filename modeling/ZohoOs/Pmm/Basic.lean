/-
  ZohoOs.Pmm.Basic — the physical frame allocator (pmm.c).

  Three tables over the 4 KiB frames below 4 GiB: a bitmap (a set bit is a
  frame that is not free), a stack of the free frames' addresses, and a
  reference count per frame.  `Pmm.Inv` is what keeps the three in step; it
  is preserved by allocation, by freeing any page-aligned address and by
  taking a further reference to an allocated frame.

  The spinlock around each operation makes it atomic; it is not modelled.
-/
import ZohoOs.Lib.Memory
import Mathlib.Data.Finset.Card
import Mathlib.Data.Finset.Image

namespace ZohoOs

open ZohoOs.Lib
open ZohoOs.Lib.Mem (Aligned)

/-! ## §1. State and operations. -/

def pageSize : Nat := 4096

/-- 4 GiB of 4 KiB frames. -/
def maxFrames : Nat := 1024 * 1024

/-- The static tables of pmm.c. -/
structure Pmm where
  /-- One bit per frame; set means in use or reserved. -/
  frameBitmap : Nat → Bool
  /-- `free_stack[0 .. stack_ptr]`, top of the stack first. -/
  freeStack : List Word
  /-- `uint32_t` reference counts. -/
  refCounts : Nat → Nat
  totalFrames : Nat
  /-- Ghost: how many calls of `pmm_alloc_frame` returned `NULL`. -/
  allocFailures : Nat

/-- `addr / PAGE_SIZE`. -/
def frameOf (addr : Word) : Nat := addr.toNat / pageSize

/-- `f * PAGE_SIZE`. -/
def frameAddr (f : Nat) : Word := BitVec.ofNat 64 (f * pageSize)

def bitmapSet (bitmap : Nat → Bool) (frame : Nat) : Nat → Bool :=
  Function.update bitmap frame true

def bitmapUnset (bitmap : Nat → Bool) (frame : Nat) : Nat → Bool :=
  Function.update bitmap frame false

/-- `pmm_alloc_frame`: pop a free frame; `0` is `NULL`. -/
def pmmAllocFrame (p : Pmm) : Word × Pmm :=
  match p.freeStack with
  | [] => (0, { p with allocFailures := p.allocFailures + 1 })
  | addr :: rest =>
      (addr, { p with
        freeStack := rest
        frameBitmap := bitmapSet p.frameBitmap (frameOf addr)
        refCounts := Function.update p.refCounts (frameOf addr) 1 })

/-- `pmm_free_frame`: drop one reference, and push the address when it was
    the last one. -/
def pmmFreeFrame (p : Pmm) (frame : Word) : Pmm :=
  let f := frameOf frame
  if f ≥ maxFrames then p
  else if p.refCounts f > 0 then
    let p' := { p with refCounts := Function.update p.refCounts f (p.refCounts f - 1) }
    if p'.refCounts f = 0 then
      if p'.frameBitmap f then
        { p' with frameBitmap := bitmapUnset p'.frameBitmap f, freeStack := frame :: p'.freeStack }
      else p'
    else p'
  else p

/-- `pmm_ref_inc`, in `uint32_t` arithmetic. -/
def pmmRefInc (p : Pmm) (frame : Word) : Pmm :=
  let f := frameOf frame
  if f < maxFrames then
    { p with refCounts := Function.update p.refCounts f ((p.refCounts f + 1) % 2 ^ 32) }
  else p

/-- `pmm_get_ref`. -/
def pmmGetRef (p : Pmm) (frame : Word) : Nat :=
  let f := frameOf frame
  if f < maxFrames then p.refCounts f else 0

/-- `pmm_get_free_count`: `stack_ptr + 1`. -/
def pmmGetFreeCount (p : Pmm) : Nat := p.freeStack.length

/-! ## §2. Frames and their addresses. -/

theorem toNat_frameAddr {f : Nat} (hf : f < maxFrames) : (frameAddr f).toNat = f * 4096 := by
  unfold maxFrames at hf
  rw [frameAddr, BitVec.toNat_ofNat, pageSize]
  omega

@[simp] theorem frameOf_frameAddr {f : Nat} (hf : f < maxFrames) : frameOf (frameAddr f) = f := by
  rw [frameOf, toNat_frameAddr hf, pageSize]
  omega

theorem aligned_frameAddr {f : Nat} (hf : f < maxFrames) : Aligned (frameAddr f) := by
  rw [Aligned, toNat_frameAddr hf]
  omega

/-- A page-aligned address is the address of its frame. -/
theorem frameAddr_frameOf {a : Word} (ha : Aligned a) : frameAddr (frameOf a) = a := by
  apply BitVec.eq_of_toNat_eq
  have hlt := a.isLt
  unfold Aligned at ha
  rw [frameAddr, frameOf, pageSize, BitVec.toNat_ofNat]
  omega

theorem frameOf_inj {a b : Word} (ha : Aligned a) (hb : Aligned b) (h : frameOf a = frameOf b) :
    a = b := by
  rw [← frameAddr_frameOf ha, ← frameAddr_frameOf hb, h]

theorem pmmAllocFrame_nil {p : Pmm} (h : p.freeStack = []) :
    pmmAllocFrame p = (0, { p with allocFailures := p.allocFailures + 1 }) := by
  simp [pmmAllocFrame, h]

theorem pmmAllocFrame_cons {p : Pmm} {addr : Word} {rest : List Word}
    (h : p.freeStack = addr :: rest) :
    pmmAllocFrame p = (addr, { p with
      freeStack := rest
      frameBitmap := bitmapSet p.frameBitmap (frameOf addr)
      refCounts := Function.update p.refCounts (frameOf addr) 1 }) := by
  simp [pmmAllocFrame, h]

/-! ## §3. The allocator invariant. -/

/-- The three tables agree.  `pool` is the set of frames the allocator manages:
    those that were free when it was initialised. -/
structure Pmm.Inv (pool : Finset Nat) (p : Pmm) : Prop where
  nodup : p.freeStack.Nodup
  aligned : ∀ a ∈ p.freeStack, Aligned a
  inRange : ∀ a ∈ p.freeStack, frameOf a < maxFrames
  onStack_iff : ∀ f < maxFrames, frameAddr f ∈ p.freeStack ↔ p.frameBitmap f = false
  refZero : ∀ f < maxFrames, p.frameBitmap f = false → p.refCounts f = 0
  free_mem : ∀ f < maxFrames, p.frameBitmap f = false → f ∈ pool
  held_mem : ∀ f < maxFrames, 0 < p.refCounts f → f ∈ pool
  total : pool.card = p.totalFrames

namespace Pmm.Inv

variable {pool : Finset Nat} {p : Pmm}

/-- The bitmap bit of a frame on the stack is clear. -/
theorem bitmap_of_mem (h : p.Inv pool) {a : Word} (ha : a ∈ p.freeStack) :
    p.frameBitmap (frameOf a) = false := by
  have hr := h.inRange a ha
  rw [← h.onStack_iff _ hr, frameAddr_frameOf (h.aligned a ha)]
  exact ha

theorem ref_of_mem (h : p.Inv pool) {a : Word} (ha : a ∈ p.freeStack) :
    p.refCounts (frameOf a) = 0 :=
  h.refZero _ (h.inRange a ha) (h.bitmap_of_mem ha)

theorem bitmap_of_ref (h : p.Inv pool) {f : Nat} (hf : f < maxFrames) (hr : 0 < p.refCounts f) :
    p.frameBitmap f = true := by
  cases hb : p.frameBitmap f with
  | true => rfl
  | false => have := h.refZero f hf hb; omega

/-- The stack never holds more frames than were found at boot. -/
theorem length_le (h : p.Inv pool) : p.freeStack.length ≤ p.totalFrames := by
  have hinj : (p.freeStack.map frameOf).Nodup := by
    refine h.nodup.map_on ?_
    intro a ha b hb hab
    exact frameOf_inj (h.aligned a ha) (h.aligned b hb) hab
  have hsub : (p.freeStack.map frameOf).toFinset ⊆ pool := by
    intro f hf
    rw [List.mem_toFinset, List.mem_map] at hf
    obtain ⟨a, ha, rfl⟩ := hf
    exact h.free_mem _ (h.inRange a ha) (h.bitmap_of_mem ha)
  calc p.freeStack.length = (p.freeStack.map frameOf).toFinset.card := by
        rw [List.toFinset_card_of_nodup hinj, List.length_map]
    _ ≤ pool.card := Finset.card_le_card hsub
    _ = p.totalFrames := h.total

/-! ## §4. Each operation keeps the invariant. -/

theorem alloc (h : p.Inv pool) : (pmmAllocFrame p).2.Inv pool := by
  cases hst : p.freeStack with
  | nil =>
    rw [pmmAllocFrame_nil hst]
    exact ⟨h.nodup, h.aligned, h.inRange, h.onStack_iff, h.refZero, h.free_mem, h.held_mem, h.total⟩
  | cons addr rest =>
    rw [pmmAllocFrame_cons hst]
    show Pmm.Inv pool (Pmm.mk _ _ _ _ _)
    have hmem : addr ∈ p.freeStack := by rw [hst]; exact List.mem_cons_self
    have hnd : addr ∉ rest ∧ rest.Nodup := by
      have := h.nodup; rw [hst] at this; exact List.nodup_cons.mp this
    have hrest : ∀ a ∈ rest, a ∈ p.freeStack := fun a ha => by
      rw [hst]; exact List.mem_cons_of_mem _ ha
    have haddr := h.aligned addr hmem
    refine ⟨hnd.2, fun a ha => h.aligned a (hrest a ha), fun a ha => h.inRange a (hrest a ha),
      ?_, ?_, ?_, ?_, h.total⟩
    · intro f hf
      by_cases hfa : f = frameOf addr
      · subst hfa
        simp [bitmapSet, frameAddr_frameOf haddr, hnd.1]
      · have hne : frameAddr f ≠ addr := fun he => hfa (by rw [← he, frameOf_frameAddr hf])
        have := h.onStack_iff f hf
        rw [hst, List.mem_cons] at this
        simpa [bitmapSet, Function.update_of_ne hfa, hne] using this
    · intro f hf hb
      by_cases hfa : f = frameOf addr
      · subst hfa; simp [bitmapSet] at hb
      · simp only [bitmapSet, Function.update_of_ne hfa] at hb ⊢
        exact h.refZero f hf hb
    · intro f hf hb
      by_cases hfa : f = frameOf addr
      · subst hfa; simp [bitmapSet] at hb
      · simp only [bitmapSet, Function.update_of_ne hfa] at hb
        exact h.free_mem f hf hb
    · intro f hf hr
      by_cases hfa : f = frameOf addr
      · subst hfa; exact h.free_mem _ hf (h.bitmap_of_mem hmem)
      · simp only [Function.update_of_ne hfa] at hr
        exact h.held_mem f hf hr

/-- Changing one count, without making a free frame held or an unmanaged one
    counted, keeps the invariant. -/
theorem update_ref (h : p.Inv pool) {f n : Nat} (hf : f < maxFrames) (hr : 0 < p.refCounts f) :
    ({ p with refCounts := Function.update p.refCounts f n } : Pmm).Inv pool := by
  refine ⟨h.nodup, h.aligned, h.inRange, h.onStack_iff, ?_, h.free_mem, ?_, h.total⟩
  · intro g hg hb
    have hne : g ≠ f := by rintro rfl; rw [h.bitmap_of_ref hg hr] at hb; cases hb
    simp only [Function.update_of_ne hne]
    exact h.refZero g hg hb
  · intro g hg hpos
    by_cases hgf : g = f
    · subst hgf; exact h.held_mem g hg hr
    · simp only [Function.update_of_ne hgf] at hpos
      exact h.held_mem g hg hpos

theorem refInc (h : p.Inv pool) {a : Word} (hr : 0 < p.refCounts (frameOf a)) :
    (pmmRefInc p a).Inv pool := by
  simp only [pmmRefInc]
  split
  · rename_i hf; exact h.update_ref hf hr
  · exact h

/-- Returning the last reference: the frame is free again. -/
theorem push (h : p.Inv pool) {a : Word} (ha : Aligned a) (hf : frameOf a < maxFrames)
    (hb : p.frameBitmap (frameOf a) = true) (hr : p.refCounts (frameOf a) = 0)
    (hpool : frameOf a ∈ pool) :
    ({ p with frameBitmap := bitmapUnset p.frameBitmap (frameOf a),
              freeStack := a :: p.freeStack } : Pmm).Inv pool := by
  have hnot : a ∉ p.freeStack := fun hm => by rw [h.bitmap_of_mem hm] at hb; cases hb
  refine ⟨List.nodup_cons.mpr ⟨hnot, h.nodup⟩, ?_, ?_, ?_, ?_, ?_, h.held_mem, h.total⟩
  · intro b hb'
    rcases List.mem_cons.mp hb' with rfl | hb'
    · exact ha
    · exact h.aligned b hb'
  · intro b hb'
    rcases List.mem_cons.mp hb' with rfl | hb'
    · exact hf
    · exact h.inRange b hb'
  · intro g hg
    by_cases hga : g = frameOf a
    · subst hga; simp [bitmapUnset, frameAddr_frameOf ha]
    · have hne : frameAddr g ≠ a := fun he => hga (by rw [← he, frameOf_frameAddr hg])
      simpa [bitmapUnset, Function.update_of_ne hga, hne] using h.onStack_iff g hg
  · intro g hg hgb
    by_cases hga : g = frameOf a
    · subst hga; exact hr
    · simp only [bitmapUnset, Function.update_of_ne hga] at hgb
      exact h.refZero g hg hgb
  · intro g hg hgb
    by_cases hga : g = frameOf a
    · subst hga; exact hpool
    · simp only [bitmapUnset, Function.update_of_ne hga] at hgb
      exact h.free_mem g hg hgb

/-- Freeing any page-aligned address, held or not, keeps the invariant. -/
theorem free (h : p.Inv pool) {a : Word} (ha : Aligned a) : (pmmFreeFrame p a).Inv pool := by
  simp only [pmmFreeFrame]
  split
  · exact h
  · rename_i hlt
    have hf : frameOf a < maxFrames := Nat.lt_of_not_le hlt
    split
    · rename_i hr
      have h' := h.update_ref (n := p.refCounts (frameOf a) - 1) hf hr
      split
      · rename_i hz
        split
        · rename_i hb
          exact h'.push ha hf hb hz (h.held_mem _ hf hr)
        · exact h'
      · exact h'
    · exact h

end Pmm.Inv

end ZohoOs
