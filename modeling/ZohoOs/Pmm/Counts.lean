/-
  ZohoOs.Pmm.Counts — the allocator counts what its clients hold.

  `own` is a set of frames that only a known group of clients ever takes from
  the allocator, and `u a` the number of references these clients have to the
  frame at `a`.  `Pmm.Counts` says that the allocator agrees: the count of an
  own frame is `u`, it is free exactly when nobody refers to it, and every
  other frame is in use throughout.
-/
import ZohoOs.Pmm.Basic

namespace ZohoOs

open ZohoOs.Lib
open ZohoOs.Lib.Mem (Aligned)

/-! ## §1. Counting the own frames. -/

structure Pmm.Counts (pool : Finset Nat) (own : Set Nat) (u : Word → Nat) (p : Pmm) : Prop where
  inv : p.Inv pool
  own_lt : ∀ f ∈ own, f < maxFrames
  ref : ∀ a, Aligned a → frameOf a ∈ own → p.refCounts (frameOf a) = u a
  free_iff : ∀ a, Aligned a → frameOf a ∈ own → (p.frameBitmap (frameOf a) = false ↔ u a = 0)
  other : ∀ f < maxFrames, f ∉ own → p.frameBitmap f = true

namespace Pmm.Counts

variable {pool : Finset Nat} {own : Set Nat} {u u' : Word → Nat} {p : Pmm} {a n : Word}
  {rest : List Word}

/-- Only the counts of own frames matter. -/
theorem congr (h : p.Counts pool own u)
    (hu : ∀ a, Aligned a → frameOf a ∈ own → u' a = u a) : p.Counts pool own u' :=
  ⟨h.inv, h.own_lt, fun a ha ho => (h.ref a ha ho).trans (hu a ha ho).symm,
    fun a ha ho => by rw [hu a ha ho]; exact h.free_iff a ha ho, h.other⟩

theorem getRef (h : p.Counts pool own u) (ha : Aligned a) (ho : frameOf a ∈ own) :
    pmmGetRef p a = u a := by
  simp only [pmmGetRef]
  rw [if_pos (h.own_lt _ ho), h.ref a ha ho]

/-- A frame nobody refers to is on the stack, and the other way round. -/
theorem mem_freeStack_iff (h : p.Counts pool own u) (ha : Aligned a) (ho : frameOf a ∈ own) :
    a ∈ p.freeStack ↔ u a = 0 := by
  rw [← h.free_iff a ha ho, ← h.inv.onStack_iff _ (h.own_lt _ ho), frameAddr_frameOf ha]

/-- What is on the stack is own and not referred to. -/
theorem of_mem_freeStack (h : p.Counts pool own u) (hmem : a ∈ p.freeStack) :
    Aligned a ∧ frameOf a ∈ own ∧ u a = 0 := by
  have ha := h.inv.aligned a hmem
  have ho : frameOf a ∈ own := by
    by_contra hno
    have hb := h.other _ (h.inv.inRange a hmem) hno
    rw [h.inv.bitmap_of_mem hmem] at hb
    cases hb
  exact ⟨ha, ho, (h.mem_freeStack_iff ha ho).mp hmem⟩

/-! ## §2. The operations. -/

/-- **An allocation** is a first reference to the frame on top. -/
theorem alloc (h : p.Counts pool own u) (hst : p.freeStack = n :: rest)
    (hu : ∀ a, u' a = u a + if a = n then 1 else 0) : (pmmAllocFrame p).2.Counts pool own u' := by
  have hmem : n ∈ p.freeStack := by rw [hst]; exact List.mem_cons_self
  obtain ⟨hn, -, hn0⟩ := h.of_mem_freeStack hmem
  refine ⟨h.inv.alloc, h.own_lt, ?_, ?_, ?_⟩
  · intro a ha ho
    rw [pmmAllocFrame_cons hst, hu]
    by_cases han : a = n
    · subst han; simp [hn0]
    · have hne : frameOf a ≠ frameOf n := fun he => han (frameOf_inj ha hn he)
      simp [Function.update_of_ne hne, han, h.ref a ha ho]
  · intro a ha ho
    rw [pmmAllocFrame_cons hst, hu]
    by_cases han : a = n
    · subst han; simp [bitmapSet]
    · have hne : frameOf a ≠ frameOf n := fun he => han (frameOf_inj ha hn he)
      simp [bitmapSet, Function.update_of_ne hne, han, h.free_iff a ha ho]
  · intro f hf hno
    rw [pmmAllocFrame_cons hst]
    by_cases hfn : f = frameOf n
    · subst hfn; simp [bitmapSet]
    · simp only [bitmapSet, Function.update_of_ne hfn]
      exact h.other f hf hno

/-- **A further reference** to an own frame. -/
theorem refInc (h : p.Counts pool own u) (hn : Aligned n) (ho : frameOf n ∈ own) (hpos : 0 < u n)
    (hbound : u n + 1 < 2 ^ 32) (hu : ∀ a, u' a = u a + if a = n then 1 else 0) :
    (pmmRefInc p n).Counts pool own u' := by
  have hlt := h.own_lt _ ho
  have href := h.ref n hn ho
  refine ⟨h.inv.refInc (by rw [href]; exact hpos), h.own_lt, ?_, ?_, ?_⟩
  · intro a ha hoa
    simp only [pmmRefInc, if_pos hlt, hu]
    by_cases han : a = n
    · subst han
      rw [Function.update_self, if_pos rfl, href, Nat.mod_eq_of_lt hbound]
    · have hne : frameOf a ≠ frameOf n := fun he => han (frameOf_inj ha hn he)
      rw [Function.update_of_ne hne, if_neg han, h.ref a ha hoa, Nat.add_zero]
  · intro a ha hoa
    simp only [pmmRefInc, if_pos hlt, hu]
    rw [h.free_iff a ha hoa]
    by_cases han : a = n
    · subst han; rw [if_pos rfl]; omega
    · rw [if_neg han, Nat.add_zero]
  · intro f hf hno
    simp only [pmmRefInc, if_pos hlt]
    exact h.other f hf hno

/-- **A reference given back**: the last one frees the frame. -/
theorem free (h : p.Counts pool own u) (hn : Aligned n) (ho : frameOf n ∈ own)
    (hu : ∀ a, u a = u' a + if a = n then 1 else 0) : (pmmFreeFrame p n).Counts pool own u' := by
  have hlt := h.own_lt _ ho
  have hun : u n = u' n + 1 := by rw [hu n, if_pos rfl]
  have href : p.refCounts (frameOf n) = u' n + 1 := (h.ref n hn ho).trans hun
  have hbit : p.frameBitmap (frameOf n) = true := by
    cases hb : p.frameBitmap (frameOf n) with
    | true => rfl
    | false => have := (h.free_iff n hn ho).mp hb; omega
  -- away from `n` nothing changes
  have hframe : ∀ f, f ≠ frameOf n → (pmmFreeFrame p n).refCounts f = p.refCounts f ∧
      (pmmFreeFrame p n).frameBitmap f = p.frameBitmap f := by
    intro f hf
    simp only [pmmFreeFrame]
    split
    · exact ⟨rfl, rfl⟩
    · split
      · split
        · exact ⟨Function.update_of_ne hf _ _, Function.update_of_ne hf _ _⟩
        · exact ⟨Function.update_of_ne hf _ _, rfl⟩
      · exact ⟨rfl, rfl⟩
  have hself : (pmmFreeFrame p n).refCounts (frameOf n) = u' n ∧
      ((pmmFreeFrame p n).frameBitmap (frameOf n) = false ↔ u' n = 0) := by
    simp only [pmmFreeFrame, ge_iff_le, Nat.not_le.mpr hlt, if_false, href, Nat.succ_pos, gt_iff_lt,
      if_true, Nat.add_sub_cancel, Function.update_self, hbit]
    by_cases hz : u' n = 0
    · rw [if_pos hz]
      exact ⟨by simp, by simp [bitmapUnset, hz]⟩
    · rw [if_neg hz]
      exact ⟨by simp, by simp [hz, hbit]⟩
  refine ⟨h.inv.free hn, h.own_lt, ?_, ?_, ?_⟩
  · intro a ha hoa
    by_cases han : a = n
    · subst han; exact hself.1
    · have hne : frameOf a ≠ frameOf n := fun he => han (frameOf_inj ha hn he)
      rw [(hframe _ hne).1, h.ref a ha hoa, hu a, if_neg han, Nat.add_zero]
  · intro a ha hoa
    by_cases han : a = n
    · subst han; exact hself.2
    · have hne : frameOf a ≠ frameOf n := fun he => han (frameOf_inj ha hn he)
      rw [(hframe _ hne).2, h.free_iff a ha hoa, hu a, if_neg han, Nat.add_zero]
  · intro f hf hno
    have hne : f ≠ frameOf n := fun he => hno (he ▸ ho)
    rw [(hframe f hne).2]
    exact h.other f hf hno

end Pmm.Counts

end ZohoOs
