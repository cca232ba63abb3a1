/-
  ZohoOs.Lib.Holders — counting who refers to what.

  A holder refers to at most one resource: `tgt x = some a`.  With finitely
  many holders in use, `uses tgt a` is the number of holders of `a`, the
  number a reference count should have.  The lemmas say how it changes when
  one holder takes, drops or swaps its resource.
-/
import Mathlib.Data.Set.Card
import Mathlib.Logic.Function.Basic

namespace ZohoOs.Lib

universe u v

variable {ι : Type u} {α : Type v}

/-! ## §1. Counting. -/

/-- The holders that refer to `a`. -/
def holders (tgt : ι → Option α) (a : α) : Set ι := {x | tgt x = some a}

/-- How many holders refer to `a`. -/
noncomputable def uses (tgt : ι → Option α) (a : α) : Nat := (holders tgt a).ncard

/-- Finitely many holders refer to anything. -/
def FinitelyHeld (tgt : ι → Option α) : Prop := {x | tgt x ≠ none}.Finite

section Count

variable {tgt tgt' : ι → Option α} {x y : ι} {a b c : α}

theorem mem_holders : x ∈ holders tgt a ↔ tgt x = some a := Iff.rfl

theorem FinitelyHeld.holders (h : FinitelyHeld tgt) (a : α) : (holders tgt a).Finite :=
  h.subset fun x hx => by
    show tgt x ≠ none
    rw [mem_holders.mp hx]
    exact Option.some_ne_none a

theorem uses_pos (h : FinitelyHeld tgt) (hx : tgt x = some a) : 0 < uses tgt a :=
  (Set.ncard_pos (h.holders a)).mpr ⟨x, hx⟩

theorem uses_eq_zero (hx : ∀ x, tgt x ≠ some a) : uses tgt a = 0 := by
  rw [uses, show holders tgt a = ∅ from Set.eq_empty_of_forall_notMem hx, Set.ncard_empty]

theorem exists_of_uses_pos (h : 0 < uses tgt a) : ∃ x, tgt x = some a := by
  by_contra hno
  rw [uses_eq_zero fun x hx => hno ⟨x, hx⟩] at h
  exact Nat.lt_irrefl _ h

theorem eq_of_uses_eq_one (h : uses tgt a = 1) (hx : tgt x = some a) (hy : tgt y = some a) :
    x = y := by
  obtain ⟨z, hz⟩ := Set.ncard_eq_one.mp h
  have hx' : x ∈ holders tgt a := hx
  have hy' : y ∈ holders tgt a := hy
  rw [hz] at hx' hy'
  rw [Set.mem_singleton_iff.mp hx', Set.mem_singleton_iff.mp hy']

/-- An injection of the holders of `a` into a finite set bounds their number. -/
theorem uses_le {β : Type*} {s : Set β} (hs : s.Finite) (f : ι → β)
    (hmem : ∀ x, tgt x = some a → f x ∈ s)
    (hinj : ∀ x y, tgt x = some a → tgt y = some a → f x = f y → x = y) : uses tgt a ≤ s.ncard :=
  Set.ncard_le_ncard_of_injOn f hmem (fun x hx y hy hxy => hinj x y hx hy hxy) hs

/-- The holders in two groups. -/
theorem uses_split {tgt₁ tgt₂ : ι → Option α} (h₁ : FinitelyHeld tgt₁) (h₂ : FinitelyHeld tgt₂)
    (hor : ∀ x, tgt x = some a ↔ tgt₁ x = some a ∨ tgt₂ x = some a)
    (hdis : ∀ x, tgt₁ x = some a → tgt₂ x ≠ some a) : uses tgt a = uses tgt₁ a + uses tgt₂ a := by
  have hset : holders tgt a = holders tgt₁ a ∪ holders tgt₂ a := Set.ext hor
  have hdis' : Disjoint (holders tgt₁ a) (holders tgt₂ a) := Set.disjoint_left.mpr hdis
  rw [uses, hset, Set.ncard_union_eq hdis' (h₁.holders a) (h₂.holders a), uses, uses]

/-- A list of all holders counts them. -/
theorem uses_eq_count [DecidableEq α] {l : List ι} (hl : l.Nodup) (hall : ∀ x, tgt x = some a → x ∈ l) :
    uses tgt a = (l.filterMap tgt).count a := by
  classical
  have hset : holders tgt a = ((l.filter fun x => tgt x == some a).toFinset : Set ι) := by
    ext x
    rw [mem_holders, List.coe_toFinset, Set.mem_ofPred_eq, List.mem_filter, beq_iff_eq]
    exact ⟨fun hx => ⟨hall x hx, hx⟩, fun hx => hx.2⟩
  rw [uses, hset, Set.ncard_coe_finset, List.toFinset_card_of_nodup (hl.filter _), List.count_filterMap,
    List.countP_eq_length_filter]

/-! ## §2. Changing one holder. -/

/-- **A holder takes a resource.** -/
theorem uses_take [DecidableEq α] (h : FinitelyHeld tgt) (hx : tgt x = none) (hx' : tgt' x = some b)
    (hrest : ∀ y, y ≠ x → tgt' y = tgt y) (a : α) :
    uses tgt' a = uses tgt a + if a = b then 1 else 0 := by
  by_cases hab : a = b
  · subst hab
    have hset : holders tgt' a = insert x (holders tgt a) := by
      ext y
      by_cases hy : y = x
      · subst hy; simp [mem_holders, hx']
      · simp [mem_holders, hrest y hy, hy]
    rw [if_pos rfl, uses, hset, Set.ncard_insert_of_notMem _ (h.holders a), uses]
    rw [mem_holders, hx]
    exact (Option.some_ne_none a).symm
  · have hset : holders tgt' a = holders tgt a := by
      ext y
      by_cases hy : y = x
      · subst hy; simp [mem_holders, hx, hx', Ne.symm hab]
      · simp [mem_holders, hrest y hy]
    rw [if_neg hab, uses, hset, uses, Nat.add_zero]

/-- **A holder drops its resource.** -/
theorem uses_drop [DecidableEq α] (h : FinitelyHeld tgt') (hx : tgt x = some b) (hx' : tgt' x = none)
    (hrest : ∀ y, y ≠ x → tgt' y = tgt y) (a : α) :
    uses tgt a = uses tgt' a + if a = b then 1 else 0 :=
  uses_take h hx' hx (fun y hy => (hrest y hy).symm) a

/-- **A holder swaps its resource.** -/
theorem uses_swap [DecidableEq ι] [DecidableEq α] (h : FinitelyHeld tgt) (hx : tgt x = some b)
    (hx' : tgt' x = some c) (hrest : ∀ y, y ≠ x → tgt' y = tgt y) (a : α) :
    (uses tgt' a + if a = b then 1 else 0) = uses tgt a + if a = c then 1 else 0 := by
  set mid : ι → Option α := Function.update tgt x none with hmid
  have hmidx : mid x = none := Function.update_self _ _ _
  have hmid' : ∀ y, y ≠ x → mid y = tgt y := fun y hy => Function.update_of_ne hy _ _
  have hfin : FinitelyHeld mid := h.subset fun y hy => by
    by_cases hyx : y = x
    · subst hyx; exact absurd hmidx hy
    · show tgt y ≠ none
      rw [← hmid' y hyx]
      exact hy
  have hdrop := uses_drop hfin hx hmidx hmid' a
  have htake := uses_take hfin hmidx hx' (fun y hy => (hrest y hy).trans (hmid' y hy).symm) a
  omega

end Count

end ZohoOs.Lib
