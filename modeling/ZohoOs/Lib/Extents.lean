/-
  ZohoOs.Lib.Extents — a range cut into consecutive extents.

  `place len a l` puts the items of `l` one after the other from address `a`
  on, each `len` units long.  Different items occupy disjoint ranges, and
  replacing a run of items by another run of the same total length moves
  nothing else.
-/
import Mathlib.Algebra.GroupWithZero.Nat
import Mathlib.Data.List.Basic
import Mathlib.Tactic.Cases

namespace ZohoOs.Lib

universe u

section Place

variable {β : Type u} (len : β → Nat)

/-- The items of a list with the addresses they start at. -/
def place : Nat → List β → List (Nat × β)
  | _, [] => []
  | a, b :: l => (a, b) :: place (a + len b) l

/-- The length of a list of items. -/
def extent (l : List β) : Nat := (l.map len).sum

@[simp] theorem place_nil (a : Nat) : place len a [] = [] := rfl

@[simp] theorem place_cons (a : Nat) (b : β) (l : List β) :
    place len a (b :: l) = (a, b) :: place len (a + len b) l := rfl

@[simp] theorem extent_nil : extent len [] = 0 := rfl

@[simp] theorem extent_cons (b : β) (l : List β) : extent len (b :: l) = len b + extent len l := by
  simp [extent]

theorem extent_append (l r : List β) : extent len (l ++ r) = extent len l + extent len r := by
  simp [extent]

theorem place_append (a : Nat) (l r : List β) :
    place len a (l ++ r) = place len a l ++ place len (a + extent len l) r := by
  induction l generalizing a with
  | nil => simp
  | cons b l ih => simp [ih, Nat.add_assoc]

variable {len}

/-- Every item lies inside the range. -/
theorem place_bounds {a x : Nat} {b : β} {l : List β} (h : (x, b) ∈ place len a l) :
    a ≤ x ∧ x + len b ≤ a + extent len l := by
  induction l generalizing a with
  | nil => cases h
  | cons c l ih =>
    rw [place_cons] at h
    rw [extent_cons]
    rcases List.mem_cons.mp h with h | h
    · injection h with hx hb
      subst hx; subst hb
      omega
    · have := ih h
      omega

/-- Two items of a placed list are the same one or do not overlap. -/
theorem place_disjoint {a x y : Nat} {b c : β} {l : List β} (hx : (x, b) ∈ place len a l)
    (hy : (y, c) ∈ place len a l) : (x = y ∧ b = c) ∨ x + len b ≤ y ∨ y + len c ≤ x := by
  induction l generalizing a with
  | nil => cases hx
  | cons d l ih =>
    rw [place_cons] at hx hy
    rcases List.mem_cons.mp hx with hx | hx <;> rcases List.mem_cons.mp hy with hy | hy
    · injection hx with hx hb
      injection hy with hy hc
      exact .inl ⟨hx.trans hy.symm, hb.trans hc.symm⟩
    · injection hx with hx hb
      subst hx; subst hb
      exact .inr (.inl (place_bounds hy).1)
    · injection hy with hy hc
      subst hy; subst hc
      exact .inr (.inr (place_bounds hx).1)
    · exact ih hx hy

/-- Items with a positive length are told apart by their address. -/
theorem place_inj {a x : Nat} {b c : β} {l : List β} (hpos : ∀ b, 0 < len b)
    (hb : (x, b) ∈ place len a l) (hc : (x, c) ∈ place len a l) : b = c := by
  rcases place_disjoint hb hc with ⟨-, h⟩ | h | h
  · exact h
  · have := hpos b; omega
  · have := hpos c; omega

/-- An item is at the address its predecessors' lengths add up to. -/
theorem mem_place_iff {a x : Nat} {b : β} {l : List β} :
    (x, b) ∈ place len a l ↔ ∃ pre post, l = pre ++ b :: post ∧ x = a + extent len pre := by
  induction l generalizing a with
  | nil => simp
  | cons c l ih =>
    rw [place_cons, List.mem_cons, ih]
    constructor
    · rintro (h | ⟨pre, post, rfl, rfl⟩)
      · injection h with hx hb
        subst hx; subst hb
        exact ⟨[], l, rfl, by simp⟩
      · exact ⟨c :: pre, post, rfl, by simp [Nat.add_assoc]⟩
    · rintro ⟨pre, post, heq, rfl⟩
      cases pre with
      | nil =>
        injection heq with hb hl
        subst hb
        exact .inl (by simp)
      | cons d pre =>
        injection heq with hd hl
        subst hd
        exact .inr ⟨pre, post, hl, by simp [Nat.add_assoc]⟩

end Place

end ZohoOs.Lib
