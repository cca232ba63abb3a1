/-
  ZohoOs.Lib.Chain — singly linked chains.

  `next` is the link of every cell and `z` the null cell.  `Chain next z a l`
  says that following the links from `a` visits the cells `l`, in order, and
  then ends at `z`.  The cells are not assumed to be distinct: where that
  matters `l.Nodup` is a hypothesis of its own.

  Main results:
    * `Chain.unique` — a chain visits one list of cells;
    * `Chain.snoc` — linking a new cell behind the last one appends it;
    * `Chain.congr` — a chain depends on the links of its own cells only.
-/
import Mathlib.Data.List.Basic
import Mathlib.Logic.Function.Basic

namespace ZohoOs.Lib

universe u

variable {A : Type u}

/-- The links from `a` visit the cells `l` and end at `z`. -/
def Chain (next : A → A) (z : A) : A → List A → Prop
  | a, [] => a = z
  | a, x :: l => a = x ∧ x ≠ z ∧ Chain next z (next x) l

namespace Chain

variable {next next' : A → A} {z a x t : A} {l l' : List A}

@[simp] theorem nil_iff : Chain next z a [] ↔ a = z := Iff.rfl

/-- No cell of a chain is the null cell. -/
theorem ne_null (h : Chain next z a l) : ∀ x ∈ l, x ≠ z := by
  induction l generalizing a with
  | nil => intro x hx; cases hx
  | cons y l ih =>
    intro x hx
    obtain ⟨-, hy, hrest⟩ := h
    rcases List.mem_cons.mp hx with rfl | hx
    · exact hy
    · exact ih hrest x hx

/-- The null cell starts the empty chain only. -/
theorem eq_nil_iff (h : Chain next z a l) : l = [] ↔ a = z := by
  cases l with
  | nil => exact ⟨fun _ => h, fun _ => rfl⟩
  | cons x l =>
    obtain ⟨rfl, hx, -⟩ := h
    exact ⟨fun he => absurd he (List.cons_ne_nil _ _), fun he => absurd he hx⟩

/-- **A chain visits one list of cells.** -/
theorem unique (h : Chain next z a l) (h' : Chain next z a l') : l = l' := by
  induction l generalizing a l' with
  | nil =>
    have ha : a = z := h
    exact ((h'.eq_nil_iff).mpr ha).symm
  | cons x l ih =>
    obtain ⟨rfl, hx, hrest⟩ := h
    cases l' with
    | nil => exact absurd h' hx
    | cons y l' =>
      obtain ⟨rfl, -, hrest'⟩ := h'
      rw [ih hrest hrest']

/-- A chain depends on the links of its own cells. -/
theorem congr (hsame : ∀ x ∈ l, next' x = next x) (h : Chain next z a l) : Chain next' z a l := by
  induction l generalizing a with
  | nil => exact h
  | cons x l ih =>
    obtain ⟨rfl, hx, hrest⟩ := h
    refine ⟨rfl, hx, ?_⟩
    rw [hsame a List.mem_cons_self]
    exact ih (fun y hy => hsame y (List.mem_cons_of_mem _ hy)) hrest

variable [DecidableEq A]

/-- Relinking a cell that the chain does not visit. -/
theorem update_of_notMem (hx : x ∉ l) (h : Chain next z a l) (v : A) :
    Chain (Function.update next x v) z a l := by
  apply h.congr
  intro y hy
  have hne : y ≠ x := fun he => hx (he ▸ hy)
  exact Function.update_of_ne hne _ _

/-- A cell on its own. -/
theorem singleton (hx : x ≠ z) : Chain (Function.update next x z) z x [x] := by
  refine ⟨rfl, hx, ?_⟩
  show Function.update next x z x = z
  rw [Function.update_self]

/-- **Appending a cell**: `x` is unlinked and the last cell `t` is linked to
    it. -/
theorem snoc (h : Chain next z a l) (hnd : l.Nodup) (hx : x ∉ l) (hxz : x ≠ z)
    (ht : l.getLast? = some t) :
    Chain (Function.update (Function.update next x z) t x) z a (l ++ [x]) := by
  induction l generalizing a with
  | nil => cases ht
  | cons y l ih =>
    obtain ⟨rfl, hy, hrest⟩ := h
    obtain ⟨hyl, hnd⟩ := List.nodup_cons.mp hnd
    have hxa : a ≠ x := fun he => hx (he ▸ List.mem_cons_self)
    cases l with
    | nil =>
      -- `t` is the first and last cell: it now leads to `x`, and `x` to null
      rw [List.getLast?_singleton] at ht
      cases ht
      refine ⟨rfl, hy, ?_⟩
      rw [Function.update_self]
      refine ⟨rfl, hxz, ?_⟩
      show Function.update (Function.update next x z) t x x = z
      rw [Function.update_of_ne (Ne.symm hxa), Function.update_self]
    | cons w l =>
      rw [List.getLast?_cons_cons] at ht
      have hat : a ≠ t := fun he => hyl (he ▸ List.mem_of_getLast? ht)
      refine ⟨rfl, hy, ?_⟩
      rw [Function.update_of_ne hat, Function.update_of_ne hxa]
      exact ih hrest hnd (fun hmem => hx (List.mem_cons_of_mem _ hmem)) ht

/-- Clearing the link of the last cell changes nothing. -/
theorem clear_last (h : Chain next z a l) (hnd : l.Nodup) (ht : l.getLast? = some t) :
    Chain (Function.update next t z) z a l := by
  induction l generalizing a with
  | nil => cases ht
  | cons y l ih =>
    obtain ⟨rfl, hy, hrest⟩ := h
    obtain ⟨hyl, hnd⟩ := List.nodup_cons.mp hnd
    cases l with
    | nil =>
      rw [List.getLast?_singleton] at ht
      cases ht
      refine ⟨rfl, hy, ?_⟩
      show Function.update next t z t = z
      rw [Function.update_self]
    | cons w l =>
      rw [List.getLast?_cons_cons] at ht
      have hat : a ≠ t := fun he => hyl (he ▸ List.mem_of_getLast? ht)
      refine ⟨rfl, hy, ?_⟩
      rw [Function.update_of_ne hat]
      exact ih hrest hnd ht

/-- **Unlinking a cell**: its predecessor `t` is linked to its successor. -/
theorem unlink {pre post : List A} (h : Chain next z a (pre ++ t :: x :: post))
    (hnd : (pre ++ t :: x :: post).Nodup) :
    Chain (Function.update next t (next x)) z a (pre ++ t :: post) := by
  induction pre generalizing a with
  | nil =>
    obtain ⟨rfl, ht, hx, -, hrest⟩ := h
    have hta : a ∉ x :: post := (List.nodup_cons.mp hnd).1
    refine ⟨rfl, ht, ?_⟩
    rw [Function.update_self]
    exact hrest.update_of_notMem (fun hmem => hta (List.mem_cons_of_mem _ hmem)) _
  | cons y pre ih =>
    obtain ⟨rfl, hy, hrest⟩ := h
    obtain ⟨hya, hnd⟩ := List.nodup_cons.mp hnd
    have hat : a ≠ t := fun he => hya (he ▸ List.mem_append_right _ List.mem_cons_self)
    refine ⟨rfl, hy, ?_⟩
    rw [Function.update_of_ne hat]
    exact ih hrest hnd

end Chain

end ZohoOs.Lib
