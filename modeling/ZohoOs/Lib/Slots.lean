/-
  ZohoOs.Lib.Slots — the first slot of a table.

  A table of fixed size is searched for the first slot that satisfies a
  predicate: the first that is free, or the first that holds a key.

    * `find?_slot_eq_some_iff` — the slot that is found, and no earlier one,
      satisfies the predicate;
    * `find?_slot_eq_none_iff` — none is found iff none satisfies it;
    * `find?_slot_from` — in a table that is used from its start.
-/
import Mathlib.Data.List.FinRange
import Mathlib.Order.Fin.Basic

namespace ZohoOs.Lib

variable {n : Nat} {p : Fin n → Prop} [DecidablePred p]

theorem find?_slot_eq_none_iff :
    (List.finRange n).find? (fun i => decide (p i)) = none ↔ ∀ i, ¬ p i := by
  rw [List.find?_eq_none]
  constructor
  · intro h i hp
    exact h i (List.mem_finRange i) (decide_eq_true hp)
  · intro h i _ hp
    exact h i (of_decide_eq_true hp)

theorem find?_slot_isSome_iff :
    ((List.finRange n).find? (fun i => decide (p i))).isSome ↔ ∃ i, p i := by
  rw [← not_iff_not, Bool.not_eq_true, Option.isSome_eq_false_iff, Option.isNone_iff_eq_none,
    find?_slot_eq_none_iff, not_exists]

theorem find?_slot_eq_some_iff {i : Fin n} :
    (List.finRange n).find? (fun i => decide (p i)) = some i ↔ p i ∧ ∀ j < i, ¬ p j := by
  have hsorted : (List.finRange n).Pairwise (· < ·) := List.pairwise_lt_finRange n
  rw [List.find?_eq_some_iff_append]
  constructor
  · rintro ⟨hp, before, after, hsplit, hbefore⟩
    refine ⟨of_decide_eq_true hp, fun j hj hpj => ?_⟩
    have hmem : j ∈ before ++ i :: after := hsplit ▸ List.mem_finRange j
    rw [hsplit, List.pairwise_append] at hsorted
    rcases List.mem_append.mp hmem with hj' | hj'
    · have hfalse := hbefore j hj'
      rw [decide_eq_true hpj] at hfalse
      exact absurd hfalse (by decide)
    · -- from `i` on there is nothing below `i`
      rcases List.mem_cons.mp hj' with rfl | hj'
      · exact absurd hj (lt_irrefl _)
      · exact absurd hj (not_lt_of_gt ((List.pairwise_cons.mp hsorted.2.1).1 j hj'))
  · rintro ⟨hp, hbefore⟩
    obtain ⟨before, after, hsplit⟩ := List.append_of_mem (List.mem_finRange i)
    refine ⟨decide_eq_true hp, before, after, hsplit, fun j hj => ?_⟩
    rw [hsplit, List.pairwise_append] at hsorted
    have hlt : j < i := hsorted.2.2 j hj i List.mem_cons_self
    rw [decide_eq_false (hbefore j hlt)]
    rfl

/-- The slots from `k` on satisfy the predicate. -/
theorem find?_slot_from {k : Nat} (h : ∀ i, p i ↔ k ≤ i.val) (hk : k < n) :
    (List.finRange n).find? (fun i => decide (p i)) = some ⟨k, hk⟩ := by
  apply find?_slot_eq_some_iff.mpr
  exact ⟨(h _).mpr (Nat.le_refl k), fun j hj hp => Nat.not_le_of_lt hj ((h j).mp hp)⟩

end ZohoOs.Lib
