/-
  ZohoOs.Lib.Ranking — a goal that is reached in time.

  `R s k` says that the goal is at most `k` units of cost away.  Where every
  step reaches the goal or pays its cost out of `k`, a run that costs as much
  has reached it; whatever costs nothing may happen in between as often as it
  likes.
-/
import ZohoOs.Lib.Transition
import Mathlib

namespace ZohoOs.Lib

universe u v

namespace Run

variable {σ : Type u} {α : Type v} {step : σ → α → σ → Prop} {R : σ → Nat → Prop} {goal : σ → Prop}
  {cost : α → Nat} {C : α → Prop}

/-- **Paying along a run.** -/
theorem pays {s t : σ} {tr : List (Transition σ α)} {k : Nat}
    (hstep : ∀ s a s' k, R s k → C a → step s a s' → goal s' ∨ ∃ k', R s' k' ∧ k' + cost a ≤ k)
    (hrun : Run step s tr t) (hC : ∀ x ∈ tr, C x.2.1) (hs : R s k) :
    (∃ x ∈ tr, goal x.2.2) ∨ ∃ k', R t k' ∧ k' + ((labels tr).map cost).sum ≤ k := by
  induction hrun with
  | nil => exact .inr ⟨k, hs, le_rfl⟩
  | snoc hr hst ih =>
    rename_i u u' a tr
    have hCtr : ∀ x ∈ tr, C x.2.1 := fun x hx => hC x (List.mem_append_left _ hx)
    rcases ih hCtr with ⟨x, hx, hgoal⟩ | ⟨k', hR, hpaid⟩
    · exact .inl ⟨x, List.mem_append_left _ hx, hgoal⟩
    · rcases hstep u a u' k' hR (hC (u, a, u') (by simp)) hst with hgoal | ⟨k'', hR', hcost⟩
      · exact .inl ⟨(u, a, u'), by simp, hgoal⟩
      · refine .inr ⟨k'', hR', ?_⟩
        simp only [labels_append, labels_singleton, List.map_append, List.map_singleton,
          List.sum_append, List.sum_singleton]
        omega

/-- **In time**: where the goal is never zero units away, a run that costs `k`
    has reached it. -/
theorem reaches {s t : σ} {tr : List (Transition σ α)} {k : Nat}
    (hstep : ∀ s a s' k, R s k → C a → step s a s' → goal s' ∨ ∃ k', R s' k' ∧ k' + cost a ≤ k)
    (hpos : ∀ s, ¬ R s 0) (hrun : Run step s tr t) (hC : ∀ x ∈ tr, C x.2.1) (hs : R s k)
    (hk : k ≤ ((labels tr).map cost).sum) : ∃ x ∈ tr, goal x.2.2 := by
  rcases hrun.pays hstep hC hs with hgoal | ⟨k', hR, hpaid⟩
  · exact hgoal
  · have hzero : k' = 0 := by omega
    rw [hzero] at hR
    exact absurd hR (hpos t)

end Run

end ZohoOs.Lib
