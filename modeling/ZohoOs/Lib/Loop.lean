/-
  ZohoOs.Lib.Loop — loops of imperative code.

  `forLoop` is the C loop `for (x = a; cond x; x = next x) body`, with fuel
  because nothing bounds it: `none` means that the fuel ran out or that the
  body did not return.  `forLoop_eq_some` says what a returning loop did: it
  ran the body on the first iterates of `next`, all of which met `cond`, and
  stopped at the first one that does not.  `whileLoop` is the loop whose step
  depends on the state, with its total-correctness rule.

  Counted loops are `List.foldl`; `foldl_invariant` is their invariant rule,
  with the part of the range already done as an argument of the invariant.
-/
import Mathlib.Data.List.Basic
import Mathlib.Logic.Function.Iterate
import Mathlib.Tactic.Cases

namespace ZohoOs.Lib

universe u v

/-! ## §1. Loops without a bound. -/

/-- The C loop `for (x = a; cond x; x = next x) s = body x s`. -/
def forLoop {α : Type u} {σ : Type v} (cond : α → Bool) (next : α → α)
    (body : α → σ → Option σ) : Nat → α → σ → Option σ
  | 0, _, _ => none
  | fuel + 1, x, s =>
      if cond x then (body x s).bind (forLoop cond next body fuel (next x)) else some s

/-- The first `n` values of the loop variable, from `x` on. -/
def iterates {α : Type u} (next : α → α) (x : α) (n : Nat) : List α :=
  (List.range n).map fun i => next^[i] x

section Iterates

variable {α : Type u} {next : α → α}

@[simp] theorem iterates_zero (x : α) : iterates next x 0 = [] := rfl

theorem iterates_succ (x : α) (n : Nat) :
    iterates next x (n + 1) = x :: iterates next (next x) n := by
  simp [iterates, List.range_succ_eq_map, List.map_map, Function.comp_def,
    Function.iterate_succ_apply]

end Iterates

/-- **What a returning loop did**: it ran the body over the first `n` iterates,
    all inside the condition, where the `n`-th is the first one outside. -/
theorem forLoop_eq_some {α : Type u} {σ : Type v} {cond : α → Bool} {next : α → α}
    {body : α → σ → Option σ} {fuel : Nat} {x : α} {s s' : σ} :
    forLoop cond next body fuel x s = some s' ↔
      ∃ n < fuel, (∀ i < n, cond (next^[i] x) = true) ∧ cond (next^[n] x) = false ∧
        (iterates next x n).foldlM (fun s x => body x s) s = some s' := by
  induction fuel generalizing x s with
  | zero => simp [forLoop]
  | succ fuel ih =>
    cases hc : cond x with
    | false =>
      simp only [forLoop, hc, Bool.false_eq_true, if_false, Option.some.injEq]
      constructor
      · rintro rfl
        exact ⟨0, Nat.succ_pos _, by simp, hc, by simp⟩
      · rintro ⟨n, _, hlt, _, hfold⟩
        cases n with
        | zero => simpa using hfold
        | succ n => simpa [hc] using hlt 0 (Nat.succ_pos n)
    | true =>
      simp only [forLoop, hc, if_true, Option.bind_eq_some_iff]
      constructor
      · rintro ⟨s₁, hb, hrest⟩
        obtain ⟨n, hn, hlt, hend, hfold⟩ := ih.mp hrest
        refine ⟨n + 1, by omega, ?_, by simpa [Function.iterate_succ_apply] using hend, ?_⟩
        · intro i hi
          cases i with
          | zero => exact hc
          | succ i => simpa [Function.iterate_succ_apply] using hlt i (by omega)
        · rw [iterates_succ]
          simp [List.foldlM_cons, hb, hfold]
      · rintro ⟨n, hn, hlt, hend, hfold⟩
        cases n with
        | zero => simp [hc] at hend
        | succ n =>
          rw [iterates_succ, List.foldlM_cons] at hfold
          obtain ⟨s₁, hb, hrest⟩ := Option.bind_eq_some_iff.mp hfold
          refine ⟨s₁, hb, ih.mpr ⟨n, by omega, fun i hi => ?_, ?_, hrest⟩⟩
          · simpa [Function.iterate_succ_apply] using hlt (i + 1) (by omega)
          · simpa [Function.iterate_succ_apply] using hend

/-- What the body preserves holds when the loop returns. -/
theorem forLoop_invariant {α : Type u} {σ : Type v} {cond : α → Bool} {next : α → α}
    {body : α → σ → Option σ} (I : σ → Prop) (hbody : ∀ x s s', I s → body x s = some s' → I s')
    {fuel : Nat} {x : α} {s s' : σ} (hs : I s) (h : forLoop cond next body fuel x s = some s') :
    I s' := by
  induction fuel generalizing x s with
  | zero => cases h
  | succ fuel ih =>
    unfold forLoop at h
    split at h
    · obtain ⟨s₁, hb, hrest⟩ := Option.bind_eq_some_iff.mp h
      exact ih (hbody x s s₁ hs hb) hrest
    · cases h; exact hs

/-- A body that always returns folds as its pure part. -/
theorem foldlM_some {α : Type u} {σ : Type v} (f : α → σ → σ) (l : List α) (s : σ) :
    l.foldlM (fun s x => some (f x s)) s = some (l.foldl (fun s x => f x s) s) := by
  induction l generalizing s with
  | nil => rfl
  | cons x l ih => simp [List.foldlM_cons, ih]

/-- The C loop `while (cond s) s = body s`, whose step is chosen by the state. -/
def whileLoop {σ : Type v} (cond : σ → Bool) (body : σ → σ) : Nat → σ → Option σ
  | 0, _ => none
  | fuel + 1, s => if cond s then whileLoop cond body fuel (body s) else some s

/-- **The total-correctness rule**: a loop whose body keeps the invariant and
    lowers the measure stops, with the invariant and outside the condition. -/
theorem whileLoop_total {σ : Type v} (cond : σ → Bool) (body : σ → σ) (I : σ → Prop)
    (measure : σ → Nat)
    (hstep : ∀ s, I s → cond s = true → I (body s) ∧ measure (body s) < measure s) {s : σ} (hs : I s) :
    ∃ s', I s' ∧ cond s' = false ∧ ∀ fuel, measure s < fuel → whileLoop cond body fuel s = some s' := by
  generalize hn : measure s = n
  induction n using Nat.strongRecOn generalizing s with
  | _ n ih =>
    cases hc : cond s with
    | false =>
      refine ⟨s, hs, hc, fun fuel hfuel => ?_⟩
      cases fuel with
      | zero => exact absurd hfuel (Nat.not_lt_zero _)
      | succ fuel => rw [whileLoop, if_neg (by simp [hc])]
    | true =>
      obtain ⟨hI, hlt⟩ := hstep s hs hc
      obtain ⟨s', hI', hc', hrun⟩ := ih (measure (body s)) (hn ▸ hlt) hI rfl
      refine ⟨s', hI', hc', fun fuel hfuel => ?_⟩
      cases fuel with
      | zero => exact absurd hfuel (Nat.not_lt_zero _)
      | succ fuel =>
        rw [whileLoop, if_pos hc]
        exact hrun fuel (by omega)

/-! ## §2. Counted loops. -/

/-- **The invariant rule of a counted loop**: `I done s` holds when the
    elements of `done` have been processed and the state is `s`. -/
theorem foldl_invariant {α : Type u} {σ : Type v} {f : σ → α → σ} {l : List α} {s : σ}
    (I : List α → σ → Prop) (h0 : I [] s)
    (hstep : ∀ done a rest s, l = done ++ a :: rest → I done s → I (done ++ [a]) (f s a)) :
    I l (l.foldl f s) := by
  have key : ∀ (rest done : List α) (s : σ), l = done ++ rest → I done s →
      I l (rest.foldl f s) := by
    intro rest
    induction rest with
    | nil => intro done s hl hI; simpa [hl] using hI
    | cons a rest ih =>
      intro done s hl hI
      exact ih (done ++ [a]) (f s a) (by simp [hl]) (hstep done a rest s hl hI)
  exact key l [] s rfl h0

/-- A property every iteration preserves holds after the loop. -/
theorem foldl_preserves {α : Type u} {σ : Type v} {f : σ → α → σ} {l : List α} {s : σ}
    (I : σ → Prop) (h0 : I s) (hstep : ∀ a ∈ l, ∀ s, I s → I (f s a)) : I (l.foldl f s) := by
  refine foldl_invariant (fun _ s => I s) h0 ?_
  intro done a rest s hl hI
  exact hstep a (by simp [hl]) s hI

end ZohoOs.Lib
