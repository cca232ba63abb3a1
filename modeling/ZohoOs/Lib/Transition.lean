/-
  ZohoOs.Lib.Transition — runs of a labelled step relation.

  A step relation `step s a s'` says that action `a` may take state `s` to
  state `s'`.  A run keeps every transition it took, so that a statement
  about "every step of the run" or "every state the run visits" is a plain
  membership statement about its trace.

  Main results:
    * `Run.invariant` — an invariant of the steps that meet a side condition
      holds at the end of every run whose steps meet it;
    * `Run.always_iff` — a property fails along a run exactly when some step
      breaks the side condition, provided a broken step shows at once;
    * `Run.simulate` — a forward simulation carries whole runs over, with
      the same labels;
    * `Run.running_max` — a field that each step raises to the new value of
      a measure is the greatest value the measure had on the run;
    * `Run.project` — a run whose steps are steps of another relation or
      cannot be seen there is a run of that relation;
    * `Run.ledger` — a quantity to which each step adds what is booked for it.
-/
import Mathlib.Data.List.Basic
import Mathlib.Data.List.Induction
import Mathlib.Order.Bounds.Basic
import Mathlib.Algebra.BigOperators.Group.List.Basic

namespace ZohoOs.Lib

universe u v w

/-- One transition of a run: the state before, the action, the state after. -/
abbrev Transition (σ : Type u) (α : Type v) := σ × α × σ

/-- `Run step s tr t`: starting in `s`, the transitions `tr` (oldest first)
    are steps of `step`, each from the state the previous one left, and end
    in `t`. -/
inductive Run {σ : Type u} {α : Type v} (step : σ → α → σ → Prop) :
    σ → List (Transition σ α) → σ → Prop
  | nil (s : σ) : Run step s [] s
  | snoc {s t t' : σ} {a : α} {tr : List (Transition σ α)} :
      Run step s tr t → step t a t' → Run step s (tr ++ [(t, a, t')]) t'

namespace Run

variable {σ : Type u} {α : Type v} {step : σ → α → σ → Prop}

/-- Runs compose. -/
theorem append {s t u : σ} {tr tr' : List (Transition σ α)} (h : Run step s tr t)
    (h' : Run step t tr' u) : Run step s (tr ++ tr') u := by
  induction h' with
  | nil => rw [List.append_nil]; exact h
  | snoc _ hst ih => rw [← List.append_assoc]; exact ih.snoc hst

/-- A run taken apart at one of its transitions. -/
theorem split {s t : σ} {x : Transition σ α} {tr tr' : List (Transition σ α)}
    (h : Run step s (tr ++ x :: tr') t) :
    Run step s tr x.1 ∧ step x.1 x.2.1 x.2.2 ∧ Run step x.2.2 tr' t := by
  induction tr' using List.reverseRecOn generalizing t with
  | nil =>
    generalize hl : tr ++ [x] = l at h
    cases h with
    | nil => simp at hl
    | snoc hr hst =>
      obtain ⟨rfl, hx⟩ := List.append_inj' hl rfl
      obtain rfl := List.singleton_inj.mp hx
      exact ⟨hr, hst, .nil _⟩
  | append_singleton tr' y ih =>
    generalize hl : tr ++ x :: (tr' ++ [y]) = l at h
    rw [← List.cons_append, ← List.append_assoc] at hl
    cases h with
    | nil => simp at hl
    | snoc hr hst =>
      obtain ⟨rfl, hy⟩ := List.append_inj' hl rfl
      obtain rfl := List.singleton_inj.mp hy
      obtain ⟨hrun, hx, hrest⟩ := ih hr
      exact ⟨hrun, hx, hrest.snoc hst⟩

/-! ## §1. Invariants. -/

/-- **The invariant rule**: what every step meeting `C` preserves holds after
    every run all of whose steps meet `C`. -/
theorem invariant {I : σ → Prop} {C : σ → α → Prop}
    (hstep : ∀ s a s', I s → C s a → step s a s' → I s')
    {s t : σ} {tr : List (Transition σ α)} (hrun : Run step s tr t)
    (hC : ∀ x ∈ tr, C x.1 x.2.1) (hs : I s) : I t := by
  induction hrun with
  | nil => exact hs
  | snoc hr hst ih =>
    rename_i t t' a tr
    have hI : I t := ih fun x hx => hC x (List.mem_append_left _ hx)
    have hCa : C t a := hC (t, a, t') (by simp)
    exact hstep t a t' hI hCa hst

/-- The invariant rule without a side condition on the steps. -/
theorem invariant' {I : σ → Prop}
    (hstep : ∀ s a s', I s → step s a s' → I s')
    {s t : σ} {tr : List (Transition σ α)} (hrun : Run step s tr t)
    (hs : I s) : I t :=
  hrun.invariant (C := fun _ _ => True) (fun s a s' hI _ => hstep s a s' hI)
    (fun _ _ => trivial) hs

/-- Each transition of a run is a step, taken in a state the invariant holds
    of. -/
theorem step_of_mem {I : σ → Prop} {C : σ → α → Prop}
    (hstep : ∀ s a s', I s → C s a → step s a s' → I s')
    {s t : σ} {tr : List (Transition σ α)} (hrun : Run step s tr t)
    (hC : ∀ x ∈ tr, C x.1 x.2.1) (hs : I s) :
    ∀ x ∈ tr, I x.1 ∧ step x.1 x.2.1 x.2.2 := by
  induction hrun with
  | nil => simp
  | snoc hr hst ih =>
    rename_i t t' a tr
    have hCtr : ∀ x ∈ tr, C x.1 x.2.1 := fun x hx => hC x (List.mem_append_left _ hx)
    intro x hx
    rcases List.mem_append.mp hx with hx | hx
    · exact ih hCtr x hx
    · rw [List.mem_singleton.mp hx]
      exact ⟨hr.invariant hstep hCtr hs, hst⟩

/-! ## §2. When a property holds all along a run. -/

/-- **Exactness along a run.**  Let steps meeting `C` keep the invariant `I`,
    let `I` imply `P`, and let a step that does not meet `C` leave `P` false.
    Then `P` holds of every state a run visits if and only if every step of
    the run meets `C`. -/
theorem always_iff {I P : σ → Prop} {C : σ → α → Prop}
    (hstep : ∀ s a s', I s → C s a → step s a s' → I s')
    (hIP : ∀ s, I s → P s)
    (hbreak : ∀ s a s', I s → step s a s' → ¬ C s a → ¬ P s')
    {s t : σ} {tr : List (Transition σ α)} (hrun : Run step s tr t) (hs : I s) :
    (∀ x ∈ tr, P x.2.2) ↔ ∀ x ∈ tr, C x.1 x.2.1 := by
  induction hrun with
  | nil => simp
  | snoc hr hst ih =>
    rename_i t t' a tr
    constructor
    · intro hP
      have hCtr := ih.mp fun x hx => hP x (List.mem_append_left _ hx)
      intro x hx
      rcases List.mem_append.mp hx with hx | hx
      · exact hCtr x hx
      · rw [List.mem_singleton.mp hx]
        by_contra hnC
        have hIt : I t := hr.invariant hstep hCtr hs
        exact hbreak t a t' hIt hst hnC (hP (t, a, t') (by simp))
    · intro hC x hx
      have hCtr : ∀ y ∈ tr, C y.1 y.2.1 := fun y hy => hC y (List.mem_append_left _ hy)
      rcases List.mem_append.mp hx with hx | hx
      · exact ih.mpr hCtr x hx
      · rw [List.mem_singleton.mp hx]
        exact hIP t' (hstep t a t' (hr.invariant hstep hCtr hs) (hC (t, a, t') (by simp)) hst)

/-! ## §3. Forward simulation. -/

/-- The actions of a trace, oldest first. -/
def labels (tr : List (Transition σ α)) : List α := tr.map fun x => x.2.1

@[simp] theorem labels_nil : labels ([] : List (Transition σ α)) = [] := rfl

@[simp] theorem labels_append (tr tr' : List (Transition σ α)) :
    labels (tr ++ tr') = labels tr ++ labels tr' := List.map_append

@[simp] theorem labels_singleton (x : Transition σ α) : labels [x] = [x.2.1] := rfl

/-- **Forward simulation**: if `R` relates the start states and every step on
    the left is matched by a step with the same label on the right, then every
    run on the left is matched by a run on the right with the same labels. -/
theorem simulate {τ : Type w} {step' : τ → α → τ → Prop} {R : σ → τ → Prop}
    (hsim : ∀ s a s' t, R s t → step s a s' → ∃ t', step' t a t' ∧ R s' t')
    {s s' : σ} {tr : List (Transition σ α)} (hrun : Run step s tr s')
    {t : τ} (hR : R s t) :
    ∃ tr' t', Run step' t tr' t' ∧ labels tr' = labels tr ∧ R s' t' := by
  induction hrun with
  | nil => exact ⟨[], t, .nil t, rfl, hR⟩
  | snoc hr hst ih =>
    rename_i u u' a tr
    obtain ⟨tr', t', hrun', hlab, hR'⟩ := ih
    obtain ⟨t'', hst', hR''⟩ := hsim u a u' t' hR' hst
    exact ⟨tr' ++ [(t', a, t'')], t'', hrun'.snoc hst', by simp [hlab], hR''⟩

/-! ## §4. The greatest value of a measure. -/

/-- The states a run visits, the first one included. -/
def visited (s : σ) (tr : List (Transition σ α)) : List σ := s :: tr.map fun x => x.2.2

@[simp] theorem visited_nil (s : σ) : visited s ([] : List (Transition σ α)) = [s] := rfl

@[simp] theorem visited_append (s : σ) (tr tr' : List (Transition σ α)) :
    visited s (tr ++ tr') = visited s tr ++ tr'.map fun x => x.2.2 := by
  simp [visited]

/-- **Running maximum**: a field `p` that starts at the measure `f` and that
    every step raises to the new measure where that is larger is the greatest
    measure of the states visited. -/
theorem running_max {ι : Type w} [LinearOrder ι] {I : σ → Prop} {f p : σ → ι}
    (hstep : ∀ s a s', I s → step s a s' → I s')
    (hmax : ∀ s a s', I s → step s a s' → p s' = max (p s) (f s'))
    {s t : σ} {tr : List (Transition σ α)} (hrun : Run step s tr t) (hs : I s) (hp : p s = f s) :
    IsGreatest {n | ∃ u ∈ visited s tr, f u = n} (p t) := by
  induction hrun with
  | nil =>
    refine ⟨⟨s, by simp, hp.symm⟩, ?_⟩
    intro n hn
    obtain ⟨u, hu, rfl⟩ := hn
    rw [List.mem_singleton.mp hu, hp]
  | snoc hr hst ih =>
    rename_i t t' a tr
    have hnew := hmax t a t' (hr.invariant' hstep hs) hst
    obtain ⟨⟨u, hu, hfu⟩, hle⟩ := ih
    constructor
    · -- the old maximum, or the state just reached
      rcases le_total (f t') (p t) with h | h
      · rw [hnew, max_eq_left h]
        exact ⟨u, by simp [hu], hfu⟩
      · rw [hnew, max_eq_right h]
        exact ⟨t', by simp, rfl⟩
    · intro n hn
      obtain ⟨v, hv, rfl⟩ := hn
      rw [visited_append] at hv
      rw [hnew]
      rcases List.mem_append.mp hv with hv | hv
      · exact (hle ⟨v, hv, rfl⟩).trans (le_max_left _ _)
      · obtain rfl : v = t' := by simpa using hv
        exact le_max_right _ _

/-! ## §5. Steps that cannot be seen. -/

/-- **Projection**: if every step leaves what `f` shows alone, or is a step of
    `step'` there, then what `f` shows of a run is a run of `step'`, and its
    transitions are those the run shows. -/
theorem project {τ : Type w} {step' : τ → α → τ → Prop} {I : σ → Prop} {f : σ → τ}
    (hI : ∀ s a s', I s → step s a s' → I s')
    (hstep : ∀ s a s', I s → step s a s' → f s' = f s ∨ step' (f s) a (f s'))
    {s t : σ} {tr : List (Transition σ α)} (hrun : Run step s tr t) (hs : I s) :
    ∃ tr', Run step' (f s) tr' (f t) ∧
      (∀ x ∈ tr, f x.2.2 ≠ f x.1 → (f x.1, x.2.1, f x.2.2) ∈ tr') ∧
      ∀ y ∈ tr', ∃ x ∈ tr, f x.2.2 ≠ f x.1 ∧ y = (f x.1, x.2.1, f x.2.2) := by
  induction hrun with
  | nil => exact ⟨[], .nil _, (fun x hx => nomatch hx), fun y hy => nomatch hy⟩
  | snoc hr hst ih =>
    rename_i u u' a tr
    obtain ⟨tr', hrun', hto, hfrom⟩ := ih
    by_cases hsame : f u' = f u
    · -- nothing is seen of the last step
      refine ⟨tr', hsame ▸ hrun', fun x hx hne => ?_, fun y hy => ?_⟩
      · rcases List.mem_append.mp hx with hx | hx
        · exact hto x hx hne
        · rw [List.mem_singleton.mp hx] at hne
          exact absurd hsame hne
      · obtain ⟨x, hx, hne, rfl⟩ := hfrom y hy
        exact ⟨x, List.mem_append_left _ hx, hne, rfl⟩
    · have hlast : step' (f u) a (f u') := (hstep u a u' (hr.invariant' hI hs) hst).resolve_left hsame
      refine ⟨tr' ++ [(f u, a, f u')], hrun'.snoc hlast, fun x hx hne => ?_, fun y hy => ?_⟩
      · rcases List.mem_append.mp hx with hx | hx
        · exact List.mem_append_left _ (hto x hx hne)
        · rw [List.mem_singleton.mp hx]
          exact List.mem_append_right _ List.mem_cons_self
      · rcases List.mem_append.mp hy with hy | hy
        · obtain ⟨x, hx, hne, rfl⟩ := hfrom y hy
          exact ⟨x, List.mem_append_left _ hx, hne, rfl⟩
        · exact ⟨(u, a, u'), List.mem_append_right _ List.mem_cons_self, hsame,
            List.mem_singleton.mp hy⟩

/-! ## §6. What a run adds up to. -/

/-- **The ledger of a run**: a quantity to which every step adds what is booked
    for it has grown by the sum of the bookings. -/
theorem ledger {M : Type w} [AddCommMonoid M] {value : σ → M} {booked : σ → α → M}
    (hstep : ∀ s a s', step s a s' → value s' = value s + booked s a)
    {s t : σ} {tr : List (Transition σ α)} (hrun : Run step s tr t) :
    value t = value s + (tr.map fun x => booked x.1 x.2.1).sum := by
  induction hrun with
  | nil => simp
  | snoc hr hst ih => simp [hstep _ _ _ hst, ih, add_assoc]

end Run

end ZohoOs.Lib
