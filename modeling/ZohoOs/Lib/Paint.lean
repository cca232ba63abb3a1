/-
  ZohoOs.Lib.Paint — pictures made of layers.

  A layer gives the pixels it covers a colour and leaves the others alone.
  Layers are put above each other, and a stack of layers, front to back, shows
  at every pixel the first layer that covers it.

  Main results:
    * `stack_map_apply` — a stack shows at a pixel the first of its layers that
      covers the pixel;
    * `clip_stack` — clipping a stack is clipping its layers.
-/
import Mathlib.Data.List.Basic

namespace ZohoOs.Lib

universe u v w

/-- A colour at each pixel the layer covers. -/
abbrev Layer (P : Type u) (C : Type v) := P → Option C

namespace Layer

variable {P : Type u} {C : Type v}

/-- `top` over `bottom`. -/
def above (top bottom : Layer P C) : Layer P C := fun p => (top p).or (bottom p)

/-- The layer that covers nothing. -/
def clear : Layer P C := fun _ => none

/-- One colour on all of `S`. -/
def fill (S : P → Prop) [DecidablePred S] (c : C) : Layer P C := fun p => if S p then some c else none

/-- The part of a layer inside `S`. -/
def clip (S : P → Prop) [DecidablePred S] (L : Layer P C) : Layer P C :=
  fun p => if S p then L p else none

/-- A stack of layers, front to back. -/
def stack : List (Layer P C) → Layer P C
  | [] => clear
  | L :: ls => above L (stack ls)

section Lemmas

variable {S T : P → Prop} [DecidablePred S] [DecidablePred T] {L M N : Layer P C} {p : P} {c : C}

@[simp] theorem clear_above : above clear L = L := by
  funext p
  exact Option.none_or

@[simp] theorem above_clear : above L clear = L := by
  funext p
  exact Option.or_none

theorem above_of_none (h : L p = none) : above L M p = M p := by
  show (L p).or (M p) = M p
  rw [h, Option.none_or]

theorem above_of_some (h : L p = some c) : above L M p = some c := by
  show (L p).or (M p) = some c
  rw [h, Option.some_or]

theorem clip_above : clip S (above L M) = above (clip S L) (clip S M) := by
  funext p
  unfold clip above
  by_cases h : S p
  · simp only [if_pos h]
  · simp only [if_neg h, Option.or_none]

theorem clip_fill : clip S (fill T c) = fill (fun p => S p ∧ T p) c := by
  funext p
  unfold clip fill
  by_cases h : S p
  · simp only [h, if_true, true_and]
  · simp only [h, if_false, false_and]

theorem clip_of_mem (h : S p) : clip S L p = L p := if_pos h

theorem clip_of_notMem (h : ¬ S p) : clip S L p = none := if_neg h

theorem clip_eq_none (h : L p = none) : clip S L p = none := by
  unfold clip
  rw [h, ite_self]

/-- **Clipping a stack** is clipping its layers. -/
theorem clip_stack (ls : List (Layer P C)) : clip S (stack ls) = stack (ls.map (clip S)) := by
  induction ls with
  | nil =>
    funext p
    exact ite_self _
  | cons L ls ih =>
    show clip S (above L (stack ls)) = above (clip S L) (stack (ls.map (clip S)))
    rw [clip_above, ih]

/-! ## What a stack shows. -/

variable {A : Type w} {f : A → Layer P C} {l l' : List A}

/-- The first layer that covers the pixel shows. -/
theorem stack_map_apply (f : A → Layer P C) (l : List A) (p : P) :
    stack (l.map f) p = (l.filterMap fun a => f a p).head? := by
  induction l with
  | nil => rfl
  | cons a l ih =>
    show above (f a) (stack (l.map f)) p = _
    cases h : f a p with
    | none => rw [above_of_none h, List.filterMap_cons_none (f := fun a => f a p) h, ih]
    | some c => rw [above_of_some h, List.filterMap_cons_some (f := fun a => f a p) h, List.head?_cons]

end Lemmas

end Layer

end ZohoOs.Lib
