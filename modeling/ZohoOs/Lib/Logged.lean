/-
  ZohoOs.Lib.Logged — computations that log what they touch.

  A `Logged ε α` is a value together with the events that computing it
  caused, oldest first.  A statement about every access a function makes is
  then a statement about a list, and it decomposes along the monad:

    * `all_bind` — all events of `x >>= f` satisfy `P` iff those of `x` and
      those of `f` at the value of `x` do;
    * `all_pure`, `all_tell`, `all_ite` — the other shapes.
-/
import Mathlib.Data.List.Basic

namespace ZohoOs.Lib

universe u v

/-- A value, and the events that computing it caused, oldest first. -/
structure Logged (ε : Type u) (α : Type v) where
  val : α
  log : List ε

namespace Logged

variable {ε : Type u} {α β : Type v}

instance : Monad (Logged ε : Type v → Type (max u v)) where
  pure a := ⟨a, []⟩
  bind x f := ⟨(f x.val).val, x.log ++ (f x.val).log⟩

/-- Log one event. -/
def tell (e : ε) : Logged ε PUnit.{v + 1} := ⟨PUnit.unit, [e]⟩

@[simp] theorem val_pure (a : α) : (pure a : Logged ε α).val = a := rfl

@[simp] theorem log_pure (a : α) : (pure a : Logged ε α).log = [] := rfl

@[simp] theorem val_bind (x : Logged ε α) (f : α → Logged ε β) :
    (x >>= f).val = (f x.val).val := rfl

@[simp] theorem log_bind (x : Logged ε α) (f : α → Logged ε β) :
    (x >>= f).log = x.log ++ (f x.val).log := rfl

/-- A loop over a list computes what the plain loop computes. -/
theorem val_foldlM {γ : Type*} (f : α → γ → Logged ε α) (l : List γ) (a : α) :
    (l.foldlM f a).val = l.foldl (fun a c => (f a c).val) a := by
  induction l generalizing a with
  | nil => rfl
  | cons c l ih =>
    rw [List.foldlM_cons, val_bind, List.foldl_cons]
    exact ih _

/-! ## §1. What all events satisfy. -/

/-- All events satisfy `P`. -/
def All (P : ε → Prop) (x : Logged ε α) : Prop := ∀ e ∈ x.log, P e

variable {P : ε → Prop}

@[simp] theorem all_pure (a : α) : (pure a : Logged ε α).All P := by
  intro e he
  cases he

theorem all_bind (x : Logged ε α) (f : α → Logged ε β) :
    (x >>= f).All P ↔ x.All P ∧ (f x.val).All P := by
  unfold All
  rw [log_bind]
  exact List.forall_mem_append

theorem all_singleton (a : α) (e : ε) : (⟨a, [e]⟩ : Logged ε α).All P ↔ P e := by
  unfold All
  exact List.forall_mem_singleton

theorem all_tell (e : ε) : (tell e : Logged ε PUnit.{v + 1}).All P ↔ P e := all_singleton _ e

theorem all_tell_bind (e : ε) (f : PUnit.{v + 1} → Logged ε β) :
    (tell e >>= f).All P ↔ P e ∧ (f PUnit.unit).All P :=
  (all_bind _ f).trans (and_congr_left' (all_tell e))

theorem all_ite {c : Prop} [Decidable c] (x y : Logged ε α) :
    (if c then x else y).All P ↔ (c → x.All P) ∧ (¬ c → y.All P) := by
  by_cases h : c
  · rw [if_pos h]
    exact ⟨fun hx => ⟨fun _ => hx, fun hn => absurd h hn⟩, fun hxy => hxy.1 h⟩
  · rw [if_neg h]
    exact ⟨fun hy => ⟨fun hc => absurd hc h, fun _ => hy⟩, fun hxy => hxy.2 h⟩

theorem all_foldlM_append {γ : Type*} (f : α → γ → Logged ε α) (l l' : List γ) (a : α) :
    ((l ++ l').foldlM f a).All P ↔
      (l.foldlM f a).All P ∧ (l'.foldlM f (l.foldlM f a).val).All P := by
  induction l generalizing a with
  | nil => exact (and_iff_right (all_pure a)).symm
  | cons c l ih =>
    rw [List.cons_append, List.foldlM_cons, List.foldlM_cons, all_bind, all_bind, ih, val_bind, and_assoc]

/-- **The events of a loop are those of its turns.** -/
theorem all_foldlM_range (f : α → Nat → Logged ε α) (n : Nat) (a : α)
    (h : ∀ j < n, (f ((List.range j).foldl (fun a i => (f a i).val) a) j).All P) :
    ((List.range n).foldlM f a).All P := by
  induction n with
  | zero => exact all_pure a
  | succ n ih =>
    rw [List.range_succ, all_foldlM_append, val_foldlM, List.foldlM_cons, all_bind]
    exact ⟨ih fun j hj => h j (Nat.lt_succ_of_lt hj), h n (Nat.lt_succ_self n), all_pure _⟩

/-- A later part may rely on what the earlier ones establish. -/
theorem All.bind {x : Logged ε α} {f : α → Logged ε β} (hx : x.All P) (hf : (f x.val).All P) :
    (x >>= f).All P :=
  (all_bind x f).mpr ⟨hx, hf⟩

theorem All.bind_iff {x : Logged ε α} {f : α → Logged ε β} (hx : x.All P) :
    (x >>= f).All P ↔ (f x.val).All P :=
  (all_bind x f).trans (and_iff_right hx)

theorem All.mono {Q : ε → Prop} {x : Logged ε α} (hx : x.All P) (h : ∀ e, P e → Q e) : x.All Q :=
  fun e he => h e (hx e he)

end Logged

end ZohoOs.Lib
