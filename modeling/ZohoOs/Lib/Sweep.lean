/-
  ZohoOs.Lib.Sweep — walking a whole radix tree.

  `sweep` goes through a tree depth first, to a fixed depth, and lists the
  tables below a table, each after what hangs below it, and the leaves on the
  way.  `sweep_perm` says what that list is: every path's table once and every
  path's leaf once, in some order.  The walk asks the entries of the tables it
  reaches and of no others.
-/
import ZohoOs.Lib.Radix
import Mathlib.Data.List.Perm.Basic
import Mathlib.Data.List.Nodup

namespace ZohoOs.Lib.Radix

universe u v w

variable {A : Type u} {I : Type v} {V : Type w} {child leaf : Nat → V → Option A}
  {E : A → I → V} {slots : Nat → List I} {root t : A} {p q : List I} {n : Nat}

/-! ## §1. The walk. -/

/-- The tables and leaves below the table `t` at depth `d`, to `n` levels down;
    `slots d` are the slots looked at in a table of depth `d`. -/
def sweep (child leaf : Nat → V → Option A) (E : A → I → V) (slots : Nat → List I) :
    Nat → Nat → A → List A
  | 0, _, _ => []
  | n + 1, d, t => (slots d).flatMap fun i =>
      match child d (E t i) with
      | some s => sweep child leaf E slots n (d + 1) s ++ [s]
      | none => (leaf d (E t i)).toList

/-- The paths that extend `p` by one to `n` indices. -/
def pathsBelow (slots : Nat → List I) : Nat → List I → List (List I)
  | 0, _ => []
  | n + 1, p => (slots p.length).flatMap fun i => (i :: p) :: pathsBelow slots n (i :: p)

/-- The leaf at the end of a path. -/
def leafAt (child leaf : Nat → V → Option A) (E : A → I → V) (root : A) : List I → Option A
  | [] => none
  | i :: p => (tableAt child E root p).bind fun t => leaf p.length (E t i)

/-- What hangs at the end of a path: a table, or a leaf. -/
def nodeAt (child leaf : Nat → V → Option A) (E : A → I → V) (root : A) (p : List I) : List A :=
  (tableAt child E root p).toList ++ (leafAt child leaf E root p).toList

/-! ## §2. What it finds. -/

/-- Below a path without a table there is nothing. -/
theorem nodeAt_below (hp : tableAt child E root p = none) (hq : q ∈ pathsBelow slots n p) :
    nodeAt child leaf E root q = [] := by
  have key : ∀ (n : Nat) (p' : List I), p <:+ p' → ∀ q ∈ pathsBelow slots n p',
      nodeAt child leaf E root q = [] := by
    intro n
    induction n with
    | zero =>
      intro p' _ q hq
      cases hq
    | succ n ih =>
      intro p' hsuf q hq
      obtain ⟨i, -, hq⟩ := List.mem_flatMap.mp hq
      rcases List.mem_cons.mp hq with rfl | hq
      · have hp' := tableAt_none_of_suffix hp hsuf
        have htab := tableAt_none_of_suffix hp' (List.suffix_cons i p')
        rw [nodeAt, htab, leafAt, hp']
        rfl
      · exact ih (i :: p') (hsuf.trans (List.suffix_cons i p')) q hq
  exact key n p List.suffix_rfl q hq

/-- **The walk finds every table and every leaf once.** -/
theorem sweep_perm (hexcl : ∀ d v, child d v ≠ none → leaf d v = none)
    (ht : tableAt child E root p = some t) :
    (sweep child leaf E slots n p.length t).Perm
      ((pathsBelow slots n p).flatMap (nodeAt child leaf E root)) := by
  induction n generalizing p t with
  | zero => exact .refl _
  | succ n ih =>
    rw [pathsBelow, List.flatMap_assoc, sweep]
    refine List.Perm.flatMap_left _ fun i _ => ?_
    rw [List.flatMap_cons]
    have htab : tableAt child E root (i :: p) = child p.length (E t i) := tableAt_cons ht
    have hleaf : leafAt child leaf E root (i :: p) = leaf p.length (E t i) := by
      rw [leafAt, ht]
      rfl
    cases hc : child p.length (E t i) with
    | some s =>
      have hnone : leaf p.length (E t i) = none := hexcl _ _ (by simp [hc])
      have hrest := ih (p := i :: p) (htab.trans hc)
      rw [nodeAt, htab, hleaf, hc, hnone]
      exact List.perm_append_comm.trans (hrest.append_left _)
    | none =>
      have hbelow : (pathsBelow slots n (i :: p)).flatMap (nodeAt child leaf E root) = [] :=
        List.flatMap_eq_nil_iff.mpr fun q hq => nodeAt_below (htab.trans hc) hq
      rw [nodeAt, htab, hleaf, hc, hbelow, List.append_nil]
      exact .refl _

/-! ## §3. The paths below a path. -/

section Paths

variable {slots : Nat → List I} {p q : List I} {n : Nat} {i : I}

/-- They extend it. -/
theorem suffix_of_mem_pathsBelow (h : q ∈ pathsBelow slots n p) : p <:+ q := by
  induction n generalizing p with
  | zero => cases h
  | succ n ih =>
    obtain ⟨i, -, h⟩ := List.mem_flatMap.mp h
    rcases List.mem_cons.mp h with rfl | h
    · exact List.suffix_cons i p
    · exact (List.suffix_cons i p).trans (ih h)

/-- Where there is no table, there is none below. -/
theorem filter_pathsBelow_none (hp : tableAt child E root p = none) :
    (pathsBelow slots n p).filter (fun q => (tableAt child E root q).isSome) = [] := by
  refine List.filter_eq_nil_iff.mpr fun q hq => ?_
  rw [tableAt_none_of_suffix hp (suffix_of_mem_pathsBelow hq)]
  exact Bool.false_ne_true

theorem length_lt_of_mem_pathsBelow (h : q ∈ pathsBelow slots n p) : p.length < q.length := by
  cases n with
  | zero => cases h
  | succ n =>
    obtain ⟨i, -, h⟩ := List.mem_flatMap.mp h
    rcases List.mem_cons.mp h with rfl | h
    · rw [List.length_cons]
      omega
    · have hle := (suffix_of_mem_pathsBelow h).length_le
      rw [List.length_cons] at hle
      omega

/-- A path is another one, or extends it by some index. -/
theorem suffix_cases (h : p <:+ q) : q = p ∨ ∃ i, i :: p <:+ q := by
  obtain ⟨front, rfl⟩ := h
  rcases List.eq_nil_or_concat' front with rfl | ⟨front, i, rfl⟩
  · exact .inl rfl
  · exact .inr ⟨i, front, by simp⟩

/-- Where every slot is looked at, every extension is listed. -/
theorem mem_pathsBelow (hslots : ∀ d, p.length ≤ d → ∀ i, i ∈ slots d) (h : p <:+ q)
    (hlen : q.length ≤ n + p.length) : q = p ∨ q ∈ pathsBelow slots n p := by
  induction n generalizing p with
  | zero => exact .inl (h.eq_of_length (by have hle := h.length_le; omega)).symm
  | succ n ih =>
    rcases suffix_cases h with rfl | ⟨i, hi⟩
    · exact .inl rfl
    · refine .inr (List.mem_flatMap.mpr ⟨i, hslots _ (Nat.le_refl _) i, ?_⟩)
      have hrec := ih (p := i :: p)
        (fun d hd => hslots d (by rw [List.length_cons] at hd; omega)) hi
        (by rw [List.length_cons]; omega)
      rcases hrec with rfl | hq
      · exact List.mem_cons_self
      · exact List.mem_cons_of_mem _ hq

/-- No path is listed twice. -/
theorem nodup_pathsBelow (hslots : ∀ d, (slots d).Nodup) : (pathsBelow slots n p).Nodup := by
  induction n generalizing p with
  | zero => exact List.nodup_nil
  | succ n ih =>
    refine List.nodup_flatMap.mpr ⟨fun i _ => ?_, ?_⟩
    · exact List.nodup_cons.mpr ⟨fun h => absurd (length_lt_of_mem_pathsBelow h) (lt_irrefl _), ih⟩
    · refine (hslots p.length).imp fun {i j} hne => ?_
      have hthru : ∀ {k q}, q ∈ (k :: p) :: pathsBelow slots n (k :: p) → k :: p <:+ q := by
        intro k q hq
        rcases List.mem_cons.mp hq with rfl | hq
        · exact List.suffix_rfl
        · exact suffix_of_mem_pathsBelow hq
      intro q hi hj
      have hsuf := List.suffix_of_suffix_length_le (hthru hi) (hthru hj) (by simp)
      have heq := hsuf.eq_of_length (by simp)
      exact hne (List.cons.inj heq).1

end Paths

/-! ## §4. Supplies. -/

/-- A supply of `c` goes through a list, one item after the other, each taking
    one while there is one: those that need it get it. -/
def Fits {α : Type u} (H : α → Prop) : Nat → List α → Prop
  | _, [] => True
  | c, x :: l => (H x → 0 < c) ∧ Fits H (c - 1) l

section Fits

variable {α : Type u} {H : α → Prop} {c : Nat} {l l' : List α}

theorem fits_append : Fits H c (l ++ l') ↔ Fits H c l ∧ Fits H (c - l.length) l' := by
  induction l generalizing c with
  | nil => simp [Fits]
  | cons x l ih =>
    rw [List.cons_append, Fits, Fits, ih, and_assoc, List.length_cons, Nat.sub_sub, Nat.add_comm 1]

/-- An empty supply fits if nobody needs it. -/
theorem fits_zero : Fits H 0 l ↔ ∀ x ∈ l, ¬ H x := by
  induction l with
  | nil => simp [Fits]
  | cons x l ih => simp [Fits, ih]

/-- The item at index `k` gets one if the supply is larger than `k`. -/
theorem fits_iff : Fits H c l ↔ ∀ k x, l[k]? = some x → H x → k < c := by
  induction l generalizing c with
  | nil => simp [Fits]
  | cons x l ih =>
    rw [Fits, ih]
    constructor
    · intro h k y hk hy
      cases k with
      | zero =>
        obtain rfl : x = y := by simpa using hk
        exact h.1 hy
      | succ k =>
        have hlt := h.2 k y (by simpa using hk) hy
        omega
    · intro h
      refine ⟨fun hx => h 0 x rfl hx, fun k y hk hy => ?_⟩
      have hlt := h (k + 1) y (by simpa using hk) hy
      omega

end Fits

end ZohoOs.Lib.Radix
