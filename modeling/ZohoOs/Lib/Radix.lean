/-
  ZohoOs.Lib.Radix — radix trees of tables that share one memory.

  A table is a row of entries; an entry at depth `d` of a tree either points
  to a table one level down (`child d v = some t`) or does not.  A tree is
  reached from its root along paths of indices, written with the last index
  first, so that the last step of a walk is the head of its path.

  A forest names the roots of several trees and, per root, the root slots
  below which it owns the tables.  It is separated when no table is reached
  twice: by two paths, or from two roots.  Under separation:

    * `tableAt_write_other` — writing one slot leaves every path that does
      not run through that slot alone;
    * `tableOf_of_write_none` — cutting a subtree off leaves the tables outside it;
    * `tableOf_attach` — hanging a fresh childless table into an empty slot
      adds exactly that table;
    * `tableOf_addRoot` — a fresh childless root adds exactly itself.
-/
import Mathlib.Data.Set.Insert
import Mathlib.Data.List.Infix
import Mathlib.Logic.Function.Basic

namespace ZohoOs.Lib.Radix

universe u v w

variable {A : Type u} {I : Type v} {V : Type w}

/-! ## §1. Walks. -/

/-- The table reached from `root` along a path, last index first. -/
def tableAt (child : Nat → V → Option A) (E : A → I → V) (root : A) : List I → Option A
  | [] => some root
  | i :: p => (tableAt child E root p).bind fun t => child p.length (E t i)

section Walk

variable {child : Nat → V → Option A} {E E' : A → I → V} {r t : A} {p : List I} {i : I}

@[simp] theorem tableAt_nil : tableAt child E r [] = some r := rfl

theorem tableAt_cons (ht : tableAt child E r p = some t) :
    tableAt child E r (i :: p) = child p.length (E t i) := by
  rw [tableAt, ht, Option.bind_some]

theorem tableAt_cons_eq_some {n : A} :
    tableAt child E r (i :: p) = some n ↔
      ∃ t, tableAt child E r p = some t ∧ child p.length (E t i) = some n :=
  Option.bind_eq_some_iff

/-- Below an empty slot there is nothing. -/
theorem tableAt_none_of_suffix {q : List I} (h : tableAt child E r p = none) (hq : p <:+ q) :
    tableAt child E r q = none := by
  induction q with
  | nil => rw [List.suffix_nil.mp hq] at h; exact h
  | cons j q ih =>
    rcases List.suffix_cons_iff.mp hq with rfl | hq
    · exact h
    · rw [tableAt, ih hq, Option.bind_none]

/-- Every table of a walk satisfies what the root and every child satisfy. -/
theorem tableAt_all {P : A → Prop} (hchild : ∀ d v t, child d v = some t → P t) (hr : P r)
    (ht : tableAt child E r p = some t) : P t := by
  cases p with
  | nil => cases ht; exact hr
  | cons i p =>
    obtain ⟨s, -, hs⟩ := tableAt_cons_eq_some.mp ht
    exact hchild _ _ _ hs

/-- A walk depends on the tables it passes. -/
theorem tableAt_congr_suffix
    (h : ∀ q s, q <:+ p → tableAt child E r q = some s → ∀ j, E' s j = E s j) {q : List I}
    (hq : q <:+ p) : tableAt child E' r q = tableAt child E r q := by
  induction q with
  | nil => rfl
  | cons j q ih =>
    have hq' := (List.suffix_cons j q).trans hq
    rw [tableAt, ih hq', tableAt]
    cases hs : tableAt child E r q with
    | none => rfl
    | some s => rw [Option.bind_some, Option.bind_some, h q s hq' hs j]

/-- Two roots that agree on a slot agree on everything below it. -/
theorem tableAt_of_shared_slot {n : A} (hslot : E' n i = E r i)
    (hsame : ∀ q s, tableAt child E r (q ++ [i]) = some s → ∀ j, E' s j = E s j) (q : List I) :
    tableAt child E' n (q ++ [i]) = tableAt child E r (q ++ [i]) := by
  induction q with
  | nil =>
    show child 0 (E' n i) = child 0 (E r i)
    rw [hslot]
  | cons j q ih =>
    rw [List.cons_append, tableAt, ih, tableAt]
    cases hs : tableAt child E r (q ++ [i]) with
    | none => rfl
    | some s => rw [Option.bind_some, Option.bind_some, hsame q s hs j]

end Walk

/-! ## §2. Forests. -/

/-- The roots of some trees, and the root slots under which each owns its
    tables. -/
structure Forest (A : Type u) (I : Type v) where
  roots : Set A
  slots : A → Set I

/-- The path starts at a root, through a slot that root owns. -/
def Forest.Path (F : Forest A I) (r : A) (p : List I) : Prop :=
  r ∈ F.roots ∧ ∀ i, p.getLast? = some i → i ∈ F.slots r

/-- `t` is the table of the forest at path `p` under the root `r`. -/
def Forest.TableOf (F : Forest A I) (child : Nat → V → Option A) (E : A → I → V) (r : A)
    (p : List I) (t : A) : Prop :=
  F.Path r p ∧ tableAt child E r p = some t

/-- No table is reached twice. -/
def Separated (child : Nat → V → Option A) (E : A → I → V) (F : Forest A I) : Prop :=
  ∀ r p r' p' t, F.TableOf child E r p t → F.TableOf child E r' p' t → r = r' ∧ p = p'

namespace Forest

variable {F : Forest A I} {child : Nat → V → Option A} {E E' : A → I → V} {r r' t : A}
  {p q : List I} {i : I}

theorem Path.root (h : r ∈ F.roots) : F.Path r [] := ⟨h, by simp⟩

theorem Path.tail (h : F.Path r (i :: p)) : F.Path r p := by
  refine ⟨h.1, fun j hj => h.2 j ?_⟩
  cases p with
  | nil => cases hj
  | cons k p => rw [List.getLast?_cons_cons]; exact hj

theorem Path.cons (h : F.Path r p) (hi : p = [] → i ∈ F.slots r) : F.Path r (i :: p) := by
  refine ⟨h.1, fun j hj => ?_⟩
  cases p with
  | nil =>
    rw [List.getLast?_singleton] at hj
    injection hj with hj
    exact hj ▸ hi rfl
  | cons k p =>
    rw [List.getLast?_cons_cons] at hj
    exact h.2 j hj

/-- The way along a path is owned. -/
theorem Path.of_suffix (h : F.Path r p) (hq : q <:+ p) : F.Path r q := by
  induction p with
  | nil =>
    rw [List.suffix_nil.mp hq]
    exact h
  | cons j p ih =>
    rcases List.suffix_cons_iff.mp hq with rfl | hq
    · exact h
    · exact ih h.tail hq

theorem TableOf.tail {n : A} (h : F.TableOf child E r (i :: p) n) :
    ∃ t, F.TableOf child E r p t ∧ child p.length (E t i) = some n := by
  obtain ⟨t, ht, hn⟩ := tableAt_cons_eq_some.mp h.2
  exact ⟨t, ⟨h.1.tail, ht⟩, hn⟩

theorem TableOf.cons {n : A} (h : F.TableOf child E r p t) (hi : p = [] → i ∈ F.slots r)
    (hn : child p.length (E t i) = some n) : F.TableOf child E r (i :: p) n :=
  ⟨h.1.cons hi, (tableAt_cons h.2).trans hn⟩

/-- A walk has one end. -/
theorem TableOf.unique {s : A} (h : F.TableOf child E r p t) (h' : F.TableOf child E r p s) :
    t = s := by
  have := h.2.symm.trans h'.2
  injection this

/-- A walk along an owned path depends on the entries of the tree's tables. -/
theorem tableAt_congr_path (h : ∀ q s, F.TableOf child E r q s → ∀ j, E' s j = E s j)
    (hp : F.Path r p) : tableAt child E' r p = tableAt child E r p := by
  induction p with
  | nil => rfl
  | cons i p ih =>
    rw [tableAt, ih hp.tail, tableAt]
    cases hs : tableAt child E r p with
    | none => rfl
    | some s => rw [Option.bind_some, Option.bind_some, h p s ⟨hp.tail, hs⟩ i]

/-- The tables of the forest stay what they are when their entries do. -/
theorem tableOf_congr (h : ∀ r q s, F.TableOf child E r q s → ∀ j, E' s j = E s j) :
    F.TableOf child E' r p t ↔ F.TableOf child E r p t := by
  constructor
  · rintro ⟨hp, ht⟩; exact ⟨hp, by rw [← tableAt_congr_path (h r) hp]; exact ht⟩
  · rintro ⟨hp, ht⟩; exact ⟨hp, by rw [tableAt_congr_path (h r) hp]; exact ht⟩

end Forest

/-! ## §3. Writing one slot. -/

section Write

variable [DecidableEq A] [DecidableEq I]

/-- The table memory after slot `i` of table `t` was set to `v`. -/
def write (E : A → I → V) (t : A) (i : I) (v : V) : A → I → V := fun s j =>
  if s = t ∧ j = i then v else E s j

@[simp] theorem write_self (E : A → I → V) (t : A) (i : I) (v : V) : write E t i v t i = v := by
  simp [write]

theorem write_other (E : A → I → V) {t s : A} {i j : I} (v : V) (h : ¬ (s = t ∧ j = i)) :
    write E t i v s j = E s j := by
  rw [write, if_neg h]

variable {child : Nat → V → Option A} {E : A → I → V} {F : Forest A I} {r r' t : A}
  {p q : List I} {i : I} {v : V}

/-- A walk that does not run through the written slot is not affected. -/
theorem tableAt_write_other (hsep : Separated child E F) (ht : F.TableOf child E r p t)
    (hq : F.Path r' q) (hnot : ¬ (r' = r ∧ i :: p <:+ q)) :
    tableAt child (write E t i v) r' q = tableAt child E r' q := by
  induction q with
  | nil => rfl
  | cons j q ih =>
    have hrec := ih hq.tail fun h => hnot ⟨h.1, h.2.trans (List.suffix_cons j q)⟩
    rw [tableAt, hrec, tableAt]
    cases hs : tableAt child E r' q with
    | none => rfl
    | some s =>
      rw [Option.bind_some, Option.bind_some, write_other]
      rintro ⟨rfl, rfl⟩
      obtain ⟨rfl, rfl⟩ := hsep r' q r p s ⟨hq.tail, hs⟩ ht
      exact hnot ⟨rfl, List.suffix_refl _⟩

/-- The written slot leads where its new value points. -/
theorem tableAt_write_self (hsep : Separated child E F) (ht : F.TableOf child E r p t) :
    tableAt child (write E t i v) r (i :: p) = child p.length v := by
  have hp : tableAt child (write E t i v) r p = some t := by
    rw [tableAt_write_other hsep ht ht.1, ht.2]
    rintro ⟨-, hsuf⟩
    have := hsuf.length_le
    rw [List.length_cons] at this
    omega
  rw [tableAt_cons hp, write_self]

/-- Every table after cutting a subtree off was a table before. -/
theorem tableOf_of_write_none (hsep : Separated child E F) (ht : F.TableOf child E r p t)
    (hv : child p.length v = none) {s : A} (h : F.TableOf child (write E t i v) r' q s) :
    F.TableOf child E r' q s ∧ ¬ (r' = r ∧ i :: p <:+ q) := by
  have hnot : ¬ (r' = r ∧ i :: p <:+ q) := by
    rintro ⟨rfl, hsuf⟩
    have hnone := tableAt_none_of_suffix
      ((tableAt_write_self (i := i) hsep ht).trans hv) hsuf
    rw [h.2] at hnone
    cases hnone
  exact ⟨⟨h.1, by rw [← tableAt_write_other hsep ht h.1 hnot]; exact h.2⟩, hnot⟩

/-- Writing a value that points nowhere into a slot that pointed nowhere
    changes no table. -/
theorem tableOf_write_leaf (hsep : Separated child E F) (ht : F.TableOf child E r p t)
    (hold : child p.length (E t i) = none) (hv : child p.length v = none) {s : A} :
    F.TableOf child (write E t i v) r' q s ↔ F.TableOf child E r' q s := by
  refine ⟨fun h => (tableOf_of_write_none hsep ht hv h).1, fun h => ⟨h.1, ?_⟩⟩
  rw [tableAt_write_other hsep ht h.1, h.2]
  rintro ⟨rfl, hsuf⟩
  have hnone := tableAt_none_of_suffix ((tableAt_cons (i := i) ht.2).trans hold) hsuf
  rw [h.2] at hnone
  cases hnone

/-- **Attaching a fresh table**: `n` is no table of the forest, has no
    children, and is hung into a slot that pointed nowhere. -/
theorem tableOf_attach {n : A} (hsep : Separated child E F) (ht : F.TableOf child E r p t)
    (hpath : F.Path r (i :: p)) (hold : child p.length (E t i) = none)
    (hv : child p.length v = some n) (hfresh : ∀ r' q, ¬ F.TableOf child E r' q n)
    (hempty : ∀ d j, child d (E n j) = none) {s : A} :
    F.TableOf child (write E t i v) r' q s ↔
      F.TableOf child E r' q s ∨ (r' = r ∧ q = i :: p ∧ s = n) := by
  have hnt : n ≠ t := fun he => hfresh r p (he ▸ ht)
  have hself := (tableAt_write_self (i := i) (v := v) hsep ht).trans hv
  by_cases hthru : r' = r ∧ i :: p <:+ q
  · obtain ⟨rfl, hsuf⟩ := hthru
    have hgone : tableAt child E r' q = none :=
      tableAt_none_of_suffix ((tableAt_cons (i := i) ht.2).trans hold) hsuf
    by_cases hq : q = i :: p
    · subst hq
      constructor
      · rintro ⟨-, hs⟩
        rw [hself] at hs
        injection hs with hs
        exact .inr ⟨rfl, rfl, hs.symm⟩
      · rintro (⟨-, hs⟩ | ⟨-, -, rfl⟩)
        · rw [hgone] at hs; cases hs
        · exact ⟨hpath, hself⟩
    · -- strictly below the new table there is nothing
      obtain ⟨pre, rfl⟩ := hsuf
      have hdeep : tableAt child (write E t i v) r' (pre ++ i :: p) = none := by
        obtain ⟨front, j, rfl⟩ : ∃ front j, pre = front ++ [j] :=
          List.eq_nil_or_concat' pre |>.resolve_left (fun he => hq (by rw [he, List.nil_append]))
        refine tableAt_none_of_suffix (p := j :: i :: p) ?_ ⟨front, by simp⟩
        rw [tableAt_cons hself, write_other _ _ fun h => hnt h.1]
        exact hempty _ j
      constructor
      · rintro ⟨-, hs⟩; rw [hdeep] at hs; cases hs
      · rintro (⟨-, hs⟩ | ⟨-, he, -⟩)
        · rw [hgone] at hs; cases hs
        · exact absurd he hq
  · constructor
    · rintro ⟨hp, hs⟩
      exact .inl ⟨hp, by rw [← tableAt_write_other hsep ht hp hthru]; exact hs⟩
    · rintro (⟨hp, hs⟩ | ⟨rfl, rfl, -⟩)
      · exact ⟨hp, by rw [tableAt_write_other hsep ht hp hthru]; exact hs⟩
      · exact absurd ⟨rfl, List.suffix_refl _⟩ hthru

theorem Separated.attach {n : A} (hsep : Separated child E F) (ht : F.TableOf child E r p t)
    (hpath : F.Path r (i :: p)) (hold : child p.length (E t i) = none)
    (hv : child p.length v = some n) (hfresh : ∀ r' q, ¬ F.TableOf child E r' q n)
    (hempty : ∀ d j, child d (E n j) = none) : Separated child (write E t i v) F := by
  intro r₁ p₁ r₂ p₂ s h₁ h₂
  rcases (tableOf_attach hsep ht hpath hold hv hfresh hempty).mp h₁ with h₁ | ⟨rfl, rfl, rfl⟩ <;>
    rcases (tableOf_attach hsep ht hpath hold hv hfresh hempty).mp h₂ with h₂ | ⟨hr, hp, hn⟩
  · exact hsep r₁ p₁ r₂ p₂ s h₁ h₂
  · subst hn; exact absurd h₁ (hfresh _ _)
  · exact absurd h₂ (hfresh _ _)
  · exact ⟨hr.symm, hp.symm⟩

end Write

/-! ## §4. Adding and removing roots. -/

section Roots

variable {child : Nat → V → Option A} {E : A → I → V} {F F' : Forest A I}

theorem Separated.mono (hsep : Separated child E F) (hroots : F'.roots ⊆ F.roots)
    (hslots : ∀ r ∈ F'.roots, F'.slots r ⊆ F.slots r) : Separated child E F' := by
  have hpath : ∀ {r p}, F'.Path r p → F.Path r p := fun h =>
    ⟨hroots h.1, fun i hi => hslots _ h.1 (h.2 i hi)⟩
  intro r p r' p' t h h'
  exact hsep r p r' p' t ⟨hpath h.1, h.2⟩ ⟨hpath h'.1, h'.2⟩

/-- A forest with one more tree. -/
def Forest.addRoot [DecidableEq A] (F : Forest A I) (r : A) (S : Set I) : Forest A I where
  roots := insert r F.roots
  slots := Function.update F.slots r S

variable [DecidableEq A]

theorem addRoot_path_of_ne {r r' : A} {S : Set I} {p : List I} (h : r' ≠ r) :
    (F.addRoot r S).Path r' p ↔ F.Path r' p := by
  simp [Forest.Path, Forest.addRoot, h]

/-- **A fresh root**: it is no table of the forest and the slots it owns are
    empty, so the only new table is the root itself. -/
theorem tableOf_addRoot {r : A} {S : Set I} (hroot : r ∉ F.roots)
    (hempty : ∀ i ∈ S, child 0 (E r i) = none) {r' s : A} {q : List I} :
    (F.addRoot r S).TableOf child E r' q s ↔
      F.TableOf child E r' q s ∨ (r' = r ∧ q = [] ∧ s = r) := by
  by_cases hr : r' = r
  · subst hr
    have hno : ¬ F.TableOf child E r' q s := fun h => hroot h.1.1
    have hslots : (F.addRoot r' S).slots r' = S := by simp [Forest.addRoot]
    constructor
    · rintro ⟨hp, hs⟩
      right
      cases q with
      | nil => cases hs; exact ⟨rfl, rfl, rfl⟩
      | cons j q =>
        obtain ⟨front, i, hq⟩ : ∃ front i, j :: q = front ++ [i] :=
          List.eq_nil_or_concat' (j :: q) |>.resolve_left (List.cons_ne_nil j q)
        rw [hq] at hp hs
        have hi : i ∈ S := by
          have := hp.2 i (by simp)
          rwa [hslots] at this
        have hnone : tableAt child E r' [i] = none := hempty i hi
        rw [tableAt_none_of_suffix hnone (List.suffix_append front [i])] at hs
        cases hs
    · rintro (h | ⟨-, rfl, rfl⟩)
      · exact absurd h hno
      · exact ⟨Forest.Path.root (Set.mem_insert _ _), rfl⟩
  · rw [Forest.TableOf, addRoot_path_of_ne hr]
    exact ⟨fun h => .inl h, fun h => h.resolve_right fun h => hr h.1⟩

theorem Separated.addRoot {r : A} {S : Set I} (hsep : Separated child E F) (hroot : r ∉ F.roots)
    (hfresh : ∀ r' q, ¬ F.TableOf child E r' q r) (hempty : ∀ i ∈ S, child 0 (E r i) = none) :
    Separated child E (F.addRoot r S) := by
  intro r₁ p₁ r₂ p₂ s h₁ h₂
  rcases (tableOf_addRoot hroot hempty).mp h₁ with h₁ | ⟨hr₁, hp₁, hs₁⟩ <;>
    rcases (tableOf_addRoot hroot hempty).mp h₂ with h₂ | ⟨hr₂, hp₂, hs₂⟩
  · exact hsep r₁ p₁ r₂ p₂ s h₁ h₂
  · exact absurd (hs₂ ▸ h₁) (hfresh _ _)
  · exact absurd (hs₁ ▸ h₂) (hfresh _ _)
  · exact ⟨hr₁.trans hr₂.symm, hp₁.trans hp₂.symm⟩

end Roots

end ZohoOs.Lib.Radix
