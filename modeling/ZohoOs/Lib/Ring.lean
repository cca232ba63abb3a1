/-
  ZohoOs.Lib.Ring — a ring buffer with one slot left empty.

  `n` slots, the index of the oldest item and the index the next item goes
  to.  Equal indices are an empty ring, so that a ring is full one item
  before its slots are: a push into a full ring is dropped.  `contents` reads
  the items off in order, and the two operations are those of a queue of at
  most `n - 1` items:

    * `contents_push` — a push appends, or is dropped;
    * `contents_pop` — a pop takes the first item, if there is one.
-/
import Mathlib.Algebra.Group.Fin.Basic
import Mathlib.Algebra.GroupWithZero.Nat
import Mathlib.Data.List.Basic
import Mathlib.Logic.Function.Basic

namespace ZohoOs.Lib

universe u

structure Ring (n : Nat) (α : Type u) where
  slots : Fin n → α
  head : Fin n
  tail : Fin n

namespace Ring

variable {n : Nat} [NeZero n] {α : Type u}

/-! ## §1. Operations and contents. -/

/-- Store an item, unless the ring is full. -/
def push (r : Ring n α) (a : α) : Ring n α :=
  if r.tail + 1 = r.head then r
  else { r with slots := Function.update r.slots r.tail a, tail := r.tail + 1 }

/-- Take the oldest item. -/
def pop (r : Ring n α) : Option (α × Ring n α) :=
  if r.head = r.tail then none else some (r.slots r.head, { r with head := r.head + 1 })

/-- The number of items. -/
def count (r : Ring n α) : Nat := (r.tail - r.head).val

/-- The items, oldest first. -/
def contents (r : Ring n α) : List α :=
  (List.range r.count).map fun i => r.slots (r.head + Fin.ofNat n i)

@[simp] theorem length_contents (r : Ring n α) : r.contents.length = r.count := by
  simp [contents]

/-! ## §2. Indices. -/

variable {r : Ring n α}

theorem val_add_one {x : Fin n} (h : x.val + 1 < n) : (x + 1).val = x.val + 1 := by
  have h1 : (1 : Fin n).val = 1 := by
    rw [Fin.val_one']
    exact Nat.mod_eq_of_lt (by omega)
  rw [Fin.val_add, h1]
  exact Nat.mod_eq_of_lt h

/-- The largest index is followed by `0`. -/
theorem add_one_eq_zero {x : Fin n} : x + 1 = 0 ↔ x.val + 1 = n := by
  have hpos := x.pos
  constructor
  · intro h
    by_contra hne
    have hval := congrArg Fin.val h
    rw [val_add_one (by omega), Fin.val_zero] at hval
    omega
  · intro h
    apply Fin.ext
    rw [Fin.val_add, Fin.val_one', Nat.add_mod_mod, h, Nat.mod_self, Fin.val_zero]

theorem ofNat_succ (i : Nat) : Fin.ofNat n (i + 1) = Fin.ofNat n i + 1 := by
  apply Fin.ext
  rw [Fin.val_add, Fin.val_one']
  simp [Fin.ofNat, Nat.add_mod]

/-- The next free slot lies `count` after the first item. -/
theorem head_add_count : r.head + Fin.ofNat n r.count = r.tail := by
  rw [count, Fin.ofNat_val_eq_self, add_comm, sub_add_cancel]

/-- The items are not in the next free slot. -/
theorem head_add_ne_tail {i : Nat} (hi : i < r.count) : r.head + Fin.ofNat n i ≠ r.tail := by
  intro h
  rw [← head_add_count] at h
  have hval := congrArg Fin.val (add_left_cancel h)
  have hlt : r.count < n := (r.tail - r.head).isLt
  simp only [Fin.ofNat] at hval
  rw [Nat.mod_eq_of_lt (hi.trans hlt), Nat.mod_eq_of_lt hlt] at hval
  omega

/-- The ring is full when all slots but one hold an item. -/
theorem full_iff : r.tail + 1 = r.head ↔ r.count + 1 = n := by
  rw [count, ← add_one_eq_zero, sub_add_eq_add_sub, sub_eq_zero]

theorem empty_iff : r.head = r.tail ↔ r.count = 0 := by
  rw [count, Fin.val_eq_zero_iff, sub_eq_zero]
  exact eq_comm

/-! ## §3. The ring is a queue. -/

/-- **A push** appends the item, and is dropped by a ring that is full. -/
theorem contents_push (a : α) :
    (r.push a).contents = if r.contents.length + 1 = n then r.contents else r.contents ++ [a] := by
  rw [length_contents, push]
  by_cases hfull : r.tail + 1 = r.head
  · rw [if_pos hfull, if_pos (full_iff.mp hfull)]
  · have hcount : r.count + 1 ≠ n := fun h => hfull (full_iff.mpr h)
    have hlt : r.count < n := (r.tail - r.head).isLt
    rw [if_neg hfull, if_neg hcount]
    have hnew : count { r with slots := Function.update r.slots r.tail a, tail := r.tail + 1 }
        = r.count + 1 := by
      show (r.tail + 1 - r.head).val = r.count + 1
      rw [add_sub_right_comm]
      exact val_add_one (x := r.tail - r.head) (by unfold count at hcount hlt; omega)
    unfold contents
    rw [hnew, List.range_succ, List.map_append]
    congr 1
    · -- the items before sit in other slots
      refine List.map_congr_left fun i hi => ?_
      exact Function.update_of_ne (head_add_ne_tail (List.mem_range.mp hi)) _ _
    · show [Function.update r.slots r.tail a (r.head + Fin.ofNat n r.count)] = [a]
      rw [head_add_count, Function.update_self]

/-- **A pop** takes the first item; an empty ring gives none. -/
theorem contents_pop {a : α} {r' : Ring n α} (h : r.pop = some (a, r')) :
    r.contents = a :: r'.contents := by
  unfold pop at h
  split at h
  · cases h
  · rename_i hne
    obtain ⟨rfl, rfl⟩ := Prod.mk.inj (Option.some.inj h)
    have hcount : r.count ≠ 0 := fun h0 => hne (empty_iff.mpr h0)
    have hnew : count { r with head := r.head + 1 } + 1 = r.count := by
      show (r.tail - (r.head + 1)).val + 1 = r.count
      have hlt : r.count < n := (r.tail - r.head).isLt
      have hx : r.tail - (r.head + 1) + 1 = r.tail - r.head := by
        rw [sub_add_eq_sub_sub, sub_add_cancel]
      by_cases hlast : (r.tail - (r.head + 1)).val + 1 = n
      · rw [add_one_eq_zero.mpr hlast] at hx
        exact absurd (by rw [count, ← hx, Fin.val_zero]) hcount
      · have := (r.tail - (r.head + 1)).isLt
        rw [← val_add_one (by omega), hx]
        rfl
    unfold contents
    rw [← hnew, List.range_succ_eq_map, List.map_cons, List.map_map]
    congr 1
    · show r.slots (r.head + Fin.ofNat n 0) = r.slots r.head
      rw [show Fin.ofNat n 0 = 0 from rfl, add_zero]
    · refine List.map_congr_left fun i _ => ?_
      show r.slots (r.head + Fin.ofNat n (i + 1)) = r.slots (r.head + 1 + Fin.ofNat n i)
      rw [ofNat_succ, add_assoc, add_comm 1]

end Ring

end ZohoOs.Lib
