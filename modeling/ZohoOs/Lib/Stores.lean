/-
  ZohoOs.Lib.Stores — arrays with bounds, and loops that store into them.

  An array of `n` entries is kept as a function on all indices.  A load or a
  store outside the array is refused (`none`), so that "every index used is in
  bounds" is the statement that a computation is not refused.

  Main results:
    * `foldlM_range` — the invariant rule of a counted loop that may be refused;
    * `foldlM_stored` — a loop that stores one value: it wrote what its turns
      wrote, and nothing else;
    * `foldlM_rect` — two nested loops over a rectangle of a picture, which is an
      array of rows.
-/
import Mathlib.Data.List.Range
import Mathlib.Logic.Function.Basic

namespace ZohoOs.Lib

universe u v w

/-! ## §1. Accesses. -/

section Accesses

variable {α : Type u}

/-- `a[k]`, of an array of `n` entries. -/
def loadAt (n k : Nat) (a : Nat → α) : Option α := if k < n then some (a k) else none

/-- `a[k] = v`. -/
def storeAt (n k : Nat) (v : α) (a : Nat → α) : Option (Nat → α) :=
  if k < n then some (Function.update a k v) else none

/-- `memset` of `len` entries from `start` on. -/
def fillAt (n start len : Nat) (v : α) (a : Nat → α) : Option (Nat → α) :=
  if start + len ≤ n then some fun k => if start ≤ k ∧ k < start + len then v else a k else none

/-- `memmove` of `len` entries. -/
def moveAt (n dst src len : Nat) (a : Nat → α) : Option (Nat → α) :=
  if dst + len ≤ n ∧ src + len ≤ n then
    some fun k => if dst ≤ k ∧ k < dst + len then a (src + (k - dst)) else a k
  else none

/-- `g` is `f` with `v` at the indices of `S`. -/
structure Stored (S : Nat → Prop) (v : α) (f g : Nat → α) : Prop where
  on : ∀ k, S k → g k = v
  off : ∀ k, ¬ S k → g k = f k

variable {S T : Nat → Prop} {v : α} {f g h : Nat → α} {n k : Nat}

theorem loadAt_eq (hk : k < n) : loadAt n k f = some (f k) := if_pos hk

theorem fillAt_eq {start len : Nat} (hlen : start + len ≤ n) :
    fillAt n start len v f = some fun k => if start ≤ k ∧ k < start + len then v else f k := if_pos hlen

theorem moveAt_eq {dst src len : Nat} (hdst : dst + len ≤ n) (hsrc : src + len ≤ n) :
    moveAt n dst src len f = some fun k => if dst ≤ k ∧ k < dst + len then f (src + (k - dst)) else f k :=
  if_pos ⟨hdst, hsrc⟩

theorem storeAt_stored (hk : k < n) : ∃ g, storeAt n k v f = some g ∧ Stored (fun i => i = k) v f g := by
  refine ⟨_, if_pos hk, ?_, ?_⟩
  · intro i hi
    rw [hi]
    exact Function.update_self k v f
  · intro i hi
    exact Function.update_of_ne hi v f

theorem Stored.none : Stored (fun _ => False) v f f := ⟨fun _ hk => hk.elim, fun _ _ => rfl⟩

/-- Stores one after the other. -/
theorem Stored.trans (hS : Stored S v f g) (hT : Stored T v g h) : Stored (fun k => S k ∨ T k) v f h := by
  constructor
  · intro k hk
    by_cases hkT : T k
    · exact hT.on k hkT
    · rw [hT.off k hkT]
      exact hS.on k (hk.resolve_right hkT)
  · intro k hk
    rw [hT.off k fun hkT => hk (.inr hkT)]
    exact hS.off k fun hkS => hk (.inl hkS)

theorem Stored.congr (hS : Stored S v f g) (hiff : ∀ k, T k ↔ S k) : Stored T v f g :=
  ⟨fun k hk => hS.on k ((hiff k).mp hk), fun k hk => hS.off k fun hkS => hk ((hiff k).mpr hkS)⟩

end Accesses

/-! ## §2. Loops. -/

/-- **The invariant of a counted loop**: `P i` holds after `i` turns, and no turn
    is refused. -/
theorem foldlM_range {σ : Type u} (step : σ → Nat → Option σ) {P : Nat → σ → Prop} {n : Nat} {s : σ}
    (hzero : P 0 s) (hstep : ∀ i < n, ∀ s, P i s → ∃ s', step s i = some s' ∧ P (i + 1) s') :
    ∃ s', (List.range n).foldlM step s = some s' ∧ P n s' := by
  induction n with
  | zero => exact ⟨s, rfl, hzero⟩
  | succ n ih =>
    obtain ⟨t, hrun, ht⟩ := ih fun i hi => hstep i (Nat.lt_succ_of_lt hi)
    obtain ⟨s', hlast, hs'⟩ := hstep n (Nat.lt_succ_self n) t ht
    refine ⟨s', ?_, hs'⟩
    rw [List.range_succ, List.foldlM_append, hrun]
    show [n].foldlM step t = some s'
    rw [List.foldlM_cons, hlast]
    rfl

/-- **A loop that stores one value.** -/
theorem foldlM_stored {α : Type u} {ι : Type v} {step : (Nat → α) → ι → Option (Nat → α)} {S : ι → Nat → Prop}
    {v : α} {xs : List ι} {f : Nat → α}
    (hstep : ∀ i ∈ xs, ∀ f, ∃ g, step f i = some g ∧ Stored (S i) v f g) :
    ∃ g, xs.foldlM step f = some g ∧ Stored (fun k => ∃ i ∈ xs, S i k) v f g := by
  induction xs generalizing f with
  | nil =>
    refine ⟨f, rfl, Stored.none.congr fun k => ?_⟩
    exact iff_of_false (fun h => by obtain ⟨i, hi, -⟩ := h; exact List.not_mem_nil hi) id
  | cons x xs ih =>
    obtain ⟨g, hfirst, hg⟩ := hstep x List.mem_cons_self f
    -- the rest of the loop starts from what the first turn left
    obtain ⟨h, hrest, hh⟩ := ih (f := g) fun i hi => hstep i (List.mem_cons_of_mem x hi)
    refine ⟨h, ?_, (hg.trans hh).congr fun k => ?_⟩
    · rw [List.foldlM_cons, hfirst]
      exact hrest
    · show (∃ i, i ∈ x :: xs ∧ S i k) ↔ _
      simp only [List.mem_cons, exists_eq_or_imp]

/-! ## §3. Rectangles of a picture. -/

/-- The index is one of a rectangle of `a` rows and `b` columns at `(x, y)`, of
    a picture of `w` columns. -/
def InRect (w x y a b k : Nat) : Prop := (y ≤ k / w ∧ k / w < y + a) ∧ x ≤ k % w ∧ k % w < x + b

/-- Row and column of an index. -/
theorem index_iff {w row col k : Nat} (hcol : col < w) :
    row * w + col = k ↔ k / w = row ∧ k % w = col := by
  have hw : 0 < w := by omega
  constructor
  · intro hk
    rw [← hk, Nat.add_comm, Nat.add_mul_div_right _ _ hw, Nat.div_eq_of_lt hcol, Nat.add_mul_mod_self_right]
    exact ⟨Nat.zero_add row, Nat.mod_eq_of_lt hcol⟩
  · intro hk
    rw [← hk.1, ← hk.2]
    exact Nat.div_add_mod' k w

theorem index_lt_of {w row col h : Nat} (hcol : col < w) (hrow : row < h) : row * w + col < h * w := by
  have hle := Nat.mul_le_mul_right w hrow
  rw [Nat.succ_mul] at hle
  omega

/-- **Two nested loops over a rectangle**: `v` is stored where `cond` holds of
    row and column. -/
theorem foldlM_rect {α : Type u} {n w x y a b : Nat} {v : α} (f : Nat → α) (cond : Nat → Nat → Prop)
    (step : (Nat → α) → Nat → Nat → Option (Nat → α)) (hright : x + b ≤ w) (hbottom : (y + a) * w ≤ n)
    (hstore : ∀ i < a, ∀ j < b, cond i j → ∀ f, step f i j = storeAt n ((y + i) * w + (x + j)) v f)
    (hskip : ∀ i < a, ∀ j < b, ¬ cond i j → ∀ f, step f i j = some f) :
    ∃ g, (List.range a).foldlM (fun f i => (List.range b).foldlM (fun f j => step f i j) f) f = some g ∧
      Stored (fun k => InRect w x y a b k ∧ cond (k / w - y) (k % w - x)) v f g := by
  have hinner : ∀ i ∈ List.range a, ∀ f, ∃ g, (List.range b).foldlM (fun f j => step f i j) f = some g ∧
      Stored (fun k => ∃ j ∈ List.range b, cond i j ∧ (y + i) * w + (x + j) = k) v f g := by
    intro i hi f
    have hi := List.mem_range.mp hi
    refine foldlM_stored fun j hj f => ?_
    have hj := List.mem_range.mp hj
    by_cases hcond : cond i j
    · have hlt := index_lt_of (show x + j < w by omega) (show y + i < y + a by omega)
      obtain ⟨g, hg, hstored⟩ := storeAt_stored (v := v) (f := f) (Nat.lt_of_lt_of_le hlt hbottom)
      rw [hstore i hi j hj hcond]
      exact ⟨g, hg, hstored.congr fun k => ⟨fun h => h.2.symm, fun h => ⟨hcond, h.symm⟩⟩⟩
    · rw [hskip i hi j hj hcond]
      exact ⟨f, rfl, Stored.none.congr fun k => iff_of_false (fun h => hcond h.1) id⟩
  -- what the rows wrote, read as a rectangle
  obtain ⟨g, hrun, hg⟩ := foldlM_stored (f := f) hinner
  refine ⟨g, hrun, hg.congr fun k => ?_⟩
  constructor
  · intro ⟨⟨⟨htop, hlow⟩, hleft, hend⟩, hcond⟩
    refine ⟨k / w - y, List.mem_range.mpr (by omega), k % w - x, List.mem_range.mpr (by omega), hcond, ?_⟩
    rw [index_iff (by omega)]
    exact ⟨by omega, by omega⟩
  · intro ⟨i, hi, j, hj, hcond, hk⟩
    have hi := List.mem_range.mp hi
    have hj := List.mem_range.mp hj
    obtain ⟨hrow, hcol⟩ := (index_iff (by omega)).mp hk
    rw [hrow, hcol]
    have hrows : y ≤ k / w ∧ k / w < y + a := by omega
    have hcols : x ≤ k % w ∧ k % w < x + b := by omega
    refine ⟨⟨hrows, hcols⟩, ?_⟩
    rw [Nat.add_sub_cancel_left, Nat.add_sub_cancel_left]
    exact hcond

end ZohoOs.Lib
