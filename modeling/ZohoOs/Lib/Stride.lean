/-
  ZohoOs.Lib.Stride — loops that step through 64-bit addresses.

  `for (x = a; x < e; x += d)` over `uint64_t` may wrap.  When the stride
  divides `2 ^ 64` a loop that wraps never stops, so a loop that did stop has
  visited exactly the addresses `a + d * i` below `e`, as natural numbers
  (`stride_visits`).  Conversely the loop stops when the last step cannot
  wrap (`stride_returns`).
-/
import ZohoOs.Lib.Loop
import ZohoOs.Lib.Word
import Mathlib.Data.Int.ModEq

namespace ZohoOs.Lib

/-- The `i`-th address of a strided loop. -/
theorem iterate_add_word (d : Nat) (a : Word) (i : Nat) :
    (fun x : Word => x + BitVec.ofNat 64 d)^[i] a = a + BitVec.ofNat 64 (d * i) := by
  induction i with
  | zero => simp
  | succ i ih =>
    rw [Function.iterate_succ_apply', ih, Nat.mul_succ, ← BitVec.ofNat_add_ofNat,
      ← BitVec.add_assoc]

theorem toNat_add_ofNat (a : Word) (k : Nat) :
    (a + BitVec.ofNat 64 k).toNat = (a.toNat + k) % 2 ^ 64 := by
  rw [BitVec.toNat_add, BitVec.toNat_ofNat, Nat.add_mod_mod]

/-- The addresses `a, a + d, …, a + d * (n - 1)`. -/
def strided (d : Nat) (a : Word) (n : Nat) : List Word :=
  (List.range n).map fun i => a + BitVec.ofNat 64 (d * i)

theorem iterates_eq_strided (d : Nat) (a : Word) (n : Nat) :
    iterates (fun x : Word => x + BitVec.ofNat 64 d) a n = strided d a n := by
  simp [iterates, strided, iterate_add_word]

/-- **A strided loop that stops has not wrapped**: its `n` addresses are the
    numbers `a + d * i` below `e`. -/
theorem stride_visits {σ : Type*} {d : Nat} (hdvd : d ∣ 2 ^ 64)
    {a e : Word} {f : Word → σ → σ} {fuel : Nat} {s s' : σ}
    (h : forLoop (fun x => decide (x < e)) (fun x => x + BitVec.ofNat 64 d)
      (fun x s => some (f x s)) fuel a s = some s') :
    ∃ n, (∀ i, i < n ↔ a.toNat + d * i < e.toNat) ∧
      s' = (strided d a n).foldl (fun s x => f x s) s := by
  obtain ⟨n, _, hlt, hend, hfold⟩ := forLoop_eq_some.mp h
  simp only [iterate_add_word, decide_eq_true_eq, decide_eq_false_iff_not, BitVec.lt_def,
    toNat_add_ofNat] at hlt hend
  rw [iterates_eq_strided, foldlM_some, Option.some.injEq] at hfold
  have hnowrap : ∀ j ≤ n, a.toNat + d * j < 2 ^ 64 := by
    intro j
    induction j with
    | zero => intro _; simpa using a.isLt
    | succ j ih =>
      intro hj
      by_contra hwrap
      have hjlt := ih (by omega)
      have hje := hlt j (by omega)
      rw [Nat.mod_eq_of_lt hjlt] at hje
      -- the value the loop stopped at is congruent to `a + d * j` modulo `d`
      have hcong : (a.toNat + d * n) % 2 ^ 64 % d = (a.toNat + d * j) % d := by
        rw [Nat.mod_mod_of_dvd _ hdvd, Nat.add_mul_mod_self_left, Nat.add_mul_mod_self_left]
      have hstop : (a.toNat + d * n) % 2 ^ 64 < a.toNat + d * j + d := by
        have := Nat.mod_lt (a.toNat + d * n) (show 0 < 2 ^ 64 by decide)
        rw [Nat.mul_succ] at hwrap
        omega
      have hle : (a.toNat + d * n) % 2 ^ 64 ≤ a.toNat + d * j := by
        by_contra hgt
        have hdv : d ∣ (a.toNat + d * n) % 2 ^ 64 - (a.toNat + d * j) :=
          (Nat.modEq_iff_dvd' (by omega)).mp hcong.symm
        have := Nat.le_of_dvd (by omega) hdv
        omega
      omega
  refine ⟨n, fun i => ⟨fun hi => ?_, fun hi => ?_⟩, hfold.symm⟩
  · have := hlt i hi
    rwa [Nat.mod_eq_of_lt (hnowrap i (by omega))] at this
  · rw [Nat.mod_eq_of_lt (hnowrap n (Nat.le_refl n))] at hend
    by_contra hni
    have : d * n ≤ d * i := Nat.mul_le_mul_left d (by omega)
    omega

/-- A strided loop stops when no step past the end can wrap. -/
theorem stride_returns {σ : Type*} {d : Nat} (hd : 0 < d) {a e : Word}
    (he : e.toNat + d ≤ 2 ^ 64) (f : Word → σ → σ) :
    ∃ N, ∀ fuel ≥ N, ∀ s, ∃ s', forLoop (fun x => decide (x < e)) (fun x => x + BitVec.ofNat 64 d)
      (fun x s => some (f x s)) fuel a s = some s' := by
  have hex : ∃ n, e.toNat ≤ a.toNat + d * n :=
    ⟨e.toNat, by have := Nat.le_mul_of_pos_left e.toNat hd; omega⟩
  obtain ⟨n, hn, hmin⟩ : ∃ n, e.toNat ≤ a.toNat + d * n ∧ ∀ i < n, a.toNat + d * i < e.toNat :=
    ⟨Nat.find hex, Nat.find_spec hex, fun i hi => by have := Nat.find_min hex hi; omega⟩
  refine ⟨n + 1, fun fuel hfuel s => ?_⟩
  refine ⟨(strided d a n).foldl (fun s x => f x s) s, forLoop_eq_some.mpr ⟨n, by omega, ?_, ?_, ?_⟩⟩
  · intro i hi
    have := hmin i hi
    have := e.isLt
    rw [iterate_add_word, decide_eq_true_eq, BitVec.lt_def, toNat_add_ofNat,
      Nat.mod_eq_of_lt (by omega)]
    exact hmin i hi
  · have hlt : a.toNat + d * n < 2 ^ 64 := by
      cases n with
      | zero => simpa using a.isLt
      | succ n =>
        have := hmin n (Nat.lt_succ_self n)
        rw [Nat.mul_succ]
        omega
    rw [iterate_add_word, decide_eq_false_iff_not, BitVec.lt_def, toNat_add_ofNat,
      Nat.mod_eq_of_lt hlt]
    omega
  · rw [iterates_eq_strided, foldlM_some]

end ZohoOs.Lib
