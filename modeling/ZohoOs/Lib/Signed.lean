/-
  ZohoOs.Lib.Signed — 32-bit words read as signed integers.

  A machine word has no sign: `BitVec.toInt` is how the signed operations
  read it.  Sums and differences of words are the sums and differences of
  these integers wherever they do not overflow.
-/
import Mathlib.Data.Int.Basic

namespace ZohoOs.Lib

/-- `n` is a value of a signed 32-bit integer. -/
def IsInt32 (n : Int) : Prop := -2147483648 ≤ n ∧ n < 2147483648

variable {a b : BitVec 32}

theorem isInt32_toInt (a : BitVec 32) : IsInt32 a.toInt := by
  have hlt := a.toInt_lt
  have hle := a.le_toInt
  unfold IsInt32
  omega

theorem bmod_of_isInt32 {n : Int} (h : IsInt32 n) : n.bmod 4294967296 = n := by
  unfold IsInt32 at h
  apply Int.bmod_eq_of_le <;> omega

/-- **A sum that does not overflow.** -/
theorem toInt_add_of (h : IsInt32 (a.toInt + b.toInt)) : (a + b).toInt = a.toInt + b.toInt := by
  rw [BitVec.toInt_add]
  exact bmod_of_isInt32 h

/-- **A difference that does not overflow.** -/
theorem toInt_sub_of (h : IsInt32 (a.toInt - b.toInt)) : (a - b).toInt = a.toInt - b.toInt := by
  rw [BitVec.toInt_sub]
  exact bmod_of_isInt32 h

/-- A nonnegative word reads the same with and without a sign. -/
theorem toInt_eq_toNat_of_nonneg (h : 0 ≤ a.toInt) : a.toInt = a.toNat := by
  rw [BitVec.toInt_eq_toNat_cond] at h ⊢
  have hlt := a.isLt
  split_ifs at h ⊢ with hc
  · rfl
  · omega

theorem toInt_ofNat_of_lt {n : Nat} (h : n < 2147483648) : (BitVec.ofNat 32 n).toInt = n := by
  have hn : (BitVec.ofNat 32 n).toNat = n := by
    rw [BitVec.toNat_ofNat]
    exact Nat.mod_eq_of_lt (by omega)
  rw [BitVec.toInt_eq_toNat_of_lt (by omega), hn]

theorem toInt_of_toNat_lt (h : a.toNat < 2147483648) : a.toInt = a.toNat :=
  BitVec.toInt_eq_toNat_of_lt (by omega)

end ZohoOs.Lib
