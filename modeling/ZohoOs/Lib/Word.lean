/-
  ZohoOs.Lib.Word — 64-bit words split by a mask.

  A machine word often packs two things: the bits under a mask `m` (flags, an
  offset) and the bits above it (an aligned address).  The lemmas here take
  such a word apart and put it together again; nothing is said about which
  mask it is, except where a mask of the `k` low bits is read as a number.
  `At` says where in a buffer a pointer points.
-/
import Mathlib.Data.Nat.Bitwise
import Mathlib.Tactic.IntervalCases

namespace ZohoOs.Lib

/-- A 64-bit machine word. -/
abbrev Word := BitVec 64

namespace Word

/-! ## §1. Taking a packed word apart. -/

variable {m a f w : Word}

/-- The bits above the mask, read back from a packed word. -/
theorem or_and_not (ha : a &&& ~~~m = a) (hf : f &&& ~~~m = 0) : (a ||| f) &&& ~~~m = a := by
  rw [BitVec.and_or_distrib_right, ha, hf, BitVec.ofNat_eq_ofNat, BitVec.or_zero]

theorem and_mask_of_above (ha : a &&& ~~~m = a) : a &&& m = 0 := by
  rw [← ha, BitVec.and_assoc, BitVec.and_comm (~~~m), BitVec.and_not_self]
  simp

theorem and_mask_of_within (hf : f &&& ~~~m = 0) : f &&& m = f := by
  have hsplit : f = (f &&& m) ||| (f &&& ~~~m) := by
    rw [← BitVec.and_or_distrib_left, BitVec.or_not_self, BitVec.and_allOnes]
  rw [hf, BitVec.ofNat_eq_ofNat, BitVec.or_zero] at hsplit
  exact hsplit.symm

/-- The bits under the mask, read back from a packed word. -/
theorem or_and_mask (ha : a &&& ~~~m = a) (hf : f &&& ~~~m = 0) : (a ||| f) &&& m = f := by
  rw [BitVec.and_or_distrib_right, and_mask_of_above ha, and_mask_of_within hf,
    BitVec.ofNat_eq_ofNat, BitVec.zero_or]

/-- A bit under the mask is the bit of the packed flags. -/
theorem or_and_bit {b : Word} (ha : a &&& ~~~m = a) (hb : b &&& ~~~m = 0) :
    (a ||| f) &&& b = f &&& b := by
  have hab : a &&& b = 0 := by
    rw [← and_mask_of_within hb, BitVec.and_comm b m, ← BitVec.and_assoc,
      and_mask_of_above ha, BitVec.ofNat_eq_ofNat, BitVec.zero_and]
  rw [BitVec.and_or_distrib_right, hab, BitVec.ofNat_eq_ofNat, BitVec.zero_or]

@[simp] theorem and_not_and_not : (w &&& ~~~m) &&& ~~~m = w &&& ~~~m := by
  rw [BitVec.and_assoc, BitVec.and_self]

@[simp] theorem and_mask_and_not : (w &&& m) &&& ~~~m = 0 := by
  rw [BitVec.and_assoc, BitVec.and_not_self]
  simp

theorem or_within {g : Word} (hf : f &&& ~~~m = 0) (hg : g &&& ~~~m = 0) :
    (f ||| g) &&& ~~~m = 0 := by
  rw [BitVec.and_or_distrib_right, hf, hg]
  rfl

theorem and_within {g : Word} (hf : f &&& ~~~m = 0) : (f &&& g) &&& ~~~m = 0 := by
  rw [BitVec.and_assoc, BitVec.and_comm g, ← BitVec.and_assoc, hf, BitVec.ofNat_eq_ofNat,
    BitVec.zero_and]

/-- A packed word is its two parts. -/
theorem split_or (w m : Word) : (w &&& ~~~m) ||| (w &&& m) = w := by
  rw [← BitVec.and_or_distrib_left, BitVec.or_comm, BitVec.or_not_self, BitVec.and_allOnes]

/-! ## §2. Masks of the low bits, as numbers. -/

/-- The mask of the `k` low bits. -/
def lowMask (k : Nat) : Word := BitVec.ofNat 64 (2 ^ k - 1)

theorem toNat_lowMask {k : Nat} (hk : k ≤ 64) : (lowMask k).toNat = 2 ^ k - 1 := by
  have hle : 2 ^ k ≤ 2 ^ 64 := Nat.pow_le_pow_right (by decide) hk
  have hpos : 0 < 2 ^ k := Nat.two_pow_pos k
  rw [lowMask, BitVec.toNat_ofNat]
  exact Nat.mod_eq_of_lt (by omega)

/-- Masking with the `k` low bits is the remainder by `2 ^ k`. -/
theorem toNat_and_lowMask (w : Word) {k : Nat} (hk : k ≤ 64) :
    (w &&& lowMask k).toNat = w.toNat % 2 ^ k := by
  rw [BitVec.toNat_and, toNat_lowMask hk, Nat.and_two_pow_sub_one_eq_mod]

/-- Clearing the `k` low bits rounds down to a multiple of `2 ^ k`. -/
theorem toNat_and_not_lowMask (w : Word) {k : Nat} (hk : k ≤ 64) :
    (w &&& ~~~lowMask k).toNat = w.toNat / 2 ^ k * 2 ^ k := by
  have hdisj : (w &&& ~~~lowMask k) &&& (w &&& lowMask k) = 0#64 := by
    rw [BitVec.and_comm w (lowMask k), ← BitVec.and_assoc, BitVec.and_assoc w,
      BitVec.and_comm (~~~lowMask k), BitVec.and_not_self]
    simp
  have hadd : (w &&& ~~~lowMask k) + (w &&& lowMask k) = w := by
    rw [BitVec.add_eq_or_of_and_eq_zero _ _ hdisj, split_or]
  have hle : (w &&& lowMask k).toNat ≤ w.toNat := by
    rw [BitVec.toNat_and]; exact Nat.and_le_left
  have hsub : (w &&& ~~~lowMask k).toNat = w.toNat - (w &&& lowMask k).toNat := by
    have h := congrArg BitVec.toNat hadd
    rw [BitVec.add_eq_or_of_and_eq_zero _ _ hdisj] at hadd
    bv_omega
  rw [hsub, toNat_and_lowMask w hk]
  have := Nat.div_add_mod w.toNat (2 ^ k)
  rw [Nat.mul_comm] at this
  omega

/-- A word that is a multiple of `2 ^ k` has no bit under the mask. -/
theorem and_not_lowMask_of_dvd {k : Nat} (hk : k ≤ 64) (h : w.toNat % 2 ^ k = 0) :
    w &&& ~~~lowMask k = w := by
  apply BitVec.eq_of_toNat_eq
  rw [toNat_and_not_lowMask w hk]
  have := Nat.div_add_mod w.toNat (2 ^ k)
  rw [Nat.mul_comm] at this
  omega

/-- A word with its `k` low bits clear and a word below `2 ^ k` do not carry. -/
theorem toNat_or_low {a w : Word} {k : Nat} (hk : k ≤ 64) (ha : a &&& ~~~lowMask k = a)
    (hw : w.toNat < 2 ^ k) : (a ||| w).toNat = a.toNat + w.toNat := by
  have hwm : w &&& lowMask k = w := by
    apply BitVec.eq_of_toNat_eq
    rw [toNat_and_lowMask w hk, Nat.mod_eq_of_lt hw]
  have hdisj : a &&& w = 0#64 := by
    rw [← hwm, BitVec.and_comm w, ← BitVec.and_assoc, and_mask_of_above ha]
    simp
  have hdiv : a.toNat = a.toNat / 2 ^ k * 2 ^ k := by
    have h := congrArg BitVec.toNat ha
    rw [toNat_and_not_lowMask a hk] at h
    exact h.symm
  have hlt : a.toNat / 2 ^ k < 2 ^ (64 - k) := by
    rw [Nat.div_lt_iff_lt_mul (Nat.two_pow_pos k), ← Nat.pow_add, Nat.sub_add_cancel hk]
    exact a.isLt
  have hsum : a.toNat + w.toNat < 2 ^ 64 := by
    calc a.toNat + w.toNat < a.toNat / 2 ^ k * 2 ^ k + 2 ^ k := by omega
      _ = (a.toNat / 2 ^ k + 1) * 2 ^ k := by rw [Nat.add_mul, Nat.one_mul]
      _ ≤ 2 ^ (64 - k) * 2 ^ k := Nat.mul_le_mul_right _ hlt
      _ = 2 ^ 64 := by rw [← Nat.pow_add, Nat.sub_add_cancel hk]
  rw [← BitVec.add_eq_or_of_and_eq_zero _ _ hdisj, BitVec.toNat_add, Nat.mod_eq_of_lt hsum]

end Word

/-! ## §3. Pointers into a buffer. -/

/-- The pointer `p` is `o` bytes into the buffer at `base`. -/
def At (base p : Word) (o : Nat) : Prop := (p - base).toNat = o

namespace At

variable {base p : Word} {o : Nat}

theorem self (base : Word) : At base base 0 := by
  unfold At
  rw [BitVec.sub_self]
  rfl

theorem add (h : At base p o) (k : Nat) (hk : o + k < 2 ^ 64) :
    At base (p + BitVec.ofNat 64 k) (o + k) := by
  have hcomm : p + BitVec.ofNat 64 k - base = (p - base) + BitVec.ofNat 64 k := by
    rw [BitVec.sub_eq_add_neg, BitVec.sub_eq_add_neg, BitVec.add_assoc, BitVec.add_assoc,
      BitVec.add_comm (BitVec.ofNat 64 k)]
  unfold At at h ⊢
  rw [hcomm, BitVec.toNat_add, h, BitVec.toNat_ofNat, Nat.add_mod_mod, Nat.mod_eq_of_lt hk]

end At

end ZohoOs.Lib
