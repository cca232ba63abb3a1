/-
  ZohoOs.Lib.OnesComplement — one's complement sums of byte strings.

  The checksum of a byte string is the complement of the one's complement sum
  of its 16-bit words.  `onesSum` adds with an end-around carry; it is a
  residue modulo 65535, with 65535 in place of the zero of a sum that is not
  empty (`onesSum_eq`).  Reading the words in the other byte order multiplies
  the sum by 256, which swaps its bytes (`onesSum_swap`): a machine may sum in
  its own byte order and store the result in it.
-/
import Mathlib.Algebra.BigOperators.Group.List.Basic
import ZohoOs.Lib.Bytes

namespace ZohoOs.Lib

/-! ## §1. End-around carry. -/

/-- One's complement addition. -/
def onesAdd (x y : Nat) : Nat := if x + y < 65536 then x + y else x + y - 65535

/-- The one's complement sum of 16-bit words. -/
def onesSum (words : List Nat) : Nat := words.foldl onesAdd 0

/-- The residue that a sum leaves. -/
def onesResidue (n : Nat) : Nat := if n = 0 then 0 else (n - 1) % 65535 + 1

theorem onesResidue_of_lt {n : Nat} (h : n < 65536) : onesResidue n = n := by
  unfold onesResidue
  split
  · omega
  · omega

theorem onesResidue_lt (n : Nat) : onesResidue n < 65536 := by
  unfold onesResidue
  split
  · omega
  · omega

/-- The high half is added to the low half. -/
theorem onesResidue_fold (n : Nat) : onesResidue (n % 65536 + n / 65536) = onesResidue n := by
  unfold onesResidue
  split
  · split
    · rfl
    · omega
  · split
    · omega
    · omega

theorem onesAdd_residue (n : Nat) {w : Nat} (hw : w < 65536) :
    onesAdd (onesResidue n) w = onesResidue (n + w) := by
  unfold onesAdd onesResidue
  split
  · split
    · split
      · omega
      · omega
    · split
      · omega
      · omega
  · split
    · split
      · omega
      · omega
    · split
      · omega
      · omega

/-- **The one's complement sum** is the residue of the sum. -/
theorem onesSum_eq {words : List Nat} (h : ∀ w ∈ words, w < 65536) :
    onesSum words = onesResidue words.sum := by
  have hgeneral : ∀ (ws : List Nat) (n : Nat), (∀ w ∈ ws, w < 65536) →
      ws.foldl onesAdd (onesResidue n) = onesResidue (n + ws.sum) := by
    intro ws
    induction ws with
    | nil => exact fun n _ => rfl
    | cons w ws ih =>
      intro n hws
      rw [List.foldl_cons, onesAdd_residue n (hws w List.mem_cons_self),
        ih (n + w) fun x hx => hws x (List.mem_cons_of_mem _ hx), List.sum_cons, Nat.add_assoc]
  have hsum := hgeneral words 0 h
  rw [Nat.zero_add] at hsum
  exact hsum

/-- Adding the complement of the residue makes it 65535. -/
theorem onesResidue_complement (n : Nat) : onesResidue (n + (65535 - onesResidue n)) = 65535 := by
  unfold onesResidue
  split
  · split
    · omega
    · omega
  · split
    · omega
    · omega

/-! ## §2. The words of a byte string. -/

/-- The little-endian words of a byte string; a byte that is left is a low
    byte. -/
def leWords : List (BitVec 8) → List Nat
  | lo :: hi :: rest => (lo.toNat + 256 * hi.toNat) :: leWords rest
  | [last] => [last.toNat]
  | [] => []

/-- The big-endian words of a byte string; a byte that is left is a high
    byte. -/
def beWords : List (BitVec 8) → List Nat
  | hi :: lo :: rest => (256 * hi.toNat + lo.toNat) :: beWords rest
  | [last] => [256 * last.toNat]
  | [] => []

/-- The checksum, as the format has it: of the big-endian words. -/
def internetChecksum (l : List (BitVec 8)) : BitVec 16 := BitVec.ofNat 16 (65535 - onesSum (beWords l))

theorem leWords_lt (l : List (BitVec 8)) : ∀ w ∈ leWords l, w < 65536 := by
  induction l using leWords.induct with
  | case1 lo hi rest ih =>
    have hlo := lo.isLt
    have hhi := hi.isLt
    unfold leWords
    rw [List.forall_mem_cons]
    exact ⟨by omega, ih⟩
  | case2 last =>
    have hlast := last.isLt
    intro w hw
    rw [List.mem_singleton.mp hw]
    omega
  | case3 =>
    intro w hw
    cases hw

theorem beWords_lt (l : List (BitVec 8)) : ∀ w ∈ beWords l, w < 65536 := by
  induction l using beWords.induct with
  | case1 hi lo rest ih =>
    have hlo := lo.isLt
    have hhi := hi.isLt
    unfold beWords
    rw [List.forall_mem_cons]
    exact ⟨by omega, ih⟩
  | case2 last =>
    have hlast := last.isLt
    intro w hw
    rw [List.mem_singleton.mp hw]
    omega
  | case3 =>
    intro w hw
    cases hw

/-- The words of a string that is cut at an even offset. -/
theorem leWords_append {l : List (BitVec 8)} (heven : l.length % 2 = 0) (l' : List (BitVec 8)) :
    leWords (l ++ l') = leWords l ++ leWords l' := by
  induction l using leWords.induct with
  | case1 lo hi rest ih =>
    simp only [List.length_cons] at heven
    show _ :: leWords (rest ++ l') = _ :: (leWords rest ++ leWords l')
    rw [ih (by omega)]
  | case2 last =>
    simp only [List.length_cons, List.length_nil] at heven
    omega
  | case3 => rfl

/-- A string of `n` bytes has half as many words. -/
theorem sum_leWords_le (l : List (BitVec 8)) : (leWords l).sum ≤ 65535 * ((l.length + 1) / 2) := by
  induction l using leWords.induct with
  | case1 lo hi rest ih =>
    have hlo := lo.isLt
    have hhi := hi.isLt
    simp only [leWords, List.sum_cons, List.length_cons]
    omega
  | case2 last =>
    have hlast := last.isLt
    simp only [leWords, List.sum_cons, List.sum_nil, List.length_cons, List.length_nil]
    omega
  | case3 => exact Nat.zero_le _

/-- The bytes of a word, as a machine of this byte order stores it. -/
theorem leWords_bytesOf (v : BitVec 16) : leWords (bytesOf v) = [v.toNat] := by
  have hv := v.isLt
  show [(v.extractLsb' 0 8).toNat + 256 * (v.extractLsb' 8 8).toNat] = _
  rw [BitVec.extractLsb'_toNat, BitVec.extractLsb'_toNat, Nat.shiftRight_eq_div_pow,
    Nat.shiftRight_eq_div_pow]
  congr 1
  omega

/-- **Storing a word** at an even offset adds it to the sum. -/
theorem sum_leWords_store {l : List (BitVec 8)} (heven : l.length % 2 = 0) (v : BitVec 16)
    (l' : List (BitVec 8)) :
    (leWords (l ++ bytesOf v ++ l')).sum =
      (leWords (l ++ bytesOf (0 : BitVec 16) ++ l')).sum + v.toNat := by
  have hbytes : ∀ w : BitVec 16, (l ++ bytesOf w).length % 2 = 0 := by
    intro w
    rw [List.length_append, length_bytesOf]
    omega
  rw [leWords_append (hbytes v), leWords_append (hbytes 0), leWords_append heven,
    leWords_append heven, leWords_bytesOf, leWords_bytesOf]
  simp only [List.sum_append, List.sum_singleton]
  show _ = _ + 0 + _ + _
  omega

/-! ## §3. Byte order. -/

/-- The value of a word with its bytes swapped. -/
def swapBytes (n : Nat) : Nat := n % 256 * 256 + n / 256

/-- Swapping commutes with the complement. -/
theorem swapBytes_complement {n : Nat} (hn : n < 65536) :
    swapBytes (65535 - swapBytes n) = 65535 - n := by
  unfold swapBytes
  have hlow : n % 256 < 256 := Nat.mod_lt _ (by decide)
  have hcomplement : 65535 - (n % 256 * 256 + n / 256) =
      (255 - n % 256) * 256 + (255 - n / 256) := by omega
  rw [hcomplement]
  omega

/-- The other byte order multiplies the sum by 256. -/
theorem sum_beWords_mod (l : List (BitVec 8)) :
    (beWords l).sum % 65535 = 256 * (leWords l).sum % 65535 ∧
      ((beWords l).sum = 0 ↔ (leWords l).sum = 0) := by
  induction l using leWords.induct with
  | case1 lo hi rest ih =>
    simp only [leWords, beWords, List.sum_cons]
    omega
  | case2 last =>
    simp only [leWords, beWords, List.sum_cons, List.sum_nil]
    omega
  | case3 => exact ⟨rfl, Iff.rfl⟩

theorem onesResidue_swap {n m : Nat} (hmod : m % 65535 = 256 * n % 65535) (hzero : m = 0 ↔ n = 0) :
    onesResidue m = swapBytes (onesResidue n) := by
  unfold onesResidue swapBytes
  split
  · split
    · rfl
    · omega
  · split
    · omega
    · omega

/-- **The sum in the other byte order** is the sum with its bytes swapped. -/
theorem onesSum_swap (l : List (BitVec 8)) :
    onesSum (beWords l) = swapBytes (onesSum (leWords l)) := by
  rw [onesSum_eq (beWords_lt l), onesSum_eq (leWords_lt l)]
  exact onesResidue_swap (sum_beWords_mod l).1 (sum_beWords_mod l).2

end ZohoOs.Lib
