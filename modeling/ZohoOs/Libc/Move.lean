/-
  ZohoOs.Libc.Move — `memmove` (string.c).

  Where the destination starts below the source or behind its end, `memmove`
  calls `memcpy`, which goes upwards in 8-byte words; else it copies byte by
  byte from the end.  Either way nothing is read after it was overwritten:
  upwards the bytes written are those below the destination's next one, and
  the source is ahead of it; downwards the source is behind.

    * `memmove_eq_fill` — the memory after a `memmove`;
    * `memmove_simultaneous` — byte by byte, and nothing else changes.
-/
import ZohoOs.Libc.Copy

namespace ZohoOs

open ZohoOs.Lib

/-! ## §1. The code. -/

/-- The loop that copies `i` bytes, the last one first. -/
def memmoveDown (d s : Word) : Nat → Mem → Mem
  | 0, mem => mem
  | i + 1, mem =>
      memmoveDown d s i (mem.store8 (d + BitVec.ofNat 64 i) (mem.load8 (s + BitVec.ofNat 64 i)))

/-- `memmove`; `n` is a `size_t`. -/
def memmove (mem : Mem) (d s : Word) (n : Nat) : Mem :=
  if d = s ∨ n = 0 then mem
  else if d < s ∨ s + BitVec.ofNat 64 n ≤ d then memcpy mem d s n
  else memmoveDown d s n mem

/-! ## §2. What it writes. -/

section Move

variable {mem : Mem} {d s x : Word} {n : Nat}

/-- The byte at an offset that stays within the address space. -/
theorem toNat_within {k : Nat} (h : d.toNat + k < 2 ^ 64) :
    (d + BitVec.ofNat 64 k).toNat = d.toNat + k := by
  rw [BitVec.toNat_add, BitVec.toNat_ofNat, Nat.mod_eq_of_lt (by omega : k < 2 ^ 64), Nat.mod_eq_of_lt h]

/-- **Downwards**, from a source that starts below. -/
theorem memmoveDown_eq_fill (hlt : s < d) (hd : d.toNat + n ≤ 2 ^ 64) :
    memmoveDown d s n mem = Mem.fill mem d n fun k => mem (s + BitVec.ofNat 64 k) := by
  induction n generalizing mem with
  | zero => exact (Mem.fill_zero mem d _).symm
  | succ n ih =>
    rw [memmoveDown, ih (by omega)]
    -- the byte written last lies behind every byte still to be read
    have hsrc : ∀ k < n, (mem.store8 (d + BitVec.ofNat 64 n) (mem.load8 (s + BitVec.ofNat 64 n)))
        (s + BitVec.ofNat 64 k) = mem (s + BitVec.ofNat 64 k) := by
      intro k hk
      refine if_neg fun he => ?_
      have hs := toNat_within (d := s) (k := k) (by bv_omega)
      have hdn := toNat_within (d := d) (k := n) (by omega)
      rw [he] at hs
      bv_omega
    rw [Mem.fill_congr _ d hsrc]
    exact Mem.fill_store8 mem (fun k => mem (s + BitVec.ofNat 64 k)) (by omega)

/-- **The memory after a `memmove`**: the destination holds what the source
    held. -/
theorem memmove_eq_fill (hs : s.toNat + n ≤ 2 ^ 64) (hd : d.toNat + n ≤ 2 ^ 64) :
    memmove mem d s n = Mem.fill mem d n fun k => mem (s + BitVec.ofNat 64 k) := by
  unfold memmove
  split
  · rename_i hsame
    rcases hsame with rfl | rfl
    · exact (Mem.fill_self mem d n).symm
    · exact (Mem.fill_zero mem d _).symm
  · rename_i hsame
    rw [not_or] at hsame
    have hne : d.toNat ≠ s.toNat := fun he => hsame.1 (BitVec.eq_of_toNat_eq he)
    split
    · rename_i hpath
      refine memcpy_eq_fill mem (by omega) fun j hj => ?_
      have hsj := toNat_within (d := s) (k := j) (by omega)
      rcases hpath with hlt | hle
      · -- the source is ahead of the destination
        bv_omega
      · -- the destination starts behind the source's end
        by_cases hlt : d.toNat < s.toNat
        · bv_omega
        · have hend : s.toNat + n < 2 ^ 64 := by omega
          have hsn := toNat_within hend
          bv_omega
    · rename_i hpath
      rw [not_or, BitVec.not_lt] at hpath
      exact memmoveDown_eq_fill (by bv_omega) hd

/-- **`memmove` is a simultaneous copy**, whatever the overlap: the destination
    gets the bytes the source had, and no other byte changes. -/
theorem memmove_simultaneous (mem : Mem) (hs : s.toNat + n ≤ 2 ^ 64) (hd : d.toNat + n ≤ 2 ^ 64) :
    (∀ k < n, memmove mem d s n (d + BitVec.ofNat 64 k) = mem (s + BitVec.ofNat 64 k)) ∧
      ∀ x, (∀ k < n, x ≠ d + BitVec.ofNat 64 k) → memmove mem d s n x = mem x := by
  rw [memmove_eq_fill hs hd]
  constructor
  · intro k hk
    -- a range as long as the address space starts at 0
    have hoff : (BitVec.ofNat 64 k).toNat = k := by
      rw [BitVec.toNat_ofNat]
      omega
    rw [Mem.fill_at mem _ (by omega), hoff]
  · intro x hx
    refine Mem.fill_of_le mem _ (Nat.le_of_not_lt fun hlt => hx _ hlt ?_)
    rw [BitVec.ofNat_toNat, BitVec.setWidth_eq, BitVec.add_comm, BitVec.sub_add_cancel]

end Move

/-- Thirteen bytes moved down by three: one word and five bytes. -/
theorem memmove_simultaneous_down :
    memmove (fun x => x.setWidth 8) 0x1000 0x1003 13 0x100b = 0x0e ∧
      memmove (fun x => x.setWidth 8) 0x1000 0x1003 13 0x100d = 0x0d :=
  have h := memmove_simultaneous (d := 0x1000) (s := 0x1003) (n := 13) (fun x => x.setWidth 8) (by decide)
    (by decide)
  ⟨h.1 11 (by decide), h.2 0x100d (by decide)⟩

end ZohoOs
