/-
  ZohoOs.Libc.Copy — `memset` and `memcpy` (string.c).

  Both run the string instructions upwards: whole 8-byte words first, then
  the remaining bytes one by one.

    * `memset_eq_fill` — `memset` writes the byte `c` everywhere in its range;
    * `memcpy_eq_fill` — `memcpy` writes what its source held, provided no
      byte of the source is overwritten before it is read;
    * `memcpy_of_le` — in any case it writes nowhere else.
-/
import ZohoOs.Lib.Memory
import ZohoOs.Lib.Loop

namespace ZohoOs

open ZohoOs.Lib

/-! ## §1. The string instructions. -/

/-- `rep stosq`: store `count` copies of `val` from `d` on. -/
def repStosq (mem : Mem) (d val : Word) (count : Nat) : Mem :=
  (List.range count).foldl (fun mem i => mem.store64 (d + BitVec.ofNat 64 (8 * i)) val) mem

/-- `rep stosb`. -/
def repStosb (mem : Mem) (d : Word) (val : BitVec 8) (count : Nat) : Mem :=
  (List.range count).foldl (fun mem i => mem.store8 (d + BitVec.ofNat 64 i) val) mem

/-- `rep movsq`: copy `count` words from `s` on to `d` on, lowest first. -/
def repMovsq (mem : Mem) (d s : Word) (count : Nat) : Mem :=
  (List.range count).foldl
    (fun mem i => mem.store64 (d + BitVec.ofNat 64 (8 * i))
      (mem.load64 (s + BitVec.ofNat 64 (8 * i)))) mem

/-- `rep movsb`. -/
def repMovsb (mem : Mem) (d s : Word) (count : Nat) : Mem :=
  (List.range count).foldl
    (fun mem i => mem.store8 (d + BitVec.ofNat 64 i) (mem.load8 (s + BitVec.ofNat 64 i))) mem

/-- The byte `c` in each byte of a word. -/
def broadcast (c : BitVec 8) : Word :=
  let val : Word := c.setWidth 64
  let val := val ||| val <<< 8
  let val := val ||| val <<< 16
  val ||| val <<< 32

/-- `memset`; `c` is the low byte of the argument, `n` a `size_t`. -/
def memset (mem : Mem) (s : Word) (c : BitVec 8) (n : Nat) : Mem :=
  repStosb (repStosq mem s (broadcast c) (n / 8)) (s + BitVec.ofNat 64 (8 * (n / 8)))
    ((broadcast c).setWidth 8) (n % 8)

/-- `memcpy`. -/
def memcpy (mem : Mem) (d s : Word) (n : Nat) : Mem :=
  repMovsb (repMovsq mem d s (n / 8)) (d + BitVec.ofNat 64 (8 * (n / 8)))
    (s + BitVec.ofNat 64 (8 * (n / 8))) (n % 8)

/-! ## §2. What they write. -/

theorem broadcast_byte (c : BitVec 8) {k : Nat} (hk : k < 8) :
    (broadcast c).extractLsb' (8 * k) 8 = c := by
  have hall : ∀ (c : Fin 256) (k : Fin 8),
      (broadcast (BitVec.ofFin c)).extractLsb' (8 * k) 8 = BitVec.ofFin c := by decide +kernel
  exact hall c.toFin ⟨k, hk⟩

theorem broadcast_low (c : BitVec 8) : (broadcast c).setWidth 8 = c := by
  have hall : ∀ c : Fin 256, (broadcast (BitVec.ofFin c)).setWidth 8 = BitVec.ofFin c := by
    decide +kernel
  exact hall c.toFin

/-- **`memset` fills its range.** -/
theorem memset_eq_fill (mem : Mem) (s : Word) (c : BitVec 8) {n : Nat} (hn : n < 2 ^ 64) :
    memset mem s c n = Mem.fill mem s n fun _ => c := by
  rw [memset, broadcast_low, repStosq,
    Mem.foldl_store64 mem s (fun _ => c) (fun _ _ => broadcast c) (by omega)
      fun _ _ k hk => broadcast_byte c hk,
    repStosb, Mem.foldl_store8 mem s (fun _ => c) (fun _ _ => c) (by omega) fun _ _ => rfl,
    Nat.div_add_mod]

/-- **`memcpy` copies**, when no byte of the source lies among the destination
    bytes written before it is read. -/
theorem memcpy_eq_fill (mem : Mem) {d s : Word} {n : Nat} (hn : n < 2 ^ 64)
    (h : ∀ j < n, j ≤ (s + BitVec.ofNat 64 j - d).toNat) :
    memcpy mem d s n = Mem.fill mem d n fun k => mem (s + BitVec.ofNat 64 k) := by
  set g : Nat → BitVec 8 := fun k => mem (s + BitVec.ofNat 64 k) with hg
  have hwords : repMovsq mem d s (n / 8) = Mem.fill mem d (8 * (n / 8)) g := by
    refine Mem.foldl_store64 mem d g
      (fun i mem => mem.load64 (s + BitVec.ofNat 64 (8 * i))) (by omega) fun i hi k hk => ?_
    have hsrc := h (8 * i + k) (by omega)
    rw [Mem.byte_load64 _ _ hk, BitVec.add_assoc, ← BitVec.ofNat_add,
      Mem.fill_of_le mem g (by omega)]
  rw [memcpy, hwords, repMovsb]
  have hbytes := Mem.foldl_store8 mem d g
    (fun i mem => mem.load8 (s + BitVec.ofNat 64 (8 * (n / 8)) + BitVec.ofNat 64 i))
    (n := 8 * (n / 8)) (show 8 * (n / 8) + n % 8 ≤ 2 ^ 64 by omega) fun i hi => ?_
  · rw [hbytes, Nat.div_add_mod]
  · have hsrc := h (8 * (n / 8) + i) (by omega)
    rw [Mem.load8, BitVec.add_assoc, ← BitVec.ofNat_add, Mem.fill_of_le mem g (by omega)]

/-- `memcpy` writes nowhere but in its destination. -/
theorem memcpy_of_le (mem : Mem) {d s x : Word} {n : Nat} (hn : n < 2 ^ 64)
    (h : n ≤ (x - d).toNat) : memcpy mem d s n x = mem x := by
  have hwords : repMovsq mem d s (n / 8) x = mem x := by
    refine foldl_preserves (fun mem' : Mem => mem' x = mem x) rfl fun i hi mem' hmem => ?_
    have hi := List.mem_range.mp hi
    rw [Mem.store64_of_le, hmem]
    have hoff : (BitVec.ofNat 64 (8 * i)).toNat = 8 * i := by rw [BitVec.toNat_ofNat]; omega
    bv_omega
  refine foldl_preserves (fun mem' : Mem => mem' x = mem x) hwords fun i hi mem' hmem => ?_
  have hi := List.mem_range.mp hi
  rw [Mem.store8, if_neg, hmem]
  rintro rfl
  have hoff : (BitVec.ofNat 64 (8 * (n / 8)) + BitVec.ofNat 64 i).toNat = 8 * (n / 8) + i := by
    rw [← BitVec.ofNat_add, BitVec.toNat_ofNat]
    omega
  rw [BitVec.add_assoc, BitVec.add_comm, BitVec.add_sub_cancel, hoff] at h
  omega

end ZohoOs
