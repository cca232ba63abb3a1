/-
  ZohoOs.Lib.Bytes — byte strings, and where they lie in memory.

  `bytesOf v` lists the bytes of a value, lowest first; `Holds m p l` says that
  memory holds the bytes `l` from `p` on.  A record that was built as a list of
  bytes is read back field by field: `Holds.load16_at` and its kin read the
  value whose bytes stand at an offset of the list.
-/
import ZohoOs.Lib.Memory

namespace ZohoOs.Lib

/-- The characters of a string, without the NUL at its end. -/
abbrev Text := List (BitVec 8)

def text (s : List Char) : Text := s.map fun c => BitVec.ofNat 8 c.toNat

/-! ## §1. The bytes of a value. -/

/-- The bytes of a value, lowest first. -/
def bytesOf {w : Nat} (v : BitVec w) : List (BitVec 8) :=
  (List.range (w / 8)).map fun k => v.extractLsb' (8 * k) 8

@[simp] theorem length_bytesOf {w : Nat} (v : BitVec w) : (bytesOf v).length = w / 8 := by
  unfold bytesOf
  rw [List.length_map, List.length_range]

theorem getElem_bytesOf {w : Nat} (v : BitVec w) {k : Nat} (hk : k < (bytesOf v).length) :
    (bytesOf v)[k] = v.extractLsb' (8 * k) 8 := by
  simp only [bytesOf, List.getElem_map, List.getElem_range]

namespace Mem

/-! ## §2. Byte strings in memory. -/

/-- Memory holds the bytes `l` from `p` on. -/
def Holds (m : Mem) (p : Word) (l : List (BitVec 8)) : Prop :=
  ∀ (k : Nat) (hk : k < l.length), m (p + BitVec.ofNat 64 k) = l[k]

/-- A memory that holds the bytes `l` at address 0. -/
def image (l : List (BitVec 8)) : Mem := fun p => l.getD p.toNat 0

theorem holds_image {l : List (BitVec 8)} (h : l.length ≤ 2 ^ 64) : Holds (image l) 0 l := by
  intro k hk
  unfold image
  have hzero : (0 : Word) + BitVec.ofNat 64 k = BitVec.ofNat 64 k := BitVec.zero_add _
  rw [hzero, BitVec.toNat_ofNat, Nat.mod_eq_of_lt (lt_of_lt_of_le hk h)]
  exact List.getD_eq_getElem _ _ hk

namespace Holds

variable {m : Mem} {p : Word} {l l' : List (BitVec 8)}

theorem append_iff : Holds m p (l ++ l') ↔
    Holds m p l ∧ Holds m (p + BitVec.ofNat 64 l.length) l' := by
  constructor
  · intro h
    refine ⟨fun k hk => ?_, fun k hk => ?_⟩
    · have hhere := h k (by rw [List.length_append]; omega)
      rw [List.getElem_append_left hk] at hhere
      exact hhere
    · have hhere := h (l.length + k) (by rw [List.length_append]; omega)
      rw [List.getElem_append_right (Nat.le_add_right _ _), BitVec.ofNat_add, ← BitVec.add_assoc]
        at hhere
      simp only [Nat.add_sub_cancel_left] at hhere
      exact hhere
  · rintro ⟨h, h'⟩ k hk
    by_cases hl : k < l.length
    · rw [List.getElem_append_left hl]
      exact h k hl
    · have hge : l.length ≤ k := Nat.le_of_not_lt hl
      rw [List.getElem_append_right hge]
      rw [List.length_append] at hk
      have hhere := h' (k - l.length) (by omega)
      rw [BitVec.add_assoc, ← BitVec.ofNat_add, Nat.add_sub_cancel' hge] at hhere
      exact hhere

/-- The bytes from offset `a` on. -/
theorem drop (h : Holds m p l) (a : Nat) : Holds m (p + BitVec.ofNat 64 a) (l.drop a) := by
  intro k hk
  rw [List.length_drop] at hk
  have hhere := h (a + k) (by omega)
  rw [List.getElem_drop, BitVec.add_assoc, ← BitVec.ofNat_add]
  exact hhere

theorem take (h : Holds m p l) (a : Nat) : Holds m p (l.take a) := by
  intro k hk
  rw [List.length_take] at hk
  rw [List.getElem_take]
  exact h k (by omega)

/-- The `n` bytes at offset `a`. -/
theorem at_offset (h : Holds m p l) (a n : Nat) :
    Holds m (p + BitVec.ofNat 64 a) ((l.drop a).take n) := (h.drop a).take n

theorem hasBytes {w : Nat} {v : BitVec w} (h : Holds m p (bytesOf v)) :
    HasBytes m p v 0 (w / 8) := by
  intro k hk
  have hlen : k < (bytesOf v).length := by
    rw [length_bytesOf]
    exact hk
  rw [h k hlen, getElem_bytesOf, Nat.zero_add]

/-! ## §3. Fields of a record. -/

theorem load8_at (h : Holds m p l) (a : Nat) {v : BitVec 8} (hv : (l.drop a).take 1 = [v]) :
    m.load8 (p + BitVec.ofNat 64 a) = v := by
  have hat := h.at_offset a 1
  rw [hv] at hat
  have hbyte := hat 0 Nat.one_pos
  rw [BitVec.add_zero] at hbyte
  exact hbyte

theorem load16_at (h : Holds m p l) (a : Nat) {v : BitVec 16} (hv : (l.drop a).take 2 = bytesOf v) :
    m.load16 (p + BitVec.ofNat 64 a) = v := by
  have hat := h.at_offset a 2
  rw [hv] at hat
  rw [load16_of_bytes hat.hasBytes, BitVec.extractLsb'_eq_self]

theorem load32_at (h : Holds m p l) (a : Nat) {v : BitVec 32} (hv : (l.drop a).take 4 = bytesOf v) :
    m.load32 (p + BitVec.ofNat 64 a) = v := by
  have hat := h.at_offset a 4
  rw [hv] at hat
  rw [load32_of_bytes hat.hasBytes, BitVec.extractLsb'_eq_self]

end Holds

end Mem

end ZohoOs.Lib
