/-
  ZohoOs.Graphics.Font — drawing a character (graphics.c).

  `font8x8_basic` has eight rows of eight pixels for a character; a row is a
  byte, its leftmost pixel the highest bit.  `graphics_draw_char` stores the
  colour at the pixels of the character that are set, and leaves the others
  alone.

  Main results:
    * `drawChar_stored` — which pixels of the buffer get the colour;
    * `not_drawn_of_blank` — of `'\0'` and `' '` nothing is drawn.
-/
import ZohoOs.Lib.Stores
import Mathlib.Algebra.GroupWithZero.Nat

namespace ZohoOs

open ZohoOs.Lib

/-! ## §1. The font. -/

/-- The initialisers of `font8x8_basic`: the code of a character, and its eight
    rows from the top. -/
def font8x8Rows : List (Nat × List (BitVec 8)) :=
  [(0x20, [0x00, 0x00, 0x00, 0x00, 0x00, 0x00, 0x00, 0x00]),
   (0x41, [0x18, 0x3C, 0x66, 0x7E, 0x66, 0x66, 0x66, 0x00]),
   (0x42, [0x7C, 0x66, 0x66, 0x7C, 0x66, 0x66, 0x7C, 0x00]),
   (0x43, [0x3C, 0x66, 0x60, 0x60, 0x60, 0x66, 0x3C, 0x00]),
   (0x44, [0x78, 0x6C, 0x66, 0x66, 0x66, 0x6C, 0x78, 0x00]),
   (0x45, [0x7E, 0x60, 0x60, 0x7C, 0x60, 0x60, 0x7E, 0x00]),
   (0x46, [0x7E, 0x60, 0x60, 0x7C, 0x60, 0x60, 0x60, 0x00]),
   (0x47, [0x3C, 0x66, 0x60, 0x6E, 0x66, 0x66, 0x3C, 0x00]),
   (0x48, [0x66, 0x66, 0x66, 0x7E, 0x66, 0x66, 0x66, 0x00]),
   (0x49, [0x3C, 0x18, 0x18, 0x18, 0x18, 0x18, 0x3C, 0x00]),
   (0x4A, [0x1E, 0x0C, 0x0C, 0x0C, 0x0C, 0x6C, 0x38, 0x00]),
   (0x4B, [0x66, 0x6C, 0x78, 0x70, 0x78, 0x6C, 0x66, 0x00]),
   (0x4C, [0x60, 0x60, 0x60, 0x60, 0x60, 0x60, 0x7E, 0x00]),
   (0x4D, [0x63, 0x77, 0x7F, 0x6B, 0x63, 0x63, 0x63, 0x00]),
   (0x4E, [0x63, 0x73, 0x7B, 0x6F, 0x67, 0x63, 0x63, 0x00]),
   (0x4F, [0x3C, 0x66, 0x66, 0x66, 0x66, 0x66, 0x3C, 0x00]),
   (0x50, [0x7C, 0x66, 0x66, 0x7C, 0x60, 0x60, 0x60, 0x00]),
   (0x51, [0x3C, 0x66, 0x66, 0x66, 0x66, 0x3C, 0x0E, 0x00]),
   (0x52, [0x7C, 0x66, 0x66, 0x7C, 0x78, 0x6C, 0x66, 0x00]),
   (0x53, [0x3C, 0x66, 0x60, 0x3C, 0x06, 0x66, 0x3C, 0x00]),
   (0x54, [0x7E, 0x18, 0x18, 0x18, 0x18, 0x18, 0x18, 0x00]),
   (0x55, [0x66, 0x66, 0x66, 0x66, 0x66, 0x66, 0x3C, 0x00]),
   (0x56, [0x66, 0x66, 0x66, 0x66, 0x66, 0x3C, 0x18, 0x00]),
   (0x57, [0x63, 0x63, 0x63, 0x6B, 0x7F, 0x77, 0x63, 0x00]),
   (0x58, [0x66, 0x66, 0x3C, 0x18, 0x3C, 0x66, 0x66, 0x00]),
   (0x59, [0x66, 0x66, 0x66, 0x3C, 0x18, 0x18, 0x18, 0x00]),
   (0x5A, [0x7E, 0x06, 0x0C, 0x18, 0x30, 0x60, 0x7E, 0x00]),
   (0x30, [0x3C, 0x66, 0x6E, 0x76, 0x66, 0x66, 0x3C, 0x00]),
   (0x31, [0x18, 0x38, 0x18, 0x18, 0x18, 0x18, 0x3C, 0x00]),
   (0x32, [0x3C, 0x66, 0x06, 0x0C, 0x18, 0x30, 0x7E, 0x00]),
   (0x33, [0x3C, 0x66, 0x06, 0x1C, 0x06, 0x66, 0x3C, 0x00]),
   (0x34, [0x0C, 0x1C, 0x2C, 0x4C, 0x7E, 0x0C, 0x0C, 0x00]),
   (0x35, [0x7E, 0x60, 0x60, 0x7C, 0x06, 0x06, 0x7C, 0x00]),
   (0x36, [0x3C, 0x66, 0x60, 0x7C, 0x66, 0x66, 0x3C, 0x00]),
   (0x37, [0x7E, 0x06, 0x0C, 0x18, 0x18, 0x18, 0x18, 0x00]),
   (0x38, [0x3C, 0x66, 0x66, 0x3C, 0x66, 0x66, 0x3C, 0x00]),
   (0x39, [0x3C, 0x66, 0x66, 0x3E, 0x06, 0x66, 0x3C, 0x00]),
   (0x3E, [0x60, 0x30, 0x18, 0x0C, 0x18, 0x30, 0x60, 0x00]),
   (0x3A, [0x00, 0x18, 0x18, 0x00, 0x18, 0x18, 0x00, 0x00]),
   (0x2C, [0x00, 0x00, 0x00, 0x00, 0x00, 0x18, 0x18, 0x30]),
   (0x2E, [0x00, 0x00, 0x00, 0x00, 0x00, 0x18, 0x18, 0x00]),
   (0x61, [0x00, 0x00, 0x3C, 0x06, 0x3E, 0x66, 0x3E, 0x00]),
   (0x62, [0x60, 0x60, 0x7C, 0x66, 0x66, 0x66, 0x7C, 0x00]),
   (0x63, [0x00, 0x00, 0x3C, 0x60, 0x60, 0x66, 0x3C, 0x00]),
   (0x64, [0x06, 0x06, 0x3E, 0x66, 0x66, 0x66, 0x3E, 0x00]),
   (0x65, [0x00, 0x00, 0x3C, 0x66, 0x7E, 0x60, 0x3C, 0x00]),
   (0x66, [0x0E, 0x18, 0x3E, 0x18, 0x18, 0x18, 0x18, 0x00]),
   (0x67, [0x00, 0x00, 0x3E, 0x66, 0x66, 0x3E, 0x06, 0x3C]),
   (0x68, [0x60, 0x60, 0x7C, 0x66, 0x66, 0x66, 0x66, 0x00]),
   (0x69, [0x18, 0x00, 0x38, 0x18, 0x18, 0x18, 0x3C, 0x00]),
   (0x6A, [0x06, 0x00, 0x06, 0x06, 0x06, 0x06, 0x06, 0x3C]),
   (0x6B, [0x60, 0x60, 0x66, 0x6C, 0x78, 0x6C, 0x66, 0x00]),
   (0x6C, [0x38, 0x18, 0x18, 0x18, 0x18, 0x18, 0x3C, 0x00]),
   (0x6D, [0x00, 0x00, 0x66, 0x7F, 0x7F, 0x6B, 0x63, 0x00]),
   (0x6E, [0x00, 0x00, 0x7C, 0x66, 0x66, 0x66, 0x66, 0x00]),
   (0x6F, [0x00, 0x00, 0x3C, 0x66, 0x66, 0x66, 0x3C, 0x00]),
   (0x70, [0x00, 0x00, 0x7C, 0x66, 0x66, 0x7C, 0x60, 0x60]),
   (0x71, [0x00, 0x00, 0x3E, 0x66, 0x66, 0x3E, 0x06, 0x06]),
   (0x72, [0x00, 0x00, 0x7C, 0x66, 0x60, 0x60, 0x60, 0x00]),
   (0x73, [0x00, 0x00, 0x3E, 0x60, 0x3C, 0x06, 0x7C, 0x00]),
   (0x74, [0x18, 0x18, 0x3E, 0x18, 0x18, 0x18, 0x0E, 0x00]),
   (0x75, [0x00, 0x00, 0x66, 0x66, 0x66, 0x66, 0x3E, 0x00]),
   (0x76, [0x00, 0x00, 0x66, 0x66, 0x66, 0x3C, 0x18, 0x00]),
   (0x77, [0x00, 0x00, 0x63, 0x6B, 0x7F, 0x3E, 0x36, 0x00]),
   (0x78, [0x00, 0x00, 0x66, 0x3C, 0x18, 0x3C, 0x66, 0x00]),
   (0x79, [0x00, 0x00, 0x66, 0x66, 0x66, 0x3E, 0x06, 0x3C]),
   (0x7A, [0x00, 0x00, 0x7E, 0x0C, 0x18, 0x30, 0x7E, 0x00])]

/-- `font8x8_basic[c][i]`; what has no initialiser is 0. -/
def font8x8Basic (c i : Nat) : BitVec 8 := ((font8x8Rows.lookup c).getD []).getD i 0

/-- `font8x8_basic[c][i] & (1 << (7 - j))`. -/
def fontBit (c : BitVec 8) (i j : Nat) : Bool := (font8x8Basic c.toNat i).getLsbD (7 - j)

/-- Row `i` of the character has pixel `j`: the font ends before character 128. -/
def Drawn (c : BitVec 8) (i j : Nat) : Prop := c.toNat < 128 ∧ fontBit c i j = true

instance (c : BitVec 8) (i j : Nat) : Decidable (Drawn c i j) := inferInstanceAs (Decidable (_ ∧ _))

/-- The characters without a pixel that the terminal leaves out. -/
theorem not_drawn_of_blank {c : BitVec 8} (hc : c = 0 ∨ c = 0x20) (i j : Nat) : ¬ Drawn c i j := by
  have hrow : font8x8Basic c.toNat i = 0 := by
    rcases hc with rfl | rfl
    · show ([] : List (BitVec 8)).getD i 0 = 0
      rfl
    · show (List.replicate 8 (0 : BitVec 8)).getD i 0 = 0
      rw [List.getD_eq_getElem?_getD, List.getElem?_replicate]
      split
      · rfl
      · rfl
  intro hdrawn
  have hbit : (font8x8Basic c.toNat i).getLsbD (7 - j) = true := hdrawn.2
  rw [hrow] at hbit
  exact absurd (BitVec.getLsbD_zero.symm.trans hbit) (by decide)

/-! ## §2. `graphics_draw_char`. -/

/-- `graphics_draw_char` into a buffer of `n` pixels; the index is a
    `uint32_t`. -/
def graphicsDrawChar (n : Nat) (buf : Nat → BitVec 32) (w x y : Nat) (c : BitVec 8) (color : BitVec 32) :
    Option (Nat → BitVec 32) :=
  if c.toNat ≥ 128 then some buf
  else
    (List.range 8).foldlM
      (fun buf i =>
        (List.range 8).foldlM
          (fun buf j =>
            if fontBit c i j then
              let px := x + j
              let py := y + i
              if px < w then storeAt n ((py * w + px) % 2 ^ 32) color buf else some buf
            else some buf)
          buf)
      buf

/-- **A character inside the buffer**: its pixels get the colour. -/
theorem drawChar_stored {n w x y : Nat} (buf : Nat → BitVec 32) (c : BitVec 8) (color : BitVec 32)
    (hright : x + 8 ≤ w) (hbottom : (y + 8) * w ≤ n) (hn : n ≤ 2 ^ 32) :
    ∃ buf', graphicsDrawChar n buf w x y c color = some buf' ∧
      Stored (fun k => InRect w x y 8 8 k ∧ Drawn c (k / w - y) (k % w - x)) color buf buf' := by
  unfold graphicsDrawChar
  by_cases hc : c.toNat ≥ 128
  · rw [if_pos hc]
    -- behind the font nothing is drawn
    refine ⟨buf, rfl, Stored.none.congr fun k => iff_of_false (fun h => ?_) id⟩
    exact absurd h.2.1 (Nat.not_lt.mpr hc)
  · rw [if_neg hc]
    refine foldlM_rect buf _ _ hright hbottom (fun i hi j hj hdrawn f => ?_) fun i hi j hj hdrawn f => ?_
    · -- the index is below the size of the buffer, and does not wrap around
      have hlt := index_lt_of (show x + j < w by omega) (show y + i < y + 8 by omega)
      rw [if_pos hdrawn.2]
      show (if x + j < w then storeAt n (((y + i) * w + (x + j)) % 2 ^ 32) color f else some f) = _
      rw [if_pos (by omega), Nat.mod_eq_of_lt (by omega)]
    · rw [if_neg fun hbit => hdrawn ⟨Nat.lt_of_not_le hc, hbit⟩]

end ZohoOs
