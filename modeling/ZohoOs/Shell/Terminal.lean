/-
  ZohoOs.Shell.Terminal — the grid of characters of the terminal (shell.c).

  `shell_putchar` writes at the cursor and moves it; behind the last column the
  cursor goes to the next line, and behind the last line everything moves up.

  The cells of the grid are counted row by row.  `scrolled` is no variable of
  the driver: it counts the lines that have left the grid at the top, so that a
  place on the screen can be followed.

  Main results:
    * `putchar_inGrid` — the cursor stays in the grid;
    * `putchar_char` — a character is written at the cursor, and what was there
      before moves up with the lines.
-/
import ZohoOs.Lib.Bytes

namespace ZohoOs

open ZohoOs.Lib

/-! ## §1. `shell_putchar`. -/

/-- The static variables of the terminal, and the lines scrolled off. -/
structure Terminal where
  rows : Nat
  cols : Nat
  row : Nat
  col : Nat
  cells : Nat → BitVec 8
  scrolled : Nat

def space : BitVec 8 := 0x20
def newline : BitVec 8 := 0x0A
def carriageReturn : BitVec 8 := 0x0D
def backspace : BitVec 8 := 0x08

namespace Terminal

/-- The index of the cursor's cell. -/
def cursor (t : Terminal) : Nat := t.row * t.cols + t.col

/-- `shell_scroll_up`, on the cells. -/
def scrollUp (t : Terminal) : Terminal :=
  { t with
    cells := fun k =>
      if k < (t.rows - 1) * t.cols then t.cells (k + t.cols)
      else if k < t.rows * t.cols then space else t.cells k
    scrolled := t.scrolled + 1 }

/-- `shell_advance_line`. -/
def advanceLine (t : Terminal) : Terminal :=
  if t.rows = 0 then t
  else
    let t := { t with col := 0, row := t.row + 1 }
    if t.row ≥ t.rows then { t with row := t.rows - 1 }.scrollUp else t

/-- `term_cells[k] = c`. -/
def setCell (t : Terminal) (k : Nat) (c : BitVec 8) : Terminal :=
  { t with cells := fun i => if i = k then c else t.cells i }

/-- `shell_putchar`, on a terminal with cells. -/
def putchar (t : Terminal) (c : BitVec 8) : Terminal :=
  if c = newline then t.advanceLine
  else if c = backspace then
    if t.col > 0 then
      let t := { t with col := t.col - 1 }
      t.setCell t.cursor space
    else t
  else
    let t := t.setCell t.cursor c
    let t := { t with col := t.col + 1 }
    if t.cols ≠ 0 ∧ t.col ≥ t.cols then t.advanceLine else t

/-- `shell_print`. -/
def print (t : Terminal) (s : Text) : Terminal := s.foldl putchar t

/-- `shell_set_window`, for a window of so many rows and columns. -/
def blank (rows cols : Nat) : Terminal := ⟨rows, cols, 0, 0, fun _ => space, 0⟩

end Terminal

/-- `"zoho> "`. -/
def prompt : Text := text ['z', 'o', 'h', 'o', '>', ' ']

/-! ## §2. The cursor. -/

namespace Terminal

/-- The cursor is in the grid. -/
structure InGrid (t : Terminal) : Prop where
  row : t.row < t.rows
  col : t.col < t.cols

section Cursor

variable {t : Terminal}

theorem advanceLine_next (hrow : t.row + 1 < t.rows) :
    t.advanceLine = { t with col := 0, row := t.row + 1 } :=
  (if_neg (show ¬ t.rows = 0 by omega)).trans (if_neg (Nat.not_le.mpr hrow))

theorem advanceLine_last (hrow : t.row + 1 = t.rows) :
    t.advanceLine = { t with col := 0, row := t.rows - 1 }.scrollUp :=
  (if_neg (show ¬ t.rows = 0 by omega)).trans (if_pos (Nat.le_of_eq hrow.symm))

theorem advanceLine_inGrid (hrow : t.row < t.rows) (hcols : 0 < t.cols) : t.advanceLine.InGrid := by
  -- the last row is the one behind which everything moves up
  by_cases hlast : t.row + 1 = t.rows
  · rw [advanceLine_last hlast]
    exact ⟨show t.rows - 1 < t.rows by omega, hcols⟩
  · rw [advanceLine_next (by omega)]
    exact ⟨show t.row + 1 < t.rows by omega, hcols⟩

/-- The terminal with the character written, before the line is looked at. -/
def written (t : Terminal) (c : BitVec 8) : Terminal := { t.setCell t.cursor c with col := t.col + 1 }

theorem putchar_newline : t.putchar newline = t.advanceLine := if_pos rfl

theorem putchar_backspace_pos (hcol : 0 < t.col) :
    t.putchar backspace =
      { t with col := t.col - 1 }.setCell ({ t with col := t.col - 1 } : Terminal).cursor space :=
  (if_neg (show ¬ backspace = newline by decide)).trans ((if_pos rfl).trans (if_pos hcol))

/-- At the start of a line, a backspace does nothing. -/
theorem putchar_backspace_zero (hcol : t.col = 0) : t.putchar backspace = t :=
  (if_neg (show ¬ backspace = newline by decide)).trans
    ((if_pos rfl).trans (if_neg (show ¬ t.col > 0 by omega)))

/-- A character in the last column ends the line. -/
theorem putchar_wrap {c : BitVec 8} (hnewline : c ≠ newline) (hback : c ≠ backspace)
    (hcol : t.col + 1 = t.cols) : t.putchar c = (t.written c).advanceLine :=
  (if_neg hnewline).trans ((if_neg hback).trans (if_pos
    (show t.cols ≠ 0 ∧ t.col + 1 ≥ t.cols from ⟨by omega, by omega⟩)))

theorem putchar_inLine {c : BitVec 8} (hnewline : c ≠ newline) (hback : c ≠ backspace)
    (hcol : t.col + 1 < t.cols) : t.putchar c = t.written c :=
  (if_neg hnewline).trans ((if_neg hback).trans (if_neg
    (show ¬ (t.cols ≠ 0 ∧ t.col + 1 ≥ t.cols) from fun h => Nat.not_le.mpr hcol h.2)))

/-- **The cursor stays in the grid**, whatever is written. -/
theorem putchar_inGrid (h : t.InGrid) (c : BitVec 8) : (t.putchar c).InGrid := by
  have hrow := h.row
  have hcol := h.col
  by_cases hnewline : c = newline
  · rw [hnewline, putchar_newline]
    exact advanceLine_inGrid hrow (by omega)
  by_cases hback : c = backspace
  · by_cases hzero : t.col = 0
    · rw [hback, putchar_backspace_zero hzero]
      exact h
    · rw [hback, putchar_backspace_pos (by omega)]
      exact ⟨hrow, show t.col - 1 < t.cols by omega⟩
  by_cases hlast : t.col + 1 = t.cols
  · rw [putchar_wrap hnewline hback hlast]
    exact advanceLine_inGrid hrow (show 0 < t.cols by omega)
  · rw [putchar_inLine hnewline hback (by omega)]
    exact ⟨hrow, show t.col + 1 < t.cols by omega⟩

theorem print_inGrid (h : t.InGrid) (s : Text) : (t.print s).InGrid := by
  induction s generalizing t with
  | nil => exact h
  | cons c s ih => exact ih (putchar_inGrid h c)

theorem blank_inGrid {rows cols : Nat} (hrows : 0 < rows) (hcols : 0 < cols) :
    (blank rows cols).InGrid := ⟨hrows, hcols⟩

end Cursor

/-! ## §3. A character. -/

section Character

variable {t : Terminal}

/-- The character is the last one of the grid, and everything moves up. -/
def AtEnd (t : Terminal) : Prop := t.col + 1 = t.cols ∧ t.row + 1 = t.rows

instance (t : Terminal) : Decidable t.AtEnd := inferInstanceAs (Decidable (_ ∧ _))

/-- **A character** in the grid but for its last place. -/
theorem putchar_char (h : t.InGrid) {c : BitVec 8} (hnewline : c ≠ newline) (hback : c ≠ backspace)
    (hend : ¬ t.AtEnd) :
    (t.putchar c).cursor = t.cursor + 1 ∧ (t.putchar c).scrolled = t.scrolled ∧
      (t.putchar c).cells = (t.setCell t.cursor c).cells ∧ (t.putchar c).cols = t.cols := by
  have hrow := h.row
  have hcol := h.col
  by_cases hlast : t.col + 1 = t.cols
  · have hmore : t.row + 1 < t.rows := by
      have hne : t.row + 1 ≠ t.rows := fun hbottom => hend ⟨hlast, hbottom⟩
      omega
    rw [putchar_wrap hnewline hback hlast, @advanceLine_next (t.written c) hmore]
    -- the start of the next row is the next index
    refine ⟨?_, rfl, rfl, rfl⟩
    show (t.row + 1) * t.cols + 0 = t.row * t.cols + t.col + 1
    rw [Nat.succ_mul]
    omega
  · rw [putchar_inLine hnewline hback (by omega)]
    exact ⟨rfl, rfl, rfl, rfl⟩

/-- **A character in the last place**: the lines move up, and the cursor is
    where it was, one character on. -/
theorem putchar_atEnd {c : BitVec 8} (hnewline : c ≠ newline) (hback : c ≠ backspace) (hend : t.AtEnd) :
    (t.putchar c).cursor + t.cols = t.cursor + 1 ∧ (t.putchar c).scrolled = t.scrolled + 1 ∧
      (∀ k < (t.putchar c).cursor, (t.putchar c).cells k = (t.setCell t.cursor c).cells (k + t.cols)) ∧
        (t.putchar c).cols = t.cols := by
  obtain ⟨hlast, hbottom⟩ := hend
  rw [putchar_wrap hnewline hback hlast, @advanceLine_last (t.written c) hbottom]
  refine ⟨?_, rfl, fun k hk => ?_, rfl⟩
  · show (t.rows - 1) * t.cols + 0 + t.cols = t.row * t.cols + t.col + 1
    rw [← hbottom, Nat.add_sub_cancel]
    omega
  · -- below the cursor, which is at the start of the last row, the cells come from one row below
    have hk' : k < (t.rows - 1) * t.cols := hk
    exact if_pos hk'

/-- **A backspace** that is not at the start of a line. -/
theorem putchar_backspace (hcol : 0 < t.col) :
    (t.putchar backspace).cursor + 1 = t.cursor ∧ (t.putchar backspace).scrolled = t.scrolled ∧
      (∀ k < (t.putchar backspace).cursor, (t.putchar backspace).cells k = t.cells k) ∧
        (t.putchar backspace).cols = t.cols := by
  rw [putchar_backspace_pos hcol]
  refine ⟨?_, rfl, fun k hk => ?_, rfl⟩
  · show t.row * t.cols + (t.col - 1) + 1 = t.row * t.cols + t.col
    omega
  · exact if_neg (Nat.ne_of_lt hk)

end Character

end Terminal

end ZohoOs
