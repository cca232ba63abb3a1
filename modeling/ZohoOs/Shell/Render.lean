/-
  ZohoOs.Shell.Render — the pixels of the terminal (shell.c).

  `shell_render_cell` draws one cell into the window's buffer, and
  `shell_scroll_up` moves the pixels up with the cells.  `shell_render_all`
  draws the whole grid.  Every access to the cells and to the buffer is
  checked here: a function is refused (`none`) if one of them is out of
  bounds.

  Main results:
    * `renderAll_picture` — what `shell_render_all` draws, whatever was in the
      buffer;
    * `putchar_rendered`, `clear_rendered` — no access is out of bounds, the
      cells and the cursor are those of `Terminal.putchar`, and the buffer stays
      the picture of the cells;
    * `terminal_rendering_iff` — all this holds in every run exactly if the heap
      had a block for the cells.
-/
import ZohoOs.Graphics.Font
import ZohoOs.Kmalloc.Safety
import ZohoOs.Shell.Terminal

namespace ZohoOs

open ZohoOs.Lib

/-! ## §1. The functions. -/

def shellCharW : Nat := 8
def shellCharH : Nat := 8
def shellBgColor : BitVec 32 := 0x00000000
def shellFgColor : BitVec 32 := 0xFFFFFFFF

/-- The terminal, and the size and the buffer of `shell_window`. -/
structure ShellScreen where
  term : Terminal
  w : Nat
  h : Nat
  pixels : Nat → BitVec 32

namespace ShellScreen

/-- The height of the client area. -/
def clientH (s : ShellScreen) : Nat := s.h - 25

/-- The pixels of the buffer. -/
def size (s : ShellScreen) : Nat := s.clientH * s.w

/-- The bytes of `term_cells`. -/
def cellCount (s : ShellScreen) : Nat := s.term.rows * s.term.cols

/-- `shell_clear_cell_pixels`. -/
def clearCellPixels (s : ShellScreen) (row col : Nat) : Option (Nat → BitVec 32) :=
  let px := col * shellCharW
  let py := row * shellCharH
  (List.range shellCharH).foldlM
    (fun pixels y =>
      (List.range shellCharW).foldlM
        (fun pixels x => storeAt s.size ((py + y) * s.w + px + x) shellBgColor pixels) pixels)
    s.pixels

/-- `shell_render_cell`. -/
def renderCell (s : ShellScreen) (row col : Nat) : Option ShellScreen :=
  if row ≥ s.term.rows ∨ col ≥ s.term.cols then some s
  else
    (s.clearCellPixels row col).bind fun pixels =>
      (loadAt s.cellCount (row * s.term.cols + col) s.term.cells).bind fun c =>
        (graphicsDrawChar s.size pixels s.w (col * shellCharW) (row * shellCharH) c shellFgColor).map
          fun pixels => { s with pixels := pixels }

/-- One turn of the loops of `shell_render_all`. -/
def drawCell (s : ShellScreen) (row : Nat) (pixels : Nat → BitVec 32) (col : Nat) : Option (Nat → BitVec 32) :=
  (loadAt s.cellCount (row * s.term.cols + col) s.term.cells).bind fun c =>
    if c = 0 ∨ c = space then some pixels
    else graphicsDrawChar s.size pixels s.w (col * shellCharW) (row * shellCharH) c shellFgColor

/-- `shell_render_all`; `w * (h - 25)` is a product in `uint32_t`. -/
def renderAll (s : ShellScreen) : Option ShellScreen :=
  (fillAt s.size 0 (s.w * s.clientH % 2 ^ 32) 0 s.pixels).bind fun pixels =>
    ((List.range s.term.rows).foldlM
      (fun pixels row => (List.range s.term.cols).foldlM (s.drawCell row) pixels) pixels).map
        fun pixels => { s with pixels := pixels }

/-- `shell_scroll_up`. -/
def scrollUp (s : ShellScreen) : Option ShellScreen :=
  if s.term.rows = 0 then some s
  else
    (moveAt s.cellCount 0 s.term.cols ((s.term.rows - 1) * s.term.cols) s.term.cells).bind fun cells =>
      (fillAt s.cellCount ((s.term.rows - 1) * s.term.cols) s.term.cols space cells).bind fun cells =>
        let preservedRows := s.clientH - shellCharH
        (moveAt s.size 0 (shellCharH * s.w) (preservedRows * s.w) s.pixels).bind fun pixels =>
          ((List.range (s.clientH - preservedRows)).foldlM
            (fun pixels y =>
              (List.range s.w).foldlM
                (fun pixels x => storeAt s.size ((preservedRows + y) * s.w + x) shellBgColor pixels) pixels)
            pixels).map fun pixels =>
              { s with
                term := { s.term with cells := cells, scrolled := s.term.scrolled + 1 }
                pixels := pixels }

/-- `shell_advance_line`. -/
def advanceLine (s : ShellScreen) : Option ShellScreen :=
  if s.term.rows = 0 then some s
  else
    let t := { s.term with col := 0, row := s.term.row + 1 }
    if t.row ≥ t.rows then scrollUp { s with term := { t with row := t.rows - 1 } }
    else some { s with term := t }

/-- `term_cells[term_row * term_cols + term_col] = c` and `shell_render_cell`. -/
def writeCell (s : ShellScreen) (c : BitVec 8) : Option ShellScreen :=
  (storeAt s.cellCount (s.term.row * s.term.cols + s.term.col) c s.term.cells).bind fun cells =>
    renderCell { s with term := { s.term with cells := cells } } s.term.row s.term.col

/-- `shell_putchar`. -/
def putchar (s : ShellScreen) (c : BitVec 8) : Option ShellScreen :=
  if c = newline then s.advanceLine
  else if c = backspace then
    if s.term.col > 0 then writeCell { s with term := { s.term with col := s.term.col - 1 } } space
    else some s
  else
    (s.writeCell c).bind fun s =>
      let s := { s with term := { s.term with col := s.term.col + 1 } }
      if s.term.cols ≠ 0 ∧ s.term.col ≥ s.term.cols then s.advanceLine else some s

/-- The command `clear`. -/
def clear (s : ShellScreen) : Option ShellScreen :=
  (fillAt s.cellCount 0 (s.term.rows * s.term.cols) space s.term.cells).bind fun cells =>
    (renderAll { s with term := { s.term with cells := cells } }).map fun s =>
      { s with term := { s.term with row := 0, col := 0 } }

end ShellScreen

/-- What is done to the terminal. -/
inductive ShellOp where
  | putchar (c : BitVec 8)
  | clear

def ShellOp.run (s : ShellScreen) : ShellOp → Option ShellScreen
  | .putchar c => s.putchar c
  | .clear => s.clear

/-- A window of at least 8 by 33 pixels.  Its buffer is a block of the kernel's
    heap, and holds the client area. -/
structure ShellWindow where
  w : Nat
  h : Nat
  wide : 8 ≤ w
  high : 33 ≤ h
  fits : 4 * ((h - 25) * w) ≤ heapSize

namespace ShellWindow

def cols (win : ShellWindow) : Nat := win.w / shellCharW
def rows (win : ShellWindow) : Nat := (win.h - 25) / shellCharH

end ShellWindow

/-- `shell_set_window`, after the call of `kmalloc`, which returned `termCells`;
    `cells` is what its block held, and `pixels` what the buffer held. -/
def shellSetWindow (win : ShellWindow) (termCells : Word) (cells : Nat → BitVec 8) (pixels : Nat → BitVec 32) :
    Option ShellScreen :=
  -- `memset` is not told that there is no block
  if termCells = 0 then none
  else
    (fillAt (win.rows * win.cols) 0 (win.rows * win.cols) space cells).bind fun cells =>
      ShellScreen.renderAll ⟨⟨win.rows, win.cols, 0, 0, cells, 0⟩, win.w, win.h, pixels⟩

/-! ## §2. The picture of the cells. -/

/-- The pixel of row `y` and column `x` is one of the character in its cell. -/
def Terminal.Lit (t : Terminal) (y x : Nat) : Prop :=
  y / 8 < t.rows ∧ x / 8 < t.cols ∧ Drawn (t.cells (y / 8 * t.cols + x / 8)) (y % 8) (x % 8)

instance (t : Terminal) (y x : Nat) : Decidable (t.Lit y x) := inferInstanceAs (Decidable (_ ∧ _))

namespace ShellScreen

/-- **What the buffer should show** at an index. -/
def picture (s : ShellScreen) (k : Nat) : BitVec 32 :=
  if s.term.Lit (k / s.w) (k % s.w) then shellFgColor else shellBgColor

/-- The buffer is the picture of the cells. -/
def Rendered (s : ShellScreen) : Prop := ∀ k < s.size, s.pixels k = s.picture k

/-- **What `shell_render_all` would draw**, whatever the buffer held, is what the
    buffer holds. -/
def MatchesRenderAll (s : ShellScreen) : Prop :=
  ∀ old, ∃ pixels, renderAll { s with pixels := old } = some { s with pixels := pixels } ∧
    ∀ k < s.size, pixels k = s.pixels k

/-- The grid is as large as the client area allows. -/
structure Laid (s : ShellScreen) : Prop where
  rows : s.term.rows = s.clientH / 8
  cols : s.term.cols = s.w / 8
  rows_pos : 0 < s.term.rows
  cols_pos : 0 < s.term.cols
  size : s.size < 2 ^ 32

/-- The index is one of the cell's pixels. -/
def InCell (s : ShellScreen) (row col k : Nat) : Prop := k / s.w / 8 = row ∧ k % s.w / 8 = col

instance (s : ShellScreen) (row col k : Nat) : Decidable (s.InCell row col k) :=
  inferInstanceAs (Decidable (_ ∧ _))

section Cells

variable {s : ShellScreen} {row col k : Nat}

theorem inCell_iff : InRect s.w (col * 8) (row * 8) 8 8 k ↔ s.InCell row col k := by
  unfold InRect InCell
  omega

/-- A cell of the grid lies inside the buffer. -/
theorem Laid.cell (h : s.Laid) (hrow : row < s.term.rows) (hcol : col < s.term.cols) :
    col * 8 + 8 ≤ s.w ∧ (row * 8 + 8) * s.w ≤ s.size := by
  have hrows := h.rows
  have hcols := h.cols
  refine ⟨by omega, Nat.mul_le_mul_right s.w ?_⟩
  omega

theorem Laid.of_size {s' : ShellScreen} (h : s.Laid) (hw : s'.w = s.w) (hh : s'.h = s.h)
    (hrows : s'.term.rows = s.term.rows) (hcols : s'.term.cols = s.term.cols) : s'.Laid := by
  have hheight : s'.clientH = s.clientH := congrArg (· - 25) hh
  constructor
  · rw [hrows, hheight]
    exact h.rows
  · rw [hcols, hw]
    exact h.cols
  · rw [hrows]
    exact h.rows_pos
  · rw [hcols]
    exact h.cols_pos
  · show s'.clientH * s'.w < 2 ^ 32
    rw [hheight, hw]
    exact h.size

theorem Laid.w_pos (h : s.Laid) : 0 < s.w := by
  have hcols := h.cols
  have hpos := h.cols_pos
  omega

theorem index_lt_cellCount (hrow : row < s.term.rows) (hcol : col < s.term.cols) :
    row * s.term.cols + col < s.cellCount := index_lt_of hcol hrow

/-- **Clearing a cell.** -/
theorem clearCellPixels_stored (h : s.Laid) (hrow : row < s.term.rows) (hcol : col < s.term.cols) :
    ∃ pixels, s.clearCellPixels row col = some pixels ∧
      Stored (s.InCell row col) shellBgColor s.pixels pixels := by
  obtain ⟨hright, hbottom⟩ := h.cell hrow hcol
  obtain ⟨pixels, hrun, hstored⟩ := foldlM_rect s.pixels (fun _ _ => True)
    (fun f i j => storeAt s.size ((row * 8 + i) * s.w + col * 8 + j) shellBgColor f) hright hbottom
    (fun i hi j hj _ f => by rw [Nat.add_assoc]) (fun i hi j hj hno => absurd trivial hno)
  refine ⟨pixels, hrun, hstored.congr fun k => ?_⟩
  rw [inCell_iff, and_true]

/-- **Drawing the character of a cell.** -/
theorem drawChar_cell (h : s.Laid) (hrow : row < s.term.rows) (hcol : col < s.term.cols)
    (pixels : Nat → BitVec 32) (c : BitVec 8) :
    ∃ pixels', graphicsDrawChar s.size pixels s.w (col * shellCharW) (row * shellCharH) c shellFgColor
        = some pixels' ∧
      Stored (fun k => s.InCell row col k ∧ Drawn c (k / s.w % 8) (k % s.w % 8)) shellFgColor pixels pixels' := by
  obtain ⟨hright, hbottom⟩ := h.cell hrow hcol
  obtain ⟨pixels', hrun, hstored⟩ := drawChar_stored pixels c shellFgColor
    hright hbottom (Nat.le_of_lt h.size)
  refine ⟨pixels', hrun, hstored.congr fun k => ?_⟩
  rw [inCell_iff]
  refine and_congr_right fun hcell => ?_
  unfold InCell at hcell
  rw [show k / s.w - row * 8 = k / s.w % 8 by omega, show k % s.w - col * 8 = k % s.w % 8 by omega]

/-- The picture inside a cell of the grid. -/
theorem picture_inCell (hcell : s.InCell row col k) (hrow : row < s.term.rows) (hcol : col < s.term.cols) :
    s.picture k = if Drawn (s.term.cells (row * s.term.cols + col)) (k / s.w % 8) (k % s.w % 8)
      then shellFgColor else shellBgColor := by
  have hlit : s.term.Lit (k / s.w) (k % s.w) ↔
      Drawn (s.term.cells (row * s.term.cols + col)) (k / s.w % 8) (k % s.w % 8) := by
    unfold Terminal.Lit
    rw [hcell.1, hcell.2]
    exact ⟨fun h => h.2.2, fun h => ⟨hrow, hcol, h⟩⟩
  exact if_congr hlit rfl rfl

/-- Outside the grid there is background. -/
theorem picture_outside (hout : s.term.rows ≤ k / s.w / 8 ∨ s.term.cols ≤ k % s.w / 8) :
    s.picture k = shellBgColor := by
  refine if_neg fun hlit => ?_
  rcases hout with hle | hle
  · exact Nat.not_lt.mpr hle hlit.1
  · exact Nat.not_lt.mpr hle hlit.2.1

end Cells

/-! ## §3. Rendering. -/

section Rendering

variable {s : ShellScreen} {row col : Nat}

/-- **`shell_render_cell`** makes the pixels of the cell those of the picture,
    and leaves the others alone. -/
theorem renderCell_spec (h : s.Laid) (hrow : row < s.term.rows) (hcol : col < s.term.cols) :
    ∃ pixels, s.renderCell row col = some { s with pixels := pixels } ∧
      ∀ k, pixels k = if s.InCell row col k then s.picture k else s.pixels k := by
  obtain ⟨cleared, hclear, hbg⟩ := clearCellPixels_stored h hrow hcol
  obtain ⟨drawn, hdraw, hfg⟩ := drawChar_cell h hrow hcol cleared
    (s.term.cells (row * s.term.cols + col))
  refine ⟨drawn, ?_, fun k => ?_⟩
  · unfold renderCell
    rw [if_neg (by omega), hclear, Option.bind_some, loadAt_eq (index_lt_cellCount hrow hcol), Option.bind_some, hdraw]
    rfl
  · by_cases hcell : s.InCell row col k
    · rw [if_pos hcell, picture_inCell hcell hrow hcol]
      by_cases hlit : Drawn (s.term.cells (row * s.term.cols + col)) (k / s.w % 8) (k % s.w % 8)
      · rw [if_pos hlit, hfg.on k ⟨hcell, hlit⟩]
      · rw [if_neg hlit, hfg.off k fun hk => hlit hk.2, hbg.on k hcell]
    · rw [if_neg hcell, hfg.off k fun hk => hcell hk.1, hbg.off k hcell]

/-- One turn of the loops of `shell_render_all`, over background. -/
theorem drawCell_spec (h : s.Laid) (hrow : row < s.term.rows) (hcol : col < s.term.cols)
    (pixels : Nat → BitVec 32) (hbg : ∀ k < s.size, s.InCell row col k → pixels k = shellBgColor) :
    ∃ pixels', s.drawCell row pixels col = some pixels' ∧
      ∀ k < s.size, pixels' k = if s.InCell row col k then s.picture k else pixels k := by
  unfold drawCell
  rw [loadAt_eq (index_lt_cellCount hrow hcol), Option.bind_some]
  by_cases hblank : s.term.cells (row * s.term.cols + col) = 0 ∨ s.term.cells (row * s.term.cols + col) = space
  · rw [if_pos hblank]
    refine ⟨pixels, rfl, fun k hk => ?_⟩
    by_cases hcell : s.InCell row col k
    · rw [if_pos hcell, picture_inCell hcell hrow hcol, if_neg (not_drawn_of_blank hblank _ _)]
      exact hbg k hk hcell
    · rw [if_neg hcell]
  · rw [if_neg hblank]
    obtain ⟨drawn, hdraw, hfg⟩ := drawChar_cell h hrow hcol pixels
      (s.term.cells (row * s.term.cols + col))
    refine ⟨drawn, hdraw, fun k hk => ?_⟩
    by_cases hcell : s.InCell row col k
    · rw [if_pos hcell, picture_inCell hcell hrow hcol]
      by_cases hlit : Drawn (s.term.cells (row * s.term.cols + col)) (k / s.w % 8) (k % s.w % 8)
      · rw [if_pos hlit, hfg.on k ⟨hcell, hlit⟩]
      · rw [if_neg hlit, hfg.off k fun hk => hlit hk.2]
        exact hbg k hk hcell
    · rw [if_neg hcell, hfg.off k fun hk => hcell hk.1]

/-- The cells before this one, in reading order. -/
def Before (s : ShellScreen) (row col k : Nat) : Prop :=
  k / s.w / 8 < row ∨ k / s.w / 8 = row ∧ k % s.w / 8 < col

instance (s : ShellScreen) (row col k : Nat) : Decidable (s.Before row col k) :=
  inferInstanceAs (Decidable (_ ∨ _))

/-- The picture drawn up to this cell, and background behind it. -/
def DrawnTo (s : ShellScreen) (row col : Nat) (pixels : Nat → BitVec 32) : Prop :=
  ∀ k < s.size, pixels k = if s.Before row col k then s.picture k else shellBgColor

theorem DrawnTo.next (h : s.Laid) (hrow : row < s.term.rows) (hcol : col < s.term.cols)
    {pixels : Nat → BitVec 32} (hdrawn : s.DrawnTo row col pixels) :
    ∃ pixels', s.drawCell row pixels col = some pixels' ∧ s.DrawnTo row (col + 1) pixels' := by
  have hbefore : ∀ k, s.Before row (col + 1) k ↔ s.InCell row col k ∨ s.Before row col k := by
    intro k
    unfold Before InCell
    omega
  obtain ⟨pixels', hrun, hpixels⟩ := drawCell_spec h hrow hcol pixels fun k hk hcell => by
    rw [hdrawn k hk, if_neg]
    unfold InCell at hcell
    unfold Before
    omega
  refine ⟨pixels', hrun, fun k hk => ?_⟩
  rw [hpixels k hk, hdrawn k hk]
  by_cases hcell : s.InCell row col k
  · rw [if_pos hcell, if_pos ((hbefore k).mpr (.inl hcell))]
  · rw [if_neg hcell]
    refine if_congr ?_ rfl rfl
    rw [hbefore k]
    exact ⟨.inr, fun hk => hk.resolve_left hcell⟩

/-- The end of a row is the start of the next one. -/
theorem DrawnTo.nextRow {pixels : Nat → BitVec 32} (hdrawn : s.DrawnTo row s.term.cols pixels) :
    s.DrawnTo (row + 1) 0 pixels := by
  intro k hk
  rw [hdrawn k hk]
  by_cases hnext : s.Before (row + 1) 0 k
  · rw [if_pos hnext]
    by_cases hbefore : s.Before row s.term.cols k
    · rw [if_pos hbefore]
    · rw [if_neg hbefore, picture_outside]
      unfold Before at hnext hbefore
      omega
  · rw [if_neg hnext, if_neg]
    unfold Before at hnext ⊢
    omega

/-- **What `shell_render_all` draws**: the picture, whatever was in the buffer. -/
theorem renderAll_picture (h : s.Laid) :
    ∃ pixels, s.renderAll = some { s with pixels := pixels } ∧ ∀ k < s.size, pixels k = s.picture k := by
  have hsize : s.w * s.clientH % 2 ^ 32 = s.size := by
    rw [Nat.mul_comm]
    exact Nat.mod_eq_of_lt h.size
  -- the buffer behind `memset`, which clears all of it because its size does not wrap around
  let cleared : Nat → BitVec 32 := fun k => if 0 ≤ k ∧ k < 0 + s.size then 0 else s.pixels k
  have hclear : fillAt s.size 0 (s.w * s.clientH % 2 ^ 32) 0 s.pixels = some cleared := by
    rw [hsize]
    exact fillAt_eq (Nat.le_of_eq (Nat.zero_add _))
  have hstart : s.DrawnTo 0 0 cleared := by
    intro k hk
    have hnone : ¬ s.Before 0 0 k := fun hbefore =>
      hbefore.elim (Nat.not_lt_zero _) fun hrow => Nat.not_lt_zero _ hrow.2
    rw [if_neg hnone]
    exact if_pos ⟨Nat.zero_le k, by omega⟩
  obtain ⟨pixels, hrun, hdrawn⟩ := foldlM_range (P := fun row => s.DrawnTo row 0)
    (fun pixels row => (List.range s.term.cols).foldlM (s.drawCell row) pixels) (n := s.term.rows) hstart
    fun row hrow pixels hdrawn => by
      obtain ⟨pixels', hrun, hdrawn'⟩ := foldlM_range (s.drawCell row) (n := s.term.cols) hdrawn
        fun col hcol pixels hdrawn => hdrawn.next h hrow hcol
      exact ⟨pixels', hrun, hdrawn'.nextRow⟩
  refine ⟨pixels, ?_, fun k hk => ?_⟩
  · unfold renderAll
    rw [hclear, Option.bind_some, hrun]
    rfl
  · rw [hdrawn k hk]
    by_cases hbefore : s.Before s.term.rows 0 k
    · rw [if_pos hbefore]
    · rw [if_neg hbefore, picture_outside]
      unfold Before at hbefore
      omega

end Rendering

/-! ## §4. Scrolling. -/

section Scrolling

variable {s : ShellScreen} {k : Nat}

/-- The cells move up by a row, as `Terminal.scrollUp` says. -/
theorem scrollUp_cells (hrows : 0 < s.term.rows) :
    ((moveAt s.cellCount 0 s.term.cols ((s.term.rows - 1) * s.term.cols) s.term.cells).bind fun cells =>
      fillAt s.cellCount ((s.term.rows - 1) * s.term.cols) s.term.cols space cells) =
        some s.term.scrollUp.cells := by
  have hlast : (s.term.rows - 1) * s.term.cols + s.term.cols = s.cellCount := by
    rw [← Nat.succ_mul]
    show (s.term.rows - 1 + 1) * s.term.cols = s.term.rows * s.term.cols
    rw [Nat.sub_add_cancel hrows]
  rw [moveAt_eq (by omega) (by omega), Option.bind_some, fillAt_eq (by omega)]
  refine congrArg some (funext fun k => ?_)
  show _ = if k < (s.term.rows - 1) * s.term.cols then s.term.cells (k + s.term.cols)
    else if k < s.cellCount then space else s.term.cells k
  by_cases hkept : k < (s.term.rows - 1) * s.term.cols
  · rw [if_neg (by omega), if_pos hkept]
    exact (if_pos ⟨Nat.zero_le k, by omega⟩).trans (congrArg s.term.cells (by omega))
  · rw [if_neg hkept]
    by_cases hfree : k < s.cellCount
    · rw [if_pos (by omega), if_pos hfree]
    · rw [if_neg (by omega), if_neg hfree]
      exact if_neg (by omega)

/-- The pixels move up by the height of a row, and background comes in at the
    bottom. -/
theorem scrollUp_pixels (h : s.Laid) :
    ∃ pixels, (moveAt s.size 0 (shellCharH * s.w) ((s.clientH - shellCharH) * s.w) s.pixels).bind (fun pixels =>
        (List.range (s.clientH - (s.clientH - shellCharH))).foldlM
          (fun pixels y =>
            (List.range s.w).foldlM
              (fun pixels x =>
                storeAt s.size ((s.clientH - shellCharH + y) * s.w + x) shellBgColor pixels) pixels)
          pixels) = some pixels ∧
      (∀ k < s.size, k / s.w < s.clientH - 8 → pixels k = s.pixels (8 * s.w + k)) ∧
      ∀ k < s.size, s.clientH - 8 ≤ k / s.w → pixels k = shellBgColor := by
  have hhigh : 8 ≤ s.clientH := by
    have hrows := h.rows
    have hpos := h.rows_pos
    omega
  have hw := h.w_pos
  have hparts : 8 * s.w + (s.clientH - 8) * s.w = s.size := by
    rw [← Nat.add_mul, Nat.add_sub_cancel' hhigh]
    rfl
  obtain ⟨pixels, hrun, hstored⟩ := foldlM_rect (n := s.size) (x := 0) (y := s.clientH - 8)
    (a := s.clientH - (s.clientH - 8)) (b := s.w)
    (fun k => if 0 ≤ k ∧ k < 0 + (s.clientH - 8) * s.w then s.pixels (8 * s.w + (k - 0)) else s.pixels k)
    (fun _ _ => True) (fun f i j => storeAt s.size ((s.clientH - 8 + i) * s.w + j) shellBgColor f)
    (Nat.le_of_eq (Nat.zero_add _)) (Nat.mul_le_mul_right _ (by omega))
    (fun i hi j hj _ f => by rw [Nat.zero_add]) (fun i hi j hj hno => absurd trivial hno)
  refine ⟨pixels, ?_, fun k hk hrow => ?_, fun k hk hrow => ?_⟩
  · show (moveAt s.size 0 (8 * s.w) ((s.clientH - 8) * s.w) s.pixels).bind _ = _
    rw [moveAt_eq (by omega) (by omega), Option.bind_some]
    exact hrun
  · -- above the last row of characters
    have hkept : k < (s.clientH - 8) * s.w := (Nat.div_lt_iff_lt_mul hw).mp hrow
    rw [hstored.off k fun hk => by unfold InRect at hk; omega]
    exact if_pos ⟨Nat.zero_le k, by omega⟩
  · refine hstored.on k ⟨⟨⟨hrow, ?_⟩, Nat.zero_le _, ?_⟩, trivial⟩
    · have hlt : k / s.w < s.clientH := (Nat.div_lt_iff_lt_mul hw).mpr hk
      omega
    · rw [Nat.zero_add]
      exact Nat.mod_lt k hw

/-- A pixel after scrolling is the one that was eight rows below. -/
theorem lit_scrollUp {t : Terminal} {y x : Nat} : t.scrollUp.Lit y x ↔ t.Lit (y + 8) x := by
  have hrow : (y + 8) / 8 = y / 8 + 1 := Nat.add_div_right y (by decide)
  have hin : (y + 8) % 8 = y % 8 := Nat.add_mod_right y 8
  unfold Terminal.Lit
  rw [hrow, hin]
  show (y / 8 < t.rows ∧ x / 8 < t.cols ∧ Drawn (t.scrollUp.cells (y / 8 * t.cols + x / 8)) (y % 8) (x % 8)) ↔ _
  constructor
  · intro ⟨hy, hx, hdrawn⟩
    have hidx := index_lt_of hx hy
    by_cases hlast : y / 8 < t.rows - 1
    · have hcell : t.scrollUp.cells (y / 8 * t.cols + x / 8) = t.cells ((y / 8 + 1) * t.cols + x / 8) := by
        refine (if_pos (index_lt_of hx hlast)).trans (congrArg t.cells ?_)
        rw [Nat.succ_mul]
        omega
      rw [hcell] at hdrawn
      exact ⟨by omega, hx, hdrawn⟩
    · -- the new last row is empty
      have hbottom : y / 8 = t.rows - 1 := by omega
      have hcell : t.scrollUp.cells (y / 8 * t.cols + x / 8) = space := by
        rw [hbottom] at hidx ⊢
        exact (if_neg (by omega)).trans (if_pos hidx)
      rw [hcell] at hdrawn
      exact absurd hdrawn (not_drawn_of_blank (.inr rfl) _ _)
  · intro ⟨hy, hx, hdrawn⟩
    have hcell : t.scrollUp.cells (y / 8 * t.cols + x / 8) = t.cells ((y / 8 + 1) * t.cols + x / 8) := by
      refine (if_pos (index_lt_of hx (show y / 8 < t.rows - 1 by omega))).trans (congrArg t.cells ?_)
      rw [Nat.succ_mul]
      omega
    rw [hcell]
    exact ⟨by omega, hx, hdrawn⟩

/-- **Scrolling** keeps the buffer the picture of the cells. -/
theorem scrollUp_rendered (h : s.Laid) (hr : s.Rendered) :
    ∃ pixels, s.scrollUp = some { s with term := s.term.scrollUp, pixels := pixels } ∧
      Rendered { s with term := s.term.scrollUp, pixels := pixels } := by
  obtain ⟨pixels, hrun, htop, hbottom⟩ := scrollUp_pixels h
  have hrows := h.rows
  have hrows_pos := h.rows_pos
  have hw := h.w_pos
  refine ⟨pixels, ?_, fun k hk => ?_⟩
  · obtain ⟨cells, hmove, hfill⟩ := Option.bind_eq_some_iff.mp (scrollUp_cells h.rows_pos)
    obtain ⟨moved, hmoved, hloop⟩ := Option.bind_eq_some_iff.mp hrun
    unfold scrollUp
    rw [if_neg (by omega), hmove, Option.bind_some, hfill, Option.bind_some]
    show (moveAt s.size 0 (shellCharH * s.w) ((s.clientH - shellCharH) * s.w) s.pixels).bind _ = _
    rw [hmoved, Option.bind_some, hloop]
    rfl
  · have hk : k < s.size := hk
    show pixels k = if s.term.scrollUp.Lit (k / s.w) (k % s.w) then shellFgColor else shellBgColor
    -- what was eight rows below is now here; at the bottom there was nothing below
    rw [if_congr lit_scrollUp rfl rfl]
    by_cases hhigh : k / s.w < s.clientH - 8
    · have hdiv : (8 * s.w + k) / s.w = k / s.w + 8 := by
        rw [Nat.add_comm, Nat.add_mul_div_right _ _ hw]
      have hmod : (8 * s.w + k) % s.w = k % s.w := by rw [Nat.add_comm, Nat.add_mul_mod_self_right]
      have hbelow : 8 * s.w + k < s.size := by
        refine (Nat.div_lt_iff_lt_mul hw).mp ?_
        rw [hdiv]
        omega
      rw [htop k hk hhigh, hr _ hbelow]
      unfold picture
      rw [hdiv, hmod]
    · rw [hbottom k hk (by omega), if_neg]
      intro hlit
      have hlit := hlit.1
      omega

end Scrolling

/-! ## §5. What is done to the terminal. -/

section Operations

variable {s : ShellScreen}

/-- **The end of a line.** -/
theorem advanceLine_rendered (h : s.Laid) (hr : s.Rendered) (hrow : s.term.row < s.term.rows) :
    ∃ pixels, s.advanceLine = some { s with term := s.term.advanceLine, pixels := pixels } ∧
      Rendered { s with term := s.term.advanceLine, pixels := pixels } := by
  have hne : ¬ s.term.rows = 0 := by omega
  by_cases hlast : s.term.row + 1 = s.term.rows
  · rw [Terminal.advanceLine_last hlast]
    have hlaid : Laid { s with term := { s.term with col := 0, row := s.term.rows - 1 } } :=
      h.of_size rfl rfl rfl rfl
    obtain ⟨pixels, hrun, hrendered⟩ := scrollUp_rendered hlaid hr
    refine ⟨pixels, ?_, hrendered⟩
    unfold advanceLine
    rw [if_neg hne]
    exact (if_pos (Nat.le_of_eq hlast.symm)).trans hrun
  · rw [Terminal.advanceLine_next (by omega)]
    refine ⟨s.pixels, ?_, hr⟩
    unfold advanceLine
    rw [if_neg hne]
    exact if_neg (show ¬ s.term.row + 1 ≥ s.term.rows by omega)

/-- **A cell is written and rendered.** -/
theorem writeCell_rendered (h : s.Laid) (hr : s.Rendered) (hgrid : s.term.InGrid) (c : BitVec 8) :
    ∃ pixels, s.writeCell c = some { s with term := s.term.setCell s.term.cursor c, pixels := pixels } ∧
      Rendered { s with term := s.term.setCell s.term.cursor c, pixels := pixels } := by
  have hcells : storeAt s.cellCount (s.term.row * s.term.cols + s.term.col) c s.term.cells =
      some (s.term.setCell s.term.cursor c).cells := by
    refine (if_pos (index_lt_cellCount hgrid.row hgrid.col)).trans (congrArg some (funext fun k => ?_))
    exact Function.update_apply s.term.cells _ c k
  have hlaid : Laid { s with term := s.term.setCell s.term.cursor c } :=
    h.of_size rfl rfl rfl rfl
  obtain ⟨pixels, hrun, hpixels⟩ := renderCell_spec hlaid hgrid.row hgrid.col
  refine ⟨pixels, ?_, fun k hk => ?_⟩
  · unfold writeCell
    rw [hcells, Option.bind_some]
    exact hrun
  · show pixels k = picture { s with term := s.term.setCell s.term.cursor c } k
    rw [hpixels k]
    by_cases hcell : InCell { s with term := s.term.setCell s.term.cursor c } s.term.row s.term.col k
    · rw [if_pos hcell]
    · rw [if_neg hcell]
      show s.pixels k = _
      rw [hr k hk]
      refine if_congr (and_congr_right fun hy => and_congr_right fun hx => ?_) rfl rfl
      -- another cell has another index
      have hother : ¬ k / s.w / 8 * s.term.cols + k % s.w / 8 = s.term.cursor := by
        intro heq
        have hhere := (index_iff hx).mp (rfl : k / s.w / 8 * s.term.cols + k % s.w / 8 = _)
        have hcursor := (index_iff hgrid.col).mp heq.symm
        exact hcell ⟨hhere.1.symm.trans hcursor.1, hhere.2.symm.trans hcursor.2⟩
      have hsame : (s.term.setCell s.term.cursor c).cells (k / s.w / 8 * s.term.cols + k % s.w / 8) =
          s.term.cells (k / s.w / 8 * s.term.cols + k % s.w / 8) := if_neg hother
      show _ ↔ Drawn ((s.term.setCell s.term.cursor c).cells (k / s.w / 8 * s.term.cols + k % s.w / 8)) _ _
      rw [hsame]

/-- Between two operations: the cursor is in the grid, and the buffer is the
    picture of the cells. -/
structure Good (s : ShellScreen) : Prop where
  laid : s.Laid
  inGrid : s.term.InGrid
  rendered : s.Rendered

/-- No operation changes the size of the grid. -/
theorem putchar_size (t : Terminal) (c : BitVec 8) :
    (t.putchar c).rows = t.rows ∧ (t.putchar c).cols = t.cols := by
  have hadvance : ∀ t : Terminal, t.advanceLine.rows = t.rows ∧ t.advanceLine.cols = t.cols := by
    intro t
    unfold Terminal.advanceLine
    split
    · exact ⟨rfl, rfl⟩
    · dsimp only
      split
      · exact ⟨rfl, rfl⟩
      · exact ⟨rfl, rfl⟩
  unfold Terminal.putchar
  split
  · exact hadvance t
  · split
    · split
      · exact ⟨rfl, rfl⟩
      · exact ⟨rfl, rfl⟩
    · dsimp only
      split
      · exact hadvance _
      · exact ⟨rfl, rfl⟩

/-- **`shell_putchar`** uses no index out of bounds, does to the terminal what
    `Terminal.putchar` says, and keeps the buffer its picture. -/
theorem putchar_rendered (h : s.Good) (c : BitVec 8) :
    ∃ pixels, s.putchar c = some { s with term := s.term.putchar c, pixels := pixels } ∧
      Good { s with term := s.term.putchar c, pixels := pixels } := by
  have hlaid : ∀ pixels, Laid { s with term := s.term.putchar c, pixels := pixels } := by
    intro pixels
    obtain ⟨hrows, hcols⟩ := putchar_size s.term c
    exact h.laid.of_size rfl rfl hrows hcols
  have hgrid := Terminal.putchar_inGrid h.inGrid c
  -- the grid and the cursor are the terminal's, so that the picture is left
  suffices hmain : ∃ pixels, s.putchar c = some { s with term := s.term.putchar c, pixels := pixels } ∧
      Rendered { s with term := s.term.putchar c, pixels := pixels } by
    obtain ⟨pixels, hrun, hrendered⟩ := hmain
    exact ⟨pixels, hrun, hlaid pixels, hgrid, hrendered⟩
  have hrow := h.inGrid.row
  by_cases hnewline : c = newline
  · rw [hnewline, Terminal.putchar_newline]
    obtain ⟨pixels, hrun, hrendered⟩ := advanceLine_rendered h.laid h.rendered hrow
    exact ⟨pixels, (if_pos rfl).trans hrun, hrendered⟩
  by_cases hback : c = backspace
  · rw [hback]
    have hnot : ¬ backspace = newline := by decide
    by_cases hzero : s.term.col = 0
    · rw [Terminal.putchar_backspace_zero hzero]
      refine ⟨s.pixels, ?_, h.rendered⟩
      exact (if_neg hnot).trans ((if_pos rfl).trans (if_neg (by omega)))
    · have hpos : 0 < s.term.col := by omega
      rw [Terminal.putchar_backspace_pos hpos]
      have hcol := h.inGrid.col
      obtain ⟨pixels, hrun, hrendered⟩ := writeCell_rendered
        (s := { s with term := { s.term with col := s.term.col - 1 } })
        (h.laid.of_size rfl rfl rfl rfl) h.rendered
        ⟨hrow, show s.term.col - 1 < s.term.cols by omega⟩ space
      exact ⟨pixels, (if_neg hnot).trans ((if_pos rfl).trans ((if_pos hpos).trans hrun)), hrendered⟩
  · obtain ⟨pixels, hrun, hrendered⟩ := writeCell_rendered h.laid h.rendered h.inGrid c
    have hput : s.putchar c = (if s.term.cols ≠ 0 ∧ s.term.col + 1 ≥ s.term.cols
        then advanceLine { s with term := s.term.written c, pixels := pixels }
        else some { s with term := s.term.written c, pixels := pixels }) := by
      unfold putchar
      rw [if_neg hnewline, if_neg hback, hrun]
      rfl
    have hcol := h.inGrid.col
    by_cases hlast : s.term.col + 1 = s.term.cols
    · rw [Terminal.putchar_wrap hnewline hback hlast, hput, if_pos (by omega)]
      exact advanceLine_rendered (s := { s with term := s.term.written c, pixels := pixels })
        (h.laid.of_size rfl rfl rfl rfl) hrendered hrow
    · rw [Terminal.putchar_inLine hnewline hback (by omega), hput, if_neg (by omega)]
      exact ⟨pixels, rfl, hrendered⟩

/-- **The command `clear`.** -/
theorem clear_rendered (h : s.Good) :
    ∃ s', s.clear = some s' ∧ s'.Good := by
  -- the cells are blank, and the whole buffer is drawn anew
  have hcells : fillAt s.cellCount 0 (s.term.rows * s.term.cols) space s.term.cells = some _ :=
    fillAt_eq (Nat.le_of_eq (Nat.zero_add _))
  obtain ⟨pixels, hrun, hpicture⟩ := renderAll_picture
    (s := { s with term := { s.term with cells :=
      fun k => if 0 ≤ k ∧ k < 0 + s.term.rows * s.term.cols then space else s.term.cells k } })
    (h.laid.of_size rfl rfl rfl rfl)
  unfold clear
  rw [hcells, Option.bind_some, hrun]
  exact ⟨_, rfl, (h.laid.of_size rfl rfl rfl rfl),
    ⟨h.laid.rows_pos, h.laid.cols_pos⟩, hpicture⟩

end Operations

end ShellScreen

/-! ## §6. Runs. -/

/-- **An operation** keeps everything. -/
theorem ShellOp.run_good {s : ShellScreen} (h : s.Good) (op : ShellOp) : ∃ s', op.run s = some s' ∧ s'.Good := by
  cases op with
  | putchar c =>
    obtain ⟨pixels, hrun, hgood⟩ := ShellScreen.putchar_rendered h c
    exact ⟨_, hrun, hgood⟩
  | clear => exact ShellScreen.clear_rendered h

theorem ShellScreen.Good.run {s : ShellScreen} (h : s.Good) (ops : List ShellOp) :
    ∃ s', ops.foldlM ShellOp.run s = some s' ∧ s'.Good := by
  induction ops generalizing s with
  | nil => exact ⟨s, rfl, h⟩
  | cons op ops ih =>
    obtain ⟨t, hrun, ht⟩ := ShellOp.run_good h op
    obtain ⟨s', hrest, hs'⟩ := ih ht
    refine ⟨s', ?_, hs'⟩
    rw [List.foldlM_cons, hrun]
    exact hrest

/-- The buffer of such a screen is what `shell_render_all` draws. -/
theorem ShellScreen.Good.matches {s : ShellScreen} (h : s.Good) : s.MatchesRenderAll := by
  intro old
  obtain ⟨pixels, hrun, hpicture⟩ := ShellScreen.renderAll_picture (s := { s with pixels := old })
    (h.laid.of_size rfl rfl rfl rfl)
  refine ⟨pixels, hrun, fun k hk => ?_⟩
  rw [h.rendered k hk]
  exact hpicture k hk

section SetWindow

variable {win : ShellWindow} {termCells : Word} {cells : Nat → BitVec 8} {pixels : Nat → BitVec 32}

theorem ShellWindow.rows_pos (win : ShellWindow) : 0 < win.rows := by
  have hhigh := win.high
  unfold ShellWindow.rows shellCharH
  omega

theorem ShellWindow.cols_pos (win : ShellWindow) : 0 < win.cols := by
  have hwide := win.wide
  unfold ShellWindow.cols shellCharW
  omega

/-- The grid has no more cells than the heap has bytes. -/
theorem ShellWindow.cells_le (win : ShellWindow) : win.rows * win.cols ≤ heapSize := by
  have hfits := win.fits
  have hle : win.rows * win.cols ≤ (win.h - 25) * win.w :=
    Nat.mul_le_mul (Nat.div_le_self _ _) (Nat.div_le_self _ _)
  omega

/-- **`shell_set_window`** with a block for the cells. -/
theorem shellSetWindow_good (cells : Nat → BitVec 8) (pixels : Nat → BitVec 32) (win : ShellWindow)
    (hblock : termCells ≠ 0) :
    ∃ s, shellSetWindow win termCells cells pixels = some s ∧ s.Good := by
  have hcells : fillAt (win.rows * win.cols) 0 (win.rows * win.cols) space cells = some _ :=
    fillAt_eq (Nat.le_of_eq (Nat.zero_add _))
  have hsize : (win.h - 25) * win.w < 2 ^ 32 := by
    have hfits := win.fits
    unfold heapSize at hfits
    omega
  have hlaid : ∀ cells pixels,
      ShellScreen.Laid ⟨⟨win.rows, win.cols, 0, 0, cells, 0⟩, win.w, win.h, pixels⟩ :=
    fun cells pixels => ⟨rfl, rfl, win.rows_pos, win.cols_pos, hsize⟩
  obtain ⟨pixels', hrun, hpicture⟩ := ShellScreen.renderAll_picture (hlaid _ pixels)
  refine ⟨_, ?_, hlaid _ pixels', ⟨win.rows_pos, win.cols_pos⟩, hpicture⟩
  unfold shellSetWindow
  rw [if_neg hblock, hcells]
  exact hrun

/-- **Terminal rendering.**  Give any window to `shell_set_window`, on any heap.
    In every run of characters and `clear` commands, no index is out of bounds,
    the cursor is in the grid, and the buffer is what `shell_render_all` would
    draw, exactly if the heap has a block for the cells. -/
theorem terminal_rendering_iff {heap heap' : Heap} {bs : List Block} (ht : HeapTiled heap bs) {fuel : Nat}
    (hret : kmalloc fuel heap (BitVec.ofNat 64 (win.rows * win.cols)) = some (termCells, heap')) :
    (∀ ops : List ShellOp, ∃ s, (shellSetWindow win termCells cells pixels).bind (ops.foldlM ShellOp.run) = some s ∧
      s.term.InGrid ∧ s.MatchesRenderAll) ↔
      firstFit (roundUp8 (win.rows * win.cols)) heapStart.toNat bs ≠ none := by
  have hround : (alignSize (BitVec.ofNat 64 (win.rows * win.cols))).toNat = roundUp8 (win.rows * win.cols) := by
    have hle := win.cells_le
    unfold heapSize at hle
    have hnat : (BitVec.ofNat 64 (win.rows * win.cols)).toNat = win.rows * win.cols :=
      toNat_ofNat_of_lt (by omega)
    rw [toNat_alignSize (by rw [hnat]; omega), hnat]
  rcases ht.kmalloc_outcome hret with ⟨hnone, hnull, -⟩ | ⟨x, bs', hfit, -, hblock, -⟩
  · rw [hround] at hnone
    refine iff_of_false (fun hall => ?_) fun hne => hne hnone
    -- `memset` writes through the null pointer before anything else happens
    obtain ⟨s, hrun, -⟩ := hall []
    have hrefused : shellSetWindow win termCells cells pixels = none := if_pos hnull
    rw [hrefused] at hrun
    exact nomatch hrun
  · rw [hround] at hfit
    refine iff_of_true (fun ops => ?_) (by rw [hfit]; exact Option.some_ne_none _)
    obtain ⟨s, hset, hgood⟩ := shellSetWindow_good cells pixels win hblock
    obtain ⟨s', hrun, hgood'⟩ := hgood.run ops
    refine ⟨s', ?_, hgood'.inGrid, hgood'.matches⟩
    rw [hset]
    exact hrun

end SetWindow

/-! ## §7. Two windows. -/

/-- The heap after `kmalloc_init`. -/
def freshHeap : Heap := heapInit fun _ => ⟨0, false, 0⟩

theorem freshHeap_tiled : HeapTiled freshHeap [⟨heapSize - 24, true⟩] := heapInit_tiled _

/-- The terminal's window of 600 by 400. -/
def terminalWindow : ShellWindow := ⟨600, 400, by decide, by decide, by decide⟩

/-- The cells of that window are the first thing on the heap. -/
theorem terminal_rendering_fresh : ∃ termCells heap,
    kmalloc 2 freshHeap (BitVec.ofNat 64 (terminalWindow.rows * terminalWindow.cols)) = some (termCells, heap) ∧
      ∀ ops : List ShellOp, ∃ s,
        (shellSetWindow terminalWindow termCells (fun _ => 0) fun _ => 0).bind (ops.foldlM ShellOp.run) = some s ∧
          s.term.InGrid ∧ s.MatchesRenderAll := by
  obtain ⟨heap, -, hret⟩ := freshHeap_tiled.kmalloc_some
    (n := BitVec.ofNat 64 (terminalWindow.rows * terminalWindow.cols)) (by decide)
    (show firstFit _ _ _ = some (0x1000000, [⟨3456, false⟩, ⟨0xFFF250, true⟩]) by decide)
  have hret := hret 2 (by decide)
  exact ⟨_, heap, hret, (terminal_rendering_iff freshHeap_tiled hret).mpr (by decide)⟩

/-- A window whose buffer leaves 7792 bytes of the heap. -/
def wideWindow : ShellWindow := ⟨2048, 2072, by decide, by decide, by decide⟩

/-- **No block for the cells.**  After `window_create` and the buffer of this
    window, `kmalloc` returns `NULL` for its 65280 cells, and `memset` writes
    through it. -/
theorem cells_through_null : ∃ win buffer heap₁ heap₂ heap₃,
    kmalloc 2 freshHeap 328 = some (win, heap₁) ∧
      kmalloc 3 heap₁ (BitVec.ofNat 64 (4 * ((2072 - 25) * 2048))) = some (buffer, heap₂) ∧ buffer ≠ 0 ∧
      kmalloc 4 heap₂ (BitVec.ofNat 64 (wideWindow.rows * wideWindow.cols)) = some (0, heap₃) ∧
      ¬ ∀ ops : List ShellOp, ∃ s,
        (shellSetWindow wideWindow 0 (fun _ => 0) fun _ => 0).bind (ops.foldlM ShellOp.run) = some s ∧
          s.term.InGrid ∧ s.MatchesRenderAll := by
  obtain ⟨heap₁, ht₁, hwin⟩ := freshHeap_tiled.kmalloc_some (n := 328) (by decide)
    (show firstFit _ _ _ = some (0x1000000, [⟨328, false⟩, ⟨0xFFFE88, true⟩]) by decide)
  obtain ⟨heap₂, ht₂, hbuffer⟩ := ht₁.kmalloc_some (n := BitVec.ofNat 64 (4 * ((2072 - 25) * 2048))) (by decide)
    (show firstFit _ _ _ = some (0x1000160, [⟨328, false⟩, ⟨16769024, false⟩, ⟨7792, true⟩]) by decide)
  have hcells : kmalloc 4 heap₂ (BitVec.ofNat 64 (wideWindow.rows * wideWindow.cols)) = some (0, _) :=
    ht₂.kmalloc_none (by decide) (by decide) (by decide)
  refine ⟨_, _, heap₁, heap₂, _, hwin 2 (by decide), hbuffer 3 (by decide), by decide, hcells, fun hall => ?_⟩
  obtain ⟨s, hrun, -⟩ := hall []
  have hrefused : shellSetWindow wideWindow 0 (fun _ => 0) (fun _ => 0) = none := if_pos rfl
  rw [hrefused] at hrun
  exact nomatch hrun

end ZohoOs
