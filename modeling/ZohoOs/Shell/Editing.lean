/-
  ZohoOs.Shell.Editing — the line that is typed (shell.c).

  `shell_input` keeps the line in `input_buffer` and shows it through
  `shell_putchar`.  The two go different ways where a line is erased: the
  buffer gives its last character back, and the terminal does not go back to
  the line above.

  Main results:
    * `EditInv.type`, `EditInv.erase` — what a key keeps;
    * `line_editing_iff` — the screen shows the line all along a run exactly if
      nothing is erased at the start of a row, and the first row of the line
      does not leave the screen.
-/
import ZohoOs.Lib.Transition
import ZohoOs.Shell.Terminal

namespace ZohoOs

open ZohoOs.Lib

/-! ## §1. `shell_input`. -/

/-- The terminal, and `input_buffer` up to `buffer_idx`. -/
structure ShellLine where
  term : Terminal
  input : Text

def maxBuffer : Nat := 256

/-- `shell_input`; `execute` is what `shell_execute` does to the terminal. -/
def shellInput (execute : Text → Terminal → Terminal) (s : ShellLine) (c : BitVec 8) : ShellLine :=
  if c = newline ∨ c = carriageReturn then
    let term := s.term.putchar newline
    ⟨if s.input.length > 0 then execute s.input term else term.print prompt, []⟩
  else if c = backspace then
    if s.input.length > 0 then ⟨s.term.putchar backspace, s.input.dropLast⟩ else s
  else if s.input.length < maxBuffer - 1 then ⟨s.term.putchar c, s.input ++ [c]⟩
  else s

/-- The printable characters. -/
def Printable (c : BitVec 8) : Prop := 0x20 ≤ c.toNat ∧ c.toNat ≤ 0x7E

/-- A printable character or a backspace is typed. -/
def editStep (execute : Text → Terminal → Terminal) (s : ShellLine) (c : BitVec 8) (s' : ShellLine) : Prop :=
  (Printable c ∨ c = backspace) ∧ s' = shellInput execute s c

/-! ## §2. What the screen shows. -/

/-- The place of the cursor, counted from the first line that was ever shown. -/
def Terminal.place (t : Terminal) : Nat := t.scrolled * t.cols + t.cursor

/-- Where the cell that was at `place` is now; the first one of the grid, if it
    has left it. -/
def Terminal.cellOf (t : Terminal) (place : Nat) : Nat := place - t.scrolled * t.cols

/-- **The characters shown behind the prompt**, in reading order: the prompt
    ends at `place`, and the cursor stands behind the last of them. -/
def Terminal.shownFrom (t : Terminal) (place : Nat) : Text :=
  (List.range (t.cursor - t.cellOf place)).map fun k => t.cells (t.cellOf place + k)

/-- **The screen shows the line.** -/
def ShowsLine (place : Nat) (s : ShellLine) : Prop := s.term.shownFrom place = s.input

/-- The first character behind the prompt is still on the screen. -/
structure EditInv (place : Nat) (s : ShellLine) : Prop where
  inGrid : s.term.InGrid
  onScreen : s.term.scrolled * s.term.cols ≤ place
  before : place ≤ s.term.place
  shows : ShowsLine place s

/-- **A key that fits**: no backspace takes a character of the line at the start
    of a row, and no character moves the row with the end of the prompt out of
    the screen. -/
def KeyFits (place : Nat) (s : ShellLine) (c : BitVec 8) : Prop :=
  if c = backspace then s.input.length > 0 → s.term.col > 0
  else s.input.length < maxBuffer - 1 → s.term.AtEnd → s.term.cols ≤ s.term.cellOf place

/-! ## §3. One key. -/

section Key

variable {execute : Text → Terminal → Terminal} {place : Nat} {s s' : ShellLine} {c : BitVec 8}

theorem shownFrom_length (t : Terminal) (place : Nat) :
    (t.shownFrom place).length = t.cursor - t.cellOf place := by
  unfold Terminal.shownFrom
  rw [List.length_map, List.length_range]

/-- One more cell is shown. -/
theorem shownFrom_snoc {t t' : Terminal} {c : BitVec 8} (hlen : t'.cursor - t'.cellOf place = t.cursor - t.cellOf place + 1)
    (hsame : ∀ k < t.cursor - t.cellOf place, t'.cells (t'.cellOf place + k) = t.cells (t.cellOf place + k))
    (hlast : t'.cells (t'.cellOf place + (t.cursor - t.cellOf place)) = c) :
    t'.shownFrom place = t.shownFrom place ++ [c] := by
  unfold Terminal.shownFrom
  rw [hlen, List.range_succ, List.map_append, List.map_singleton, hlast]
  congr 1
  exact List.map_congr_left fun k hk => hsame k (List.mem_range.mp hk)

theorem EditInv.cell_le (h : EditInv place s) : s.term.cellOf place ≤ s.term.cursor := by
  have hbefore := h.before
  unfold Terminal.place at hbefore
  unfold Terminal.cellOf
  omega

/-- The line is as long as it is shown. -/
theorem EditInv.length (h : EditInv place s) :
    s.input.length = s.term.cursor - s.term.cellOf place := by
  have hshows : s.term.shownFrom place = s.input := h.shows
  rw [← hshows, shownFrom_length]

/-- **A character is typed.** -/
theorem EditInv.type (h : EditInv place s) (hnewline : c ≠ newline) (hback : c ≠ backspace)
    (hfits : s.term.AtEnd → s.term.cols ≤ s.term.cellOf place) :
    EditInv place ⟨s.term.putchar c, s.input ++ [c]⟩ := by
  have hcell := h.cell_le
  have hbefore := h.before
  have honScreen := h.onScreen
  have hshows : s.term.shownFrom place = s.input := h.shows
  have hset : ∀ k, k ≠ s.term.cursor → (s.term.setCell s.term.cursor c).cells k = s.term.cells k :=
    fun k hk => if_neg hk
  have hnew : (s.term.setCell s.term.cursor c).cells s.term.cursor = c := if_pos rfl
  unfold Terminal.place at hbefore
  by_cases hend : s.term.AtEnd
  · -- everything moves up by a line, and so does the prompt
    obtain ⟨hcursor, hscrolled, hcells, hcols⟩ := Terminal.putchar_atEnd hnewline hback hend
    have hmoved : (s.term.putchar c).cellOf place + s.term.cols = s.term.cellOf place := by
      have hle := hfits hend
      unfold Terminal.cellOf at hle ⊢
      rw [hscrolled, hcols, Nat.succ_mul]
      omega
    refine ⟨Terminal.putchar_inGrid h.inGrid c, ?_, ?_, ?_⟩
    · show (s.term.putchar c).scrolled * (s.term.putchar c).cols ≤ place
      have hle := hfits hend
      unfold Terminal.cellOf at hle
      rw [hscrolled, hcols, Nat.succ_mul]
      have hpos := h.inGrid.col
      omega
    · show place ≤ (s.term.putchar c).scrolled * (s.term.putchar c).cols + (s.term.putchar c).cursor
      rw [hscrolled, hcols, Nat.succ_mul]
      omega
    · show (s.term.putchar c).shownFrom place = s.input ++ [c]
      rw [← hshows]
      refine shownFrom_snoc (by omega) (fun k hk => ?_) ?_
      · rw [hcells _ (by omega), hset _ (by omega)]
        congr 1
        omega
      · have hplace : (s.term.putchar c).cellOf place + (s.term.cursor - s.term.cellOf place) +
            s.term.cols = s.term.cursor := by omega
        rw [hcells _ (by omega), hplace, hnew]
  · -- the character takes the cell under the cursor, and nothing moves
    obtain ⟨hcursor, hscrolled, hcells, hcols⟩ := Terminal.putchar_char h.inGrid hnewline hback hend
    have hstays : (s.term.putchar c).cellOf place = s.term.cellOf place := by
      unfold Terminal.cellOf
      rw [hscrolled, hcols]
    refine ⟨Terminal.putchar_inGrid h.inGrid c, ?_, ?_, ?_⟩
    · show (s.term.putchar c).scrolled * (s.term.putchar c).cols ≤ place
      rw [hscrolled, hcols]
      exact honScreen
    · show place ≤ (s.term.putchar c).scrolled * (s.term.putchar c).cols + (s.term.putchar c).cursor
      rw [hscrolled, hcols, hcursor]
      omega
    · show (s.term.putchar c).shownFrom place = s.input ++ [c]
      rw [← hshows]
      refine shownFrom_snoc (by omega) (fun k hk => ?_) ?_
      · rw [hcells, hstays, hset _ (by omega)]
      · rw [hcells, hstays, Nat.add_sub_cancel' hcell, hnew]

/-- **A character is erased**, not at the start of a row. -/
theorem EditInv.erase (h : EditInv place s) (hlen : s.input.length > 0) (hcol : s.term.col > 0) :
    EditInv place ⟨s.term.putchar backspace, s.input.dropLast⟩ := by
  obtain ⟨hcursor, hscrolled, hcells, hcols⟩ := Terminal.putchar_backspace hcol
  have hlength := h.length
  have honScreen := h.onScreen
  have hshows : s.term.shownFrom place = s.input := h.shows
  have hstays : (s.term.putchar backspace).cellOf place = s.term.cellOf place := by
    unfold Terminal.cellOf
    rw [hscrolled, hcols]
  refine ⟨Terminal.putchar_inGrid h.inGrid backspace, ?_, ?_, ?_⟩
  · show (s.term.putchar backspace).scrolled * (s.term.putchar backspace).cols ≤ place
    rw [hscrolled, hcols]
    exact honScreen
  · show place ≤ (s.term.putchar backspace).scrolled * (s.term.putchar backspace).cols +
      (s.term.putchar backspace).cursor
    rw [hscrolled, hcols]
    unfold Terminal.cellOf at hlength
    omega
  · show (s.term.putchar backspace).shownFrom place = s.input.dropLast
    -- what was shown before is one cell more
    have hsnoc : s.term.shownFrom place = (s.term.putchar backspace).shownFrom place ++
        [s.term.cells (s.term.cellOf place + ((s.term.putchar backspace).cursor - s.term.cellOf place))] := by
      refine shownFrom_snoc (by omega) (fun k hk => ?_) ?_
      · rw [hstays]
        exact (hcells _ (by omega)).symm
      · rw [hstays]
    rw [← hshows, hsnoc, List.dropLast_concat]

theorem Printable.ne (h : Printable c) : c ≠ newline ∧ c ≠ carriageReturn ∧ c ≠ backspace := by
  have hle := h.1
  refine ⟨?_, ?_, ?_⟩
  · intro heq
    rw [heq] at hle
    exact absurd hle (by decide)
  · intro heq
    rw [heq] at hle
    exact absurd hle (by decide)
  · intro heq
    rw [heq] at hle
    exact absurd hle (by decide)

/-- What a character does. -/
theorem shellInput_char (hp : Printable c) :
    shellInput execute s c =
      if s.input.length < maxBuffer - 1 then ⟨s.term.putchar c, s.input ++ [c]⟩ else s := by
  obtain ⟨hnewline, hreturn, hback⟩ := hp.ne
  unfold shellInput
  rw [if_neg fun h => h.elim hnewline hreturn, if_neg hback]

/-- What a backspace does. -/
theorem shellInput_backspace :
    shellInput execute s backspace =
      if s.input.length > 0 then ⟨s.term.putchar backspace, s.input.dropLast⟩ else s :=
  (if_neg (show ¬ (backspace = newline ∨ backspace = carriageReturn) by decide)).trans (if_pos rfl)

/-- **A key that fits** keeps the invariant. -/
theorem EditInv.step (h : EditInv place s) (hfits : KeyFits place s c) (hstep : editStep execute s c s') :
    EditInv place s' := by
  obtain ⟨hkey, rfl⟩ := hstep
  unfold KeyFits at hfits
  rcases hkey with hp | rfl
  · obtain ⟨hnewline, -, hback⟩ := hp.ne
    rw [if_neg hback] at hfits
    rw [shellInput_char hp]
    -- a full buffer takes no character, and none is shown
    by_cases hroom : s.input.length < maxBuffer - 1
    · rw [if_pos hroom]
      exact h.type hnewline hback (hfits hroom)
    · rw [if_neg hroom]
      exact h
  · rw [if_pos rfl] at hfits
    rw [shellInput_backspace]
    by_cases hlen : s.input.length > 0
    · rw [if_pos hlen]
      exact h.erase hlen (hfits hlen)
    · rw [if_neg hlen]
      exact h

/-- **A key that does not fit** shows at once. -/
theorem EditInv.break (h : EditInv place s) (hstep : editStep execute s c s') (hnot : ¬ KeyFits place s c) :
    ¬ ShowsLine place s' := by
  obtain ⟨hkey, rfl⟩ := hstep
  have hlength := h.length
  have hcell := h.cell_le
  unfold KeyFits at hnot
  rcases hkey with hp | rfl
  · obtain ⟨hnewline, -, hback⟩ := hp.ne
    rw [if_neg hback] at hnot
    obtain ⟨hroom, hnot⟩ := Classical.not_imp.mp hnot
    obtain ⟨hend, hgone⟩ := Classical.not_imp.mp hnot
    rw [shellInput_char hp, if_pos hroom]
    obtain ⟨hcursor, hscrolled, -, hcols⟩ := Terminal.putchar_atEnd hnewline hback hend
    intro hshows
    have hlen := congrArg List.length (show (s.term.putchar c).shownFrom place = s.input ++ [c] from hshows)
    rw [shownFrom_length, List.length_append, List.length_singleton] at hlen
    -- the prompt has left the screen, and some of the line with it
    have htop : (s.term.putchar c).cellOf place = 0 := by
      unfold Terminal.cellOf at hgone ⊢
      rw [hscrolled, hcols, Nat.succ_mul]
      omega
    omega
  · rw [if_pos rfl] at hnot
    obtain ⟨hlen, hzero⟩ := Classical.not_imp.mp hnot
    -- the terminal stays as it is, and the buffer loses a character
    rw [shellInput_backspace, if_pos hlen, Terminal.putchar_backspace_zero (by omega)]
    intro hshows
    have hshort := congrArg List.length (show s.term.shownFrom place = s.input.dropLast from hshows)
    rw [shownFrom_length, List.length_dropLast] at hshort
    omega

end Key

/-! ## §4. A run. -/

/-- Behind the prompt, nothing is typed yet. -/
theorem EditInv.start {t : Terminal} (hgrid : t.InGrid) : EditInv t.place ⟨t, []⟩ := by
  refine ⟨hgrid, Nat.le_add_right _ _, Nat.le_refl _, ?_⟩
  have hnone : t.cursor - t.cellOf t.place = 0 := by
    unfold Terminal.cellOf Terminal.place
    omega
  show t.shownFrom t.place = []
  unfold Terminal.shownFrom
  rw [hnone]
  rfl

/-- **Line editing.**  Take any terminal with the cursor behind a prompt, and
    any characters and backspaces that are typed there.  The screen shows the
    line all the time exactly if every key fits. -/
theorem line_editing_iff {execute : Text → Terminal → Terminal} {t : Terminal} (hgrid : t.InGrid)
    {tr : List (Transition ShellLine (BitVec 8))} {s : ShellLine} (hrun : Run (editStep execute) ⟨t, []⟩ tr s) :
    (∀ x ∈ tr, ShowsLine t.place x.2.2) ↔ ∀ x ∈ tr, KeyFits t.place x.1 x.2.1 := by
  -- a key that does not fit shows at once, so that nothing is hidden by later keys
  exact hrun.always_iff (fun _ _ _ hinv hfits hstep => hinv.step hfits hstep) (fun _ hinv => hinv.shows)
    (fun _ _ _ hinv hstep hnot => hinv.break hstep hnot) (EditInv.start hgrid)

/-! ## §5. The terminal window. -/

/-- The terminal of the window of 600 by 400, with the prompt. -/
def shellTerm : Terminal := (Terminal.blank 46 75).print prompt

theorem shellTerm_inGrid : shellTerm.InGrid :=
  Terminal.print_inGrid (Terminal.blank_inGrid (by decide) (by decide)) prompt

/-- The line after these keys; no command is run. -/
def typed (keys : Text) : ShellLine := keys.foldl (shellInput fun _ t => t) ⟨shellTerm, []⟩

theorem typed_step (keys : Text) {c : BitVec 8} (hc : Printable c ∨ c = backspace) :
    editStep (fun _ t => t) (typed keys) c (typed (keys ++ [c])) :=
  ⟨hc, List.foldl_append⟩

/-- `'a'`. -/
def letterA : BitVec 8 := 0x61

theorem letterA_printable : Printable letterA := by
  unfold Printable
  decide

/-- The run of so many letters. -/
theorem typed_run (n : Nat) : ∃ tr, Run (editStep fun _ t => t) ⟨shellTerm, []⟩ tr (typed (List.replicate n letterA)) := by
  induction n with
  | zero => exact ⟨[], .nil _⟩
  | succ n ih =>
    obtain ⟨tr, hrun⟩ := ih
    rw [List.replicate_succ']
    exact ⟨_, hrun.snoc (typed_step _ (.inl letterA_printable))⟩

/-- A letter, right behind the prompt. -/
theorem line_editing_letter : ShowsLine shellTerm.place (typed [letterA]) := by
  have hrun : Run (editStep fun _ t => t) (typed []) [(typed [], letterA, typed [letterA])] (typed [letterA]) :=
    (Run.nil _).snoc (typed_step [] (.inl letterA_printable))
  have hall := (line_editing_iff shellTerm_inGrid hrun).mpr fun x hx => by
    rw [List.mem_singleton.mp hx]
    intro _ hend
    exact absurd hend (by decide)
  exact hall _ (List.mem_singleton_self _)

/-- The first row behind the prompt filled with letters, and the last one erased. -/
def erasedAtWrap : ShellLine := typed (List.replicate 69 letterA ++ [backspace])

theorem erasedAtWrap_input : erasedAtWrap.input = List.replicate 68 letterA := by decide +kernel

/-- The cursor was in column 0 of the next row already, and stayed there. -/
theorem erasedAtWrap_shown : erasedAtWrap.term.shownFrom shellTerm.place = List.replicate 69 letterA := by
  decide +kernel

/-- **Erased, and still shown**: 68 letters are left in the buffer, and 69 on
    the screen. -/
theorem erased_still_shown :
    (∃ tr, Run (editStep fun _ t => t) ⟨shellTerm, []⟩ tr erasedAtWrap) ∧
      ¬ ShowsLine shellTerm.place erasedAtWrap := by
  constructor
  · obtain ⟨tr, hrun⟩ := typed_run 69
    exact ⟨_, hrun.snoc (typed_step _ (.inr rfl))⟩
  · intro hshows
    have hlen := congrArg List.length
      (show erasedAtWrap.term.shownFrom shellTerm.place = erasedAtWrap.input from hshows)
    rw [erasedAtWrap_shown, erasedAtWrap_input, List.length_replicate, List.length_replicate] at hlen
    omega

end ZohoOs
