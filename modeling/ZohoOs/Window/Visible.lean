/-
  ZohoOs.Window.Visible — which windows the manager sees.

  Painting and hit testing work on a snapshot of the window list, and the
  snapshot has room for 16 windows.  The list has no such bound: windows are
  linked in front of it as long as `kmalloc` serves them, so what falls off
  the snapshot are the windows at the back, the oldest or the longest not
  raised.

  Main results:
    * `seesAll_iff` — every window is painted, and every press and every move
      goes to the frontmost window under the mouse, exactly as long as the
      list has at most 16 windows;
    * `seventeen_windows_unseen` — 17 windows, created one after the other.
-/
import ZohoOs.Window.Damage

namespace ZohoOs

open ZohoOs.Lib

/-! ## §1. What the manager should see. -/

/-- The frontmost window of the list with the point in it. -/
def Desktop.frontmost (d : Desktop) (l : List Word) (mx my : BitVec 32) : Option Word :=
  l.find? fun w => (d.windows.window w).snapshot.hit mx my

/-- The windows of a snapshot in the order in which a rectangle is redrawn. -/
def paintOrder (held : List (Word × WindowSnapshot)) : List (Word × WindowSnapshot) := held.reverse

/-- **Every window of the list is visible to the manager.** -/
structure Desktop.SeesAll (d : Desktop) (l : List Word) : Prop where
  /-- `window_draw_all` paints every window, from the back to the front. -/
  paints : ∀ rects, rects ≠ [] → ∃ held cursor d',
    { d with dirtyRects := rects }.drawSnapshot = some (some (rects, held, cursor), d') ∧
      paintOrder held = l.reverse.map fun w => (w, (d.windows.window w).snapshot)
  /-- A press, with nothing being dragged, is on the frontmost window. -/
  presses : ∀ mx my mb win, leftDown mb = true → d.draggingWindow = 0 →
    d.frontmost l mx my = some win →
      ∃ p d', d.updateSnapshot mx my mb = some (p, d') ∧ (Desktop.pressHit p).win = win
  /-- So is a move. -/
  moves : ∀ mx my mb win, d.mouseMoved mx my = true → d.frontmost l mx my = some win →
    ∃ p d', d.updateSnapshot mx my mb = some (p, d') ∧
      (Desktop.moveHit p (d'.mouseMoved mx my)).win = win

section Snapshots

variable {d : Desktop} {l : List Word} {held : List (Word × WindowSnapshot)} {mx my : BitVec 32}

/-- A rectangle is redrawn in the paint order. -/
theorem redrawRect_paintOrder (g : Graphics) (mem : Mem) (held : List (Word × WindowSnapshot)) (rect : Rect) :
    redrawRect g mem (held.map Prod.snd) rect =
      (paintOrder held).foldl (fun g win => drawWindowSnapshotClipped g mem rect win.2)
        (graphicsClearRect g rect.x rect.y rect.w rect.h desktopColor) := by
  unfold redrawRect paintOrder
  rw [← List.map_reverse, List.foldl_map]

/-! ## §2. What the snapshots are. -/

/-- The windows of a snapshot of the first `n` windows. -/
def Desktop.seen (d : Desktop) (n : Nat) (l : List Word) : List (Word × WindowSnapshot) :=
  (l.take n).map fun w => (w, (d.windows.window w).snapshot)

theorem length_seen (n : Nat) : (d.seen n l).length = min n l.length := by
  unfold Desktop.seen
  rw [List.length_map, List.length_take]

/-- Searching a snapshot is searching the windows it was taken of. -/
theorem find?_seen (n : Nat) :
    ((d.seen n l).find? fun win => win.2.hit mx my) =
      (d.frontmost (l.take n) mx my).map fun w => (w, (d.windows.window w).snapshot) := by
  unfold Desktop.seen Desktop.frontmost
  rw [List.find?_map]
  rfl

theorem findWindowHit_win :
    (findWindowHit held mx my).win = ((held.find? fun win => win.2.hit mx my).map Prod.fst).getD 0 := by
  unfold findWindowHit
  cases held.find? fun win => win.2.hit mx my with
  | none => rfl
  | some win =>
    show (if my.slt (win.2.y + windowTitleHeight) then (⟨win.1, _, _, _, _⟩ : WindowHit) else _).win = win.1
    split <;> rfl

/-- **A hit in a snapshot of the whole list** is on the frontmost window. -/
theorem findWindowHit_frontmost {n : Nat} {win : Word} (hlen : l.length ≤ n)
    (hf : d.frontmost l mx my = some win) : (findWindowHit (d.seen n l) mx my).win = win := by
  rw [findWindowHit_win, find?_seen, List.take_of_length_le hlen, hf]
  rfl

theorem drawSnapshot_seen (hl : d.IsList l) (hp : ∀ w ∈ l, d.Present w) {rects : List Rect}
    (hr : rects ≠ []) :
    ∃ cursor d', { d with dirtyRects := rects }.drawSnapshot =
      some (some (rects, d.seen maxSnapshots l, cursor), d') := by
  let d₁ : Desktop := { d with dirtyRects := [] }
  have hrun : Desktop.snapshotWindowList maxSnapshots d₁ d₁.windows.windowList = _ :=
    snapshot_taken (d := d₁) maxSnapshots hl hp
  refine ⟨cursorRect (d₁.retainAll (l.take maxSnapshots)).cursorX
    (d₁.retainAll (l.take maxSnapshots)).cursorY, d₁.retainAll (l.take maxSnapshots), ?_⟩
  unfold Desktop.drawSnapshot
  rw [if_neg hr]
  show (Desktop.snapshotWindowList maxSnapshots d₁ d₁.windows.windowList).bind _ = _
  rw [hrun, Option.bind_some]
  rfl

theorem updateSnapshot_seen (hl : d.IsList l) (hp : ∀ w ∈ l, d.Present w) (mx my : BitVec 32)
    (mb : BitVec 8) :
    ∃ d', d.updateSnapshot mx my mb =
        some (⟨mx, my, mb, d.cursorInitialized, d.draggingWindow, d.seen maxSnapshots l⟩, d') ∧
      d'.mouseMoved mx my = d.mouseMoved mx my := by
  -- placing the cursor for the first time leaves the windows alone
  let d₁ : Desktop :=
    if !d.cursorInitialized then { d with cursorInitialized := true, cursorX := mx, cursorY := my }
    else d
  have hcases : d₁ = d ∨ d₁ = { d with cursorInitialized := true, cursorX := mx, cursorY := my } := by
    show (if _ then _ else _) = d ∨ (if _ then _ else _) = _
    split
    · exact .inr rfl
    · exact .inl rfl
  have hwin : d₁.windows = d.windows := by rcases hcases with he | he <;> rw [he]
  have hhist : d₁.history = d.history := by rcases hcases with he | he <;> rw [he]
  have hdrag : d₁.draggingWindow = d.draggingWindow := by rcases hcases with he | he <;> rw [he]
  have hmoved : d₁.mouseMoved mx my = d.mouseMoved mx my := by
    rcases hcases with he | he <;> rw [he]
    rfl
  have hl₁ : d₁.IsList l := by
    unfold Desktop.IsList
    rw [hwin]
    exact hl
  have hp₁ : ∀ w ∈ l, d₁.Present w := by
    intro w hw
    unfold Desktop.Present
    rw [hhist]
    exact hp w hw
  have hrun : Desktop.snapshotWindowList maxSnapshots d₁ d₁.windows.windowList =
      some (d₁.seen maxSnapshots l, d₁.retainAll (l.take maxSnapshots)) :=
    snapshot_taken maxSnapshots hl₁ hp₁
  have hseen : d₁.seen maxSnapshots l = d.seen maxSnapshots l := by
    unfold Desktop.seen
    rw [hwin]
  have hview := SameView.of_forget (forget_retainAll (d := d₁) (l.take maxSnapshots))
  refine ⟨d₁.retainAll (l.take maxSnapshots), ?_, ?_⟩
  · show (Desktop.snapshotWindowList maxSnapshots d₁ d₁.windows.windowList).bind _ = _
    rw [hrun, Option.bind_some, hseen]
    show some ((⟨mx, my, mb, _, d₁.draggingWindow, _⟩ : PendingUpdate), _) = _
    rw [hdrag]
  · rw [← hmoved]
    unfold Desktop.mouseMoved
    rw [hview.lastMx, hview.lastMy]

/-! ## §3. Main result. -/

/-- A snapshot of all the windows has them all. -/
theorem seesAll_of_length (hl : d.IsList l) (hp : ∀ w ∈ l, d.Present w) (hlen : l.length ≤ 16) :
    d.SeesAll l := by
  constructor
  · intro rects hr
    obtain ⟨cursor, d', hrun⟩ := drawSnapshot_seen hl hp hr
    refine ⟨_, cursor, d', hrun, ?_⟩
    show (d.seen maxSnapshots l).reverse = _
    unfold Desktop.seen
    rw [List.take_of_length_le (show l.length ≤ maxSnapshots from hlen), ← List.map_reverse]
  · intro mx my mb win hdown hdrag hf
    obtain ⟨d', hrun, -⟩ := updateSnapshot_seen hl hp mx my mb
    refine ⟨_, d', hrun, ?_⟩
    unfold Desktop.pressHit
    rw [hdown, hdrag, if_pos (by simp)]
    exact findWindowHit_frontmost hlen hf
  · intro mx my mb win hmoved hf
    obtain ⟨d', hrun, hsame⟩ := updateSnapshot_seen hl hp mx my mb
    refine ⟨_, d', hrun, ?_⟩
    unfold Desktop.moveHit
    rw [hsame, hmoved, if_pos rfl]
    exact findWindowHit_frontmost hlen hf

/-- The windows behind the sixteenth are not painted. -/
theorem length_of_seesAll (hl : d.IsList l) (hp : ∀ w ∈ l, d.Present w) (h : d.SeesAll l) :
    l.length ≤ 16 := by
  have hr : [(⟨0, 0, 0, 0⟩ : Rect)] ≠ [] := List.cons_ne_nil _ _
  obtain ⟨held, cursor, d', hrun, hpaint⟩ := h.paints _ hr
  obtain ⟨cursor₁, d₁, hrun₁⟩ := drawSnapshot_seen hl hp hr
  rw [hrun₁] at hrun
  simp only [Option.some.injEq, Prod.mk.injEq] at hrun
  obtain ⟨⟨-, hheld, -⟩, -⟩ := hrun
  have hlen := congrArg List.length hpaint
  rw [← hheld] at hlen
  unfold paintOrder at hlen
  rw [List.length_reverse, length_seen, List.length_map, List.length_reverse] at hlen
  have hmax : maxSnapshots = 16 := rfl
  omega

/-- **All windows are visible to the manager exactly as long as there are at
    most 16.** -/
theorem seesAll_iff (hl : d.IsList l) (hp : ∀ w ∈ l, d.Present w) : d.SeesAll l ↔ l.length ≤ 16 :=
  ⟨length_of_seesAll hl hp, seesAll_of_length hl hp⟩

/-- One window on the desktop. -/
theorem seesAll_iff_once : firstWindow.SeesAll [0x1000018] ↔ [(0x1000018 : Word)].length ≤ 16 :=
  seesAll_iff ⟨rfl, by decide, rfl⟩ fun w hw => by
    rw [List.mem_singleton.mp hw]
    show WindowStatus.live ≠ .absent
    decide

end Snapshots

/-! ## §4. Seventeen windows. -/

/-- Where `kmalloc` puts the windows, one behind the other. -/
def windowBlock (i : Nat) : Word := BitVec.ofNat 64 (0x1000018 + 0x160 * i)

/-- `n` windows are created, the first one at the back. -/
def windowRow (screen : Rect) : Nat → WindowSystem
  | 0 => bootWindows screen fun _ => blankWindow
  | n + 1 =>
      { windowRow screen n with
        desk := (windowRow screen n).desk.windowCreate screen (windowBlock n) 0 0 100 100 0 }

theorem toNat_windowBlock {i : Nat} (hi : i < 50) : (windowBlock i).toNat = 0x1000018 + 0x160 * i := by
  unfold windowBlock
  rw [BitVec.toNat_ofNat]
  omega

theorem windowBlock_ne {i j : Nat} (hij : i < j) (hj : j < 50) : windowBlock i ≠ windowBlock j := by
  intro he
  have hn := congrArg BitVec.toNat he
  rw [toNat_windowBlock (by omega), toNat_windowBlock hj] at hn
  omega

theorem windowBlock_ne_null {i : Nat} (hi : i < 50) : windowBlock i ≠ 0 := by
  intro he
  have hn := congrArg BitVec.toNat he
  rw [toNat_windowBlock hi] at hn
  simp at hn

/-- The next block is free. -/
theorem windowRow_absent (screen : Rect) {n k : Nat} (hnk : n ≤ k) (hk : k < 50) :
    windowStatus (windowRow screen n).desk.history (windowBlock k) = .absent := by
  induction n with
  | zero => rfl
  | succ n ih =>
    show windowStatus (if windowBlock n = 0 then _ else .created (windowBlock n) :: _) _ = _
    rw [if_neg (windowBlock_ne_null (by omega))]
    show (if windowBlock k = windowBlock n then _ else _) = _
    rw [if_neg fun he => windowBlock_ne (show n < k by omega) hk he.symm]
    exact ih (by omega)

/-- **The row is reached**, and no `kmalloc` failed. -/
theorem windowRow_reached (screen : Rect) {n : Nat} (hn : n ≤ 50) :
    ∃ tr l, Run (SectionStep screen) (bootWindows screen fun _ => blankWindow) tr (windowRow screen n) ∧
      (∀ x ∈ tr, x.1.Meets x.2.1) ∧ (windowRow screen n).Inv l ∧ l.length = n := by
  induction n with
  | zero =>
    refine ⟨[], [], Run.nil _, fun x hx => ?_, bootWindows_inv screen _, rfl⟩
    cases hx
  | succ n ih =>
    obtain ⟨tr, l, hrun, hm, hinv, hlen⟩ := ih (by omega)
    have hne : windowBlock n ≠ 0 := windowBlock_ne_null (by omega)
    have habs := windowRow_absent screen (Nat.le_refl n) (show n < 50 by omega)
    have hstep : SectionStep screen (windowRow screen n) (.create (windowBlock n) 0 0 100 100 0)
        (windowRow screen (n + 1)) := ⟨.inr habs, 0, fun _ _ => rfl⟩
    refine ⟨_, windowBlock n :: l, hrun.snoc hstep, fun x hx => ?_, ⟨?_, hinv.nodup⟩, ?_⟩
    · rcases List.mem_append.mp hx with hx | hx
      · exact hm x hx
      · rw [List.mem_singleton.mp hx]
        exact hne
    · exact windowCreate_spec screen hinv.tracked hne habs 0 0 100 100 0
    · rw [List.length_cons, hlen]

/-- **The first of 17 windows is never painted.** -/
theorem seventeen_windows_unseen :
    ∃ tr s l, Run (SectionStep ⟨0, 0, 1024, 768⟩)
        (bootWindows ⟨0, 0, 1024, 768⟩ fun _ => blankWindow) tr s ∧
      (∀ x ∈ tr, x.1.Meets x.2.1) ∧ s.desk.IsList l ∧ l.length = 17 ∧ ¬ s.desk.SeesAll l := by
  obtain ⟨tr, l, hrun, hm, hinv, hlen⟩ := windowRow_reached ⟨0, 0, 1024, 768⟩ (show 17 ≤ 50 by decide)
  refine ⟨tr, _, l, hrun, hm, hinv.tracked.chain, hlen, fun h => ?_⟩
  have hle := length_of_seesAll hinv.tracked.chain (fun w hw => hinv.tracked.present_of_mem hw) h
  omega

end ZohoOs
