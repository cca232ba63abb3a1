/-
  ZohoOs.Window.Draw — drawing the desktop (window.c).

  `window_draw_all` clears every dirty rectangle, draws the windows into it
  back to front, and draws the cursor over the result when a rectangle meets
  it.  `desktopLayer` is the picture the desktop should show, stated without
  rectangles: the windows front to back over the desktop colour.

  Main results:
    * `painted_window` — drawing a window clipped to a rectangle paints the
      part of its layer inside the rectangle;
    * `dirty_redraw_eq_full_redraw` — redrawing a list of rectangles gives
      every pixel of theirs what redrawing the whole screen gives it.
-/
import ZohoOs.Graphics.Basic
import ZohoOs.Window.Basic

namespace ZohoOs

open ZohoOs.Lib

/-! ## §1. The drawing functions. -/

/-- `DESKTOP_COLOR`. -/
def desktopColor : BitVec 32 := 0xFF112233

/-- `WINDOW_TITLE_HEIGHT`. -/
def windowTitleHeight : BitVec 32 := 25

/-- `WINDOW_SHADOW_OFFSET`. -/
def windowShadowOffset : BitVec 32 := 5

/-- `window_snapshot_t`. -/
structure WindowSnapshot where
  x : BitVec 32
  y : BitVec 32
  w : BitVec 32
  h : BitVec 32
  titleColor : BitVec 32
  bgColor : BitVec 32
  buffer : Word
  deriving DecidableEq

/-- The fields that a snapshot copies. -/
def Window.snapshot (win : Window) : WindowSnapshot :=
  ⟨win.x, win.y, win.w, win.h, win.titleColor, win.bgColor, win.buffer⟩

/-- `draw_rect_clipped`. -/
def drawRectClipped (g : Graphics) (clip : Rect) (x y w h color : BitVec 32) : Graphics :=
  match rectIntersect clip ⟨x, y, w, h⟩ with
  | none => g
  | some intersection =>
      graphicsDrawRect g intersection.x intersection.y intersection.w intersection.h color

/-- `draw_window_buffer_clipped`; the window's buffer is read from `mem`. -/
def drawWindowBufferClipped (g : Graphics) (mem : Mem) (clip : Rect) (win : Window) : Graphics :=
  if win.buffer = 0 then
    drawRectClipped g clip win.x (win.y + windowTitleHeight) win.w (win.h - windowTitleHeight)
      win.bgColor
  else
    let body : Rect := ⟨win.x, win.y + windowTitleHeight, win.w, win.h - windowTitleHeight⟩
    match rectIntersect clip body with
    | none => g
    | some intersection =>
        let srcX := intersection.x - win.x
        let srcY := intersection.y - (win.y + windowTitleHeight)
        (List.range intersection.h.toInt.toNat).foldl
          (fun g y =>
            (List.range intersection.w.toInt.toNat).foldl
              (fun g x =>
                let index : Word := (srcY + BitVec.ofNat 32 y).signExtend 64 * win.w.setWidth 64 +
                  (srcX + BitVec.ofNat 32 x).signExtend 64
                let color := mem.load32 (win.buffer + 4 * index)
                graphicsPutPixel g (intersection.x + BitVec.ofNat 32 x)
                  (intersection.y + BitVec.ofNat 32 y) color)
              g)
          g

/-- `draw_window_clipped`. -/
def drawWindowClipped (g : Graphics) (mem : Mem) (clip : Rect) (win : Window) : Graphics :=
  let g := drawRectClipped g clip (win.x + windowShadowOffset) (win.y + windowShadowOffset)
    win.w win.h 0xAA000000
  let g := drawWindowBufferClipped g mem clip win
  let g := drawRectClipped g clip win.x win.y win.w windowTitleHeight win.titleColor
  let g := drawRectClipped g clip win.x win.y win.w 1 0xFFFFFFFF
  let g := drawRectClipped g clip win.x (win.y + win.h - 1) win.w 1 0xFFFFFFFF
  let g := drawRectClipped g clip win.x win.y 1 win.h 0xFFFFFFFF
  drawRectClipped g clip (win.x + win.w - 1) win.y 1 win.h 0xFFFFFFFF

/-- `draw_window_snapshot_clipped`.  The event queue of `temp` is not set. -/
def drawWindowSnapshotClipped (g : Graphics) (mem : Mem) (clip : Rect) (win : WindowSnapshot) :
    Graphics :=
  let temp : Window :=
    { id := 0, x := win.x, y := win.y, w := win.w, h := win.h, titleColor := win.titleColor
      bgColor := win.bgColor, buffer := win.buffer, ownerPid := 0, dirty := false
      destroyed := false, refcount := 0, eventQueue := fun _ => ⟨0, 0, 0, 0⟩
      eventHead := 0, eventTail := 0, next := 0 }
  drawWindowClipped g mem clip temp

/-- One round of the first drawing loop of `window_draw_all`. -/
def redrawRect (g : Graphics) (mem : Mem) (snapshots : List WindowSnapshot) (rect : Rect) : Graphics :=
  let g := graphicsClearRect g rect.x rect.y rect.w rect.h desktopColor
  snapshots.reverse.foldl (fun g win => drawWindowSnapshotClipped g mem rect win) g

/-- The drawing loops of `window_draw_all`.  The second one ends at the first
    rectangle that meets the cursor. -/
def drawDesktop (g : Graphics) (mem : Mem) (redraw : List Rect) (snapshots : List WindowSnapshot)
    (cursor : Rect) : Graphics :=
  let g := redraw.foldl (fun g rect => redrawRect g mem snapshots rect) g
  if redraw.any fun rect => (rectIntersect rect cursor).isSome then
    graphicsDrawCursor g cursor.x cursor.y
  else g

/-- `cursor_rect`. -/
def cursorRect (x y : BitVec 32) : Rect := ⟨x, y, 10, 15⟩

/-- `screen_rect`. -/
def screenRect (g : Graphics) : Rect := ⟨0, 0, g.fbWidth, g.fbHeight⟩

/-! ## §2. What the desktop should show. -/

namespace WindowSnapshot

variable (s : WindowSnapshot)

/-- The drawing of the window does not overflow. -/
structure NoOverflow : Prop where
  w : 0 ≤ s.w.toInt
  h : 0 ≤ s.h.toInt
  left : -2147483648 < s.x.toInt + s.w.toInt
  right : s.x.toInt + s.w.toInt + 5 < 2147483648
  top : -2147483648 < s.y.toInt + s.h.toInt
  bottom : s.y.toInt + s.h.toInt + 5 < 2147483648
  title : s.y.toInt + 25 < 2147483648

def shadowRect : Rect := ⟨s.x + windowShadowOffset, s.y + windowShadowOffset, s.w, s.h⟩
def bodyRect : Rect := ⟨s.x, s.y + windowTitleHeight, s.w, s.h - windowTitleHeight⟩
def titleRect : Rect := ⟨s.x, s.y, s.w, windowTitleHeight⟩
def topRect : Rect := ⟨s.x, s.y, s.w, 1⟩
def bottomRect : Rect := ⟨s.x, s.y + s.h - 1, s.w, 1⟩
def leftRect : Rect := ⟨s.x, s.y, 1, s.h⟩
def rightRect : Rect := ⟨s.x + s.w - 1, s.y, 1, s.h⟩

/-- The pixel in a row and column of the window's buffer. -/
def bufferPixel (mem : Mem) (row col : Nat) : BitVec 32 :=
  mem.load32 (s.buffer + 4 * BitVec.ofNat 64 (row * s.w.toNat + col))

/-- The body: the background colour, or the buffer when there is one. -/
def bodyLayer (mem : Mem) : PixelLayer :=
  if s.buffer = 0 then rectLayer s.bodyRect s.bgColor
  else fun p =>
    if s.bodyRect.Mem p.1 p.2 then
      some (s.bufferPixel mem (p.2 - s.bodyRect.y.toInt).toNat (p.1 - s.x.toInt).toNat)
    else none

/-- **A window**, front to back: borders, title bar, body, shadow. -/
def layer (mem : Mem) : PixelLayer :=
  Layer.stack
    [rectLayer s.rightRect 0xFFFFFFFF, rectLayer s.leftRect 0xFFFFFFFF,
      rectLayer s.bottomRect 0xFFFFFFFF, rectLayer s.topRect 0xFFFFFFFF,
      rectLayer s.titleRect s.titleColor, s.bodyLayer mem, rectLayer s.shadowRect 0xAA000000]

end WindowSnapshot

/-- The windows, front to back, over the desktop colour. -/
def desktopLayer (mem : Mem) (snapshots : List WindowSnapshot) : PixelLayer :=
  Layer.above (Layer.stack (snapshots.map fun s => s.layer mem)) (Layer.fill (fun _ => True) desktopColor)

/-- **What the screen should show**: the cursor over the windows over the
    desktop. -/
def compositeLayer (mem : Mem) (snapshots : List WindowSnapshot) (cursorX cursorY : BitVec 32) :
    PixelLayer :=
  Layer.above (cursorLayer cursorX cursorY) (desktopLayer mem snapshots)

/-! ## §3. Clipped drawing. -/

/-- The part of a layer inside a rectangle. -/
def clipTo (r : Rect) (L : PixelLayer) : PixelLayer := Layer.clip (fun p => r.Mem p.1 p.2) L

namespace WindowSnapshot

variable {s : WindowSnapshot}

namespace NoOverflow

theorem toInt_shadow (h : s.NoOverflow) :
    s.shadowRect.x.toInt = s.x.toInt + 5 ∧ s.shadowRect.y.toInt = s.y.toInt + 5 := by
  obtain ⟨hw, hh, -, hr, -, hb, -⟩ := h
  have hx := isInt32_toInt s.x
  have hy := isInt32_toInt s.y
  unfold IsInt32 at hx hy
  have h5 : windowShadowOffset.toInt = 5 := rfl
  constructor
  · show (s.x + windowShadowOffset).toInt = _
    rw [toInt_add_of (by rw [h5]; unfold IsInt32; omega), h5]
  · show (s.y + windowShadowOffset).toInt = _
    rw [toInt_add_of (by rw [h5]; unfold IsInt32; omega), h5]

theorem toInt_body (h : s.NoOverflow) :
    s.bodyRect.y.toInt = s.y.toInt + 25 ∧ s.bodyRect.h.toInt = s.h.toInt - 25 := by
  obtain ⟨-, hh, -, -, -, -, ht⟩ := h
  have hy := isInt32_toInt s.y
  have hh' := isInt32_toInt s.h
  unfold IsInt32 at hy hh'
  have h25 : windowTitleHeight.toInt = 25 := rfl
  constructor
  · show (s.y + windowTitleHeight).toInt = _
    rw [toInt_add_of (by rw [h25]; unfold IsInt32; omega), h25]
  · show (s.h - windowTitleHeight).toInt = _
    rw [toInt_sub_of (by rw [h25]; unfold IsInt32; omega), h25]

/-- The last row or column of a window. -/
theorem toInt_last {u v : BitVec 32} (hlo : -2147483648 < u.toInt + v.toInt)
    (hhi : u.toInt + v.toInt + 5 < 2147483648) : (u + v - 1).toInt = u.toInt + v.toInt - 1 := by
  have hu := isInt32_toInt u
  unfold IsInt32 at hu
  have h1 : BitVec.toInt (1 : BitVec 32) = 1 := rfl
  have hsum : (u + v).toInt = u.toInt + v.toInt := toInt_add_of (by unfold IsInt32; omega)
  rw [toInt_sub_of (by rw [hsum, h1]; unfold IsInt32; omega), hsum, h1]

end NoOverflow

end WindowSnapshot

section Drawing

open Graphics

variable {g : Graphics} {mem : Mem} {clip : Rect} {s : WindowSnapshot}

/-- **`draw_rect_clipped`** paints the part of its rectangle inside the clip. -/
theorem painted_rectClipped (hv : g.Valid) (hc : clip.Fits) {r : Rect} (hr : r.Fits)
    (color : BitVec 32) :
    Painted g (drawRectClipped g clip r.x r.y r.w r.h color) (clipTo clip (rectLayer r color)) := by
  unfold drawRectClipped
  cases hi : rectIntersect clip r with
  | none =>
    show Painted g g _
    refine (Painted.refl g).congr fun px py _ => ?_
    show clipTo clip (rectLayer r color) _ = none
    unfold clipTo rectLayer
    rw [Layer.clip_fill]
    exact if_neg (rectIntersect_none hc hr hi)
  | some i =>
    have hint := rectIntersect_eq_some hc hr hi
    show Painted g (graphicsDrawRect g i.x i.y i.w i.h color) _
    refine (painted_drawRect hv (hint.fits hc hr) hint.w.le hint.h.le).congr fun px py _ => ?_
    unfold clipTo rectLayer
    rw [Layer.clip_fill]
    show (if clip.Mem px py ∧ r.Mem px py then some color else none) =
      if i.Mem px py then some color else none
    simp only [rectIntersect_some hc hr hi]

namespace WindowSnapshot.NoOverflow

/-- The ranges of the corner and of the size. -/
theorem ranges (s : WindowSnapshot) :
    -2147483648 ≤ s.x.toInt ∧ -2147483648 ≤ s.y.toInt ∧ s.w.toInt < 2147483648 ∧
      s.h.toInt < 2147483648 :=
  ⟨(isInt32_toInt s.x).1, (isInt32_toInt s.y).1, (isInt32_toInt s.w).2, (isInt32_toInt s.h).2⟩

theorem fits_shadow (h : s.NoOverflow) : s.shadowRect.Fits := by
  obtain ⟨hx, hy⟩ := h.toInt_shadow
  obtain ⟨hx', hy', -, -⟩ := ranges s
  obtain ⟨hw, hh, -, hr, -, hb, -⟩ := h
  constructor
  · show IsInt32 (s.shadowRect.x.toInt + s.w.toInt)
    unfold IsInt32
    omega
  · show IsInt32 (s.shadowRect.y.toInt + s.h.toInt)
    unfold IsInt32
    omega

theorem fits_body (h : s.NoOverflow) : s.bodyRect.Fits := by
  obtain ⟨hy, hbh⟩ := h.toInt_body
  obtain ⟨hx', hy', -, -⟩ := ranges s
  obtain ⟨hw, hh, -, hr, -, hb, -⟩ := h
  constructor
  · show IsInt32 (s.x.toInt + s.w.toInt)
    unfold IsInt32
    omega
  · unfold IsInt32
    omega

theorem fits_title (h : s.NoOverflow) : s.titleRect.Fits := by
  obtain ⟨hx', hy', -, -⟩ := ranges s
  obtain ⟨hw, hh, -, hr, -, hb, ht⟩ := h
  constructor
  · show IsInt32 (s.x.toInt + s.w.toInt)
    unfold IsInt32
    omega
  · show IsInt32 (s.y.toInt + 25)
    unfold IsInt32
    omega

theorem fits_top (h : s.NoOverflow) : s.topRect.Fits := by
  obtain ⟨hx', hy', -, -⟩ := ranges s
  obtain ⟨hw, hh, -, hr, -, hb, ht⟩ := h
  constructor
  · show IsInt32 (s.x.toInt + s.w.toInt)
    unfold IsInt32
    omega
  · show IsInt32 (s.y.toInt + 1)
    unfold IsInt32
    omega

theorem fits_bottom (h : s.NoOverflow) : s.bottomRect.Fits := by
  have hlast := toInt_last h.top h.bottom
  obtain ⟨hx', hy', -, -⟩ := ranges s
  obtain ⟨hw, hh, -, hr, -, hb, ht⟩ := h
  constructor
  · show IsInt32 (s.x.toInt + s.w.toInt)
    unfold IsInt32
    omega
  · show IsInt32 ((s.y + s.h - 1).toInt + 1)
    unfold IsInt32
    omega

theorem fits_left (h : s.NoOverflow) : s.leftRect.Fits := by
  obtain ⟨hx', hy', -, -⟩ := ranges s
  obtain ⟨hw, hh, -, hr, -, hb, ht⟩ := h
  constructor
  · show IsInt32 (s.x.toInt + 1)
    unfold IsInt32
    omega
  · show IsInt32 (s.y.toInt + s.h.toInt)
    unfold IsInt32
    omega

theorem fits_right (h : s.NoOverflow) : s.rightRect.Fits := by
  have hlast := toInt_last h.left h.right
  obtain ⟨hx', hy', -, -⟩ := ranges s
  obtain ⟨hw, hh, -, hr, -, hb, ht⟩ := h
  constructor
  · show IsInt32 ((s.x + s.w - 1).toInt + 1)
    unfold IsInt32
    omega
  · show IsInt32 (s.y.toInt + s.h.toInt)
    unfold IsInt32
    omega

end WindowSnapshot.NoOverflow

/-- The word that indexes a pixel of a window's buffer. -/
theorem bufferIndex_eq {u v : BitVec 32} (hu : 0 ≤ u.toInt) (hv : 0 ≤ v.toInt)
    (hw : s.w.toNat < 2147483648) :
    (u.signExtend 64 * s.w.setWidth 64 + v.signExtend 64 : Word) =
      BitVec.ofNat 64 (u.toNat * s.w.toNat + v.toNat) := by
  have h := toNat_wideIndex (k := 0) hu hv hw (by decide)
  rw [BitVec.add_zero, Nat.add_zero] at h
  rw [← h, BitVec.ofNat_toNat, BitVec.setWidth_eq]

/-- An offset into the part of a rectangle that is drawn, measured from the
    corner of the rectangle. -/
theorem toInt_source {u v : BitVec 32} {k : Nat} (hle : v.toInt ≤ u.toInt)
    (hlt : u.toInt + k < v.toInt + 2147483648) :
    (u - v + BitVec.ofNat 32 k).toInt = u.toInt + k - v.toInt := by
  have hsub : (u - v).toInt = u.toInt - v.toInt := toInt_sub_of (by unfold IsInt32; omega)
  have hk : (BitVec.ofNat 32 k).toInt = k := toInt_ofNat_of_lt (by omega)
  rw [toInt_add_of (by rw [hsub, hk]; unfold IsInt32; omega), hsub, hk]
  omega

variable (mem) in
/-- **`draw_window_buffer_clipped`** paints the part of the body inside the
    clip. -/
theorem painted_bufferClipped (hv : g.Valid) (hc : clip.Fits) {win : Window}
    (hs : win.snapshot.NoOverflow) :
    Painted g (drawWindowBufferClipped g mem clip win) (clipTo clip (win.snapshot.bodyLayer mem)) := by
  have hbody := hs.fits_body
  unfold drawWindowBufferClipped WindowSnapshot.bodyLayer
  by_cases hb : win.buffer = 0
  · rw [if_pos hb, if_pos (show win.snapshot.buffer = 0 from hb)]
    exact painted_rectClipped hv hc hbody win.bgColor
  rw [if_neg hb, if_neg (show ¬ win.snapshot.buffer = 0 from hb)]
  show Painted g (match rectIntersect clip win.snapshot.bodyRect with | none => g | some i => _) _
  cases hi : rectIntersect clip win.snapshot.bodyRect with
  | none =>
    -- nothing of the window's area is in the clip, and nothing is painted
    refine (Painted.refl g).congr fun px py _ => ?_
    by_cases hmem : clip.Mem px py
    · rw [clipTo, Layer.clip_of_mem (p := ((px : Int), (py : Int))) hmem]
      exact if_neg fun hmem' => rectIntersect_none hc hbody hi ⟨hmem, hmem'⟩
    · exact Layer.clip_of_notMem hmem
  | some i =>
    have hint := rectIntersect_eq_some hc hbody hi
    have hiff : ∀ px py, i.Mem px py ↔ clip.Mem px py ∧ win.snapshot.bodyRect.Mem px py :=
      fun px py => rectIntersect_some hc hbody hi
    have hif := hint.fits hc hbody
    obtain ⟨hx, hy, hright, hbottom, hw, hh⟩ := hint
    have hwn := toInt_eq_toNat_of_nonneg hw.le
    have hhn := toInt_eq_toNat_of_nonneg hh.le
    have hbw := isInt32_toInt win.snapshot.bodyRect.w
    have hbh := isInt32_toInt win.snapshot.bodyRect.h
    have hwlt : win.w.toNat < 2147483648 := by
      have hlt := (isInt32_toInt win.w).2
      have hnat := toInt_eq_toNat_of_nonneg (show 0 ≤ win.w.toInt from hs.w)
      omega
    unfold IsInt32 at hbw hbh
    -- what the loop paints, pixel by pixel: the buffer seen through `i`
    let L : PixelLayer := fun p =>
      if i.Mem p.1 p.2 then
        some (win.snapshot.bufferPixel mem (p.2 - win.snapshot.bodyRect.y.toInt).toNat
          (p.1 - win.x.toInt).toNat)
      else none
    -- over the clip, `i` is the window's area
    suffices hL : Painted g _ L from hL.congr fun px py _ => by
      show clipTo clip _ _ = L (px, py)
      by_cases hmem : clip.Mem px py
      · rw [clipTo, Layer.clip_of_mem (p := ((px : Int), (py : Int))) hmem]
        show (if win.snapshot.bodyRect.Mem px py then _ else none) = if i.Mem px py then _ else none
        simp only [hiff, hmem, true_and]
        rfl
      · have hni : ¬ i.Mem px py := fun h => hmem ((hiff px py).mp h).1
        rw [clipTo, Layer.clip_of_notMem (p := ((px : Int), (py : Int))) hmem]
        exact (if_neg hni).symm
    -- the loop of the source is a walk over the grid of `i`, row by row
    have hrows : i.h.toInt.toNat = i.h.toNat := by omega
    have hcols : i.w.toInt.toNat = i.w.toNat := by omega
    let paint : Graphics → Nat → Nat → Graphics := fun g y x =>
      graphicsPutPixel g (i.x + BitVec.ofNat 32 x) (i.y + BitVec.ofNat 32 y)
        (mem.load32 (win.buffer + 4 *
          ((i.y - win.snapshot.bodyRect.y + BitVec.ofNat 32 y).signExtend 64 * win.w.setWidth 64 +
            (i.x - win.x + BitVec.ofNat 32 x).signExtend 64 : Word)))
    show Painted g ((List.range i.h.toInt.toNat).foldl
      (fun g y => (List.range i.w.toInt.toNat).foldl (fun g x => paint g y x) g) g) L
    rw [hrows, hcols, foldl_grid paint]
    refine painted_offsets (k := fun q => mem.load32 (win.buffer + 4 *
        ((i.y - win.snapshot.bodyRect.y + BitVec.ofNat 32 q.1).signExtend 64 * win.w.setWidth 64 +
          (i.x - win.x + BitVec.ofNat 32 q.2).signExtend 64 : Word))) hv hif ?_ ?_ ?_
    · -- the offsets do not overflow
      intro q hq
      obtain ⟨hrow, hcol⟩ := mem_grid.mp hq
      omega
    · intro q hq
      obtain ⟨hrow, hcol⟩ := mem_grid.mp hq
      have hmem : i.Mem (i.x.toInt + q.2) (i.y.toInt + q.1) := by
        unfold Rect.Mem
        omega
      -- the row and the column of the buffer are those that C's `int` arithmetic gives
      have hu : (i.y - win.snapshot.bodyRect.y + BitVec.ofNat 32 q.1).toInt =
          i.y.toInt + q.1 - win.snapshot.bodyRect.y.toInt := toInt_source (by omega) (by omega)
      have hbx : win.snapshot.bodyRect.x = win.x := rfl
      rw [hbx] at hx hright
      have hvx : (i.x - win.x + BitVec.ofNat 32 q.2).toInt = i.x.toInt + q.2 - win.x.toInt :=
        toInt_source (by omega) (by omega)
      show (if i.Mem (i.x.toInt + q.2) (i.y.toInt + q.1) then _ else none) = _
      rw [if_pos hmem]
      show some (win.snapshot.bufferPixel mem (i.y.toInt + (q.1 : Int) - win.snapshot.bodyRect.y.toInt).toNat
        (i.x.toInt + (q.2 : Int) - win.x.toInt).toNat) = _
      have hidx := bufferIndex_eq (s := win.snapshot) (u := i.y - win.snapshot.bodyRect.y + BitVec.ofNat 32 q.1)
        (v := i.x - win.x + BitVec.ofNat 32 q.2) (by omega) (by omega) hwlt
      have hun := toInt_eq_toNat_of_nonneg (a := i.y - win.snapshot.bodyRect.y + BitVec.ofNat 32 q.1) (by omega)
      have hvn := toInt_eq_toNat_of_nonneg (a := i.x - win.x + BitVec.ofNat 32 q.2) (by omega)
      unfold WindowSnapshot.bufferPixel
      show _ = some (mem.load32 (win.buffer + 4 * (_ * win.snapshot.w.setWidth 64 + _)))
      have hrow' : (i.y.toInt + (q.1 : Int) - win.snapshot.bodyRect.y.toInt).toNat =
          (i.y - win.snapshot.bodyRect.y + BitVec.ofNat 32 q.1).toNat := by omega
      have hcol' : (i.x.toInt + (q.2 : Int) - win.x.toInt).toNat =
          (i.x - win.x + BitVec.ofNat 32 q.2).toNat := by omega
      rw [hidx, hrow', hcol']
      rfl
    · intro p hno
      -- a pixel of `i` is reached at some offset
      apply if_neg
      intro hmem
      obtain ⟨row, col, hrow, hcol, rfl⟩ := exists_offset hmem
      exact hno (row, col) (mem_grid.mpr ⟨by omega, by omega⟩) rfl

/-! ## §4. Windows. -/

/-- **A window, clipped**: the seven drawings put over each other. -/
theorem painted_window (hv : g.Valid) (hc : clip.Fits) {win : Window}
    (hs : win.snapshot.NoOverflow) :
    Painted g (drawWindowClipped g mem clip win) (clipTo clip (win.snapshot.layer mem)) := by
  have h₁ := painted_rectClipped hv hc hs.fits_shadow 0xAA000000
  have h₂ := painted_bufferClipped mem (h₁.screen.valid hv) hc hs
  have h₁₂ := h₁.trans h₂
  have h₃ := h₁₂.trans (painted_rectClipped (h₁₂.screen.valid hv) hc hs.fits_title win.titleColor)
  have h₄ := h₃.trans (painted_rectClipped (h₃.screen.valid hv) hc hs.fits_top 0xFFFFFFFF)
  have h₅ := h₄.trans (painted_rectClipped (h₄.screen.valid hv) hc hs.fits_bottom 0xFFFFFFFF)
  have h₆ := h₅.trans (painted_rectClipped (h₅.screen.valid hv) hc hs.fits_left 0xFFFFFFFF)
  have h₇ := h₆.trans (painted_rectClipped (h₆.screen.valid hv) hc hs.fits_right 0xFFFFFFFF)
  have hlayer : clipTo clip (win.snapshot.layer mem) = _ := Layer.clip_stack _
  rw [hlayer]
  refine h₇.congr fun px py _ => ?_
  show Layer.above (clipTo clip (rectLayer win.snapshot.rightRect 0xFFFFFFFF))
    (Layer.above _ (Layer.above _ (Layer.above _ (Layer.above _ (Layer.above _ (Layer.above
      (clipTo clip (rectLayer win.snapshot.shadowRect 0xAA000000)) Layer.clear)))))) _ = _
  rw [Layer.above_clear]
  rfl

variable (mem) in
/-- Drawing windows, the last of the list first. -/
theorem painted_snapshots (hv : g.Valid) (hc : clip.Fits) {snapshots : List WindowSnapshot}
    (hs : ∀ s ∈ snapshots, s.NoOverflow) :
    Painted g (snapshots.reverse.foldl (fun g win => drawWindowSnapshotClipped g mem clip win) g)
      (clipTo clip (Layer.stack (snapshots.map fun s => s.layer mem))) := by
  induction snapshots with
  | nil =>
    refine (Painted.refl g).congr fun px py _ => ?_
    exact Layer.clip_eq_none rfl
  | cons s snapshots ih =>
    have hrest := ih fun t ht => hs t (List.mem_cons_of_mem _ ht)
    rw [List.reverse_cons, List.foldl_append]
    show Painted g (drawWindowSnapshotClipped _ mem clip s) _
    unfold clipTo
    rw [List.map_cons, Layer.stack, Layer.clip_above]
    exact hrest.trans (painted_window (hrest.screen.valid hv) hc (hs s List.mem_cons_self))

variable (mem) in
/-- **One round** paints the desktop inside the rectangle. -/
theorem painted_redrawRect (hv : g.Valid) (hc : clip.Fits) {snapshots : List WindowSnapshot}
    (hs : ∀ s ∈ snapshots, s.NoOverflow) :
    Painted g (redrawRect g mem snapshots clip) (clipTo clip (desktopLayer mem snapshots)) := by
  have hclear := painted_clearRect desktopColor hv hc
  have h := hclear.trans (painted_snapshots mem (hclear.screen.valid hv) hc hs)
  refine h.congr fun px py _ => ?_
  unfold desktopLayer clipTo
  rw [Layer.clip_above, Layer.clip_fill]
  show (Layer.clip _ _ _).or (if clip.Mem px py ∧ True then some desktopColor else none) =
    (Layer.clip _ _ _).or (if clip.Mem px py then some desktopColor else none)
  simp only [and_true]

/-- Some rectangle of the list covers the pixel. -/
def Covered (redraw : List Rect) (p : Int × Int) : Prop := ∃ r ∈ redraw, r.Mem p.1 p.2

instance (redraw : List Rect) (p : Int × Int) : Decidable (Covered redraw p) := by
  unfold Covered; infer_instance

variable (mem) in
/-- **All rounds** paint the desktop inside the rectangles, whether or not
    they overlap. -/
theorem painted_redraw (hv : g.Valid) {redraw : List Rect} (hc : ∀ r ∈ redraw, r.Fits)
    {snapshots : List WindowSnapshot} (hs : ∀ s ∈ snapshots, s.NoOverflow) :
    Painted g (redraw.foldl (fun g rect => redrawRect g mem snapshots rect) g)
      (Layer.clip (Covered redraw) (desktopLayer mem snapshots)) := by
  induction redraw generalizing g with
  | nil =>
    refine (Painted.refl g).congr fun px py _ => ?_
    apply Layer.clip_of_notMem
    rintro ⟨r, hr, -⟩
    cases hr
  | cons r redraw ih =>
    have hfirst := painted_redrawRect mem hv (hc r List.mem_cons_self) hs
    have hrest := ih (hfirst.screen.valid hv) fun t ht => hc t (List.mem_cons_of_mem _ ht)
    refine (hfirst.trans hrest).congr fun px py _ => ?_
    -- a later round gives a pixel of the first rectangle the same colour
    by_cases hlater : Covered redraw (px, py)
    · have hcov : Covered (r :: redraw) (px, py) := by
        obtain ⟨t, ht, hmem⟩ := hlater
        exact ⟨t, List.mem_cons_of_mem _ ht, hmem⟩
      show (if Covered (r :: redraw) (px, py) then desktopLayer mem snapshots (px, py) else none) =
        (if Covered redraw (px, py) then desktopLayer mem snapshots (px, py) else none).or
          (if r.Mem px py then desktopLayer mem snapshots (px, py) else none)
      rw [if_pos hcov, if_pos hlater]
      split_ifs
      · rw [Option.or_self]
      · rw [Option.or_none]
    · have hiff : Covered (r :: redraw) (px, py) ↔ r.Mem px py := by
        constructor
        · rintro ⟨t, ht, hmem⟩
          rcases List.mem_cons.mp ht with rfl | ht
          · exact hmem
          · exact absurd ⟨t, ht, hmem⟩ hlater
        · exact fun hmem => ⟨r, List.mem_cons_self, hmem⟩
      show (if Covered (r :: redraw) (px, py) then desktopLayer mem snapshots (px, py) else none) =
        (if Covered redraw (px, py) then desktopLayer mem snapshots (px, py) else none).or
          (if r.Mem px py then desktopLayer mem snapshots (px, py) else none)
      rw [if_neg hlater, Option.none_or]
      simp only [hiff]

/-! ## §5. The whole redraw. -/

/-- The cursor lies in its rectangle. -/
theorem mem_cursorRect {x y : BitVec 32} {p : Int × Int} (h : CursorPixel x y p) :
    (cursorRect x y).Mem p.1 p.2 :=
  ⟨h.2.2.1, h.2.2.2.1, h.1, h.2.1⟩

/-- The colour of a pixel of the composite. -/
def compositeColor (mem : Mem) (snapshots : List WindowSnapshot) (cursorX cursorY : BitVec 32)
    (p : Int × Int) : BitVec 32 :=
  (compositeLayer mem snapshots cursorX cursorY p).getD desktopColor

variable {redraw : List Rect} {snapshots : List WindowSnapshot} {cursorX cursorY : BitVec 32}
  {px py : Nat}

variable (mem snapshots) in
/-- The desktop covers every pixel. -/
theorem desktopLayer_ne_none (p : Int × Int) : desktopLayer mem snapshots p ≠ none := by
  unfold desktopLayer Layer.above Layer.fill
  cases Layer.stack (snapshots.map fun s => s.layer mem) p with
  | none => simp
  | some c => simp

/-- A rectangle with a pixel of the cursor in it meets the cursor. -/
theorem any_meets (hr : ∀ r ∈ redraw, r.Fits) (hcur : (cursorRect cursorX cursorY).Fits)
    (hcov : Covered redraw (px, py)) (hp : CursorPixel cursorX cursorY (px, py)) :
    (redraw.any fun rect => (rectIntersect rect (cursorRect cursorX cursorY)).isSome) = true := by
  obtain ⟨r, hmem, hr'⟩ := hcov
  rw [List.any_eq_true]
  refine ⟨r, hmem, ?_⟩
  rw [Option.isSome_iff_ne_none]
  intro hnone
  exact rectIntersect_none (hr r hmem) hcur hnone ⟨hr', mem_cursorRect hp⟩

/-- **A pixel of a redrawn rectangle** has the colour of the composite. -/
theorem pixel_drawDesktop_covered (hv : g.Valid) (hr : ∀ r ∈ redraw, r.Fits)
    (hs : ∀ s ∈ snapshots, s.NoOverflow) (hcur : (cursorRect cursorX cursorY).Fits)
    (hon : g.OnScreen px py) (hcov : Covered redraw (px, py)) :
    (drawDesktop g mem redraw snapshots (cursorRect cursorX cursorY)).pixel px py =
      compositeColor mem snapshots cursorX cursorY (px, py) := by
  have hloop := painted_redraw mem hv hr hs
  have hcursor := painted_drawCursor (hloop.screen.valid hv) hcur.right hcur.bottom
  obtain ⟨c, hc⟩ := Option.ne_none_iff_exists'.mp
    (desktopLayer_ne_none mem snapshots ((px : Int), (py : Int)))
  have hpix := hloop.pixel px py hon
  rw [Layer.clip_of_mem hcov, hc, Option.getD_some] at hpix
  have hdrawn : _ = (cursorLayer cursorX cursorY (px, py)).getD _ :=
    hcursor.pixel px py (hloop.screen.onScreen.mpr hon)
  unfold drawDesktop compositeColor compositeLayer
  by_cases hp : CursorPixel cursorX cursorY (px, py)
  · have hsome : cursorLayer cursorX cursorY (px, py) = some 0xFFFFFFFF := if_pos hp
    rw [hsome, Option.getD_some] at hdrawn
    rw [if_pos (any_meets hr hcur hcov hp), Layer.above_of_some hsome, Option.getD_some]
    exact hdrawn
  · have hnone : cursorLayer cursorX cursorY (px, py) = none := if_neg hp
    rw [hnone, Option.getD_none] at hdrawn
    rw [Layer.above_of_none hnone, hc, Option.getD_some]
    split_ifs
    · exact hdrawn.trans hpix
    · exact hpix

/-- **Outside the rectangles** only the cursor is drawn. -/
theorem pixel_drawDesktop_outside (hv : g.Valid) (hr : ∀ r ∈ redraw, r.Fits)
    (hs : ∀ s ∈ snapshots, s.NoOverflow) (hcur : (cursorRect cursorX cursorY).Fits)
    (hon : g.OnScreen px py) (hout : ¬ Covered redraw (px, py)) :
    (drawDesktop g mem redraw snapshots (cursorRect cursorX cursorY)).pixel px py = g.pixel px py ∨
    CursorPixel cursorX cursorY (px, py) ∧
      (drawDesktop g mem redraw snapshots (cursorRect cursorX cursorY)).pixel px py = 0xFFFFFFFF := by
  have hloop := painted_redraw mem hv hr hs
  have hcursor := painted_drawCursor (hloop.screen.valid hv) hcur.right hcur.bottom
  have hpix := hloop.pixel px py hon
  rw [Layer.clip_of_notMem hout, Option.getD_none] at hpix
  have hdrawn : _ = (cursorLayer cursorX cursorY (px, py)).getD _ :=
    hcursor.pixel px py (hloop.screen.onScreen.mpr hon)
  unfold drawDesktop
  split_ifs
  · by_cases hp : CursorPixel cursorX cursorY (px, py)
    · have hsome : cursorLayer cursorX cursorY (px, py) = some 0xFFFFFFFF := if_pos hp
      rw [hsome, Option.getD_some] at hdrawn
      exact .inr ⟨hp, hdrawn⟩
    · have hnone : cursorLayer cursorX cursorY (px, py) = none := if_neg hp
      rw [hnone, Option.getD_none] at hdrawn
      exact .inl (hdrawn.trans hpix)
  · exact .inl hpix

theorem fits_screenRect (hv : g.Valid) : (screenRect g).Fits := by
  have hw := toInt_of_toNat_lt hv.width
  have hh := toInt_of_toNat_lt hv.height
  have hw' := hv.width
  have hh' := hv.height
  have h0 : BitVec.toInt (0 : BitVec 32) = 0 := rfl
  constructor
  · show IsInt32 (BitVec.toInt (0 : BitVec 32) + g.fbWidth.toInt)
    unfold IsInt32
    omega
  · show IsInt32 (BitVec.toInt (0 : BitVec 32) + g.fbHeight.toInt)
    unfold IsInt32
    omega

theorem covered_screenRect (hv : g.Valid) (hon : g.OnScreen px py) :
    Covered [screenRect g] (px, py) := by
  have hw := toInt_of_toNat_lt hv.width
  have hh := toInt_of_toNat_lt hv.height
  have h0 : BitVec.toInt (0 : BitVec 32) = 0 := rfl
  obtain ⟨hpx, hpy⟩ := hon
  refine ⟨screenRect g, List.mem_singleton_self _, ?_⟩
  show BitVec.toInt (0 : BitVec 32) ≤ (px : Int) ∧
    (px : Int) < BitVec.toInt (0 : BitVec 32) + g.fbWidth.toInt ∧
    BitVec.toInt (0 : BitVec 32) ≤ (py : Int) ∧
    (py : Int) < BitVec.toInt (0 : BitVec 32) + g.fbHeight.toInt
  omega

end Drawing

/-- **Redrawing rectangles is redrawing the screen.**  After the drawing loops
    every on-screen pixel inside some rectangle has the colour that a pass over
    the whole screen, from any backbuffer contents, gives it; that colour is
    the composite's; and a pixel outside all rectangles is unchanged, or it
    belongs to the cursor and has its colour. -/
theorem dirty_redraw_eq_full_redraw {g g₀ : Graphics} {mem : Mem} {redraw : List Rect}
    {snapshots : List WindowSnapshot} {cursorX cursorY : BitVec 32} (hv : g.Valid)
    (hg : g.SameScreen g₀) (hr : ∀ r ∈ redraw, r.Fits) (hs : ∀ s ∈ snapshots, s.NoOverflow)
    (hcur : (cursorRect cursorX cursorY).Fits) {px py : Nat} (hon : g.OnScreen px py) :
    (Covered redraw (px, py) →
      (drawDesktop g mem redraw snapshots (cursorRect cursorX cursorY)).pixel px py =
        (drawDesktop g₀ mem [screenRect g₀] snapshots (cursorRect cursorX cursorY)).pixel px py) ∧
    (drawDesktop g₀ mem [screenRect g₀] snapshots (cursorRect cursorX cursorY)).pixel px py =
      compositeColor mem snapshots cursorX cursorY (px, py) ∧
    (¬ Covered redraw (px, py) →
      (drawDesktop g mem redraw snapshots (cursorRect cursorX cursorY)).pixel px py = g.pixel px py ∨
      CursorPixel cursorX cursorY (px, py) ∧
        (drawDesktop g mem redraw snapshots (cursorRect cursorX cursorY)).pixel px py = 0xFFFFFFFF) := by
  have hv₀ := hg.valid hv
  have hon₀ := hg.onScreen.mpr hon
  have hfull : (drawDesktop g₀ mem [screenRect g₀] snapshots (cursorRect cursorX cursorY)).pixel px py =
      compositeColor mem snapshots cursorX cursorY (px, py) := by
    refine pixel_drawDesktop_covered hv₀ ?_ hs hcur hon₀ (covered_screenRect hv₀ hon₀)
    intro r hmem
    rw [List.mem_singleton.mp hmem]
    exact fits_screenRect hv₀
  refine ⟨fun hcov => ?_, hfull, pixel_drawDesktop_outside hv hr hs hcur hon⟩
  rw [hfull]
  exact pixel_drawDesktop_covered hv hr hs hcur hon hcov

/-- Two overlapping rectangles over two overlapping windows, one of them partly
    off the screen, under the cursor. -/
theorem dirty_redraw_eq_full_redraw_overlap :
    (drawDesktop ⟨1, fun _ => 0, 64, 48⟩ (fun _ => 0) [⟨0, 0, 20, 20⟩, ⟨10, 10, 20, 20⟩]
      [⟨5, 5, 30, 28, 0xFF555555, 0xFFFFFFFF, 0⟩, ⟨-10, 12, 40, 40, 0xFF555555, 0xFF222222, 0⟩]
      (cursorRect 8 8)).pixel 12 12 =
    (drawDesktop ⟨1, fun _ => 7, 64, 48⟩ (fun _ => 0) [⟨0, 0, 64, 48⟩]
      [⟨5, 5, 30, 28, 0xFF555555, 0xFFFFFFFF, 0⟩, ⟨-10, 12, 40, 40, 0xFF555555, 0xFF222222, 0⟩]
      (cursorRect 8 8)).pixel 12 12 := by
  refine (@dirty_redraw_eq_full_redraw ⟨1, fun _ => 0, 64, 48⟩ ⟨1, fun _ => 7, 64, 48⟩ (fun _ => 0) _ _ 8 8
    ⟨by decide, by decide, by decide, by decide⟩ ⟨rfl, rfl, rfl⟩ ?_ ?_ ?_ 12 12
    ⟨by decide, by decide⟩).1 ⟨⟨0, 0, 20, 20⟩, List.mem_cons_self, by decide⟩
  · intro r hr
    rcases List.mem_cons.mp hr with rfl | hr
    · exact ⟨by unfold IsInt32; decide, by unfold IsInt32; decide⟩
    · rw [List.mem_singleton.mp hr]
      exact ⟨by unfold IsInt32; decide, by unfold IsInt32; decide⟩
  · intro s hs
    rcases List.mem_cons.mp hs with rfl | hs
    · constructor <;> decide
    · rw [List.mem_singleton.mp hs]
      constructor <;> decide
  · exact ⟨by unfold IsInt32; decide, by unfold IsInt32; decide⟩

end ZohoOs
