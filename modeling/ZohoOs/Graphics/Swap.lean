/-
  ZohoOs.Graphics.Swap — the full blit against the partial one (graphics.c).

  `graphics_swap` is one `memcpy` of `fb_pitch * fb_height` bytes, a product
  in `uint32_t`, and takes the rows of both buffers to be `fb_pitch` bytes
  apart.  `graphics_swap_rects` of the whole screen copies row by row, with
  the stride of each buffer.

  Main results:
    * `swap_eq_swapRects` — when the two show the same screen;
    * `swapsAgree_iff` — exactly on which geometries they do.
-/
import ZohoOs.Graphics.Blit
import ZohoOs.Lib.Loop

namespace ZohoOs

open ZohoOs.Lib

/-! ## §1. Drawing. -/

/-- A call that draws into the backbuffer. -/
inductive DrawCall where
  | putPixel (x y color : BitVec 32)
  | clearRect (x y w h color : BitVec 32)
  deriving DecidableEq

def DrawCall.run (g : Graphics) : DrawCall → Graphics
  | .putPixel x y color => graphicsPutPixel g x y color
  | .clearRect x y w h color => graphicsClearRect g x y w h color

namespace Display

/-- Draw with a list of calls, in order. -/
def draw (d : Display) (calls : List DrawCall) : Display :=
  { d with toGraphics := calls.foldl DrawCall.run d.toGraphics }

/-- The rectangle of the whole screen. -/
def fullScreen (d : Display) : Rect := ⟨0, 0, d.fbWidth, d.fbHeight⟩

/-- The two displays show the same on the screen of `d`. -/
def SameView (d d₁ d₂ : Display) : Prop :=
  ∀ px py k, d.OnScreen px py → k < 4 →
    d₁.framebuffer (d.offset px py k) = d₂.framebuffer (d.offset px py k)

/-- On every display of this geometry, whatever is drawn, the full blit shows
    what the partial blit of the whole screen shows. -/
def SwapsAgree (fbWidth fbHeight fbPitch : BitVec 32) : Prop :=
  ∀ d : Display, d.fbWidth = fbWidth → d.fbHeight = fbHeight → d.fbPitch = fbPitch →
    ∀ calls, (d.draw calls).SameView (graphicsSwap (d.draw calls))
      (graphicsSwapRects (d.draw calls) (some [(d.draw calls).fullScreen]))

/-- The bytes `graphics_swap` copies. -/
def swapSize (d : Display) : Nat := (d.fbPitch * d.fbHeight).toNat

/-! ## §2. The two blits. -/

section Lemmas

variable {d : Display} {px py k o : Nat}

theorem sameScreen_clearRect {g : Graphics} {x y w h color : BitVec 32} :
    Graphics.SameScreen g (graphicsClearRect g x y w h color) := by
  unfold graphicsClearRect
  split
  · exact .refl g
  · split
    · exact .refl g
    · refine foldl_preserves (fun g' => Graphics.SameScreen g g') (.refl g) fun i _ g' hg' => ?_
      exact foldl_preserves (fun g'' => Graphics.SameScreen g g'') hg' fun j _ g'' hg'' =>
        hg''.trans ⟨rfl, rfl, rfl⟩

/-- Drawing leaves the geometry alone. -/
theorem sameScreen_draw (d : Display) (calls : List DrawCall) :
    Graphics.SameScreen d.toGraphics (d.draw calls).toGraphics := by
  refine foldl_preserves (fun g => Graphics.SameScreen d.toGraphics g) (.refl _) fun c _ g hg => ?_
  cases c with
  | putPixel x y color => exact hg.trans Graphics.sameScreen_putPixel
  | clearRect x y w h color => exact hg.trans sameScreen_clearRect

/-- What `graphics_swap` leaves at an offset. -/
theorem framebuffer_swap (hb : d.backbuffer ≠ 0) (ha : d.fbAddr ≠ 0) (o : Nat) :
    (graphicsSwap d).framebuffer o = if o < d.swapSize then d.byte o else d.framebuffer o := by
  unfold graphicsSwap
  rw [if_neg (not_or.mpr ⟨hb, ha⟩)]
  show (if 0 ≤ o ∧ o < 0 + d.swapSize then d.byte (0 + (o - 0)) else _) = _
  simp

theorem fullScreen_fits (hv : d.Valid) : d.fullScreen.Fits := by
  have hw := hv.width
  have hh := hv.height
  have hw' := toInt_of_toNat_lt (a := d.fbWidth) (by omega)
  have hh' := toInt_of_toNat_lt (a := d.fbHeight) hh
  have h0 : (0 : BitVec 32).toInt = 0 := rfl
  constructor
  · show IsInt32 ((0 : BitVec 32).toInt + d.fbWidth.toInt)
    unfold IsInt32
    omega
  · show IsInt32 ((0 : BitVec 32).toInt + d.fbHeight.toInt)
    unfold IsInt32
    omega

/-- The partial blit of the whole screen shows the backbuffer. -/
theorem framebuffer_swapRects (hv : d.Valid) (hon : d.OnScreen px py) (hk : k < 4) :
    (graphicsSwapRects d (some [d.fullScreen])).framebuffer (d.offset px py k)
      = pixelByte (d.pixel px py) k := by
  have hexact : Blitted d (graphicsSwapRects d (some [d.fullScreen])) _ :=
    blitted_rects hv fun r hr => by
      rw [List.mem_singleton.mp hr]
      exact fullScreen_fits hv
  have hw := toInt_of_toNat_lt (a := d.fbWidth) (by have := hv.width; omega)
  have hh := toInt_of_toNat_lt (a := d.fbHeight) hv.height
  have hmem : d.fullScreen.Mem px py := by
    obtain ⟨hx, hy⟩ := hon
    show (0 : BitVec 32).toInt ≤ px ∧ (px : Int) < (0 : BitVec 32).toInt + d.fbWidth.toInt ∧
      (0 : BitVec 32).toInt ≤ py ∧ (py : Int) < (0 : BitVec 32).toInt + d.fbHeight.toInt
    rw [show (0 : BitVec 32).toInt = 0 from rfl]
    omega
  rw [← source_offset hv hon hk]
  apply hexact.copied
  simp only [List.mem_singleton, Set.mem_iUnion]
  exact ⟨_, rfl, px, py, k, hon, hk, hmem, rfl⟩

/-- On too many rows the partial blit of the whole screen copies nothing. -/
theorem swapRects_of_tall (h : 2147483648 ≤ d.fbHeight.toNat) :
    graphicsSwapRects d (some [d.fullScreen]) = d := by
  have hneg : d.fbHeight.toInt < 0 := by
    rw [BitVec.toInt_eq_toNat_cond]
    have := d.fbHeight.isLt
    split <;> omega
  have hclip : clipRect d.toGraphics d.fullScreen = none := by
    have hnot : (0#32).slt (minInt32 d.fbHeight (0 + d.fbHeight) - maxInt32 0 0) = false := by
      have hmin : minInt32 d.fbHeight (0 + d.fbHeight) = d.fbHeight := by
        unfold minInt32
        split
        · rfl
        · exact BitVec.zero_add _
      have hsub : d.fbHeight - maxInt32 0 0 = d.fbHeight := BitVec.sub_zero _
      rw [hmin, hsub, BitVec.slt_eq_decide, BitVec.toInt_zero]
      exact decide_eq_false (by omega)
    show (if (0#32).slt _ && (0#32).slt (minInt32 d.fbHeight (0 + d.fbHeight) - maxInt32 0 0)
      then _ else none) = none
    rw [hnot, Bool.and_false]
    rfl
  unfold graphicsSwapRects
  split
  · rfl
  · show blitRect d d.fullScreen = d
    unfold blitRect
    rw [hclip]

/-! ## §3. Where the blits agree. -/

/-- The geometries without a difference: nothing or one row to show, equal
    strides with a size that fits in 32 bits, or so many rows that neither
    blit copies anything. -/
def SwapGeometry (fbWidth fbHeight fbPitch : BitVec 32) : Prop :=
  fbWidth = 0 ∨ fbHeight.toNat ≤ 1 ∨
    (fbPitch.toNat = 4 * fbWidth.toNat ∧ fbPitch.toNat * fbHeight.toNat < 4294967296) ∨
    (2147483648 ≤ fbHeight.toNat ∧ fbPitch * fbHeight = 0)

/-- **The blits agree** when an on-screen byte has one offset in both
    buffers and is among those copied. -/
theorem swap_eq_swapRects (hv : d.Valid)
    (hsame : ∀ px py k, d.OnScreen px py → k < 4 →
      d.offset px py k = py * (4 * d.fbWidth.toNat) + (4 * px + k) ∧
        d.offset px py k < d.swapSize) :
    d.SameView (graphicsSwap d) (graphicsSwapRects d (some [d.fullScreen])) := by
  intro px py k hon hk
  obtain ⟨hoff, hlt⟩ := hsame px py k hon hk
  obtain ⟨hdiv, hmod⟩ := offset_div hv hon hk
  rw [framebuffer_swapRects hv hon hk, ← source_offset hv hon hk,
    framebuffer_swap hv.backbuffer hv.fbAddr, if_pos hlt, source, hdiv, hmod, hoff]

theorem swapsAgree_of (w h p : BitVec 32) (hpitch : 4 * w.toNat ≤ p.toNat)
    (hgeo : SwapGeometry w h p) : SwapsAgree w h p := by
  intro d hw hh hp calls
  have hs := sameScreen_draw d calls
  by_cases hnull : d.backbuffer = 0 ∨ d.fbAddr = 0
  · -- without a buffer neither copies
    have hnull' : (d.draw calls).backbuffer = 0 ∨ (d.draw calls).fbAddr = 0 := by
      rw [hs.backbuffer]
      exact hnull
    intro px py k _ _
    rw [graphicsSwap, graphicsSwapRects, if_pos hnull', if_pos hnull']
  · obtain ⟨hb, ha⟩ := not_or.mp hnull
    have hb' : (d.draw calls).backbuffer ≠ 0 := by
      rw [hs.backbuffer]
      exact hb
    rw [← hw, ← hs.fbWidth] at hpitch hgeo
    rw [← hh, ← hs.fbHeight] at hgeo
    rw [← hp] at hpitch hgeo
    change 4 * _ ≤ (d.draw calls).fbPitch.toNat at hpitch
    change SwapGeometry _ _ (d.draw calls).fbPitch at hgeo
    change (d.draw calls).fbAddr ≠ 0 at ha
    generalize d.draw calls = e at *
    by_cases htall : 2147483648 ≤ e.fbHeight.toNat
    · -- so tall that the row counter is negative: nothing is copied by rectangles
      intro px py k hon hk
      obtain ⟨hpx, hpy⟩ := hon
      have hzero : e.swapSize = 0 := by
        rcases hgeo with h0 | h1 | ⟨heq, hlt⟩ | ⟨-, h0⟩
        · rw [h0] at hpx
          exact absurd hpx (Nat.not_lt_zero _)
        · omega
        · -- a pitch of at least 4 times so many rows does not fit
          have hbig : 4 * 2147483648 ≤ e.fbPitch.toNat * e.fbHeight.toNat :=
            Nat.mul_le_mul (by omega) htall
          omega
        · rw [swapSize, h0]
          rfl
      rw [swapRects_of_tall htall, framebuffer_swap hb' ha, hzero, if_neg (Nat.not_lt_zero _)]
    · have hv : e.Valid := ⟨hb', ha, hpitch, by omega⟩
      -- elsewhere the two copies agree when every pixel is at the same offset of both
      refine swap_eq_swapRects hv fun px py k hon hk => ?_
      obtain ⟨hpx, hpy⟩ := hon
      rcases hgeo with h0 | h1 | ⟨heq, hlt⟩ | ⟨htall', -⟩
      · rw [h0] at hpx
        exact absurd hpx (Nat.not_lt_zero _)
      · -- one row starts at offset 0 of both buffers
        obtain rfl : py = 0 := by omega
        have hone : e.fbHeight = 1 := by
          apply BitVec.eq_of_toNat_eq
          show e.fbHeight.toNat = 1
          omega
        have hsize : e.swapSize = e.fbPitch.toNat := by
          rw [swapSize, hone]
          exact congrArg BitVec.toNat (BitVec.mul_one _)
        rw [hsize, offset]
        omega
      · have hsize : e.swapSize = e.fbPitch.toNat * e.fbHeight.toNat := by
          rw [swapSize, BitVec.toNat_mul]
          exact Nat.mod_eq_of_lt hlt
        have hrow := row_le (w := e.fbPitch.toNat) (n := 4 * px + 4) hpy (by omega)
        rw [hsize]
        unfold offset
        constructor
        · rw [heq]
        · omega
      · exact absurd htall' htall

end Lemmas

/-! ## §4. Where they do not. -/

section Differences

variable {w h p : BitVec 32}

/-- A display of a geometry with everything black. -/
def black (w h p : BitVec 32) : Display := ⟨⟨1, fun _ => 0, w, h⟩, 1, p, fun _ => 0, []⟩

theorem backbuffer_black (calls : List DrawCall) : ((black w h p).draw calls).backbuffer ≠ 0 := by
  rw [(sameScreen_draw (black w h p) calls).backbuffer]
  show (1 : Word) ≠ 0
  decide

theorem fbAddr_black (calls : List DrawCall) : ((black w h p).draw calls).fbAddr ≠ 0 := by
  show (1 : Word) ≠ 0
  decide

/-- One pixel drawn on a black display. -/
theorem pixels_black {x y : BitVec 32} (hx : x.toNat < w.toNat) (hy : y.toNat < h.toNat) :
    ((black w h p).draw [.putPixel x y 1]).pixels
      = Function.update (fun _ => 0) (y * w + x).toNat 1 := by
  show (graphicsPutPixel ⟨1, fun _ => 0, w, h⟩ x y 1).pixels = _
  unfold graphicsPutPixel
  rw [if_neg]
  · rfl
  · intro hoff
    rcases hoff with h0 | hle | hle
    · exact absurd h0 (show (1 : Word) ≠ 0 by decide)
    · exact Nat.not_le.mpr hx hle
    · exact Nat.not_le.mpr hy hle

/-- A geometry on which the byte of one drawn pixel comes out differently. -/
theorem not_swapsAgree {x y : BitVec 32} (hx : x.toNat < w.toNat) (hy : y.toNat < h.toNat)
    (hdiff : (graphicsSwap ((black w h p).draw [.putPixel x y 1])).framebuffer
        (y.toNat * p.toNat + 4 * x.toNat)
      ≠ (graphicsSwapRects ((black w h p).draw [.putPixel x y 1])
          (some [((black w h p).draw [.putPixel x y 1]).fullScreen])).framebuffer
        (y.toNat * p.toNat + 4 * x.toNat)) : ¬ SwapsAgree w h p := by
  intro hagree
  have hs := sameScreen_draw (black w h p) [.putPixel x y 1]
  have hon : ((black w h p).draw [.putPixel x y 1]).OnScreen x.toNat y.toNat := by
    unfold Graphics.OnScreen
    rw [hs.fbWidth, hs.fbHeight]
    exact ⟨hx, hy⟩
  exact hdiff (hagree (black w h p) rfl rfl rfl [.putPixel x y 1] _ _ 0 hon (by decide))

variable (hpitch : 4 * w.toNat ≤ p.toNat)

include hpitch in
/-- Where the partial blit shows the pixel, the full one must have copied
    it. -/
theorem not_swapsAgree_of_zero {x y : BitVec 32} (hx : x.toNat < w.toNat) (hy : y.toNat < h.toNat)
    (hh : h.toNat < 2147483648) (hidx : (y * w + x).toNat = y.toNat * w.toNat + x.toNat)
    (hzero : (graphicsSwap ((black w h p).draw [.putPixel x y 1])).framebuffer
        (y.toNat * p.toNat + 4 * x.toNat) = 0) : ¬ SwapsAgree w h p := by
  refine not_swapsAgree hx hy ?_
  have hs := sameScreen_draw (black w h p) [.putPixel x y 1]
  have hv : ((black w h p).draw [.putPixel x y 1]).Valid :=
    ⟨backbuffer_black _, fbAddr_black _, by rw [hs.fbWidth]; exact hpitch, by rw [hs.fbHeight]; exact hh⟩
  have hon : ((black w h p).draw [.putPixel x y 1]).OnScreen x.toNat y.toNat := by
    unfold Graphics.OnScreen
    rw [hs.fbWidth, hs.fbHeight]
    exact ⟨hx, hy⟩
  have hshown := framebuffer_swapRects hv hon (show 0 < 4 by decide)
  have hpixel : ((black w h p).draw [.putPixel x y 1]).pixel x.toNat y.toNat = 1 := by
    unfold Graphics.pixel
    rw [pixels_black hx hy, hs.fbWidth, hidx]
    exact Function.update_self _ _ _
  rw [hpixel] at hshown
  rw [hzero]
  intro heq
  have hone : (0 : BitVec 8) = pixelByte 1 0 := heq.trans hshown
  exact absurd hone (by decide)

include hpitch in
/-- **A wider pitch**: the second row of the screen starts elsewhere. -/
theorem not_swapsAgree_of_pitch (hw : 0 < w.toNat) (hh1 : 1 < h.toNat) (hh : h.toNat < 2147483648)
    (hne : p.toNat ≠ 4 * w.toNat) : ¬ SwapsAgree w h p := by
  have hidx : ((1 : BitVec 32) * w + 0).toNat = w.toNat := by
    have : (1 : BitVec 32) * w + 0 = w := (BitVec.add_zero _).trans (BitVec.one_mul _)
    rw [this]
  refine not_swapsAgree_of_zero (x := 0) (y := 1) hpitch hw hh1 hh ?_ ?_
  · rw [hidx]
    exact (Nat.one_mul _).symm
  · have hpixels := pixels_black (p := p) (x := 0) (y := 1) hw hh1
    show (graphicsSwap _).framebuffer (1 * p.toNat + 4 * 0) = 0
    rw [framebuffer_swap (backbuffer_black _) (fbAddr_black _), Graphics.byte, hpixels, hidx]
    split
    · by_cases hword : (1 * p.toNat + 4 * 0) / 4 = w.toNat
      · -- another byte of the same pixel
        rw [hword, Function.update_self]
        have hbyte : ∀ r : Fin 4, r ≠ 0 → pixelByte 1 r = 0 := by decide
        exact hbyte ⟨(1 * p.toNat + 4 * 0) % 4, Nat.mod_lt _ (by decide)⟩ fun h0 => by
          have := congrArg Fin.val h0
          change (1 * p.toNat + 4 * 0) % 4 = 0 at this
          omega
      · rw [Function.update_of_ne hword]
        unfold pixelByte
        exact BitVec.extractLsb'_zero
    · rfl

/-- **Equal strides, but a size of 2^32 bytes or more**: the first byte left
    out is on the screen. -/
theorem not_swapsAgree_of_size (hh : h.toNat < 2147483648) (heq : p.toNat = 4 * w.toNat)
    (hbig : 4294967296 ≤ p.toNat * h.toNat) : ¬ SwapsAgree w h p := by
  -- the pixel at the size, which is a multiple of four
  set n := (p * h).toNat with hn
  have hnmod : n = p.toNat * h.toNat % 4294967296 := BitVec.toNat_mul p h
  have hprod : p.toNat * h.toNat = 4 * (w.toNat * h.toNat) := by rw [heq, Nat.mul_assoc]
  have hn4 : n % 4 = 0 := by omega
  have hlt : n / 4 < w.toNat * h.toNat := by omega
  have hw : 0 < w.toNat := by
    rcases Nat.eq_zero_or_pos w.toNat with h0 | h0
    · rw [h0, Nat.zero_mul] at hlt
      omega
    · exact h0
  have hmod := Nat.mod_lt (n / 4) hw
  have hdiv : n / 4 / w.toNat < h.toNat := Nat.div_lt_of_lt_mul hlt
  have hsum := Nat.div_add_mod (n / 4) w.toNat
  have hwlt := w.isLt
  have hhlt := h.isLt
  have hxn : (BitVec.ofNat 32 (n / 4 % w.toNat)).toNat = n / 4 % w.toNat := by
    rw [BitVec.toNat_ofNat]
    exact Nat.mod_eq_of_lt (by omega)
  have hyn : (BitVec.ofNat 32 (n / 4 / w.toNat)).toNat = n / 4 / w.toNat := by
    rw [BitVec.toNat_ofNat]
    exact Nat.mod_eq_of_lt (by omega)
  have hidx : (BitVec.ofNat 32 (n / 4 / w.toNat) * w + BitVec.ofNat 32 (n / 4 % w.toNat)).toNat
      = n / 4 / w.toNat * w.toNat + n / 4 % w.toNat := by
    rw [BitVec.toNat_add, BitVec.toNat_mul, Nat.mod_add_mod, hxn, hyn]
    refine Nat.mod_eq_of_lt ?_
    rw [Nat.mul_comm, hsum]
    omega
  refine not_swapsAgree_of_zero (x := BitVec.ofNat 32 (n / 4 % w.toNat))
    (y := BitVec.ofNat 32 (n / 4 / w.toNat)) (by omega) (by rw [hxn]; exact hmod)
    (by rw [hyn]; exact hdiv) hh (by rw [hidx, hxn, hyn]) ?_
  have hs := sameScreen_draw (black w h p)
    [.putPixel (BitVec.ofNat 32 (n / 4 % w.toNat)) (BitVec.ofNat 32 (n / 4 / w.toNat)) 1]
  have hoff : n / 4 / w.toNat * p.toNat + 4 * (n / 4 % w.toNat) = n := by
    rw [heq, Nat.mul_left_comm, ← Nat.mul_add, Nat.mul_comm (n / 4 / w.toNat), hsum]
    omega
  rw [hxn, hyn, hoff, framebuffer_swap (backbuffer_black _) (fbAddr_black _),
    if_neg]
  · rfl
  · unfold swapSize
    rw [hs.fbHeight]
    show ¬ n < (p * h).toNat
    omega

/-- **Too many rows**, with something to copy: only the full blit copies. -/
theorem not_swapsAgree_of_tall (hw : 0 < w.toNat) (hh : 2147483648 ≤ h.toNat) (hsize : p * h ≠ 0) :
    ¬ SwapsAgree w h p := by
  have hy : (0 : BitVec 32).toNat < h.toNat := by
    show 0 < h.toNat
    omega
  have hs := sameScreen_draw (black w h p) [.putPixel 0 0 1]
  refine not_swapsAgree (x := 0) (y := 0) hw hy ?_
  have htall : 2147483648 ≤ ((black w h p).draw [.putPixel 0 0 1]).fbHeight.toNat := by
    rw [hs.fbHeight]
    exact hh
  have hpos : 0 < ((black w h p).draw [.putPixel 0 0 1]).swapSize := by
    unfold swapSize
    rw [hs.fbHeight]
    refine Nat.pos_of_ne_zero fun h0 => hsize ?_
    exact BitVec.eq_of_toNat_eq h0
  have hoff : (0 : BitVec 32).toNat * p.toNat + 4 * (0 : BitVec 32).toNat = 0 := Nat.zero_mul _
  have hidx : ((0 : BitVec 32) * w + 0).toNat = 0 := by
    have : (0 : BitVec 32) * w + 0 = 0 := (BitVec.add_zero _).trans (BitVec.zero_mul)
    rw [this]
    rfl
  have hpixels := pixels_black (p := p) (x := 0) (y := 0) hw hy
  rw [hoff, swapRects_of_tall htall, framebuffer_swap (backbuffer_black _) (fbAddr_black _),
    if_pos hpos, Graphics.byte, hpixels, hidx, Function.update_self]
  show pixelByte 1 0 ≠ (0 : BitVec 8)
  decide

/-- **The full and the partial blit agree** on exactly these geometries. -/
theorem swapsAgree_iff (w h p : BitVec 32) (hpitch : 4 * w.toNat ≤ p.toNat) :
    SwapsAgree w h p ↔ SwapGeometry w h p := by
  refine ⟨fun hagree => ?_, swapsAgree_of w h p hpitch⟩
  by_contra hgeo
  obtain ⟨hw, hgeo⟩ := not_or.mp hgeo
  obtain ⟨hh1, hgeo⟩ := not_or.mp hgeo
  obtain ⟨hsize, htall⟩ := not_or.mp hgeo
  have hwpos : 0 < w.toNat := Nat.pos_of_ne_zero fun h0 => hw (BitVec.eq_of_toNat_eq h0)
  by_cases hh : h.toNat < 2147483648
  · by_cases heq : p.toNat = 4 * w.toNat
    · have hbig : 4294967296 ≤ p.toNat * h.toNat := Nat.le_of_not_lt fun hlt => hsize ⟨heq, hlt⟩
      exact not_swapsAgree_of_size hh heq hbig hagree
    · exact not_swapsAgree_of_pitch hpitch hwpos (by omega) hh heq hagree
  · exact not_swapsAgree_of_tall hwpos (by omega) (fun h0 => htall ⟨by omega, h0⟩) hagree

theorem swapsAgree_iff_vga : SwapsAgree 1024 768 4096 ↔ SwapGeometry 1024 768 4096 :=
  swapsAgree_iff 1024 768 4096 (by decide)

/-- **Rows padded to 4160 bytes**: the blits of a 1024 by 768 screen differ. -/
theorem swapsAgree_fails : ¬ SwapsAgree 1024 768 4160 :=
  not_swapsAgree_of_pitch (by decide) (by decide) (by decide) (by decide) (by decide)

end Differences

end Display

end ZohoOs
