/-
  ZohoOs.Graphics.Basic — drawing into the backbuffer (graphics.c).

  The backbuffer is a kernel block of its own; its pixels are kept by index,
  row after row, apart from the byte memory.  Every drawing function paints a
  layer: `Painted g g' L` says that `g'` is `g` with the layer `L` over its
  on-screen pixels.

  Main results:
    * `painted_plot` — a loop of `graphics_put_pixel` paints the layer whose
      colours the loop writes;
    * `painted_drawRect`, `painted_clearRect`, `painted_drawCursor` — the
      drawing functions.
-/
import ZohoOs.Graphics.Rect
import ZohoOs.Lib.Paint
import ZohoOs.Lib.Word
import Mathlib.Logic.Function.Basic
import Mathlib.Data.List.Range
import Mathlib.Data.List.ProdSigma

namespace ZohoOs

open ZohoOs.Lib

/-! ## §1. The functions. -/

/-- The statics of graphics.c that drawing reads and writes. -/
structure Graphics where
  backbuffer : Word
  /-- The pixels at `backbuffer`, by index. -/
  pixels : Nat → BitVec 32
  fbWidth : BitVec 32
  fbHeight : BitVec 32

/-- `clip_rect`; `none` is the result 0. -/
def clipRect (g : Graphics) (rect : Rect) : Option Rect :=
  let x2 := rect.x + rect.w
  let y2 := rect.y + rect.h
  let x := if rect.x.slt 0 then 0 else rect.x
  let y := if rect.y.slt 0 then 0 else rect.y
  let x2 := if g.fbWidth.slt x2 then g.fbWidth else x2
  let y2 := if g.fbHeight.slt y2 then g.fbHeight else y2
  let rect := ⟨x, y, x2 - x, y2 - y⟩
  if (0#32).slt rect.w && (0#32).slt rect.h then some rect else none

/-- `backbuffer[i] = color`. -/
def Graphics.setPixel (g : Graphics) (i : Nat) (color : BitVec 32) : Graphics :=
  { g with pixels := Function.update g.pixels i color }

/-- `graphics_put_pixel`. -/
def graphicsPutPixel (g : Graphics) (x y color : BitVec 32) : Graphics :=
  if g.backbuffer = 0 ∨ g.fbWidth ≤ x ∨ g.fbHeight ≤ y then g
  else g.setPixel (y * g.fbWidth + x).toNat color

/-- `graphics_draw_cursor`. -/
def graphicsDrawCursor (g : Graphics) (x y : BitVec 32) : Graphics :=
  if g.backbuffer = 0 then g
  else
    (List.range 15).foldl
      (fun g i =>
        (List.range 10).foldl
          (fun g j =>
            if j < i / 2 + 1 then
              graphicsPutPixel g (x + BitVec.ofNat 32 j) (y + BitVec.ofNat 32 i) 0xFFFFFFFF
            else g)
          g)
      g

/-- `graphics_clear_rect`. -/
def graphicsClearRect (g : Graphics) (x y w h color : BitVec 32) : Graphics :=
  if g.backbuffer = 0 then g
  else
    match clipRect g ⟨x, y, w, h⟩ with
    | none => g
    | some rect =>
        (List.range rect.h.toInt.toNat).foldl
          (fun g py =>
            let row : Word := (rect.y + BitVec.ofNat 32 py).signExtend 64 * g.fbWidth.setWidth 64 +
              rect.x.signExtend 64
            (List.range rect.w.toInt.toNat).foldl
              (fun g px => g.setPixel (row + BitVec.ofNat 64 px).toNat color) g)
          g

/-- `graphics_draw_rect`. -/
def graphicsDrawRect (g : Graphics) (x y w h color : BitVec 32) : Graphics :=
  if g.backbuffer = 0 then g
  else
    (List.range h.toNat).foldl
      (fun g i =>
        (List.range w.toNat).foldl
          (fun g j => graphicsPutPixel g (x + BitVec.ofNat 32 j) (y + BitVec.ofNat 32 i) color) g)
      g

/-! ## §2. Pixels and layers. -/

/-- A layer of 32-bit colours over pixels `(column, row)`. -/
abbrev PixelLayer := Layer (Int × Int) (BitVec 32)

namespace Graphics

/-- The backbuffer pixel in column `px` of row `py`. -/
def pixel (g : Graphics) (px py : Nat) : BitVec 32 := g.pixels (py * g.fbWidth.toNat + px)

/-- The pixel is on the screen. -/
def OnScreen (g : Graphics) (px py : Nat) : Prop := px < g.fbWidth.toNat ∧ py < g.fbHeight.toNat

/-- There is a backbuffer, and neither a coordinate nor a pixel index
    overflows. -/
structure Valid (g : Graphics) : Prop where
  backbuffer : g.backbuffer ≠ 0
  width : g.fbWidth.toNat < 2147483648
  height : g.fbHeight.toNat < 2147483648
  size : g.fbWidth.toNat * g.fbHeight.toNat ≤ 4294967296

/-- The two states have the same backbuffer and screen size. -/
structure SameScreen (g g' : Graphics) : Prop where
  backbuffer : g'.backbuffer = g.backbuffer
  fbWidth : g'.fbWidth = g.fbWidth
  fbHeight : g'.fbHeight = g.fbHeight

/-- `g'` is `g` with the layer `L` painted over the screen. -/
structure Painted (g g' : Graphics) (L : PixelLayer) : Prop where
  screen : SameScreen g g'
  pixel : ∀ px py, g.OnScreen px py → g'.pixel px py = (L (px, py)).getD (g.pixel px py)

section Lemmas

variable {g g' g'' : Graphics} {L M : PixelLayer} {px py : Nat} {x y color : BitVec 32}

theorem SameScreen.refl (g : Graphics) : SameScreen g g := ⟨rfl, rfl, rfl⟩

theorem SameScreen.trans (h : SameScreen g g') (h' : SameScreen g' g'') : SameScreen g g'' :=
  ⟨h'.backbuffer.trans h.backbuffer, h'.fbWidth.trans h.fbWidth, h'.fbHeight.trans h.fbHeight⟩

theorem SameScreen.onScreen (h : SameScreen g g') : g'.OnScreen px py ↔ g.OnScreen px py := by
  unfold OnScreen
  rw [h.fbWidth, h.fbHeight]

theorem SameScreen.valid (h : SameScreen g g') (hv : g.Valid) : g'.Valid := by
  obtain ⟨hb, hw, hh, hs⟩ := hv
  constructor
  · rw [h.backbuffer]; exact hb
  · rw [h.fbWidth]; exact hw
  · rw [h.fbHeight]; exact hh
  · rw [h.fbWidth, h.fbHeight]; exact hs

theorem Painted.refl (g : Graphics) : Painted g g Layer.clear := ⟨.refl g, fun _ _ _ => rfl⟩

/-- **Painting twice** paints the second layer over the first. -/
theorem Painted.trans (h : Painted g g' L) (h' : Painted g' g'' M) :
    Painted g g'' (Layer.above M L) := by
  refine ⟨h.screen.trans h'.screen, fun px py hon => ?_⟩
  rw [h'.pixel px py (h.screen.onScreen.mpr hon), h.pixel px py hon]
  show _ = ((M (px, py)).or (L (px, py))).getD _
  cases M (px, py) with
  | none => rw [Option.none_or, Option.getD_none]
  | some c => rw [Option.some_or, Option.getD_some, Option.getD_some]

/-- Only the on-screen part of a layer counts. -/
theorem Painted.congr (h : Painted g g' L)
    (hL : ∀ px py, g.OnScreen px py → M ((px : Int), (py : Int)) = L (px, py)) : Painted g g' M :=
  ⟨h.screen, fun px py hon => by rw [hL px py hon]; exact h.pixel px py hon⟩

/-! ## §3. Plotting. -/

/-- The point `q` is the pixel in column `px` of row `py`. -/
def Hits (q : BitVec 32 × BitVec 32) (px py : Nat) : Prop := q.1.toNat = px ∧ q.2.toNat = py

instance (q : BitVec 32 × BitVec 32) (px py : Nat) : Decidable (Hits q px py) :=
  inferInstanceAs (Decidable (_ ∧ _))

/-- Draw the points of a list, in order. -/
def plot {A : Type} (g : Graphics) (f : A → BitVec 32 × BitVec 32) (k : A → BitVec 32)
    (l : List A) : Graphics :=
  l.foldl (fun g a => graphicsPutPixel g (f a).1 (f a).2 (k a)) g

theorem sameScreen_putPixel : SameScreen g (graphicsPutPixel g x y color) := by
  unfold graphicsPutPixel
  split_ifs
  · exact .refl g
  · exact ⟨rfl, rfl, rfl⟩

/-- Pixels of different columns or rows have different indices. -/
theorem index_inj {w a b c d : Nat} (ha : a < w) (hc : c < w) (h : b * w + a = d * w + c) :
    a = c ∧ b = d := by
  have hb : (b * w + a) / w = b := by
    rw [Nat.add_comm, Nat.add_mul_div_right _ _ (by omega), Nat.div_eq_of_lt ha, Nat.zero_add]
  have hd : (d * w + c) / w = d := by
    rw [Nat.add_comm, Nat.add_mul_div_right _ _ (by omega), Nat.div_eq_of_lt hc, Nat.zero_add]
  have hbd : b = d := by rw [← hb, h, hd]
  subst hbd
  exact ⟨by omega, rfl⟩

theorem index_lt {w h a b : Nat} (ha : a < w) (hb : b < h) : b * w + a < w * h := by
  calc b * w + a < b * w + w := by omega
    _ = (b + 1) * w := by rw [Nat.add_mul, Nat.one_mul]
    _ ≤ h * w := Nat.mul_le_mul_right w hb
    _ = w * h := Nat.mul_comm h w

/-- Writing the pixel at one index. -/
theorem pixel_setPixel {a b i : Nat} (ha : a < g.fbWidth.toNat) (hi : i = b * g.fbWidth.toNat + a)
    (hon : g.OnScreen px py) :
    (g.setPixel i color).pixel px py = if a = px ∧ b = py then color else g.pixel px py := by
  show Function.update g.pixels i color (py * g.fbWidth.toNat + px) = _
  by_cases heq : a = px ∧ b = py
  · obtain ⟨rfl, rfl⟩ := heq
    rw [if_pos ⟨rfl, rfl⟩, hi, Function.update_self]
  · rw [if_neg heq, Function.update_of_ne]
    · rfl
    · intro hidx
      obtain ⟨hpx, hpy⟩ := index_inj hon.1 ha (hidx.trans hi)
      exact heq ⟨hpx.symm, hpy.symm⟩

/-- The 32-bit index of an on-screen pixel does not overflow. -/
theorem toNat_index (hv : g.Valid) (hx : x.toNat < g.fbWidth.toNat) (hy : y.toNat < g.fbHeight.toNat) :
    (y * g.fbWidth + x).toNat = y.toNat * g.fbWidth.toNat + x.toNat := by
  have hlt : y.toNat * g.fbWidth.toNat + x.toNat < 4294967296 :=
    Nat.lt_of_lt_of_le (index_lt hx hy) hv.size
  rw [BitVec.toNat_add, BitVec.toNat_mul, Nat.mod_add_mod]
  exact Nat.mod_eq_of_lt hlt

/-- **`graphics_put_pixel`** writes the pixel it names and no other. -/
theorem pixel_putPixel (hv : g.Valid) (hon : g.OnScreen px py) :
    (graphicsPutPixel g x y color).pixel px py =
      if Hits (x, y) px py then color else g.pixel px py := by
  unfold graphicsPutPixel
  by_cases hoff : g.backbuffer = 0 ∨ g.fbWidth ≤ x ∨ g.fbHeight ≤ y
  · -- off the screen nothing is written
    have hmiss : ¬ Hits (x, y) px py := by
      rintro ⟨rfl, rfl⟩
      rcases hoff with hb | hx | hy
      · exact hv.backbuffer hb
      · exact Nat.not_lt.mpr hx hon.1
      · exact Nat.not_lt.mpr hy hon.2
    rw [if_pos hoff, if_neg hmiss]
  · obtain ⟨-, hx, hy⟩ : g.backbuffer ≠ 0 ∧ ¬ g.fbWidth ≤ x ∧ ¬ g.fbHeight ≤ y := by
      simpa only [not_or] using hoff
    have hx' : x.toNat < g.fbWidth.toNat := Nat.not_le.mp hx
    have hy' : y.toNat < g.fbHeight.toNat := Nat.not_le.mp hy
    rw [if_neg hoff, pixel_setPixel hx' (toNat_index hv hx' hy') hon]
    rfl

variable {A : Type} {f : A → BitVec 32 × BitVec 32} {k : A → BitVec 32} {l : List A}

theorem sameScreen_plot : SameScreen g (plot g f k l) := by
  induction l generalizing g with
  | nil => exact .refl g
  | cons a l ih => exact sameScreen_putPixel.trans ih

/-- A pixel that no point hits keeps its colour. -/
theorem pixel_plot_of_miss (hv : g.Valid) (hon : g.OnScreen px py)
    (hmiss : ∀ a ∈ l, ¬ Hits (f a) px py) : (plot g f k l).pixel px py = g.pixel px py := by
  induction l generalizing g with
  | nil => rfl
  | cons a l ih =>
    have hs : SameScreen g (graphicsPutPixel g (f a).1 (f a).2 (k a)) := sameScreen_putPixel
    show (plot (graphicsPutPixel g (f a).1 (f a).2 (k a)) f k l).pixel px py = _
    rw [ih (hs.valid hv) (hs.onScreen.mpr hon) (fun b hb => hmiss b (List.mem_cons_of_mem _ hb)),
      pixel_putPixel hv hon, if_neg (hmiss a List.mem_cons_self)]

/-- A pixel that points of one colour hit takes that colour. -/
theorem pixel_plot_of_hit {c : BitVec 32} (hv : g.Valid) (hon : g.OnScreen px py)
    (hhit : ∃ a ∈ l, Hits (f a) px py) (hcol : ∀ a ∈ l, Hits (f a) px py → k a = c) :
    (plot g f k l).pixel px py = c := by
  induction l generalizing g with
  | nil => exact absurd hhit (by simp)
  | cons a l ih =>
    have hs : SameScreen g (graphicsPutPixel g (f a).1 (f a).2 (k a)) := sameScreen_putPixel
    have htail : ∀ b ∈ l, Hits (f b) px py → k b = c :=
      fun b hb => hcol b (List.mem_cons_of_mem _ hb)
    show (plot (graphicsPutPixel g (f a).1 (f a).2 (k a)) f k l).pixel px py = c
    by_cases hlater : ∃ b ∈ l, Hits (f b) px py
    · exact ih (hs.valid hv) (hs.onScreen.mpr hon) hlater htail
    · -- the first point is the only one that hits
      have hmiss : ∀ b ∈ l, ¬ Hits (f b) px py := fun b hb hit => hlater ⟨b, hb, hit⟩
      obtain ⟨b, hb, hit⟩ := hhit
      have hba : b = a := (List.mem_cons.mp hb).resolve_right fun hbl => hmiss b hbl hit
      subst hba
      rw [pixel_plot_of_miss (hs.valid hv) (hs.onScreen.mpr hon) hmiss, pixel_putPixel hv hon,
        if_pos hit]
      exact hcol b List.mem_cons_self hit

/-- **A plot paints a layer**: the points take the layer's colours, and hit
    every pixel it covers. -/
theorem painted_plot (hv : g.Valid)
    (hcol : ∀ px py a, g.OnScreen px py → a ∈ l → Hits (f a) px py →
      L ((px : Int), (py : Int)) = some (k a))
    (hmiss : ∀ px py, g.OnScreen px py → (∀ a ∈ l, ¬ Hits (f a) px py) →
      L ((px : Int), (py : Int)) = none) : Painted g (plot g f k l) L := by
  refine ⟨sameScreen_plot, fun px py hon => ?_⟩
  by_cases hhit : ∃ a ∈ l, Hits (f a) px py
  · obtain ⟨a, ha, hit⟩ := hhit
    have hL := hcol px py a hon ha hit
    rw [hL, Option.getD_some]
    refine pixel_plot_of_hit hv hon ⟨a, ha, hit⟩ fun b hb hitb => ?_
    exact Option.some.inj ((hcol px py b hon hb hitb).symm.trans hL)
  · have hno : ∀ a ∈ l, ¬ Hits (f a) px py := fun a ha hit => hhit ⟨a, ha, hit⟩
    rw [hmiss px py hon hno, Option.getD_none]
    exact pixel_plot_of_miss hv hon hno

end Lemmas

end Graphics

/-! ## §4. The drawing functions. -/

/-- Two nested counted loops are one loop over the pairs of counters. -/
theorem foldl_grid {σ : Type} (f : σ → Nat → Nat → σ) (s : σ) (l m : List Nat) :
    l.foldl (fun s i => m.foldl (fun s j => f s i j) s) s =
      (l.product m).foldl (fun s q => f s q.1 q.2) s := by
  unfold List.product
  rw [List.foldl_flatMap]
  congr 1
  funext s i
  rw [List.foldl_map]

theorem mem_grid {h w : Nat} {q : Nat × Nat} :
    q ∈ (List.range h).product (List.range w) ↔ q.1 < h ∧ q.2 < w := by
  obtain ⟨i, j⟩ := q
  show (i, j) ∈ (List.range h) ×ˢ (List.range w) ↔ _
  rw [List.mem_product, List.mem_range, List.mem_range]

/-- The pixels of a rectangle in one colour. -/
def rectLayer (r : Rect) (color : BitVec 32) : PixelLayer :=
  Layer.fill (fun p => r.Mem p.1 p.2) color

section Drawing

open Graphics

variable {g : Graphics} {px py : Nat} {x y w h color : BitVec 32} {r : Rect}

theorem hits_iff (hpx : px < 2147483648) (hpy : py < 2147483648) :
    Hits (x, y) px py ↔ x.toInt = px ∧ y.toInt = py := by
  unfold Hits
  constructor
  · intro h
    have hx : x.toNat = px := h.1
    have hy : y.toNat = py := h.2
    rw [toInt_of_toNat_lt (by omega), toInt_of_toNat_lt (by omega)]
    omega
  · rintro ⟨hx, hy⟩
    rw [toInt_eq_toNat_of_nonneg (by omega)] at hx
    rw [toInt_eq_toNat_of_nonneg (by omega)] at hy
    show x.toNat = px ∧ y.toNat = py
    omega

/-- A step of `j` columns and `i` rows. -/
theorem hits_offset_iff {i j : Nat} (hpx : px < 2147483648) (hpy : py < 2147483648)
    (hj : j < 2147483648) (hi : i < 2147483648) (hx : IsInt32 (x.toInt + j))
    (hy : IsInt32 (y.toInt + i)) :
    Hits (x + BitVec.ofNat 32 j, y + BitVec.ofNat 32 i) px py ↔
      (px : Int) = x.toInt + j ∧ (py : Int) = y.toInt + i := by
  have hxj : (x + BitVec.ofNat 32 j).toInt = x.toInt + j := by
    rw [toInt_add_of (by rw [toInt_ofNat_of_lt hj]; exact hx), toInt_ofNat_of_lt hj]
  have hyi : (y + BitVec.ofNat 32 i).toInt = y.toInt + i := by
    rw [toInt_add_of (by rw [toInt_ofNat_of_lt hi]; exact hy), toInt_ofNat_of_lt hi]
  rw [hits_iff hpx hpy, hxj, hyi]
  omega

/-- A sum inside an interval of `int32_t` values. -/
theorem IsInt32.add_of_lt {a n : Int} {k : Nat} (ha : IsInt32 a) (hn : IsInt32 (a + n)) (hk : k < n) :
    IsInt32 (a + k) := by
  unfold IsInt32 at *
  omega

/-- **A plot of points at offsets** from the corner of a rectangle. -/
theorem painted_offsets {L : PixelLayer} {l : List (Nat × Nat)} {k : Nat × Nat → BitVec 32}
    (hv : g.Valid) (hr : r.Fits) (hl : ∀ q ∈ l, q.1 < r.h.toInt ∧ q.2 < r.w.toInt)
    (hcol : ∀ q ∈ l, L (r.x.toInt + q.2, r.y.toInt + q.1) = some (k q))
    (hmiss : ∀ p, (∀ q ∈ l, p ≠ (r.x.toInt + q.2, r.y.toInt + q.1)) → L p = none) :
    Painted g (plot g (fun q => (r.x + BitVec.ofNat 32 q.2, r.y + BitVec.ofNat 32 q.1)) k l) L := by
  have hwlt := (isInt32_toInt r.w).2
  have hhlt := (isInt32_toInt r.h).2
  have hoff : ∀ px py q, g.OnScreen px py → q ∈ l →
      (Hits (r.x + BitVec.ofNat 32 q.2, r.y + BitVec.ofNat 32 q.1) px py ↔
        (px : Int) = r.x.toInt + q.2 ∧ (py : Int) = r.y.toInt + q.1) := by
    intro px py q hon hq
    obtain ⟨hi, hj⟩ := hl q hq
    have hpx := Nat.lt_trans hon.1 hv.width
    have hpy := Nat.lt_trans hon.2 hv.height
    exact hits_offset_iff hpx hpy (by omega) (by omega)
      (IsInt32.add_of_lt (isInt32_toInt _) hr.right hj)
      (IsInt32.add_of_lt (isInt32_toInt _) hr.bottom hi)
  refine painted_plot hv ?_ ?_
  · intro px py q hon hq hit
    obtain ⟨hx, hy⟩ := (hoff px py q hon hq).mp hit
    rw [hx, hy]
    exact hcol q hq
  · intro px py hon hno
    refine hmiss _ fun q hq heq => hno q hq ((hoff px py q hon hq).mpr ?_)
    exact Prod.ext_iff.mp heq

/-- The offsets in a rectangle's grid reach its pixels. -/
theorem exists_offset {p : Int × Int} (h : r.Mem p.1 p.2) :
    ∃ i j : Nat, i < r.h.toInt ∧ j < r.w.toInt ∧ p = (r.x.toInt + j, r.y.toInt + i) := by
  obtain ⟨hx, hx', hy, hy'⟩ := h
  refine ⟨(p.2 - r.y.toInt).toNat, (p.1 - r.x.toInt).toNat, by omega, by omega, ?_⟩
  apply Prod.ext
  · show p.1 = r.x.toInt + ((p.1 - r.x.toInt).toNat : Int)
    omega
  · show p.2 = r.y.toInt + ((p.2 - r.y.toInt).toNat : Int)
    omega

variable (color) in
/-- The loop over all pixels of a rectangle. -/
theorem painted_rectLoop (hv : g.Valid) (hr : r.Fits) (hw : 0 ≤ r.w.toInt) (hh : 0 ≤ r.h.toInt) :
    Painted g
      ((List.range r.h.toNat).foldl
        (fun g i =>
          (List.range r.w.toNat).foldl
            (fun g j => graphicsPutPixel g (r.x + BitVec.ofNat 32 j) (r.y + BitVec.ofNat 32 i) color) g)
        g)
      (rectLayer r color) := by
  have hwn := toInt_eq_toNat_of_nonneg hw
  have hhn := toInt_eq_toNat_of_nonneg hh
  rw [foldl_grid fun g i j => graphicsPutPixel g (r.x + BitVec.ofNat 32 j) (r.y + BitVec.ofNat 32 i) color]
  refine painted_offsets (k := fun _ => color) hv hr ?_ ?_ ?_
  · intro q hq
    obtain ⟨hi, hj⟩ := mem_grid.mp hq
    omega
  · intro q hq
    obtain ⟨hi, hj⟩ := mem_grid.mp hq
    apply if_pos
    show r.Mem (r.x.toInt + q.2) (r.y.toInt + q.1)
    unfold Rect.Mem
    omega
  · intro p hno
    apply if_neg
    intro hmem
    obtain ⟨i, j, hi, hj, rfl⟩ := exists_offset hmem
    exact hno (i, j) (mem_grid.mpr ⟨by omega, by omega⟩) rfl

/-- **`graphics_draw_rect`** paints its rectangle. -/
theorem painted_drawRect (hv : g.Valid) (hr : r.Fits) (hw : 0 ≤ r.w.toInt) (hh : 0 ≤ r.h.toInt) :
    Painted g (graphicsDrawRect g r.x r.y r.w r.h color) (rectLayer r color) := by
  unfold graphicsDrawRect
  rw [if_neg hv.backbuffer]
  exact painted_rectLoop _ hv hr hw hh

theorem toInt_maxInt32_zero (u : BitVec 32) : (maxInt32 0 u).toInt = max u.toInt 0 := by
  rw [toInt_maxInt32, show BitVec.toInt (0 : BitVec 32) = 0 from rfl]
  omega

/-- Clipping one side of a rectangle to the screen. -/
theorem toInt_clipSide {u v b : BitVec 32} (hb : 0 ≤ b.toInt) (hfits : IsInt32 (u.toInt + v.toInt)) :
    (minInt32 b (u + v) - maxInt32 0 u).toInt = min (u.toInt + v.toInt) b.toInt - max u.toInt 0 := by
  have hmin : (minInt32 b (u + v)).toInt = min (u.toInt + v.toInt) b.toInt := by
    rw [toInt_minInt32, toInt_add_of hfits]
    omega
  have hmax := toInt_maxInt32_zero u
  have hu := isInt32_toInt u
  have hv := isInt32_toInt v
  have hb' := isInt32_toInt b
  unfold IsInt32 at hu hv hb' hfits
  rw [toInt_sub_of, hmin, hmax]
  rw [hmin, hmax]
  unfold IsInt32
  omega

/-- What `clip_rect` returned: the on-screen part, which is not empty. -/
structure IsClipped (g : Graphics) (r c : Rect) : Prop where
  x : c.x.toInt = max r.x.toInt 0
  y : c.y.toInt = max r.y.toInt 0
  right : c.x.toInt + c.w.toInt = min (r.x.toInt + r.w.toInt) g.fbWidth.toNat
  bottom : c.y.toInt + c.h.toInt = min (r.y.toInt + r.h.toInt) g.fbHeight.toNat
  w : 0 < c.w.toInt
  h : 0 < c.h.toInt

/-- **`clip_rect`** on a screen whose sides are `int32_t` values. -/
theorem clipRect_cases (hwidth : g.fbWidth.toNat < 2147483648)
    (hheight : g.fbHeight.toNat < 2147483648) (hr : r.Fits) :
    (∃ c, clipRect g r = some c ∧ IsClipped g r c) ∨
    (clipRect g r = none ∧ ∀ px py, g.OnScreen px py → ¬ r.Mem px py) := by
  have hW := toInt_of_toNat_lt hwidth
  have hH := toInt_of_toNat_lt hheight
  have hx := toInt_maxInt32_zero r.x
  have hy := toInt_maxInt32_zero r.y
  have hw := toInt_clipSide (b := g.fbWidth) (by omega) hr.right
  have hh := toInt_clipSide (b := g.fbHeight) (by omega) hr.bottom
  have hclip : clipRect g r =
      if (0#32).slt (minInt32 g.fbWidth (r.x + r.w) - maxInt32 0 r.x) &&
          (0#32).slt (minInt32 g.fbHeight (r.y + r.h) - maxInt32 0 r.y)
      then some ⟨maxInt32 0 r.x, maxInt32 0 r.y, minInt32 g.fbWidth (r.x + r.w) - maxInt32 0 r.x,
        minInt32 g.fbHeight (r.y + r.h) - maxInt32 0 r.y⟩
      else none := rfl
  simp only [Bool.and_eq_true, BitVec.slt_iff_toInt_lt, BitVec.toInt_zero, hw, hh] at hclip
  by_cases hpos : 0 < min (r.x.toInt + r.w.toInt) g.fbWidth.toInt - max r.x.toInt 0 ∧
      0 < min (r.y.toInt + r.h.toInt) g.fbHeight.toInt - max r.y.toInt 0
  · rw [if_pos hpos] at hclip
    refine .inl ⟨_, hclip, hx, hy, ?_, ?_, ?_, ?_⟩
    · show (maxInt32 0 r.x).toInt + (minInt32 g.fbWidth (r.x + r.w) - maxInt32 0 r.x).toInt = _
      omega
    · show (maxInt32 0 r.y).toInt + (minInt32 g.fbHeight (r.y + r.h) - maxInt32 0 r.y).toInt = _
      omega
    · show 0 < (minInt32 g.fbWidth (r.x + r.w) - maxInt32 0 r.x).toInt
      omega
    · show 0 < (minInt32 g.fbHeight (r.y + r.h) - maxInt32 0 r.y).toInt
      omega
  · rw [if_neg hpos] at hclip
    refine .inr ⟨hclip, fun px py hon hmem => hpos ?_⟩
    obtain ⟨hpx, hpy⟩ := hon
    unfold Rect.Mem at hmem
    omega

/-- Writing a pixel through its 64-bit index is putting it. -/
theorem setPixel_eq_putPixel (hv : g.Valid) {i : Nat} (hx : x.toNat < g.fbWidth.toNat)
    (hy : y.toNat < g.fbHeight.toNat) (hi : i = y.toNat * g.fbWidth.toNat + x.toNat) :
    g.setPixel i color = graphicsPutPixel g x y color := by
  unfold graphicsPutPixel
  rw [if_neg, toNat_index hv hx hy, hi]
  rintro (hb | hle | hle)
  · exact hv.backbuffer hb
  · exact Nat.not_le.mpr hx hle
  · exact Nat.not_le.mpr hy hle

/-- Two loops whose bodies agree on states of one screen agree. -/
theorem foldl_congr_sameScreen {A : Type} {f k : Graphics → A → Graphics} {l : List A}
    (hfk : ∀ g' a, SameScreen g g' → a ∈ l → f g' a = k g' a)
    (hk : ∀ g' a, SameScreen g' (k g' a)) : l.foldl f g = l.foldl k g := by
  induction l generalizing g with
  | nil => rfl
  | cons a l ih =>
    rw [List.foldl_cons, List.foldl_cons, hfk g a (.refl g) List.mem_cons_self]
    exact ih fun g' b hg hb => hfk g' b ((hk g a).trans hg) (List.mem_cons_of_mem _ hb)

theorem toNat_signExtend_of_nonneg {u : BitVec 32} (hu : 0 ≤ u.toInt) :
    (u.signExtend 64).toNat = u.toNat := by
  have hmsb : u.msb = false := by
    rw [BitVec.msb_eq_toInt]
    exact decide_eq_false (Int.not_lt.mpr hu)
  rw [BitVec.signExtend_eq_setWidth_of_msb_false hmsb, BitVec.toNat_setWidth]
  exact Nat.mod_eq_of_lt (by omega)

/-- The 64-bit index that `graphics_clear_rect` computes. -/
theorem toNat_wideIndex {u v b : BitVec 32} {k : Nat} (hu : 0 ≤ u.toInt) (hv : 0 ≤ v.toInt)
    (hb : b.toNat < 2147483648) (hk : k < 2147483648) :
    (u.signExtend 64 * b.setWidth 64 + v.signExtend 64 + BitVec.ofNat 64 k : Word).toNat =
      u.toNat * b.toNat + (v.toNat + k) := by
  have hmul : u.toNat * b.toNat < 4294967296 * 2147483648 :=
    Nat.mul_lt_mul'' u.isLt hb
  have hb' : (b.setWidth 64 : Word).toNat = b.toNat := by
    rw [BitVec.toNat_setWidth]
    exact Nat.mod_eq_of_lt (by omega)
  rw [BitVec.toNat_add, BitVec.toNat_add, BitVec.toNat_mul, toNat_signExtend_of_nonneg hu,
    toNat_signExtend_of_nonneg hv, hb', BitVec.toNat_ofNat]
  omega

variable (color) in
/-- **`graphics_clear_rect`** paints the on-screen part of its rectangle. -/
theorem painted_clearRect (hv : g.Valid) (hr : r.Fits) :
    Painted g (graphicsClearRect g r.x r.y r.w r.h color) (rectLayer r color) := by
  unfold graphicsClearRect
  rw [if_neg hv.backbuffer]
  show Painted g (match clipRect g r with | none => g | some rect => _) _
  rcases clipRect_cases hv.width hv.height hr with ⟨c, hc, hclip⟩ | ⟨hnone, hoff⟩
  · rw [hc]
    obtain ⟨hx, hy, hright, hbottom, hw, hh⟩ := hclip
    have hWlt := hv.width
    have hHlt := hv.height
    have hwn := toInt_eq_toNat_of_nonneg hw.le
    have hhn := toInt_eq_toNat_of_nonneg hh.le
    have hxn := toInt_eq_toNat_of_nonneg (a := c.x) (by omega)
    have hyn := toInt_eq_toNat_of_nonneg (a := c.y) (by omega)
    have hfits : c.Fits := by
      constructor
      · unfold IsInt32
        omega
      · unfold IsInt32
        omega
    -- every index the loops compute is that of an on-screen pixel
    have hput : ∀ g' i j, SameScreen g g' → i < c.h.toNat → j < c.w.toNat → ∀ b, b = g.fbWidth →
        g'.setPixel ((c.y + BitVec.ofNat 32 i).signExtend 64 * b.setWidth 64 +
          c.x.signExtend 64 + BitVec.ofNat 64 j : Word).toNat color =
        graphicsPutPixel g' (c.x + BitVec.ofNat 32 j) (c.y + BitVec.ofNat 32 i) color := by
      rintro g' i j hg hi hj b rfl
      have hxj : (c.x + BitVec.ofNat 32 j).toNat = c.x.toNat + j := by
        rw [BitVec.toNat_add, BitVec.toNat_ofNat]
        omega
      have hyi : (c.y + BitVec.ofNat 32 i).toNat = c.y.toNat + i := by
        rw [BitVec.toNat_add, BitVec.toNat_ofNat]
        omega
      have hyi' := toInt_of_toNat_lt (a := c.y + BitVec.ofNat 32 i) (by omega)
      refine setPixel_eq_putPixel (hg.valid hv) ?_ ?_ ?_
      · rw [hg.fbWidth]
        omega
      · rw [hg.fbHeight]
        omega
      · rw [toNat_wideIndex (by omega) (by omega) hWlt (by omega), hxj, hg.fbWidth]
    have hloop := painted_rectLoop color hv hfits hw.le hh.le
    have hrows : c.h.toInt.toNat = c.h.toNat := by omega
    have hcols : c.w.toInt.toNat = c.w.toNat := by omega
    show Painted g (List.foldl _ g (List.range c.h.toInt.toNat)) _
    rw [hrows, hcols]
    rw [foldl_congr_sameScreen (k := fun g i => (List.range c.w.toNat).foldl
      (fun g j => graphicsPutPixel g (c.x + BitVec.ofNat 32 j) (c.y + BitVec.ofNat 32 i) color) g)]
    · refine hloop.congr fun px py hon => ?_
      obtain ⟨hpx, hpy⟩ := hon
      have hiff : r.Mem px py ↔ c.Mem px py := by
        unfold Rect.Mem
        omega
      show (if r.Mem px py then some color else none) = if c.Mem px py then some color else none
      simp only [hiff]
    · intro g' i hg hi
      show List.foldl _ g' (List.range c.w.toNat) = _
      exact foldl_congr_sameScreen
        (fun g'' j hg' hj => hput g'' i j (hg.trans hg') (List.mem_range.mp hi) (List.mem_range.mp hj)
          g'.fbWidth hg.fbWidth)
        fun _ _ => sameScreen_putPixel
    · intro g' i
      exact sameScreen_plot (f := fun j => (c.x + BitVec.ofNat 32 j, c.y + BitVec.ofNat 32 i))
        (k := fun _ => color)
  · rw [hnone]
    exact (Painted.refl g).congr fun px py hon => if_neg (hoff px py hon)

/-! ## §5. The cursor. -/

/-- The cursor at `(x, y)` has the pixel `p`: row `i` of the arrow has
    `i / 2 + 1` pixels. -/
def CursorPixel (x y : BitVec 32) (p : Int × Int) : Prop :=
  y.toInt ≤ p.2 ∧ p.2 < y.toInt + 15 ∧ x.toInt ≤ p.1 ∧ p.1 < x.toInt + 10 ∧
    p.1 - x.toInt < (p.2 - y.toInt) / 2 + 1

instance (x y : BitVec 32) (p : Int × Int) : Decidable (CursorPixel x y p) := by
  unfold CursorPixel; infer_instance

def cursorLayer (x y : BitVec 32) : PixelLayer := Layer.fill (CursorPixel x y) 0xFFFFFFFF

/-- **`graphics_draw_cursor`** paints the arrow. -/
theorem painted_drawCursor (hv : g.Valid) (hx : IsInt32 (x.toInt + 10)) (hy : IsInt32 (y.toInt + 15)) :
    Painted g (graphicsDrawCursor g x y) (cursorLayer x y) := by
  have hr : Rect.Fits ⟨x, y, 10, 15⟩ := ⟨hx, hy⟩
  unfold graphicsDrawCursor
  rw [if_neg hv.backbuffer,
    foldl_grid fun g i j => if j < i / 2 + 1 then
      graphicsPutPixel g (x + BitVec.ofNat 32 j) (y + BitVec.ofNat 32 i) 0xFFFFFFFF else g]
  have hfilter : (((List.range 15).product (List.range 10)).filter
      fun q => decide (q.2 < q.1 / 2 + 1)).foldl
        (fun g q => graphicsPutPixel g (x + BitVec.ofNat 32 q.2) (y + BitVec.ofNat 32 q.1) 0xFFFFFFFF) g =
      _ := List.foldl_filter
  simp only [decide_eq_true_eq] at hfilter
  rw [← hfilter]
  refine painted_offsets (r := ⟨x, y, 10, 15⟩) (k := fun _ => 0xFFFFFFFF) hv hr ?_ ?_ ?_
  · intro q hq
    obtain ⟨hi, hj⟩ := mem_grid.mp (List.mem_of_mem_filter hq)
    show (q.1 : Int) < 15 ∧ (q.2 : Int) < 10
    omega
  · intro q hq
    obtain ⟨hgrid, hrow⟩ := List.mem_filter.mp hq
    obtain ⟨hi, hj⟩ := mem_grid.mp hgrid
    have hrow' : q.2 < q.1 / 2 + 1 := of_decide_eq_true hrow
    apply if_pos
    show CursorPixel x y (x.toInt + q.2, y.toInt + q.1)
    unfold CursorPixel
    show y.toInt ≤ y.toInt + (q.1 : Int) ∧ y.toInt + (q.1 : Int) < y.toInt + 15 ∧
      x.toInt ≤ x.toInt + (q.2 : Int) ∧ x.toInt + (q.2 : Int) < x.toInt + 10 ∧
      x.toInt + (q.2 : Int) - x.toInt < (y.toInt + (q.1 : Int) - y.toInt) / 2 + 1
    omega
  · intro p hno
    apply if_neg
    intro hshape
    have hmem : Rect.Mem ⟨x, y, 10, 15⟩ p.1 p.2 :=
      ⟨hshape.2.2.1, hshape.2.2.2.1, hshape.1, hshape.2.1⟩
    obtain ⟨i, j, hi, hj, rfl⟩ := exists_offset hmem
    have hi' : (i : Int) < 15 := hi
    have hj' : (j : Int) < 10 := hj
    have hrow : x.toInt + (j : Int) - x.toInt < (y.toInt + (i : Int) - y.toInt) / 2 + 1 :=
      hshape.2.2.2.2
    refine hno (i, j) (List.mem_filter.mpr ⟨mem_grid.mpr ⟨by omega, by omega⟩, ?_⟩) rfl
    apply decide_eq_true
    show j < i / 2 + 1
    omega

end Drawing

end ZohoOs
