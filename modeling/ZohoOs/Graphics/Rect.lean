/-
  ZohoOs.Graphics.Rect — rectangles (graphics.h, window.c).

  The fields of a `rect_t` are `int32_t`: words whose comparisons read them
  with a sign.  `Rect.Mem` is the set of pixels a rectangle stands for, and
  `Rect.Fits` says that its far edges do not overflow.

  Main results:
    * `rectIntersect_some`, `rectIntersect_none` — an intersection covers
      exactly the pixels of both rectangles, and none is returned only when
      there is no such pixel.
-/
import ZohoOs.Lib.Signed
import Mathlib.Tactic.SplitIfs

namespace ZohoOs

open ZohoOs.Lib

/-! ## §1. The functions. -/

/-- `rect_t`. -/
structure Rect where
  x : BitVec 32
  y : BitVec 32
  w : BitVec 32
  h : BitVec 32
  deriving DecidableEq

/-- `(a < b) ? a : b` on `int32_t`. -/
def minInt32 (a b : BitVec 32) : BitVec 32 := if a.slt b then a else b

/-- `(a > b) ? a : b` on `int32_t`. -/
def maxInt32 (a b : BitVec 32) : BitVec 32 := if b.slt a then a else b

/-- `rect_union`. -/
def rectUnion (a b : Rect) : Rect :=
  let x1 := minInt32 a.x b.x
  let y1 := minInt32 a.y b.y
  let x2 := maxInt32 (a.x + a.w) (b.x + b.w)
  let y2 := maxInt32 (a.y + a.h) (b.y + b.h)
  ⟨x1, y1, x2 - x1, y2 - y1⟩

/-- `rect_intersect`; `none` is the result 0. -/
def rectIntersect (a b : Rect) : Option Rect :=
  let x1 := maxInt32 a.x b.x
  let y1 := maxInt32 a.y b.y
  let x2 := minInt32 (a.x + a.w) (b.x + b.w)
  let y2 := minInt32 (a.y + a.h) (b.y + b.h)
  if x2.sle x1 || y2.sle y1 then none
  else some ⟨x1, y1, x2 - x1, y2 - y1⟩

/-! ## §2. The pixels of a rectangle. -/

/-- The pixel in column `px` of row `py` lies in the rectangle. -/
def Rect.Mem (r : Rect) (px py : Int) : Prop :=
  r.x.toInt ≤ px ∧ px < r.x.toInt + r.w.toInt ∧ r.y.toInt ≤ py ∧ py < r.y.toInt + r.h.toInt

instance (r : Rect) (px py : Int) : Decidable (r.Mem px py) := by unfold Rect.Mem; infer_instance

/-- The far edges of the rectangle are `int32_t` values. -/
structure Rect.Fits (r : Rect) : Prop where
  right : IsInt32 (r.x.toInt + r.w.toInt)
  bottom : IsInt32 (r.y.toInt + r.h.toInt)

/-- One rectangle lies in another. -/
structure Rect.Within (r o : Rect) : Prop where
  left : o.x.toInt ≤ r.x.toInt
  right : r.x.toInt + r.w.toInt ≤ o.x.toInt + o.w.toInt
  top : o.y.toInt ≤ r.y.toInt
  bottom : r.y.toInt + r.h.toInt ≤ o.y.toInt + o.h.toInt

theorem Rect.Within.mem {r o : Rect} {p : Int × Int} (h : r.Within o) (hp : r.Mem p.1 p.2) :
    o.Mem p.1 p.2 := by
  obtain ⟨hl, hr, ht, hb⟩ := h
  unfold Rect.Mem at *
  omega

section Lemmas

variable {a b r : Rect} {px py : Int}

theorem toInt_minInt32 (u v : BitVec 32) : (minInt32 u v).toInt = min u.toInt v.toInt := by
  unfold minInt32
  simp only [BitVec.slt_iff_toInt_lt]
  split_ifs with h <;> omega

theorem toInt_maxInt32 (u v : BitVec 32) : (maxInt32 u v).toInt = max u.toInt v.toInt := by
  unfold maxInt32
  simp only [BitVec.slt_iff_toInt_lt]
  split_ifs with h <;> omega

/-- The far edges of an intersection are the nearer ones. -/
theorem toInt_far {x w x' w' : BitVec 32} (ha : IsInt32 (x.toInt + w.toInt))
    (hb : IsInt32 (x'.toInt + w'.toInt)) :
    (minInt32 (x + w) (x' + w')).toInt = min (x.toInt + w.toInt) (x'.toInt + w'.toInt) := by
  rw [toInt_minInt32, toInt_add_of ha, toInt_add_of hb]

/-- What `rect_intersect` returned: the common part, which is not empty. -/
structure IsIntersection (a b r : Rect) : Prop where
  x : r.x.toInt = max a.x.toInt b.x.toInt
  y : r.y.toInt = max a.y.toInt b.y.toInt
  right : r.x.toInt + r.w.toInt = min (a.x.toInt + a.w.toInt) (b.x.toInt + b.w.toInt)
  bottom : r.y.toInt + r.h.toInt = min (a.y.toInt + a.h.toInt) (b.y.toInt + b.h.toInt)
  w : 0 < r.w.toInt
  h : 0 < r.h.toInt

/-- The width of a common part does not overflow: it is at most the width of
    either rectangle. -/
theorem toInt_width {l r : BitVec 32} {x w : Int} (hw : IsInt32 w) (hlt : l.toInt < r.toInt)
    (hx : x ≤ l.toInt) (hr : r.toInt ≤ x + w) : (r - l).toInt = r.toInt - l.toInt := by
  apply toInt_sub_of
  unfold IsInt32 at hw ⊢
  omega

theorem rectIntersect_eq_some (ha : a.Fits) (hb : b.Fits) (h : rectIntersect a b = some r) :
    IsIntersection a b r := by
  have hx2 := toInt_far ha.right hb.right
  have hy2 := toInt_far ha.bottom hb.bottom
  have hx1 := toInt_maxInt32 a.x b.x
  have hy1 := toInt_maxInt32 a.y b.y
  unfold rectIntersect at h
  simp only [Bool.or_eq_true, BitVec.sle_iff_toInt_le] at h
  split_ifs at h with hc
  obtain ⟨hcx, hcy⟩ := not_or.mp hc
  cases h
  have hw := toInt_width (x := a.x.toInt) (isInt32_toInt a.w) (Int.not_le.mp hcx) (by omega) (by omega)
  have hh := toInt_width (x := a.y.toInt) (isInt32_toInt a.h) (Int.not_le.mp hcy) (by omega) (by omega)
  refine ⟨hx1, hy1, ?_, ?_, ?_, ?_⟩
  · show (maxInt32 a.x b.x).toInt + (minInt32 (a.x + a.w) (b.x + b.w) - maxInt32 a.x b.x).toInt = _
    omega
  · show (maxInt32 a.y b.y).toInt + (minInt32 (a.y + a.h) (b.y + b.h) - maxInt32 a.y b.y).toInt = _
    omega
  · show 0 < (minInt32 (a.x + a.w) (b.x + b.w) - maxInt32 a.x b.x).toInt
    omega
  · show 0 < (minInt32 (a.y + a.h) (b.y + b.h) - maxInt32 a.y b.y).toInt
    omega

/-- **An intersection covers exactly the pixels of both rectangles.** -/
theorem rectIntersect_some (ha : a.Fits) (hb : b.Fits) (h : rectIntersect a b = some r) :
    r.Mem px py ↔ a.Mem px py ∧ b.Mem px py := by
  obtain ⟨hx, hy, hr, hbot, -, -⟩ := rectIntersect_eq_some ha hb h
  unfold Rect.Mem
  omega

/-- **Rectangles without an intersection share no pixel.** -/
theorem rectIntersect_none (ha : a.Fits) (hb : b.Fits) (h : rectIntersect a b = none) :
    ¬ (a.Mem px py ∧ b.Mem px py) := by
  have hx2 := toInt_far ha.right hb.right
  have hy2 := toInt_far ha.bottom hb.bottom
  have hx1 := toInt_maxInt32 a.x b.x
  have hy1 := toInt_maxInt32 a.y b.y
  unfold rectIntersect at h
  simp only [Bool.or_eq_true, BitVec.sle_iff_toInt_le] at h
  split_ifs at h with hc
  unfold Rect.Mem
  omega

/-- The intersection fits whenever one of the rectangles does. -/
theorem IsIntersection.fits (h : IsIntersection a b r) (ha : a.Fits) (hb : b.Fits) : r.Fits := by
  obtain ⟨⟨hr, hr'⟩, hbot, hbot'⟩ := ha
  obtain ⟨⟨sr, sr'⟩, sbot, sbot'⟩ := hb
  obtain ⟨-, -, ir, ibot, -, -⟩ := h
  constructor
  · unfold IsInt32
    omega
  · unfold IsInt32
    omega

end Lemmas

end ZohoOs
