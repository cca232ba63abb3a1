/-
  ZohoOs.Window.DirtyQueue — the queue of dirty rectangles (window.c).

  `queue_dirty_rect` clips its rectangle to the screen.  It merges what is left
  into the first entry it meets, or appends it; when the queue is full and no
  entry meets it, the bounding rectangle of the first entry and the new one
  replaces the whole queue.

  Main results:
    * `queueRect_inside` — entries are never empty, lie inside the screen, and
      are at most 32;
    * `queue_covers_iff` — a call keeps the pixels of the queue and adds those
      of its rectangle, except when it overwrites a full queue with a bounding
      rectangle that misses an entry.
-/
import ZohoOs.Window.Desktop

namespace ZohoOs

open ZohoOs.Lib

/-! ## §1. Rectangles on the screen. -/

/-- A rectangle with at least one pixel, all of them on the screen. -/
structure Rect.Placed (r screen : Rect) : Prop extends r.Within screen where
  wide : 0 < r.w.toInt
  tall : 0 < r.h.toInt

section Placed

variable {a b r screen : Rect} {p : Int × Int}

theorem Rect.Placed.fits (h : r.Placed screen) (hs : screen.Fits) : r.Fits := by
  obtain ⟨⟨hleft, hright, htop, hbottom⟩, hw, hh⟩ := h
  obtain ⟨⟨hs₁, hs₂⟩, hs₃, hs₄⟩ := hs
  have hx := isInt32_toInt r.x
  have hy := isInt32_toInt r.y
  unfold IsInt32 at hx hy
  constructor
  · show IsInt32 (r.x.toInt + r.w.toInt)
    unfold IsInt32
    omega
  · show IsInt32 (r.y.toInt + r.h.toInt)
    unfold IsInt32
    omega

/-- **What is clipped to the screen lies on it**, even when the far edge of the
    rectangle overflows. -/
theorem placed_of_intersect (hs : screen.Fits) (h : rectIntersect a screen = some r) :
    r.Placed screen := by
  have hx1 := toInt_maxInt32 a.x screen.x
  have hy1 := toInt_maxInt32 a.y screen.y
  have hx2 := toInt_minInt32 (a.x + a.w) (screen.x + screen.w)
  have hy2 := toInt_minInt32 (a.y + a.h) (screen.y + screen.h)
  rw [toInt_add_of hs.right] at hx2
  rw [toInt_add_of hs.bottom] at hy2
  unfold rectIntersect at h
  simp only [Bool.or_eq_true, BitVec.sle_iff_toInt_le] at h
  split_ifs at h with hc
  obtain ⟨hcx, hcy⟩ := not_or.mp hc
  cases h
  have hw := toInt_width (x := screen.x.toInt) (isInt32_toInt screen.w) (Int.not_le.mp hcx)
    (by omega) (by omega)
  have hh := toInt_width (x := screen.y.toInt) (isInt32_toInt screen.h) (Int.not_le.mp hcy)
    (by omega) (by omega)
  refine ⟨⟨?_, ?_, ?_, ?_⟩, ?_, ?_⟩
  · show screen.x.toInt ≤ (maxInt32 a.x screen.x).toInt
    omega
  · show (maxInt32 a.x screen.x).toInt +
      (minInt32 (a.x + a.w) (screen.x + screen.w) - maxInt32 a.x screen.x).toInt ≤ _
    omega
  · show screen.y.toInt ≤ (maxInt32 a.y screen.y).toInt
    omega
  · show (maxInt32 a.y screen.y).toInt +
      (minInt32 (a.y + a.h) (screen.y + screen.h) - maxInt32 a.y screen.y).toInt ≤ _
    omega
  · show 0 < (minInt32 (a.x + a.w) (screen.x + screen.w) - maxInt32 a.x screen.x).toInt
    omega
  · show 0 < (minInt32 (a.y + a.h) (screen.y + screen.h) - maxInt32 a.y screen.y).toInt
    omega

/-- What `rect_union` returned: the smallest rectangle around both. -/
structure IsUnion (a b r : Rect) : Prop where
  x : r.x.toInt = min a.x.toInt b.x.toInt
  y : r.y.toInt = min a.y.toInt b.y.toInt
  right : r.x.toInt + r.w.toInt = max (a.x.toInt + a.w.toInt) (b.x.toInt + b.w.toInt)
  bottom : r.y.toInt + r.h.toInt = max (a.y.toInt + a.h.toInt) (b.y.toInt + b.h.toInt)

theorem rectUnion_isUnion (hs : screen.Fits) (ha : a.Placed screen) (hb : b.Placed screen) :
    IsUnion a b (rectUnion a b) := by
  have hx1 := toInt_minInt32 a.x b.x
  have hy1 := toInt_minInt32 a.y b.y
  have hx2 := toInt_maxInt32 (a.x + a.w) (b.x + b.w)
  have hy2 := toInt_maxInt32 (a.y + a.h) (b.y + b.h)
  rw [toInt_add_of (ha.fits hs).right, toInt_add_of (hb.fits hs).right] at hx2
  rw [toInt_add_of (ha.fits hs).bottom, toInt_add_of (hb.fits hs).bottom] at hy2
  obtain ⟨⟨hal, har, hat, hab⟩, haw, hah⟩ := ha
  obtain ⟨⟨hbl, hbr, hbt, hbb⟩, hbw, hbh⟩ := hb
  have hw := toInt_width (l := minInt32 a.x b.x) (r := maxInt32 (a.x + a.w) (b.x + b.w))
    (x := screen.x.toInt) (isInt32_toInt screen.w) (by omega) (by omega) (by omega)
  have hh := toInt_width (l := minInt32 a.y b.y) (r := maxInt32 (a.y + a.h) (b.y + b.h))
    (x := screen.y.toInt) (isInt32_toInt screen.h) (by omega) (by omega) (by omega)
  refine ⟨hx1, hy1, ?_, ?_⟩
  · show (minInt32 a.x b.x).toInt + (maxInt32 (a.x + a.w) (b.x + b.w) - minInt32 a.x b.x).toInt = _
    omega
  · show (minInt32 a.y b.y).toInt + (maxInt32 (a.y + a.h) (b.y + b.h) - minInt32 a.y b.y).toInt = _
    omega

/-- A union of rectangles on the screen lies on it, around both. -/
theorem placed_union (hs : screen.Fits) (ha : a.Placed screen) (hb : b.Placed screen) :
    (rectUnion a b).Placed screen ∧ a.Within (rectUnion a b) ∧ b.Within (rectUnion a b) := by
  obtain ⟨hx, hy, hr, hbot⟩ := rectUnion_isUnion hs ha hb
  obtain ⟨⟨hal, har, hat, hab⟩, haw, hah⟩ := ha
  obtain ⟨⟨hbl, hbr, hbt, hbb⟩, hbw, hbh⟩ := hb
  refine ⟨⟨⟨?_, ?_, ?_, ?_⟩, ?_, ?_⟩, ⟨?_, ?_, ?_, ?_⟩, ⟨?_, ?_, ?_, ?_⟩⟩ <;> omega

/-- A rectangle with a pixel lies in another when its pixels do. -/
theorem within_of_pixels (h : r.Placed screen) (hp : ∀ p : Int × Int, r.Mem p.1 p.2 → a.Mem p.1 p.2) :
    r.Within a := by
  obtain ⟨-, hw, hh⟩ := h
  have hfirst := hp (r.x.toInt, r.y.toInt) (by unfold Rect.Mem; omega)
  have hlast := hp (r.x.toInt + r.w.toInt - 1, r.y.toInt + r.h.toInt - 1) (by unfold Rect.Mem; omega)
  unfold Rect.Mem at hfirst hlast
  constructor <;> omega

end Placed

/-! ## §2. One call. -/

/-- What a queue should be. -/
structure QueueInside (screen : Rect) (q : List Rect) : Prop where
  placed : ∀ e ∈ q, e.Placed screen
  count : q.length ≤ windowMaxDirtyRects

/-- **No pixel is lost**: the queue covers what it covered and the on-screen
    pixels of the rectangle, and stays a queue. -/
structure QueueCovers (screen : Rect) (q : List Rect) (r : Rect) (q' : List Rect) : Prop where
  old : ∀ p, Covered q p → Covered q' p
  new : ∀ p : Int × Int, screen.Mem p.1 p.2 → r.Mem p.1 p.2 → Covered q' p
  inside : ∀ e ∈ q', e.Within screen
  count : q'.length ≤ windowMaxDirtyRects

/-- If the call overflows the queue, the bounding rectangle of the first entry
    and of the new one contains every other entry. -/
def FoldsWell (screen : Rect) (q : List Rect) (r : Rect) : Prop :=
  ∀ clipped, rectIntersect r screen = some clipped → (∀ e ∈ q, rectIntersect e clipped = none) →
    q.length = windowMaxDirtyRects → ∀ first rest, q = first :: rest →
      ∀ e ∈ rest, e.Within (rectUnion first clipped)

section Call

variable {screen r clipped : Rect} {q : List Rect}

/-- The three ways through `queue_dirty_rect` with something to queue. -/
theorem queueRect_cases (h : rectIntersect r screen = some clipped) :
    (∃ pre e post, q = pre ++ e :: post ∧ rectIntersect e clipped ≠ none ∧
      queueRect screen q r = pre ++ rectUnion e clipped :: post) ∨
    ((∀ e ∈ q, rectIntersect e clipped = none) ∧ q.length < windowMaxDirtyRects ∧
      queueRect screen q r = q ++ [clipped]) ∨
    ((∀ e ∈ q, rectIntersect e clipped = none) ∧ windowMaxDirtyRects ≤ q.length ∧
      queueRect screen q r = (q.take 1).map fun dirty => rectUnion dirty clipped) := by
  unfold queueRect
  rw [h]
  dsimp only
  cases hf : q.findIdx? fun dirty => (rectIntersect dirty clipped).isSome with
  | some i =>
    left
    obtain ⟨hi, hmeets, -⟩ := List.findIdx?_eq_some_iff_getElem.mp hf
    refine ⟨q.take i, q[i], q.drop (i + 1), ?_, Option.isSome_iff_ne_none.mp hmeets, ?_⟩
    · rw [List.getElem_cons_drop, List.take_append_drop]
    · exact List.modify_eq_take_cons_drop hi
  | none =>
    right
    have hnone : ∀ e ∈ q, rectIntersect e clipped = none := by
      intro e he
      simpa using List.findIdx?_eq_none_iff.mp hf e he
    by_cases hlen : q.length < windowMaxDirtyRects
    · exact .inl ⟨hnone, hlen, if_pos hlen⟩
    · exact .inr ⟨hnone, Nat.le_of_not_lt hlen, if_neg hlen⟩

/-- **A call keeps the entries on the screen** and their number within bounds,
    whatever the rectangle. -/
theorem queueRect_inside (hs : screen.Fits) (hq : QueueInside screen q) (r : Rect) :
    QueueInside screen (queueRect screen q r) := by
  cases hi : rectIntersect r screen with
  | none =>
    have hsame : queueRect screen q r = q := by
      unfold queueRect
      rw [hi]
    rw [hsame]
    exact hq
  | some clipped =>
    have hclip := placed_of_intersect hs hi
    rcases queueRect_cases (q := q) hi with ⟨pre, e, post, rfl, -, heq⟩ | ⟨-, hlen, heq⟩ | ⟨-, -, heq⟩
    · rw [heq]
      refine ⟨fun x hx => ?_, ?_⟩
      · rcases List.mem_append.mp hx with hx | hx
        · exact hq.placed x (List.mem_append_left _ hx)
        · rcases List.mem_cons.mp hx with rfl | hx
          · exact (placed_union hs (hq.placed e (by simp)) hclip).1
          · exact hq.placed x (by simp [hx])
      · have hcount := hq.count
        simpa using hcount
    · rw [heq]
      refine ⟨fun x hx => ?_, ?_⟩
      · rcases List.mem_append.mp hx with hx | hx
        · exact hq.placed x hx
        · rw [List.mem_singleton.mp hx]
          exact hclip
      · rw [List.length_append]
        exact hlen
    · rw [heq]
      refine ⟨fun x hx => ?_, ?_⟩
      · obtain ⟨e, he, rfl⟩ := List.mem_map.mp hx
        exact (placed_union hs (hq.placed e (List.mem_of_mem_take he)) hclip).1
      · rw [List.length_map, List.length_take]
        show min 1 q.length ≤ 32
        omega

/-- A covered pixel lies in one of the entries. -/
theorem covered_append {l m : List Rect} {p : Int × Int} :
    Covered (l ++ m) p ↔ Covered l p ∨ Covered m p := by
  constructor
  · intro h
    obtain ⟨e, he, hm⟩ := h
    exact (List.mem_append.mp he).imp (fun he => ⟨e, he, hm⟩) fun he => ⟨e, he, hm⟩
  · intro h
    rcases h with ⟨e, he, hm⟩ | ⟨e, he, hm⟩
    · exact ⟨e, List.mem_append_left _ he, hm⟩
    · exact ⟨e, List.mem_append_right _ he, hm⟩

theorem covered_cons {e : Rect} {l : List Rect} {p : Int × Int} :
    Covered (e :: l) p ↔ e.Mem p.1 p.2 ∨ Covered l p := by
  rw [show e :: l = [e] ++ l from rfl, covered_append]
  refine or_congr_left ?_
  constructor
  · intro h
    obtain ⟨x, hx, hm⟩ := h
    rw [← List.mem_singleton.mp hx]
    exact hm
  · exact fun hm => ⟨e, List.mem_singleton_self e, hm⟩

/-- **One call covers what it should exactly when it folds well.** -/
theorem queueRect_covers_iff (hs : screen.Fits) (hq : QueueInside screen q) (hr : r.Fits) :
    QueueCovers screen q r (queueRect screen q r) ↔ FoldsWell screen q r := by
  have hin := queueRect_inside hs hq r
  have hcovers : (∀ p, Covered q p → Covered (queueRect screen q r) p) →
      (∀ p : Int × Int, screen.Mem p.1 p.2 → r.Mem p.1 p.2 → Covered (queueRect screen q r) p) →
      QueueCovers screen q r (queueRect screen q r) := fun hold hnew =>
    ⟨hold, hnew, fun e he => (hin.placed e he).toWithin, hin.count⟩
  cases hi : rectIntersect r screen with
  | none =>
    -- off the screen: nothing is queued and nothing is lost
    have hsame : queueRect screen q r = q := by
      unfold queueRect
      rw [hi]
    constructor
    · intro _ clipped hclip
      rw [hi] at hclip
      cases hclip
    · intro _
      refine hcovers (fun p hp => ?_) fun p hscreen hmem => ?_
      · rw [hsame]
        exact hp
      · exact absurd ⟨hmem, hscreen⟩ (rectIntersect_none hr hs hi)
  | some clipped =>
    have hclip := placed_of_intersect hs hi
    have hpixel : ∀ p : Int × Int, screen.Mem p.1 p.2 → r.Mem p.1 p.2 → clipped.Mem p.1 p.2 :=
      fun p hscreen hmem => (rectIntersect_some hr hs hi).mpr ⟨hmem, hscreen⟩
    rcases queueRect_cases (q := q) hi with ⟨pre, e, post, rfl, hmeets, heq⟩ | ⟨hnone, hlen, heq⟩ |
      ⟨hnone, hfull, heq⟩
    · -- merged into the entry `e`
      obtain ⟨-, he, hc⟩ := placed_union hs (hq.placed e (by simp)) hclip
      constructor
      · intro _ clipped' hclip' hnone'
        rw [hi] at hclip'
        cases hclip'
        exact absurd (hnone' e (by simp)) hmeets
      · intro _
        rw [heq] at hcovers ⊢
        refine hcovers (fun p hp => ?_) fun p hscreen hmem => ?_
        · rw [covered_append, covered_cons] at hp ⊢
          exact hp.imp_right (Or.imp_left he.mem)
        · rw [covered_append, covered_cons]
          exact .inr (.inl (hc.mem (hpixel p hscreen hmem)))
    · -- appended
      constructor
      · intro _ clipped' _ _ hlen'
        exact absurd hlen' (Nat.ne_of_lt hlen)
      · intro _
        rw [heq] at hcovers ⊢
        refine hcovers (fun p hp => ?_) fun p hscreen hmem => ?_
        · exact covered_append.mpr (.inl hp)
        · exact covered_append.mpr (.inr ⟨clipped, List.mem_singleton_self _, hpixel p hscreen hmem⟩)
    · -- the queue was full: the bounding rectangle replaces it
      obtain ⟨first, rest, rfl⟩ : ∃ first rest, q = first :: rest := by
        cases q with
        | nil => exact absurd hfull (by decide)
        | cons first rest => exact ⟨first, rest, rfl⟩
      have heq' : queueRect screen (first :: rest) r = [rectUnion first clipped] := heq
      obtain ⟨-, hf, hc⟩ := placed_union hs (hq.placed first List.mem_cons_self) hclip
      rw [heq'] at hcovers ⊢
      constructor
      · intro h clipped' hclip' _ _ first' rest' hcons e he
        rw [hi] at hclip'
        cases hclip'
        cases hcons
        -- the old entries stay covered only where the first one's bounds hold them
        refine within_of_pixels (hq.placed e (List.mem_cons_of_mem _ he)) fun p hp => ?_
        obtain ⟨x, hx, hm⟩ := h.old p ⟨e, List.mem_cons_of_mem _ he, hp⟩
        rw [← List.mem_singleton.mp hx]
        exact hm
      · intro h
        have hrest := h clipped hi hnone (Nat.le_antisymm hq.count hfull) first rest rfl
        refine hcovers (fun p hp => ?_) fun p hscreen hmem => ?_
        · rw [covered_cons] at hp ⊢
          left
          rcases hp with hp | ⟨e, he, hp⟩
          · exact hf.mem hp
          · exact (hrest e he).mem hp
        · exact ⟨_, List.mem_singleton_self _, hc.mem (hpixel p hscreen hmem)⟩

end Call

/-! ## §3. Any sequence of calls. -/

/-- The queue after a sequence of calls since the last drain. -/
def queueAll (screen : Rect) (rects : List Rect) : List Rect := rects.foldl (queueRect screen) []

/-- The rectangle `(0, 0, w, h)`, whatever the size. -/
theorem fits_screen (w h : BitVec 32) : (⟨0, 0, w, h⟩ : Rect).Fits := by
  have hw := isInt32_toInt w
  have hh := isInt32_toInt h
  have h0 : BitVec.toInt (0 : BitVec 32) = 0 := rfl
  unfold IsInt32 at hw hh
  constructor
  · show IsInt32 (BitVec.toInt (0 : BitVec 32) + w.toInt)
    unfold IsInt32
    omega
  · show IsInt32 (BitVec.toInt (0 : BitVec 32) + h.toInt)
    unfold IsInt32
    omega

theorem queueAll_inside {screen : Rect} (hs : screen.Fits) (rects : List Rect) :
    QueueInside screen (queueAll screen rects) := by
  have hrun : ∀ q, QueueInside screen q → QueueInside screen (rects.foldl (queueRect screen) q) := by
    induction rects with
    | nil => exact fun q hq => hq
    | cons r rects ih => exact fun q hq => ih _ (queueRect_inside hs hq r)
  have hnil : QueueInside screen [] := ⟨fun _ he => absurd he List.not_mem_nil, by decide⟩
  exact hrun [] hnil

/-- **Coverage of the dirty queue.**  After any sequence of calls since the
    last drain, a further call with a rectangle that does not overflow keeps
    every pixel of the queue and adds the on-screen pixels of the rectangle, in
    at most 32 entries inside the screen, if and only if it folds well. -/
theorem queue_covers_iff (g : Graphics) (rects : List Rect) {r : Rect} (hr : r.Fits) :
    QueueCovers (screenRect g) (queueAll (screenRect g) rects) r
        (queueRect (screenRect g) (queueAll (screenRect g) rects) r) ↔
      FoldsWell (screenRect g) (queueAll (screenRect g) rects) r :=
  queueRect_covers_iff (fits_screen g.fbWidth g.fbHeight)
    (queueAll_inside (fits_screen g.fbWidth g.fbHeight) rects) hr

/-- A screen of 1024 by 768 pixels. -/
def plainScreen : Graphics := ⟨1, fun _ => 0, 1024, 768⟩

/-- A second rectangle that meets the first folds well. -/
theorem queue_covers_second :
    QueueCovers (screenRect plainScreen) (queueAll (screenRect plainScreen) [⟨0, 0, 20, 20⟩])
      ⟨10, 10, 20, 20⟩
      (queueRect (screenRect plainScreen) (queueAll (screenRect plainScreen) [⟨0, 0, 20, 20⟩])
        ⟨10, 10, 20, 20⟩) := by
  refine (queue_covers_iff plainScreen [⟨0, 0, 20, 20⟩] (r := ⟨10, 10, 20, 20⟩)
    ⟨by unfold IsInt32; decide, by unfold IsInt32; decide⟩).mpr ?_
  intro clipped _ _ hlen
  exact absurd hlen (by decide)

/-- 32 rectangles of one pixel, two columns apart. -/
def dots : List Rect := (List.range 32).map fun i => ⟨BitVec.ofNat 32 (2 * i), 0, 1, 1⟩

/-- **The 33rd disjoint rectangle drops the queue**: the pixel (2, 0), queued
    before, is lost. -/
theorem queue_loses_pixels :
    ¬ QueueCovers (screenRect plainScreen) (queueAll (screenRect plainScreen) dots) ⟨0, 2, 1, 1⟩
      (queueRect (screenRect plainScreen) (queueAll (screenRect plainScreen) dots) ⟨0, 2, 1, 1⟩) := by
  intro h
  have hbefore : Covered (queueAll (screenRect plainScreen) dots) (2, 0) := by decide +kernel
  have hafter : ¬ Covered (queueRect (screenRect plainScreen) (queueAll (screenRect plainScreen) dots)
      ⟨0, 2, 1, 1⟩) (2, 0) := by decide +kernel
  exact hafter (h.old (2, 0) hbefore)

end ZohoOs
