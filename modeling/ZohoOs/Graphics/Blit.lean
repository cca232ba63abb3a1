/-
  ZohoOs.Graphics.Blit — from the backbuffer to the framebuffer (graphics.c).

  The framebuffer is a block of bytes of its own, kept by offset from
  `fb_addr`.  Its rows are `fb_pitch` bytes apart, those of the backbuffer
  `4 * fb_width`.  Every `memcpy` between the two is recorded, with the
  offsets it reads and writes.

  Main results:
    * `blitted_row` — one row of a clipped rectangle is one piece of a
      framebuffer row, and of a backbuffer row;
    * `swapRects_exact` — `graphics_swap_rects` copies exactly the on-screen
      pixels of its rectangles.
-/
import ZohoOs.Graphics.Basic
import Mathlib.Data.Set.Lattice

namespace ZohoOs

open ZohoOs.Lib

/-! ## §1. The functions. -/

/-- One `memcpy`: byte offsets from `fb_addr` and from `backbuffer`. -/
structure BlitCopy where
  dst : Nat
  src : Nat
  size : Nat
  deriving DecidableEq

/-- The statics of graphics.c. -/
structure Display extends Graphics where
  fbAddr : Word
  fbPitch : BitVec 32
  /-- The bytes at `fb_addr`, by offset. -/
  framebuffer : Nat → BitVec 8
  /-- Ghost: the copies made so far, newest first. -/
  copies : List BlitCopy

/-- Byte `k` of a pixel. -/
def pixelByte (color : BitVec 32) (k : Nat) : BitVec 8 := color.extractLsb' (8 * k) 8

/-- The byte at an offset from `backbuffer`. -/
def Graphics.byte (g : Graphics) (o : Nat) : BitVec 8 := pixelByte (g.pixels (o / 4)) (o % 4)

namespace Display

/-- `memcpy` from the backbuffer to the framebuffer. -/
def memcpy (d : Display) (dst src size : Nat) : Display :=
  { d with
    framebuffer := fun o =>
      if dst ≤ o ∧ o < dst + size then d.byte (src + (o - dst)) else d.framebuffer o
    copies := ⟨dst, src, size⟩ :: d.copies }

/-- The copy of one row of a clipped rectangle. -/
def blitRow (d : Display) (rect : Rect) (row : Nat) : Display :=
  let y : Word := (rect.y + BitVec.ofNat 32 row).signExtend 64
  let dst := y * d.fbPitch.setWidth 64 + rect.x.signExtend 64 * 4
  let src := y * d.fbWidth.setWidth 64 + rect.x.signExtend 64
  d.memcpy dst.toNat (src * 4).toNat (rect.w.signExtend 64 * 4).toNat

/-- One turn of the loop over the rectangles. -/
def blitRect (d : Display) (rect : Rect) : Display :=
  match clipRect d.toGraphics rect with
  | none => d
  | some rect => (List.range rect.h.toInt.toNat).foldl (fun d row => d.blitRow rect row) d

end Display

/-- `graphics_swap`. -/
def graphicsSwap (d : Display) : Display :=
  if d.backbuffer = 0 ∨ d.fbAddr = 0 then d
  else d.memcpy 0 0 (d.fbPitch * d.fbHeight).toNat

/-- `graphics_swap_rects`; `none` is a null pointer. -/
def graphicsSwapRects (d : Display) (rects : Option (List Rect)) : Display :=
  if d.backbuffer = 0 ∨ d.fbAddr = 0 then d
  else
    match rects with
    | none => d
    | some rects => rects.foldl Display.blitRect d

/-! ## §2. Bytes and pixels. -/

namespace Display

/-- The offset of byte `k` of the pixel in column `px` of row `py`. -/
def offset (d : Display) (px py k : Nat) : Nat := py * d.fbPitch.toNat + (4 * px + k)

/-- The backbuffer byte that belongs at an offset. -/
def source (d : Display) (o : Nat) : BitVec 8 :=
  d.byte (o / d.fbPitch.toNat * (4 * d.fbWidth.toNat) + o % d.fbPitch.toNat)

/-- The bytes of the on-screen pixels of a rectangle. -/
def rectBytes (d : Display) (r : Rect) : Set Nat :=
  {o | ∃ px py k, d.OnScreen px py ∧ k < 4 ∧ r.Mem px py ∧ o = d.offset px py k}

/-- Both buffers are there, a row of the screen fits in a row of the
    framebuffer, and the rows are `int32_t` values. -/
structure Valid (d : Display) : Prop where
  backbuffer : d.backbuffer ≠ 0
  fbAddr : d.fbAddr ≠ 0
  pitch : 4 * d.fbWidth.toNat ≤ d.fbPitch.toNat
  height : d.fbHeight.toNat < 2147483648

/-- `d'` is `d` after copies inside both buffers that brought the offsets in
    `S` up to date. -/
structure Blitted (d d' : Display) (S : Set Nat) : Prop where
  graphics : d'.toGraphics = d.toGraphics
  fbAddr : d'.fbAddr = d.fbAddr
  fbPitch : d'.fbPitch = d.fbPitch
  copied : ∀ o ∈ S, d'.framebuffer o = d.source o
  kept : ∀ o, o ∉ S → d'.framebuffer o = d.framebuffer o
  inside : ∃ new, d'.copies = new ++ d.copies ∧ ∀ c ∈ new,
    c.dst + c.size ≤ d.fbPitch.toNat * d.fbHeight.toNat ∧
    c.src + c.size ≤ 4 * (d.fbWidth.toNat * d.fbHeight.toNat)

section Lemmas

variable {d d' d'' : Display} {S T : Set Nat} {r c : Rect} {px py k o : Nat}

theorem Valid.width (hv : d.Valid) : d.fbWidth.toNat < 1073741824 := by
  have := hv.pitch
  have := d.fbPitch.isLt
  omega

/-- Row and column of an on-screen byte. -/
theorem offset_div (hv : d.Valid) (hon : d.OnScreen px py) (hk : k < 4) :
    d.offset px py k / d.fbPitch.toNat = py ∧ d.offset px py k % d.fbPitch.toNat = 4 * px + k := by
  have hlt : 4 * px + k < d.fbPitch.toNat := by
    have := hv.pitch
    have := hon.1
    omega
  unfold offset
  constructor
  · rw [Nat.add_comm, Nat.add_mul_div_right _ _ (by omega), Nat.div_eq_of_lt hlt, Nat.zero_add]
  · rw [Nat.add_comm, Nat.add_mul_mod_self_right, Nat.mod_eq_of_lt hlt]

/-- The byte that belongs at an offset of a pixel is a byte of the pixel. -/
theorem source_offset (hv : d.Valid) (hon : d.OnScreen px py) (hk : k < 4) :
    d.source (d.offset px py k) = pixelByte (d.pixel px py) k := by
  obtain ⟨hdiv, hmod⟩ := offset_div hv hon hk
  have hsum : py * (4 * d.fbWidth.toNat) + (4 * px + k)
      = k + 4 * (py * d.fbWidth.toNat + px) := by
    rw [Nat.mul_left_comm]
    omega
  rw [source, hdiv, hmod, hsum, Graphics.byte, Nat.add_mul_div_left _ _ (by decide),
    Nat.div_eq_of_lt hk, Nat.zero_add, Nat.add_mul_mod_self_left, Nat.mod_eq_of_lt hk]
  rfl

theorem Blitted.refl (d : Display) : Blitted d d ∅ :=
  ⟨rfl, rfl, rfl, fun _ h => h.elim, fun _ _ => rfl, [], rfl, fun _ h => by cases h⟩

theorem Blitted.valid (h : Blitted d d' S) (hv : d.Valid) : d'.Valid := by
  obtain ⟨hb, ha, hp, hh⟩ := hv
  constructor
  · rw [h.graphics]; exact hb
  · rw [h.fbAddr]; exact ha
  · rw [h.graphics, h.fbPitch]; exact hp
  · rw [h.graphics]; exact hh

theorem Blitted.source (h : Blitted d d' S) (o : Nat) : d'.source o = d.source o := by
  unfold Display.source
  rw [h.graphics, h.fbPitch]

/-- **Copying twice.** -/
theorem Blitted.trans (h : Blitted d d' S) (h' : Blitted d' d'' T) : Blitted d d'' (S ∪ T) := by
  obtain ⟨new, hnew, hin⟩ := h.inside
  obtain ⟨new', hnew', hin'⟩ := h'.inside
  refine ⟨h'.graphics.trans h.graphics, h'.fbAddr.trans h.fbAddr, h'.fbPitch.trans h.fbPitch,
    fun o ho => ?_, fun o ho => ?_, new' ++ new, ?_, fun c hc => ?_⟩
  · by_cases hT : o ∈ T
    · rw [h'.copied o hT, h.source]
    · rw [h'.kept o hT, h.copied o (ho.resolve_right hT)]
  · rw [h'.kept o fun hT => ho (.inr hT), h.kept o fun hS => ho (.inl hS)]
  · rw [hnew', hnew, List.append_assoc]
  · rcases List.mem_append.mp hc with hc | hc
    · have := hin' c hc
      rwa [h.graphics, h.fbPitch] at this
    · exact hin c hc

/-- **A loop of copies** brings up to date what its turns do. -/
theorem Blitted.foldl {A : Type} {f : Display → A → Display} {U : A → Set Nat} {l : List A}
    (hf : ∀ d' S a, Blitted d d' S → a ∈ l → Blitted d' (f d' a) (U a)) :
    Blitted d (l.foldl f d) (⋃ a ∈ l, U a) := by
  induction l using List.reverseRecOn with
  | nil => simpa using Blitted.refl d
  | append_singleton l a ih =>
    have hrest := ih fun d' S b hb hmem => hf d' S b hb (List.mem_append_left _ hmem)
    rw [List.foldl_append]
    have hlast := hrest.trans (hf _ _ a hrest (by simp))
    have hset : (⋃ b ∈ l ++ [a], U b) = (⋃ b ∈ l, U b) ∪ U a := by
      ext o
      simp [or_and_right, exists_or]
    rw [hset]
    exact hlast

/-! ## §3. One copy. -/

/-- The bytes of `n` pixels from column `x` on, in row `y`. -/
def rowBytes (d : Display) (x y n : Nat) : Set Nat :=
  {o | ∃ px k, x ≤ px ∧ px < x + n ∧ k < 4 ∧ o = d.offset px y k}

theorem row_le {y h w n : Nat} (hy : y < h) (hn : n ≤ w) : y * w + n ≤ w * h := by
  calc y * w + n ≤ y * w + w := by omega
    _ = (y + 1) * w := by rw [Nat.add_mul, Nat.one_mul]
    _ ≤ h * w := Nat.mul_le_mul_right w hy
    _ = w * h := Nat.mul_comm h w

/-- **A copy of one row**, with the two strides worked out. -/
theorem blitted_memcpy (hv : d.Valid) {x y n : Nat} (hy : y < d.fbHeight.toNat)
    (hx : x + n ≤ d.fbWidth.toNat) :
    Blitted d (d.memcpy (y * d.fbPitch.toNat + 4 * x) (4 * (y * d.fbWidth.toNat + x)) (4 * n))
      (d.rowBytes x y n) := by
  have hpitch := hv.pitch
  refine ⟨rfl, rfl, rfl, fun o ho => ?_, fun o ho => ?_, [_], rfl, fun c hc => ?_⟩
  · obtain ⟨px, k, hle, hlt, hk, rfl⟩ := ho
    have hon : d.OnScreen px y := ⟨by omega, hy⟩
    obtain ⟨hdiv, hmod⟩ := offset_div hv hon hk
    have hsrc : 4 * (y * d.fbWidth.toNat + x) + (d.offset px y k - (y * d.fbPitch.toNat + 4 * x))
        = y * (4 * d.fbWidth.toNat) + (4 * px + k) := by
      unfold offset
      rw [Nat.mul_left_comm]
      omega
    show (if _ then d.byte _ else _) = _
    rw [if_pos (by unfold offset; omega), source, hdiv, hmod, hsrc]
  · show (if _ then d.byte _ else _) = _
    refine if_neg fun hin => ho ?_
    refine ⟨(o - y * d.fbPitch.toNat) / 4, (o - y * d.fbPitch.toNat) % 4, ?_, ?_, ?_, ?_⟩
    · omega
    · omega
    · omega
    · unfold offset
      omega
  · obtain rfl := List.mem_singleton.mp hc
    have hdst := row_le (w := d.fbPitch.toNat) hy (show 4 * x + 4 * n ≤ d.fbPitch.toNat by omega)
    have hsrc := row_le (w := d.fbWidth.toNat) hy hx
    constructor
    · show y * d.fbPitch.toNat + 4 * x + 4 * n ≤ _
      omega
    · show 4 * (y * d.fbWidth.toNat + x) + 4 * n ≤ _
      omega

/-- The numbers of a clipped rectangle. -/
theorem IsClipped.toNat (hc : IsClipped d.toGraphics r c) :
    c.x.toInt = c.x.toNat ∧ c.y.toInt = c.y.toNat ∧ c.w.toInt = c.w.toNat ∧
      c.h.toInt = c.h.toNat ∧ c.x.toNat + c.w.toNat ≤ d.fbWidth.toNat ∧
      c.y.toNat + c.h.toNat ≤ d.fbHeight.toNat := by
  obtain ⟨hx, hy, hright, hbottom, hw, hh⟩ := hc
  have hwn := toInt_eq_toNat_of_nonneg hw.le
  have hhn := toInt_eq_toNat_of_nonneg hh.le
  have hxn := toInt_eq_toNat_of_nonneg (a := c.x) (by omega)
  have hyn := toInt_eq_toNat_of_nonneg (a := c.y) (by omega)
  exact ⟨hxn, hyn, hwn, hhn, by omega, by omega⟩

/-- **One turn of the row loop** computes the offsets without overflow. -/
theorem blitted_row (hv : d.Valid) (hc : IsClipped d.toGraphics r c) {row : Nat}
    (hrow : row < c.h.toNat) :
    Blitted d (d.blitRow c row) (d.rowBytes c.x.toNat (c.y.toNat + row) c.w.toNat) := by
  obtain ⟨hx, hy, hw, hh, hright, hbottom⟩ := IsClipped.toNat hc
  have hwidth := hv.width
  have hheight := hv.height
  have hyrow : (c.y + BitVec.ofNat 32 row).toNat = c.y.toNat + row := by
    rw [BitVec.toNat_add, BitVec.toNat_ofNat]
    omega
  have hysign : ((c.y + BitVec.ofNat 32 row).signExtend 64).toNat = c.y.toNat + row := by
    rw [toNat_signExtend_of_nonneg, hyrow]
    have := toInt_of_toNat_lt (a := c.y + BitVec.ofNat 32 row) (by omega)
    omega
  have hxsign : (c.x.signExtend 64).toNat = c.x.toNat := toNat_signExtend_of_nonneg (by omega)
  have hwsign : (c.w.signExtend 64).toNat = c.w.toNat := toNat_signExtend_of_nonneg (by omega)
  have hpitch : (d.fbPitch.setWidth 64 : Word).toNat = d.fbPitch.toNat := by
    rw [BitVec.toNat_setWidth]
    exact Nat.mod_eq_of_lt (by omega)
  have hfbw : (d.fbWidth.setWidth 64 : Word).toNat = d.fbWidth.toNat := by
    rw [BitVec.toNat_setWidth]
    exact Nat.mod_eq_of_lt (by omega)
  -- the products stay below `2 ^ 63`
  have hp : (c.y.toNat + row) * d.fbPitch.toNat < 2147483648 * 4294967296 :=
    Nat.mul_lt_mul'' (by omega) d.fbPitch.isLt
  have hq : (c.y.toNat + row) * d.fbWidth.toNat < 2147483648 * 1073741824 :=
    Nat.mul_lt_mul'' (by omega) hwidth
  have hdst : ((c.y + BitVec.ofNat 32 row).signExtend 64 * d.fbPitch.setWidth 64
      + c.x.signExtend 64 * 4 : Word).toNat
      = (c.y.toNat + row) * d.fbPitch.toNat + 4 * c.x.toNat := by
    rw [BitVec.toNat_add, BitVec.toNat_mul, BitVec.toNat_mul, hysign, hpitch, hxsign]
    simp only [BitVec.reduceToNat]
    omega
  have hsrc : (((c.y + BitVec.ofNat 32 row).signExtend 64 * d.fbWidth.setWidth 64
      + c.x.signExtend 64) * 4 : Word).toNat
      = 4 * ((c.y.toNat + row) * d.fbWidth.toNat + c.x.toNat) := by
    rw [BitVec.toNat_mul, BitVec.toNat_add, BitVec.toNat_mul, hysign, hfbw, hxsign]
    simp only [BitVec.reduceToNat]
    omega
  have hsize : (c.w.signExtend 64 * 4 : Word).toNat = 4 * c.w.toNat := by
    rw [BitVec.toNat_mul, hwsign]
    simp only [BitVec.reduceToNat]
    omega
  unfold blitRow
  dsimp only
  rw [hdst, hsrc, hsize]
  exact blitted_memcpy hv (by omega) hright

/-! ## §4. Rectangles. -/

/-- **One rectangle** brings its on-screen pixels up to date. -/
theorem blitted_rect (hv : d.Valid) (hr : r.Fits) : Blitted d (d.blitRect r) (d.rectBytes r) := by
  unfold blitRect
  rcases clipRect_cases (g := d.toGraphics) (by have := hv.width; omega) hv.height hr with
    ⟨c, hc, hclip⟩ | ⟨hnone, hoff⟩
  · rw [hc]
    obtain ⟨hx, hy, hw, hh, hright, hbottom⟩ := IsClipped.toNat hclip
    have hrows : c.h.toInt.toNat = c.h.toNat := by omega
    -- row by row, on the state that the rows before have left
    have hloop := Blitted.foldl (d := d) (f := fun d row => d.blitRow c row)
      (U := fun row => d.rowBytes c.x.toNat (c.y.toNat + row) c.w.toNat)
      (l := List.range c.h.toInt.toNat) fun d' S row hd' hmem => by
        have hclip' : IsClipped d'.toGraphics r c := by
          rw [hd'.graphics]
          exact hclip
        have hrow : row < c.h.toNat := by
          have := List.mem_range.mp hmem
          omega
        have hlast := blitted_row (hd'.valid hv) hclip' hrow
        have hset : d'.rowBytes = d.rowBytes := by
          unfold rowBytes offset
          rw [hd'.fbPitch]
        rwa [hset] at hlast
    -- the bytes of the rectangle are those of its rows on the screen
    have hset : d.rectBytes r = ⋃ row ∈ List.range c.h.toInt.toNat,
        d.rowBytes c.x.toNat (c.y.toNat + row) c.w.toNat := by
      obtain ⟨hcx, hcy, hcr, hcb, -, -⟩ := hclip
      ext o
      simp only [Set.mem_iUnion, exists_prop, List.mem_range]
      constructor
      · intro ho
        obtain ⟨px, py, k, hon, hk, hmem, rfl⟩ := ho
        obtain ⟨hpx, hpy⟩ := hon
        obtain ⟨hl, hr', ht, hb⟩ := hmem
        refine ⟨py - c.y.toNat, by omega, px, k, by omega, by omega, hk, ?_⟩
        rw [show c.y.toNat + (py - c.y.toNat) = py by omega]
      · intro ho
        obtain ⟨row, hrow, px, k, hle, hlt, hk, rfl⟩ := ho
        refine ⟨px, c.y.toNat + row, k, ⟨by omega, by omega⟩, hk, ?_, rfl⟩
        unfold Rect.Mem
        omega
    rw [hset]
    exact hloop
  · rw [hnone]
    have hset : d.rectBytes r = ∅ := by
      ext o
      simp only [Set.mem_empty_iff_false, iff_false]
      intro ho
      obtain ⟨px, py, k, hon, -, hmem, -⟩ := ho
      exact hoff px py hon hmem
    rw [hset]
    exact Blitted.refl d

/-- **A list of rectangles.** -/
theorem blitted_rects (hv : d.Valid) {rects : List Rect} (hr : ∀ r ∈ rects, r.Fits) :
    Blitted d (graphicsSwapRects d (some rects)) (⋃ r ∈ rects, d.rectBytes r) := by
  unfold graphicsSwapRects
  rw [if_neg (not_or.mpr ⟨hv.backbuffer, hv.fbAddr⟩)]
  refine Blitted.foldl (U := fun r => d.rectBytes r) fun d' S r hd' hmem => ?_
  have hset : d'.rectBytes r = d.rectBytes r := by
    unfold rectBytes offset Graphics.OnScreen
    rw [hd'.graphics, hd'.fbPitch]
  rw [← hset]
  exact blitted_rect (hd'.valid hv) (hr r hmem)

/-! ## §5. A partial blit. -/

/-- What a blit of a list of rectangles promises. -/
structure BlitExact (d d' : Display) (rects : List Rect) : Prop where
  graphics : d'.toGraphics = d.toGraphics
  shown : ∀ px py k, d.OnScreen px py → k < 4 → (∃ r ∈ rects, r.Mem px py) →
    d'.framebuffer (d.offset px py k) = pixelByte (d.pixel px py) k
  kept : ∀ o, (∀ px py k, d.OnScreen px py → k < 4 → (∃ r ∈ rects, r.Mem px py) →
    o ≠ d.offset px py k) → d'.framebuffer o = d.framebuffer o
  inside : ∃ new, d'.copies = new ++ d.copies ∧ ∀ c ∈ new,
    c.dst + c.size ≤ d.fbPitch.toNat * d.fbHeight.toNat ∧
    c.src + c.size ≤ 4 * (d.fbWidth.toNat * d.fbHeight.toNat)

/-- **`graphics_swap_rects` is exact**: the on-screen pixels of the rectangles
    show the backbuffer, no other byte of the framebuffer changes, and every
    copy stays inside both buffers. -/
theorem swapRects_exact (hv : d.Valid) {rects : List Rect} (hr : ∀ r ∈ rects, r.Fits) :
    BlitExact d (graphicsSwapRects d (some rects)) rects := by
  have h := blitted_rects hv hr
  refine ⟨h.graphics, fun px py k hon hk hmem => ?_, fun o ho => h.kept o fun hin => ?_, h.inside⟩
  · obtain ⟨r, hrects, hr⟩ := hmem
    rw [← source_offset hv hon hk]
    apply h.copied
    simp only [Set.mem_iUnion]
    exact ⟨r, hrects, px, py, k, hon, hk, hr, rfl⟩
  · simp only [Set.mem_iUnion] at hin
    obtain ⟨r, hrects, px, py, k, hon, hk, hr, rfl⟩ := hin
    exact ho px py k hon hk ⟨r, hrects, hr⟩ rfl

/-- Two overlapping rectangles, one of them partly off the screen. -/
theorem swapRects_exact_small :
    BlitExact ⟨⟨0x1000018, fun i => BitVec.ofNat 32 i, 4, 3⟩, 0xE0000000, 20, fun _ => 0, []⟩
      (graphicsSwapRects
        ⟨⟨0x1000018, fun i => BitVec.ofNat 32 i, 4, 3⟩, 0xE0000000, 20, fun _ => 0, []⟩
        (some [⟨-1, -1, 3, 3⟩, ⟨1, 1, 2, 1⟩])) [⟨-1, -1, 3, 3⟩, ⟨1, 1, 2, 1⟩] := by
  refine swapRects_exact ⟨by decide, by decide, by decide, by decide⟩ ?_
  intro r hr
  rcases List.mem_pair.mp hr with rfl | rfl
  · exact ⟨by unfold IsInt32; decide, by unfold IsInt32; decide⟩
  · exact ⟨by unfold IsInt32; decide, by unfold IsInt32; decide⟩

/-- **On `2 ^ 31` rows nothing is copied**: the last row is no `int32_t`. -/
theorem swapRects_tall :
    ∃ (d : Display) (r : Rect), d.backbuffer ≠ 0 ∧ d.fbAddr ≠ 0 ∧
      4 * d.fbWidth.toNat ≤ d.fbPitch.toNat ∧ r.Fits ∧
      ¬ BlitExact d (graphicsSwapRects d (some [r])) [r] := by
  refine ⟨⟨⟨1, fun _ => 1, 1, 0x80000000⟩, 1, 4, fun _ => 0, []⟩, ⟨0, 0, 1, 1⟩, by decide, by decide,
    by decide, ⟨by unfold IsInt32; decide, by unfold IsInt32; decide⟩, fun hexact => ?_⟩
  have hpixel := hexact.shown 0 0 0 ⟨by decide, by decide⟩ (by decide)
    ⟨_, List.mem_singleton_self _, by decide⟩
  have hcopied : (0 : BitVec 8) = 1 := hpixel
  exact absurd hcopied (by decide)

end Lemmas

end Display

end ZohoOs
