/-
  ZohoOs.Window.Buffer — the size of a window's buffer against its drawing.

  `sys_create_window` computes the buffer's size in `uint32_t`:
  `w * (h - 25) * 4`, rounded up to pages.  `draw_window_buffer_clipped`
  indexes it with exact 64-bit products, after its rectangles have gone
  through `int32_t`.

  Main results:
    * `draw_reads` — the indices of `DrawsAt` are all that is read;
    * `DrawsAt.bounds` — row and column are below the body's height and the
      window's width, whatever overflows on the way;
    * `window_buffer_holds_iff` — on which requests every index lies inside
      the buffer.
-/
import ZohoOs.Window.Draw
import ZohoOs.Window.Share

namespace ZohoOs

open ZohoOs.Lib

/-! ## §1. The indices. -/

/-- The client area of a window. -/
def Window.body (win : Window) : Rect :=
  ⟨win.x, win.y + windowTitleHeight, win.w, win.h - windowTitleHeight⟩

/-- The index computed for row `y` and column `x` of an intersection. -/
def Window.drawIndex (win : Window) (intersection : Rect) (y x : Nat) : Word :=
  (intersection.y - (win.y + windowTitleHeight) + BitVec.ofNat 32 y).signExtend 64
      * win.w.setWidth 64
    + (intersection.x - win.x + BitVec.ofNat 32 x).signExtend 64

/-- `draw_window_buffer_clipped` reads the buffer at this index. -/
def DrawsAt (clip : Rect) (win : Window) (index : Word) : Prop :=
  win.buffer ≠ 0 ∧ ∃ intersection, rectIntersect clip win.body = some intersection ∧
    ∃ y x : Nat, y < intersection.h.toInt.toNat ∧ x < intersection.w.toInt.toNat ∧
      index = win.drawIndex intersection y x

/-- **Nothing else of the memory is read.** -/
theorem draw_reads (g : Graphics) {mem mem' : Mem} {clip : Rect} {win : Window}
    (h : ∀ index, DrawsAt clip win index →
      mem.load32 (win.buffer + 4 * index) = mem'.load32 (win.buffer + 4 * index)) :
    drawWindowBufferClipped g mem clip win = drawWindowBufferClipped g mem' clip win := by
  unfold drawWindowBufferClipped
  split
  · rfl
  · rename_i hbuf
    dsimp only
    split
    · rfl
    · rename_i i hi
      refine List.foldl_ext _ _ _ fun g' y hy => ?_
      refine List.foldl_ext _ _ _ fun g'' x hx => ?_
      have hsame := h (win.drawIndex i y x)
        ⟨hbuf, i, hi, y, x, List.mem_range.mp hy, List.mem_range.mp hx, rfl⟩
      unfold Window.drawIndex at hsame
      rw [hsame]

/-- A word and its signed reading differ by a multiple of `2 ^ 32`. -/
theorem toInt_cases (u : BitVec 32) : u.toInt = u.toNat ∨ u.toInt = (u.toNat : Int) - 4294967296 := by
  rw [BitVec.toInt_eq_toNat_cond]
  split
  · exact .inl rfl
  · exact .inr rfl

/-- One side of an intersection.  `a` and `s` are the near edge and the size of
    the body, `c` and `f` the edges of the clip: an offset reached is below
    the size, and the body's far edge did not overflow. -/
theorem side_bounds {a s c f : BitVec 32} {k : Nat}
    (hne : ¬ (minInt32 f (a + s)).toInt ≤ (maxInt32 c a).toInt)
    (hk : k < (minInt32 f (a + s) - maxInt32 c a).toInt.toNat) :
    (maxInt32 c a - a + BitVec.ofNat 32 k).toNat < s.toNat ∧ a.toInt + s.toNat < 2147483648 := by
  have hnear := toInt_maxInt32 c a
  have hfar := toInt_minInt32 f (a + s)
  generalize maxInt32 c a = l at *
  generalize minInt32 f (a + s) = r at *
  have hr := isInt32_toInt r
  have hl := isInt32_toInt l
  have hdiff := isInt32_toInt (r - l)
  unfold IsInt32 at hr hl hdiff
  -- the loop stays below the far edge
  have hlt : (k : Int) < r.toInt - l.toInt := by
    by_cases hbig : r.toInt - l.toInt < 2147483648
    · have hsub : (r - l).toInt = r.toInt - l.toInt := toInt_sub_of (by unfold IsInt32; omega)
      omega
    · omega
  have ha := isInt32_toInt a
  have hfs := isInt32_toInt (a + s)
  unfold IsInt32 at ha hfs
  have hs := s.isLt
  have hsum : (a + s).toNat = (a.toNat + s.toNat) % 4294967296 := BitVec.toNat_add a s
  have hsize : (a + s).toInt - a.toInt = s.toNat := by
    rcases toInt_cases a with ha | ha <;> rcases toInt_cases (a + s) with hf | hf <;> omega
  have hoff : (l - a + BitVec.ofNat 32 k).toNat
      = ((4294967296 - a.toNat + l.toNat) % 4294967296 + k % 4294967296) % 4294967296 := by
    rw [BitVec.toNat_add, BitVec.toNat_sub, BitVec.toNat_ofNat]
  constructor
  · rw [hoff]
    rcases toInt_cases a with ha | ha <;> rcases toInt_cases l with hl | hl <;> omega
  · omega

/-- **Row and column of an index** are below the height of the client area and
    the width of the window, as `uint32_t`, and its far edges did not
    overflow. -/
theorem DrawsAt.bounds {clip : Rect} {win : Window} {index : Word} (h : DrawsAt clip win index) :
    ∃ row col : BitVec 32, row.toNat < win.body.h.toNat ∧ col.toNat < win.w.toNat ∧
      win.body.y.toInt + win.body.h.toNat < 2147483648 ∧ win.x.toInt + win.w.toNat < 2147483648 ∧
      index = row.signExtend 64 * win.w.setWidth 64 + col.signExtend 64 := by
  obtain ⟨-, i, hi, y, x, hy, hx, rfl⟩ := h
  unfold rectIntersect at hi
  simp only [Bool.or_eq_true, BitVec.sle_iff_toInt_le] at hi
  split_ifs at hi with hne
  obtain ⟨hnex, hney⟩ := not_or.mp hne
  obtain rfl := Option.some.inj hi
  obtain ⟨hrow, hbottom⟩ := side_bounds hney hy
  obtain ⟨hcol, hright⟩ := side_bounds hnex hx
  exact ⟨_, _, hrow, hcol, hbottom, hright, rfl⟩

/-! ## §2. The property. -/

/-- The bytes of the block at a pointer `kmalloc` returned; `NULL` has none. -/
def Heap.payload (h : Heap) (ptr : Word) : Nat :=
  if ptr = 0 then 0 else (h.header (ptr - headerSize)).size.toNat

/-- The buffer holds the client area, and every pixel drawn from it. -/
structure BufferHolds (h : Heap) (win : Window) : Prop where
  pixels : 25 ≤ win.h.toNat → 4 * (win.w.toNat * (win.h.toNat - 25)) ≤ h.payload win.buffer
  indices : ∀ clip index, DrawsAt clip win index → 4 * index.toNat + 4 ≤ h.payload win.buffer

/-- If a window results, its buffer holds what is drawn of it. -/
def WindowHolds {S : Type} (g : Gui S) : Prop :=
  g.windows.windowList ≠ 0 → BufferHolds g.heap (g.windows.window g.windows.windowList)

/-- The requests served with a buffer that is large enough: no window results;
    the client area is empty, or has its exact size in 32 bits, pages
    included, and the heap has a block for it; of a window without a client
    area nothing is drawn, because it has no buffer, no width, or edges that
    do not overflow into rows. -/
def BufferSuffices (bs : List Block) (x y w h : BitVec 32) : Prop :=
  firstFit 328 heapStart.toNat bs = none ∨
    if 25 ≤ h.toNat then
      w.toNat * (h.toNat - 25) = 0 ∨
        (4 * (w.toNat * (h.toNat - 25)) ≤ 2 ^ 32 - 4096 ∧ bufferPayload bs w h ≠ none)
    else
      bufferPayload bs w h = none ∨ w = 0 ∨ 2147483648 ≤ x.toInt + w.toNat ∨
        y.toNat < 2147483648 - 25 ∨ 2147483648 - h.toNat ≤ y.toNat

/-! ## §3. Sizes and indices. -/

section Sizes

variable {w h : BitVec 32}

/-- The size of the buffer, when 32 bits are enough. -/
theorem bufferPages_of_le (hh : 25 ≤ h.toNat)
    (hle : 4 * (w.toNat * (h.toNat - 25)) ≤ 2 ^ 32 - 4096) :
    4 * (w.toNat * (h.toNat - 25)) ≤ (bufferPages w h).toNat * 4096 := by
  have hclient : (h - 25).toNat = h.toNat - 25 := by
    rw [BitVec.toNat_sub]
    show (2 ^ 32 - 25 + h.toNat) % 2 ^ 32 = _
    have := h.isLt
    omega
  have hsize : (w * (h - 25) * 4).toNat = 4 * (w.toNat * (h.toNat - 25)) := by
    rw [BitVec.toNat_mul, BitVec.toNat_mul, hclient]
    show w.toNat * (h.toNat - 25) % 2 ^ 32 * 4 % 2 ^ 32 = _
    omega
  have hround : (w * (h - 25) * 4 + 4095).toNat = 4 * (w.toNat * (h.toNat - 25)) + 4095 := by
    rw [BitVec.toNat_add, hsize]
    exact Nat.mod_eq_of_lt (by show _ + 4095 < _; omega)
  have hpages : (bufferPages w h).toNat = (4 * (w.toNat * (h.toNat - 25)) + 4095) / 4096 := by
    show ((w * (h - 25) * 4 + 4095) / 4096).toNat = _
    rw [BitVec.toNat_udiv, hround]
    rfl
  omega

/-- Row and column of a client area that fits give an index inside it. -/
theorem index_of_bounds {row col : BitVec 32} {n : Nat} (hrow : row.toNat < n)
    (hcol : col.toNat < w.toNat) (hfit : 4 * (w.toNat * n) ≤ 2 ^ 32 - 4096) :
    4 * (row.signExtend 64 * w.setWidth 64 + col.signExtend 64 : Word).toNat + 4
      ≤ 4 * (w.toNat * n) := by
  have hn : w.toNat ≤ w.toNat * n := Nat.le_mul_of_pos_right _ (by omega)
  have hw : n ≤ w.toNat * n := Nat.le_mul_of_pos_left _ (by omega)
  have hri := toInt_of_toNat_lt (a := row) (by omega)
  have hci := toInt_of_toNat_lt (a := col) (by omega)
  have hidx := toNat_wideIndex (u := row) (v := col) (b := w) (k := 0) (by omega) (by omega)
    (by omega) (by omega)
  rw [BitVec.add_zero] at hidx
  have hlt := Graphics.index_lt hcol hrow
  rw [hidx]
  omega

end Sizes

/-! ## §4. When the buffer holds the window. -/

section Holds

variable {bs : List Block} {h : Heap}

/-- No block is larger than the heap. -/
theorem HeapTiled.payload_le (ht : HeapTiled h bs) {x : Nat} {b : Block}
    (hmem : (x, b) ∈ place Block.len heapStart.toNat bs) :
    h.payload (BitVec.ofNat 64 (x + 24)) = b.size ∧ b.size ≤ heapSize := by
  have hbound := ht.mem_bounds hmem
  have hend : heapStart.toNat + heapSize < 2 ^ 64 := by decide
  unfold Heap.payload
  rw [if_neg (ofNat_ne_zero (by omega) (by omega)), sub_headerSize, (ht.tiles.header_of_mem hmem).1,
    toNat_ofNat_of_lt (by omega)]
  exact ⟨rfl, by omega⟩

/-- The windows after `sys_create_window`. -/
def createdWindows (s : Windows) (win pid kernelBuf : Word) (x y w h : BitVec 32) : Windows :=
  windowSetBuffer (windowSetOwner (windowCreate s win x y w h 0xFFFFFFFF) win pid) win kernelBuf

/-- The new window, first in the list. -/
theorem createdWindows_head (s : Windows) {win : Word} (hwin : win ≠ 0) (pid kernelBuf : Word)
    (x y w h : BitVec 32) :
    (createdWindows s win pid kernelBuf x y w h).windowList = win ∧
      ∃ r, (createdWindows s win pid kernelBuf x y w h).window win = r ∧
        r.x = x ∧ r.y = y ∧ r.w = w ∧ r.h = h ∧ r.buffer = kernelBuf := by
  -- the record is live, so that neither setter returns early
  have hcreate : ((windowCreate s win x y w h 0xFFFFFFFF).window win).destroyed = false := by
    show (Function.update s.window win _ win).destroyed = false
    rw [Function.update_self]
  have howner : windowSetOwner (windowCreate s win x y w h 0xFFFFFFFF) win pid
      = (windowCreate s win x y w h 0xFFFFFFFF).setWindow win fun r => { r with ownerPid := pid } := by
    rw [windowSetOwner, if_neg hwin, hcreate, if_neg (by decide)]
  have hcreated : createdWindows s win pid kernelBuf x y w h
      = ((windowCreate s win x y w h 0xFFFFFFFF).setWindow win
          fun r => { r with ownerPid := pid }).setWindow win
          fun r => { r with buffer := kernelBuf, dirty := true } := by
    have hlive : (((windowCreate s win x y w h 0xFFFFFFFF).setWindow win
        fun r => { r with ownerPid := pid }).window win).destroyed = false := by
      rw [setWindow_self]
      exact hcreate
    rw [createdWindows, howner, windowSetBuffer, if_neg hwin, hlive, if_neg (by decide)]
  rw [hcreated]
  refine ⟨rfl, _, rfl, ?_⟩
  simp [Windows.setWindow, windowCreate]

/-- What the two allocations of `sys_create_window` gave. -/
theorem sysCreateWindow_blocks {S : Type} {vmmMap : S → Word → Word → Word → S} {fuel : Nat}
    {g g' : Gui S} {pid : Word} {x y w h id : BitVec 32} (ht : HeapTiled g.heap bs)
    (hret : sysCreateWindow vmmMap fuel g pid x y w h = some (id, g')) :
    (firstFit 328 heapStart.toNat bs = none ∧ g'.windows.windowList = 0) ∨
    firstFit 328 heapStart.toNat bs ≠ none ∧ g'.windows.windowList ≠ 0 ∧
      ∃ r, g'.windows.window g'.windows.windowList = r ∧ r.x = x ∧ r.y = y ∧ r.w = w ∧ r.h = h ∧
        ((bufferPayload bs w h = none ∧ r.buffer = 0) ∨
          bufferPayload bs w h ≠ none ∧ r.buffer ≠ 0 ∧
            (bufferPages w h).toNat * 4096 ≤ g'.heap.payload r.buffer ∧
            g'.heap.payload r.buffer ≤ heapSize) := by
  unfold sysCreateWindow at hret
  obtain ⟨⟨win, heap⟩, hwin, hret⟩ := Option.bind_eq_some_iff.mp hret
  obtain ⟨⟨kernelBuf, heap'⟩, hbuf, hret⟩ := Option.bind_eq_some_iff.mp hret
  obtain ⟨-, rfl⟩ := Prod.mk.inj (Option.some.inj hret)
  have hsmall : (alignSize windowSize).toNat = 328 := by decide
  have hpages := bufferPages_le w h
  have hround : (alignSize ((bufferPages w h * 4096).setWidth 64)).toNat
      = (bufferPages w h).toNat * 4096 := by
    rw [toNat_alignSize (by rw [toNat_bufferBytes]; omega), toNat_bufferBytes, roundUp8]
    omega
  -- the two allocations of the call: the record, then the pages of the buffer
  rcases ht.kmalloc_outcome hwin with ⟨hnone, rfl, -⟩ | ⟨x₁, bs₁, hfit₁, -, hwin0, ht₁⟩
  · rw [hsmall] at hnone
    refine .inl ⟨hnone, ?_⟩
    show (createdWindows g.windows 0 pid kernelBuf x y w h).windowList = 0
    rfl
  · rw [hsmall] at hfit₁
    obtain ⟨hhead, r, hr, hx, hy, hw, hh, hb⟩ :=
      createdWindows_head g.windows hwin0 pid kernelBuf x y w h
    have hpay : bufferPayload bs w h
        = (firstFit ((bufferPages w h).toNat * 4096) heapStart.toNat bs₁).map fun r => r.1 + 24 := by
      rw [bufferPayload, hfit₁, Option.bind_some]
    right
    refine ⟨by rw [hfit₁]; simp, ?_, r, ?_, hx, hy, hw, hh, ?_⟩
    · show (createdWindows g.windows win pid kernelBuf x y w h).windowList ≠ 0
      rw [hhead]
      exact hwin0
    · show (createdWindows g.windows win pid kernelBuf x y w h).window
        (createdWindows g.windows win pid kernelBuf x y w h).windowList = r
      rw [hhead]
      exact hr
    · rw [hb, hpay]
      rcases ht₁.kmalloc_outcome hbuf with ⟨hnone, rfl, -⟩ | ⟨x₂, bs₂, hfit₂, rfl, hbuf0, ht₂⟩
      · rw [hround] at hnone
        exact .inl ⟨by rw [hnone]; rfl, rfl⟩
      · rw [hround] at hfit₂
        obtain ⟨⟨b, -, hsize, hmem⟩, -⟩ := firstFit_block hfit₂
        obtain ⟨hpayload, hle⟩ := ht₂.payload_le hmem
        refine .inr ⟨by rw [hfit₂]; simp, hbuf0, ?_, ?_⟩
        · show _ ≤ heap'.payload _
          rw [hpayload]
          exact hsize
        · show heap'.payload _ ≤ _
          rw [hpayload]
          exact hle

/-- The height of the client area, as `uint32_t`. -/
theorem toNat_clientHeight (h : BitVec 32) :
    (h - windowTitleHeight).toNat
      = if 25 ≤ h.toNat then h.toNat - 25 else 4294967296 - 25 + h.toNat := by
  have hlt := h.isLt
  rw [BitVec.toNat_sub, show windowTitleHeight.toNat = 25 from rfl]
  split <;> omega

/-- Nothing is drawn of a client area without columns, or whose edges do not
    fit `int32_t`. -/
theorem not_drawsAt_of_low {clip : Rect} {win : Window} {index : Word} (hh : ¬ 25 ≤ win.h.toNat)
    (hedges : win.w = 0 ∨ 2147483648 ≤ win.x.toInt + win.w.toNat ∨
      win.y.toNat < 2147483648 - 25 ∨ 2147483648 - win.h.toNat ≤ win.y.toNat) :
    ¬ DrawsAt clip win index := by
  intro hdraw
  obtain ⟨row, col, hrow, hcol, hbottom, hright, -⟩ := hdraw.bounds
  have hheight : win.body.h.toNat = 4294967296 - 25 + win.h.toNat :=
    (toNat_clientHeight win.h).trans (if_neg hh)
  have htop : win.body.y.toNat = (win.y.toNat + 25) % 4294967296 :=
    BitVec.toNat_add win.y windowTitleHeight
  have hy := win.y.isLt
  rcases hedges with h0 | h0 | h0 | h0
  · rw [h0] at hcol
    exact Nat.not_lt_zero _ hcol
  · omega
  · rcases toInt_cases win.body.y with hc | hc <;> have := isInt32_toInt win.body.y <;>
      unfold IsInt32 at this <;> omega
  · rcases toInt_cases win.body.y with hc | hc <;> have := isInt32_toInt win.body.y <;>
      unfold IsInt32 at this <;> omega

/-- A row of `2 ^ 31 - 24` or more is far outside every buffer. -/
theorem large_index {row w : BitVec 32} (hlow : 2147483648 - 24 ≤ row.toNat)
    (hhigh : row.toNat ≤ 2147483648) (hw : 0 < w.toNat) :
    1073741824 ≤ (row.signExtend 64 * w.setWidth 64 + (0 : BitVec 32).signExtend 64 : Word).toNat := by
  have hwlt := w.isLt
  have hwide : (w.setWidth 64 : Word).toNat = w.toNat := by
    rw [BitVec.toNat_setWidth]
    exact Nat.mod_eq_of_lt (by omega)
  have hzero : (0 : BitVec 32).signExtend 64 = 0#64 := by decide
  rw [hzero, BitVec.add_zero, BitVec.toNat_mul, hwide]
  by_cases hsign : row.toNat < 2147483648
  · have hrow : (row.signExtend 64).toNat = row.toNat :=
      toNat_signExtend_of_nonneg (by rw [toInt_of_toNat_lt hsign]; omega)
    have hprod : row.toNat * w.toNat < 2147483648 * 4294967296 := Nat.mul_lt_mul'' hsign hwlt
    have hge : row.toNat ≤ row.toNat * w.toNat := Nat.le_mul_of_pos_right _ hw
    rw [hrow, Nat.mod_eq_of_lt (by omega)]
    omega
  · -- as an `int32_t` the row is `-2 ^ 31`
    obtain rfl : row = 0x80000000 := BitVec.eq_of_toNat_eq (by show row.toNat = 2147483648; omega)
    have hrow : ((0x80000000 : BitVec 32).signExtend 64).toNat = 18446744071562067968 := by decide
    rw [hrow]
    omega

/-- **A window without a client area can still be drawn**, when its top edge
    overflows `int32_t` and its bottom edge does not. -/
theorem exists_drawsAt_of_low {win : Window} (hbuf : win.buffer ≠ 0) (hh : ¬ 25 ≤ win.h.toNat)
    (hw : win.w ≠ 0) (hright : win.x.toInt + win.w.toNat < 2147483648)
    (hlow : 2147483648 - 25 ≤ win.y.toNat) (hhigh : win.y.toNat < 2147483648 - win.h.toNat) :
    ∃ clip index, DrawsAt clip win index ∧ 1073741824 ≤ index.toNat := by
  have hwpos : 0 < win.w.toNat := Nat.pos_of_ne_zero fun h0 => hw (BitVec.eq_of_toNat_eq h0)
  have h1 : (1 : BitVec 32).toInt = 1 := rfl
  have h0 : (0 : BitVec 32).toInt = 0 := rfl
  have hx := isInt32_toInt win.x
  unfold IsInt32 at hx
  -- the four edges
  have hnear : (maxInt32 win.x win.x).toInt = win.x.toInt := by
    rw [toInt_maxInt32]
    exact max_self _
  have hnear' : maxInt32 win.x win.x = win.x := BitVec.eq_of_toInt_eq hnear
  have hone : (win.x + 1).toInt = win.x.toInt + 1 := by
    rw [toInt_add_of (by rw [h1]; unfold IsInt32; omega), h1]
  have hwide : (win.x + win.w).toInt = win.x.toInt + win.w.toNat := by
    have hsum : (win.x + win.w).toNat = (win.x.toNat + win.w.toNat) % 4294967296 := BitVec.toNat_add _ _
    have hr := isInt32_toInt (win.x + win.w)
    unfold IsInt32 at hr
    rcases toInt_cases win.x with hc | hc <;> rcases toInt_cases (win.x + win.w) with hd | hd <;> omega
  have htopn : win.body.y.toNat = win.y.toNat + 25 := by
    have hsum : win.body.y.toNat = (win.y.toNat + 25) % 4294967296 :=
      BitVec.toNat_add win.y windowTitleHeight
    omega
  have htop : win.body.y.toInt = (win.y.toNat : Int) + 25 - 4294967296 := by
    have hr := isInt32_toInt win.body.y
    unfold IsInt32 at hr
    rcases toInt_cases win.body.y with hc | hc <;> omega
  have hbottom : (win.body.y + win.body.h).toInt = (win.y.toNat : Int) + win.h.toNat := by
    have hheight : win.body.h.toNat = 4294967296 - 25 + win.h.toNat :=
      (toNat_clientHeight win.h).trans (if_neg hh)
    have hsum : (win.body.y + win.body.h).toNat = (win.body.y.toNat + win.body.h.toNat) % 4294967296 :=
      BitVec.toNat_add _ _
    have hr := isInt32_toInt (win.body.y + win.body.h)
    unfold IsInt32 at hr
    rcases toInt_cases (win.body.y + win.body.h) with hc | hc <;> omega
  have hcornery : maxInt32 0 win.body.y = 0 := by
    apply BitVec.eq_of_toInt_eq
    rw [toInt_maxInt32, h0, htop]
    omega
  have hfarx := toInt_minInt32 (win.x + 1) (win.x + win.w)
  have hfary := toInt_minInt32 (0 + 1) (win.body.y + win.body.h)
  rw [hone, hwide] at hfarx
  rw [hbottom, show (0 + 1 : BitVec 32).toInt = 1 from rfl] at hfary
  set i : Rect := ⟨maxInt32 win.x win.x, maxInt32 0 win.body.y,
    minInt32 (win.x + 1) (win.x + win.w) - maxInt32 win.x win.x,
    minInt32 (0 + 1) (win.body.y + win.body.h) - maxInt32 0 win.body.y⟩ with hi
  have hinter : rectIntersect ⟨win.x, 0, 1, 1⟩ win.body = some i := by
    show (if (minInt32 (win.x + 1) (win.x + win.w)).sle (maxInt32 win.x win.x) ||
        (minInt32 (0 + 1) (win.body.y + win.body.h)).sle (maxInt32 0 win.body.y)
      then none else some i) = some i
    apply if_neg
    simp only [Bool.or_eq_true, BitVec.sle_iff_toInt_le, not_or]
    rw [hnear, hfarx, hcornery, hfary, h0]
    omega
  have hih : i.h.toInt = 1 := by
    show (minInt32 (0 + 1) (win.body.y + win.body.h) - maxInt32 0 win.body.y).toInt = 1
    rw [hcornery, toInt_sub_of (by rw [hfary, h0]; unfold IsInt32; omega), hfary, h0]
    omega
  have hiw : i.w.toInt = 1 := by
    show (minInt32 (win.x + 1) (win.x + win.w) - maxInt32 win.x win.x).toInt = 1
    rw [toInt_sub_of (by rw [hfarx, hnear]; unfold IsInt32; omega), hfarx, hnear]
    omega
  refine ⟨_, _, ⟨hbuf, i, hinter, 0, 0, by rw [hih]; decide, by rw [hiw]; decide, rfl⟩, ?_⟩
  have hcol : i.x - win.x + BitVec.ofNat 32 0 = 0 := by
    show maxInt32 win.x win.x - win.x + BitVec.ofNat 32 0 = 0
    rw [hnear', BitVec.sub_self]
    rfl
  have hrow : (i.y - (win.y + windowTitleHeight) + BitVec.ofNat 32 0).toNat
      = 4294967296 - (win.y.toNat + 25) := by
    show (maxInt32 0 win.body.y - win.body.y + BitVec.ofNat 32 0).toNat = _
    rw [hcornery, BitVec.toNat_add, BitVec.toNat_sub, htopn]
    show ((4294967296 - (win.y.toNat + 25) + 0) % 4294967296 + 0) % 4294967296 = _
    omega
  unfold Window.drawIndex
  rw [hcol]
  exact large_index (by omega) (by omega) hwpos

section Call

variable {S : Type} {vmmMap : S → Word → Word → Word → S} {fuel : Nat} {g g' : Gui S} {pid : Word}
  {x y w h id : BitVec 32}

/-- A client area larger than the heap has no buffer that holds it. -/
theorem le_heapSize_of_windowHolds (ht : HeapTiled g.heap bs)
    (hret : sysCreateWindow vmmMap fuel g pid x y w h = some (id, g')) (hholds : WindowHolds g')
    (hwin : firstFit 328 heapStart.toNat bs ≠ none) (hh : 25 ≤ h.toNat)
    (hne : w.toNat * (h.toNat - 25) ≠ 0) :
    4 * (w.toNat * (h.toNat - 25)) ≤ heapSize ∧ bufferPayload bs w h ≠ none := by
  rcases sysCreateWindow_blocks ht hret with ⟨hnone, -⟩ | ⟨-, hlist, r, hr, -, -, rfl, rfl, hbuf⟩
  · exact absurd hnone hwin
  · have hpixels := (hholds hlist).pixels
    rw [hr] at hpixels
    have hneed := hpixels hh
    rcases hbuf with ⟨-, h0⟩ | ⟨hserved, -, -, hle⟩
    · rw [h0] at hneed
      have : g'.heap.payload 0 = 0 := rfl
      omega
    · exact ⟨hneed.trans hle, hserved⟩

/-- **The buffer holds what is drawn of the window**, on exactly these
    requests, in every state of the heap. -/
theorem window_buffer_holds_iff (ht : HeapTiled g.heap bs)
    (hret : sysCreateWindow vmmMap fuel g pid x y w h = some (id, g')) :
    WindowHolds g' ↔ BufferSuffices bs x y w h := by
  have hheap : heapSize = 16777216 := rfl
  constructor
  · -- from what it draws: the product of the sides was not cut, and the allocator served it
    intro hholds
    by_cases hwin : firstFit 328 heapStart.toNat bs = none
    · exact .inl hwin
    · right
      by_cases hh : 25 ≤ h.toNat
      · rw [if_pos hh]
        by_cases hne : w.toNat * (h.toNat - 25) = 0
        · exact .inl hne
        · obtain ⟨hle, hserved⟩ := le_heapSize_of_windowHolds ht hret hholds hwin hh hne
          exact .inr ⟨by omega, hserved⟩
      · rw [if_neg hh]
        rcases sysCreateWindow_blocks ht hret with
          ⟨hnone, -⟩ | ⟨-, hlist, r, hr, rfl, rfl, rfl, rfl, hbuf⟩
        · exact absurd hnone hwin
        · rcases hbuf with ⟨hnone, -⟩ | ⟨-, hbuf0, -, hle⟩
          · exact .inl hnone
          · -- otherwise the window is drawn far outside its buffer
            by_contra hno
            obtain ⟨-, hno⟩ := not_or.mp hno
            obtain ⟨hw, hno⟩ := not_or.mp hno
            obtain ⟨hright, hno⟩ := not_or.mp hno
            obtain ⟨hlow, hhigh⟩ := not_or.mp hno
            obtain ⟨clip, index, hdraw, hindex⟩ := exists_drawsAt_of_low hbuf0 hh hw (by omega)
              (by omega) (by omega)
            have hindices := (hholds hlist).indices
            rw [hr] at hindices
            have := hindices clip index hdraw
            omega
  · intro hsuff hlist
    rcases sysCreateWindow_blocks ht hret with
      ⟨-, h0⟩ | ⟨hwin, -, r, hr, rfl, rfl, rfl, rfl, hbuf⟩
    · exact absurd h0 hlist
    · have hsuff := hsuff.resolve_left hwin
      -- the buffer has all pages that the body needs, or nothing is drawn from it
      rw [hr]
      by_cases hh : 25 ≤ r.h.toNat
      · rw [if_pos hh] at hsuff
        have hheight : r.body.h.toNat = r.h.toNat - 25 := (toNat_clientHeight r.h).trans (if_pos hh)
        rcases hsuff with h0 | ⟨hle, hserved⟩
        · refine ⟨fun _ => by rw [h0]; exact Nat.zero_le _, fun clip index hdraw => ?_⟩
          obtain ⟨row, col, hrow, hcol, -⟩ := hdraw.bounds
          have hpos : 0 < r.w.toNat * (r.h.toNat - 25) := Nat.mul_pos (by omega) (by omega)
          omega
        · rcases hbuf with ⟨hnone, -⟩ | ⟨-, -, hsize, -⟩
          · exact absurd hnone hserved
          · have hcapacity := (bufferPages_of_le hh hle).trans hsize
            refine ⟨fun _ => hcapacity, fun clip index hdraw => ?_⟩
            obtain ⟨row, col, hrow, hcol, -, -, rfl⟩ := hdraw.bounds
            rw [hheight] at hrow
            exact (index_of_bounds hrow hcol hle).trans hcapacity
      · rw [if_neg hh] at hsuff
        -- a window lower than its title: `h - 25` wraps, and no pixel of it may be drawn
        refine ⟨fun h25 => absurd h25 hh, fun clip index hdraw => ?_⟩
        rcases hsuff with hnone | hedges
        · rcases hbuf with ⟨-, h0⟩ | ⟨hserved, -⟩
          · exact absurd h0 hdraw.1
          · exact absurd hnone hserved
        · exact absurd hdraw (not_drawsAt_of_low hh hedges)

end Call

/-- The first window of `user_gui_app`. -/
theorem window_buffer_holds_first : ∃ g',
    sysCreateWindow PageMap.insert 3 bootGui 1 200 200 300 225 = some (1, g') ∧
      (WindowHolds g' ↔ BufferSuffices [⟨heapSize - 24, true⟩] 200 200 300 225) := by
  obtain ⟨heap, g', -, -, hret⟩ := sysCreateWindow_first
  exact ⟨g', hret, window_buffer_holds_iff (heapInit_tiled _) hret⟩

/-- **A window of 2^32 bytes** gets an empty buffer: its size is `0` in 32
    bits. -/
theorem window_buffer_wraps : ∃ g',
    sysCreateWindow PageMap.insert 3 bootGui 1 0 0 0x10000 0x10019 = some (1, g') ∧
      ¬ WindowHolds g' := by
  have htiled : HeapTiled bootGui.heap [⟨heapSize - 24, true⟩] := heapInit_tiled _
  obtain ⟨heap, htiled', hwin⟩ :=
    htiled.kmalloc_some (n := windowSize) (by decide)
      (show firstFit _ _ _ = some (0x1000000, [⟨328, false⟩, ⟨0xFFFE88, true⟩]) by decide)
  obtain ⟨heap', -, hbuf⟩ :=
    htiled'.kmalloc_some (n := (bufferPages 0x10000 0x10019 * 4096).setWidth 64) (by decide)
      (show firstFit _ _ _ = some (0x1000160, _) by rfl)
  obtain ⟨g', hret, -⟩ := sysCreateWindow_of_alloc PageMap.insert 1 0 0 (hwin 3 (by decide))
    (hbuf 3 (by decide))
  refine ⟨g', hret, fun hholds => ?_⟩
  have hle := le_heapSize_of_windowHolds htiled hret hholds (by decide) (by decide) (by decide)
  exact absurd hle.1 (by decide)

end Holds

end ZohoOs
