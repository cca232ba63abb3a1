/-
  ZohoOs.Window.Share — what a shared window buffer shows of the heap.

  `sys_create_window` takes the buffer from `kmalloc` and maps it page by
  page.  A block's payload follows a 24-byte header and is aligned to 8 bytes
  only, so the pages mapped are the buffer's own exactly when the block first
  fit finds happens to put the payload on a page boundary.

  The memory manager is assumed to map page to page: `MapsPages`.
-/
import ZohoOs.Window.Address

namespace ZohoOs

open ZohoOs.Lib
open ZohoOs.Lib.Mem (Aligned)

/-! ## §1. The property. -/

/-- `vmm_map` does to the caller's pages what `PageMap.insert` does. -/
def MapsPages {S : Type} (vmmMap : S → Word → Word → Word → S) (pages : S → PageMap) : Prop :=
  ∀ s virt phys flags, pages (vmmMap s virt phys flags) = (pages s).insert virt phys flags

/-- The physical address behind a virtual one. -/
def PageMap.translate (A : PageMap) (virt : Word) : Option Word :=
  (A (pageAddr virt)).map fun x => x.phys ||| (virt &&& flagMask)

/-- The bytes of the client area of a `w` by `h` window. -/
def clientBytes (w h : BitVec 32) : Nat := w.toNat * (h.toNat - 25) * 4

/-- User and kernel see the same client area, and the pages mapped show
    nothing of the kernel heap but the buffer. -/
structure SharesBuffer (A : PageMap) (userAddr kernelBuf : Word) (w h : BitVec 32) : Prop where
  same : ∀ o : Word, o.toNat < clientBytes w h →
    A.translate (userAddr + o) = some (kernelBuf + o)
  confined : ∀ o a : Word, o.toNat < (bufferPages w h).toNat * 4096 →
    A.translate (userAddr + o) = some a →
    heapStart.toNat ≤ a.toNat → a.toNat < heapStart.toNat + heapSize →
    kernelBuf.toNat ≤ a.toNat ∧ a.toNat < kernelBuf.toNat + (bufferPages w h).toNat * 4096

/-- Where first fit puts the payload of the buffer, once the `window_t` has
    been taken from the blocks `bs` of the heap. -/
def bufferPayload (bs : List Block) (w h : BitVec 32) : Option Nat :=
  (firstFit 328 heapStart.toNat bs).bind fun r =>
    (firstFit ((bufferPages w h).toNat * 4096) heapStart.toNat r.2).map fun r => r.1 + 24

/-! ## §2. Pages and offsets. -/

section Pages

variable {a o v : Word}

theorem toNat_or_flagMask (ha : Aligned a) (o : Word) :
    (a ||| (o &&& flagMask)).toNat = a.toNat + o.toNat % 4096 := by
  have hmod : (o &&& flagMask).toNat = o.toNat % 4096 := by
    rw [flagMask_eq, Word.toNat_and_lowMask o (by decide)]
    rfl
  have hdisj : a &&& (o &&& flagMask) = 0#64 := by
    rw [← and_not_flagMask ha, BitVec.and_assoc, BitVec.and_comm (~~~flagMask), BitVec.and_assoc,
      BitVec.and_not_self]
    simp
  have ha' : a.toNat % 4096 = 0 := ha
  have hlt : a.toNat < 2 ^ 64 := a.isLt
  rw [← BitVec.add_eq_or_of_and_eq_zero _ _ hdisj, BitVec.toNat_add, hmod]
  omega

theorem add_and_flagMask (ha : Aligned a) (o : Word) : (a + o) &&& flagMask = o &&& flagMask := by
  have ha' : a.toNat % 4096 = 0 := ha
  apply BitVec.eq_of_toNat_eq
  rw [flagMask_eq, Word.toNat_and_lowMask _ (by decide), Word.toNat_and_lowMask _ (by decide),
    BitVec.toNat_add]
  omega

theorem pageAddr_add (ha : Aligned a) (o : Word) : pageAddr (a + o) = a + pageAddr o := by
  have ha' : a.toNat % 4096 = 0 := ha
  have hlt : a.toNat < 2 ^ 64 := a.isLt
  have ho : o.toNat < 2 ^ 64 := o.isLt
  apply BitVec.eq_of_toNat_eq
  rw [toNat_pageAddr, BitVec.toNat_add, BitVec.toNat_add, toNat_pageAddr]
  omega

theorem pageAddr_eq_ofNat_iff {i : Nat} (hi : i < 2 ^ 52) :
    pageAddr o = BitVec.ofNat 64 (i * 4096) ↔ o.toNat / 4096 = i := by
  rw [← BitVec.toNat_inj, toNat_pageAddr, BitVec.toNat_ofNat, Nat.mod_eq_of_lt (by omega)]
  omega

theorem aligned_windowUserAddr (id : BitVec 32) : Aligned (windowUserAddr id) := by
  unfold windowUserAddr Aligned
  rw [BitVec.toNat_setWidth, BitVec.toNat_add, BitVec.toNat_mul]
  show (0xA0000000 + id.toNat * 2 ^ 24 % 2 ^ 32) % 2 ^ 32 % 2 ^ 64 % 4096 = 0
  omega

theorem bufferPages_le (w h : BitVec 32) : (bufferPages w h).toNat < 2 ^ 20 := by
  unfold bufferPages
  rw [BitVec.toNat_udiv]
  have := (w * (h - 25) * 4 + 4095).isLt
  show _ / 4096 < 2 ^ 20
  omega

/-- `num_pages * 4096` does not wrap. -/
theorem toNat_bufferBytes (w h : BitVec 32) :
    ((bufferPages w h * 4096).setWidth 64 : Word).toNat = (bufferPages w h).toNat * 4096 := by
  have := bufferPages_le w h
  rw [BitVec.toNat_setWidth, BitVec.toNat_mul]
  show (bufferPages w h).toNat * 4096 % 2 ^ 32 % 2 ^ 64 = _
  omega

/-- Nor does `i * 4096`. -/
theorem pageOffset_eq {i : Nat} (hi : i < 2 ^ 20) :
    ((BitVec.ofNat 32 i * 4096).setWidth 64 : Word) = BitVec.ofNat 64 (i * 4096) := by
  apply BitVec.eq_of_toNat_eq
  rw [BitVec.toNat_setWidth, BitVec.toNat_mul, BitVec.toNat_ofNat, BitVec.toNat_ofNat]
  show i % 2 ^ 32 * 4096 % 2 ^ 32 % 2 ^ 64 = i * 4096 % 2 ^ 64
  omega

end Pages

/-! ## §3. The mapping loop. -/

section MapBuffer

variable {S : Type} {vmmMap : S → Word → Word → Word → S} {pages : S → PageMap} {s : S}
  {userAddr kernelBuf : Word}

/-- **What the loop maps**: the pages from `user_addr` on, each to the frame
    that holds the corresponding byte of the buffer. -/
theorem pages_mapBuffer (hmap : MapsPages vmmMap pages) (ha : Aligned userAddr)
    {n : BitVec 32} (hn : n.toNat < 2 ^ 20) (o : Word) :
    pages (mapBuffer vmmMap s userAddr kernelBuf n) (pageAddr (userAddr + o)) =
      if o.toNat / 4096 < n.toNat then
        some ⟨pageAddr (kernelBuf + pageAddr o), pageUser ||| pageWritable ||| pagePresent, false⟩
      else pages s (pageAddr (userAddr + o)) := by
  unfold mapBuffer
  have hrange : ∀ k ≤ n.toNat, pages ((List.range k).foldl (fun space i =>
      let offset := (BitVec.ofNat 32 i * 4096).setWidth 64
      vmmMap space (userAddr + offset) (kernelBuf + offset) (pageUser ||| pageWritable)) s)
        (pageAddr (userAddr + o)) =
      if o.toNat / 4096 < k then
        some ⟨pageAddr (kernelBuf + pageAddr o), pageUser ||| pageWritable ||| pagePresent, false⟩
      else pages s (pageAddr (userAddr + o)) := by
    intro k
    induction k with
    | zero =>
      intro _
      rw [if_neg (Nat.not_lt_zero _)]
      rfl
    | succ k ih =>
      intro hk
      have hoff := pageOffset_eq (i := k) (by omega)
      rw [List.range_succ, List.foldl_append, List.foldl_cons, List.foldl_nil, hmap]
      dsimp only
      rw [hoff]
      unfold PageMap.insert
      rw [if_neg (by decide), ih (by omega)]
      have hpage : pageAddr (userAddr + BitVec.ofNat 64 (k * 4096)) =
          userAddr + BitVec.ofNat 64 (k * 4096) := by
        rw [pageAddr_add ha, (pageAddr_eq_ofNat_iff (i := k) (by omega)).mpr]
        rw [BitVec.toNat_ofNat]
        omega
      have hiff : pageAddr (userAddr + o) = userAddr + BitVec.ofNat 64 (k * 4096) ↔
          o.toNat / 4096 = k := by
        rw [pageAddr_add ha, ← pageAddr_eq_ofNat_iff (o := o) (i := k) (by omega)]
        exact ⟨fun h => (BitVec.add_right_inj _).mp h, fun h => by rw [h]⟩
      rw [hpage]
      by_cases hok : o.toNat / 4096 = k
      · rw [if_pos (hiff.mpr hok), if_pos (by omega),
          (pageAddr_eq_ofNat_iff (o := o) (i := k) (by omega)).mpr hok]
        rfl
      · rw [if_neg fun h => hok (hiff.mp h)]
        by_cases hlt : o.toNat / 4096 < k
        · rw [if_pos hlt, if_pos (by omega)]
        · rw [if_neg hlt, if_neg (by omega)]
  exact hrange n.toNat le_rfl

/-- Inside the pages mapped, an address leads to the frame of the buffer's
    byte; elsewhere to what it led to before. -/
theorem translate_mapBuffer (hmap : MapsPages vmmMap pages) (ha : Aligned userAddr)
    {n : BitVec 32} (hn : n.toNat < 2 ^ 20) (o : Word) :
    (pages (mapBuffer vmmMap s userAddr kernelBuf n)).translate (userAddr + o) =
      if o.toNat < n.toNat * 4096 then
        some (pageAddr (kernelBuf + pageAddr o) ||| (o &&& flagMask))
      else (pages s).translate (userAddr + o) := by
  unfold PageMap.translate
  rw [pages_mapBuffer hmap ha hn o, add_and_flagMask ha]
  by_cases hlt : o.toNat < n.toNat * 4096
  · rw [if_pos hlt, if_pos (by omega)]
    rfl
  · rw [if_neg hlt, if_neg (by omega)]

/-- With an aligned buffer the frames are the buffer's own. -/
theorem frame_of_aligned (hk : Aligned kernelBuf) (o : Word) :
    pageAddr (kernelBuf + pageAddr o) ||| (o &&& flagMask) = kernelBuf + o := by
  have hpage : pageAddr (kernelBuf + pageAddr o) = kernelBuf + pageAddr o := by
    rw [pageAddr_add hk, pageAddr, pageAddr, Word.and_not_and_not]
  have hal : Aligned (kernelBuf + pageAddr o) := by
    rw [← hpage]
    exact aligned_pageAddr _
  have hlt : o.toNat < 2 ^ 64 := o.isLt
  have hk' : kernelBuf.toNat % 4096 = 0 := hk
  apply BitVec.eq_of_toNat_eq
  rw [hpage, toNat_or_flagMask hal, BitVec.toNat_add, BitVec.toNat_add, toNat_pageAddr]
  have := kernelBuf.isLt
  omega

/-- The loop shares the buffer, and only it, exactly when it has no page or is
    page-aligned, and what it does not map of the client area was mapped so
    before. -/
theorem sharesBuffer_iff (hmap : MapsPages vmmMap pages) {w h : BitVec 32}
    (ha : Aligned userAddr) (hlow : heapStart.toNat ≤ kernelBuf.toNat)
    (hhigh : kernelBuf.toNat + (bufferPages w h).toNat * 4096 ≤ heapStart.toNat + heapSize) :
    SharesBuffer (pages (mapBuffer vmmMap s userAddr kernelBuf (bufferPages w h)))
        userAddr kernelBuf w h ↔
      (bufferPages w h = 0 ∨ kernelBuf.toNat % 4096 = 0) ∧
        ∀ o : Word, (bufferPages w h).toNat * 4096 ≤ o.toNat → o.toNat < clientBytes w h →
          (pages s).translate (userAddr + o) = some (kernelBuf + o) := by
  have hpages := bufferPages_le w h
  have htr : ∀ o, (pages (mapBuffer vmmMap s userAddr kernelBuf (bufferPages w h))).translate
      (userAddr + o) = if o.toNat < (bufferPages w h).toNat * 4096 then
        some (pageAddr (kernelBuf + pageAddr o) ||| (o &&& flagMask))
      else (pages s).translate (userAddr + o) := translate_mapBuffer hmap ha hpages
  have hstart : heapStart.toNat % 4096 = 0 := by decide
  constructor
  · intro hshare
    constructor
    · by_contra hnot
      obtain ⟨hn0, hmis⟩ := not_or.mp hnot
      have hn : (bufferPages w h).toNat ≠ 0 := fun h0 => hn0 (BitVec.eq_of_toNat_eq h0)
      -- the first page mapped starts below the payload, inside the heap
      have hfirst := htr 0
      rw [if_pos (show (0 : Word).toNat < _ by show 0 < _; omega)] at hfirst
      have ha0 : (pageAddr (kernelBuf + pageAddr 0) ||| ((0 : Word) &&& flagMask)).toNat =
          kernelBuf.toNat / 4096 * 4096 := by
        have hz : pageAddr 0 = 0#64 := by decide
        rw [toNat_or_flagMask (aligned_pageAddr _), toNat_pageAddr, hz, BitVec.add_zero]
        exact Nat.add_zero _
      have hconf := hshare.confined 0 _ (by show 0 < _; omega) hfirst
      rw [ha0] at hconf
      have := hconf (by omega) (by omega)
      omega
    · intro o hge hlt
      have hsame := hshare.same o hlt
      rw [htr o, if_neg (by omega)] at hsame
      exact hsame
  · intro ⟨hal, htail⟩
    have hin : ∀ o : Word, o.toNat < (bufferPages w h).toNat * 4096 →
        (pages (mapBuffer vmmMap s userAddr kernelBuf (bufferPages w h))).translate
          (userAddr + o) = some (kernelBuf + o) := by
      intro o ho
      have hk : Aligned kernelBuf := hal.resolve_left fun h0 => by
        rw [h0] at ho
        exact absurd ho (Nat.not_lt_zero _)
      rw [htr o, if_pos ho, frame_of_aligned hk]
    constructor
    · intro o ho
      by_cases hlt : o.toNat < (bufferPages w h).toNat * 4096
      · exact hin o hlt
      · rw [htr o, if_neg hlt]
        exact htail o (by omega) ho
    · intro o a ho htrans _ _
      rw [hin o ho] at htrans
      rw [← Option.some.inj htrans, BitVec.toNat_add, Nat.mod_eq_of_lt]
      · omega
      · have : heapStart.toNat + heapSize < 2 ^ 64 := by decide
        omega

end MapBuffer

/-! ## §4. The condition on the heap. -/

section SysCreateWindow

variable {S : Type} {vmmMap : S → Word → Word → Word → S} {pages : S → PageMap} {g g' : Gui S}

/-- The payload of the buffer is where first fit puts it. -/
theorem HeapTiled.buffer_payload {bs : List Block} (ht : HeapTiled g.heap bs) {fuel : Nat}
    {win kernelBuf : Word} {heap heap' : Heap} {w h : BitVec 32}
    (hwin : kmalloc fuel g.heap windowSize = some (win, heap)) (hwin0 : win ≠ 0)
    (hbuf : kmalloc fuel heap ((bufferPages w h * 4096).setWidth 64) = some (kernelBuf, heap'))
    (hbuf0 : kernelBuf ≠ 0) :
    bufferPayload bs w h = some kernelBuf.toNat ∧ heapStart.toNat ≤ kernelBuf.toNat ∧
      kernelBuf.toNat + (bufferPages w h).toNat * 4096 ≤ heapStart.toNat + heapSize := by
  have hbytes := toNat_bufferBytes w h
  have hpages := bufferPages_le w h
  obtain ⟨x₁, bs₁, hfit₁, ht₁, -, -⟩ := ht.kmalloc_first_fit (by decide) hwin hwin0
  obtain ⟨x, bs', hfit, -, hk, hlow, hhigh⟩ :=
    ht₁.kmalloc_first_fit (by rw [hbytes]; omega) hbuf hbuf0
  have hround : roundUp8 ((bufferPages w h).toNat * 4096) = (bufferPages w h).toNat * 4096 := by
    unfold roundUp8
    omega
  rw [hbytes, hround] at hfit hhigh
  have hend : heapStart.toNat + heapSize < 2 ^ 64 := by decide
  have hkn : kernelBuf.toNat = x + 24 := by
    rw [hk, BitVec.toNat_ofNat]
    omega
  have hfit₁' : firstFit 328 heapStart.toNat bs = some (x₁, bs₁) := hfit₁
  unfold bufferPayload
  rw [hfit₁', Option.bind_some, hfit, hkn]
  exact ⟨rfl, by omega, by omega⟩

/-- **What a shared window buffer shows.**  Take a call of `sys_create_window`
    whose allocations succeed, after any history of the heap.  User and kernel
    see the same client area and nothing else of the heap shows, if and only
    if the payload first fit finds for the buffer is page-aligned (or no page
    is mapped), and the part of the client area that the 32-bit size leaves
    out was already mapped as it should be. -/
theorem window_buffer_shared_iff (hmap : MapsPages vmmMap pages) {p : Pmm}
    {header : Word → KmallocHeader} {tr : List (Transition HeapSystem HeapCall)} {s : HeapSystem}
    (hrun : Run HeapStep (bootHeap p header) tr s) (hheap : g.heap = s.heap) {fuel : Nat}
    {pid win kernelBuf : Word} {heap : Heap} {x y w h id : BitVec 32}
    (hret : sysCreateWindow vmmMap fuel g pid x y w h = some (id, g'))
    (hwin : kmalloc fuel g.heap windowSize = some (win, heap)) (hwin0 : win ≠ 0)
    (hbuf : kmalloc fuel heap ((bufferPages w h * 4096).setWidth 64) = some (kernelBuf, g'.heap))
    (hbuf0 : kernelBuf ≠ 0) :
    ∃ bs buf, HeapTiled g.heap bs ∧ bufferPayload bs w h = some buf ∧
      (SharesBuffer (pages g'.space) (windowUserAddr id) kernelBuf w h ↔
        (bufferPages w h = 0 ∨ buf % 4096 = 0) ∧
          ∀ o : Word, (bufferPages w h).toNat * 4096 ≤ o.toNat → o.toNat < clientBytes w h →
            (pages g.space).translate (windowUserAddr g.windows.nextWindowId + o) =
              some (BitVec.ofNat 64 buf + o)) := by
  obtain ⟨bs, hinv⟩ := HeapSystem.inv_of_run hrun
  have ht : HeapTiled g.heap bs := hheap ▸ hinv.tiled
  obtain ⟨win', heap', kernelBuf', hwin', hbuf', hid, -, hspace, -⟩ := sysCreateWindow_eq_some hret
  obtain ⟨-, rfl⟩ := Prod.mk.inj (Option.some.inj (hwin'.symm.trans hwin))
  obtain ⟨rfl, -⟩ := Prod.mk.inj (Option.some.inj (hbuf'.symm.trans hbuf))
  obtain ⟨hpay, hlow, hhigh⟩ := ht.buffer_payload hwin hwin0 hbuf hbuf0
  refine ⟨bs, kernelBuf'.toNat, ht, hpay, ?_⟩
  rw [hspace, sharesBuffer_iff hmap (aligned_windowUserAddr id) hlow hhigh, ← hid,
    BitVec.ofNat_toNat, BitVec.setWidth_eq]

end SysCreateWindow

/-- The first window `user_gui_app` creates: its buffer starts 0x178 bytes into
    a page. -/
theorem sysCreateWindow_first : ∃ heap g',
    kmalloc 3 bootGui.heap windowSize = some (0x1000018, heap) ∧
      kmalloc 3 heap ((bufferPages 300 225 * 4096).setWidth 64) = some (0x1000178, g'.heap) ∧
      sysCreateWindow PageMap.insert 3 bootGui 1 200 200 300 225 = some (1, g') := by
  have htiled : HeapTiled bootGui.heap [⟨heapSize - 24, true⟩] := heapInit_tiled _
  obtain ⟨heap, htiled', hwin⟩ :=
    htiled.kmalloc_some (n := windowSize) (by decide)
      (show firstFit _ _ _ = some (0x1000000, [⟨328, false⟩, ⟨0xFFFE88, true⟩]) by decide)
  obtain ⟨heap', -, hbuf⟩ :=
    htiled'.kmalloc_some (n := (bufferPages 300 225 * 4096).setWidth 64) (by decide)
      (show firstFit _ _ _ = some (0x1000160, _) by rfl)
  have hwin := hwin 3 (by decide)
  have hbuf := hbuf 3 (by decide)
  obtain ⟨g', hret, hheap⟩ := sysCreateWindow_of_alloc PageMap.insert 1 200 200 hwin hbuf
  exact ⟨heap, g', hwin, hheap ▸ hbuf, hret⟩

theorem mapsPages_insert : MapsPages PageMap.insert id := fun _ _ _ _ => rfl

/-- `window_buffer_shared_iff` at that window. -/
theorem window_buffer_shared_first : ∃ (g' : Gui PageMap) (bs : List Block) (buf : Nat),
    HeapTiled bootGui.heap bs ∧ bufferPayload bs 300 225 = some buf ∧
      (SharesBuffer (id g'.space) (windowUserAddr 1) 0x1000178 300 225 ↔
        (bufferPages 300 225 = 0 ∨ buf % 4096 = 0) ∧
          ∀ o : Word, (bufferPages 300 225).toNat * 4096 ≤ o.toNat →
            o.toNat < clientBytes 300 225 →
            (id bootGui.space).translate (windowUserAddr bootGui.windows.nextWindowId + o) =
              some (BitVec.ofNat 64 buf + o)) := by
  obtain ⟨heap, g', hwin, hbuf, hret⟩ := sysCreateWindow_first
  have hrun : Run HeapStep (bootHeap ⟨fun _ => true, [], fun _ => 0, 0, 0⟩ fun _ => ⟨0, false, 0⟩)
      [] _ := Run.nil _
  exact ⟨g', window_buffer_shared_iff mapsPages_insert hrun rfl hret hwin (by decide) hbuf
    (by decide)⟩

/-- The page mapped for the first bytes of that window also holds the headers
    and the `window_t` below its buffer. -/
theorem window_buffer_exposes_heap : ∃ heap g',
    kmalloc 3 bootGui.heap windowSize = some (0x1000018, heap) ∧
      kmalloc 3 heap ((bufferPages 300 225 * 4096).setWidth 64) = some (0x1000178, g'.heap) ∧
      sysCreateWindow PageMap.insert 3 bootGui 1 200 200 300 225 = some (1, g') ∧
      g'.space.translate (windowUserAddr 1) = some 0x1000000 ∧
      ¬ SharesBuffer g'.space (windowUserAddr 1) 0x1000178 300 225 := by
  obtain ⟨heap, g', hwin, hbuf, hret⟩ := sysCreateWindow_first
  obtain ⟨win', heap', buf', hwin', hbuf', -, -, hspace, -⟩ := sysCreateWindow_eq_some hret
  obtain ⟨-, rfl⟩ := Prod.mk.inj (Option.some.inj (hwin'.symm.trans hwin))
  obtain ⟨rfl, -⟩ := Prod.mk.inj (Option.some.inj (hbuf'.symm.trans hbuf))
  have hpages : ∀ o : Word, (id g'.space).translate (windowUserAddr 1 + o) =
      if o.toNat < (bufferPages 300 225).toNat * 4096 then
        some (pageAddr (0x1000178 + pageAddr o) ||| (o &&& flagMask))
      else (id bootGui.space).translate (windowUserAddr 1 + o) := by
    intro o
    rw [hspace]
    exact translate_mapBuffer mapsPages_insert (aligned_windowUserAddr 1) (bufferPages_le 300 225) o
  have hfirst : g'.space.translate (windowUserAddr 1) = some 0x1000000 := by
    have hframe : pageAddr (0x1000178 + pageAddr 0) ||| (0#64 &&& flagMask) = 0x1000000 := by decide
    have h0 := hpages 0#64
    rw [BitVec.add_zero, if_pos (by decide)] at h0
    exact h0.trans (congrArg some hframe)
  refine ⟨_, g', hwin, hbuf, hret, hfirst, fun hshare => ?_⟩
  have hconf := hshare.confined 0#64 0x1000000 (by decide)
  rw [BitVec.add_zero] at hconf
  exact absurd (hconf hfirst (by decide) (by decide)).1 (by decide)

end ZohoOs
