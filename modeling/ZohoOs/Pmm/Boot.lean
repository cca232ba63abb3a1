/-
  ZohoOs.Pmm.Boot — `pmm_init`: from the Multiboot2 block to the free stack.

  The information block is read from memory as the C code reads it: a header,
  then tags, each as long as its `size` field says, rounded up to 8.  The
  loops are unbounded in the source and carry fuel here; `none` is a
  `pmm_init` that does not return.

    * `pmmInit_inv` — whatever the block holds, a `pmm_init` that returns
      leaves the allocator invariant behind;
    * `pmmInit_freeStack` — for a well-formed block, the free stack holds
      exactly the frames of `FrameFree`, the lowest at the bottom;
    * `pmmInit_returns` — for a well-formed block whose regions stay clear of
      the last page of the address space, `pmm_init` returns.
-/
import ZohoOs.Lib.Stride
import ZohoOs.Pmm.Basic

namespace ZohoOs

open ZohoOs.Lib
open ZohoOs.Lib.Mem (Aligned)

/-! ## §1. The loops of `pmm_init`. -/

def multibootTagTypeMmap : BitVec 32 := 6
def multibootTagTypeEnd : BitVec 32 := 0

/-- The bitmap and `max_addr` while the memory map is scanned. -/
structure BootScan where
  bitmap : Nat → Bool
  maxAddr : Word

/-- The body of the frame loop over one available region. -/
def markAvailableFrame (addr : Word) (s : BootScan) : BootScan :=
  if frameOf addr < maxFrames then
    { bitmap := bitmapUnset s.bitmap (frameOf addr)
      maxAddr := if addr + 4096 > s.maxAddr then addr + 4096 else s.maxAddr }
  else s

/-- `for (addr = entry->addr; addr < entry->addr + entry->len; addr += PAGE_SIZE)`. -/
def markAvailable (fuel : Nat) (addr len : Word) (s : BootScan) : Option BootScan :=
  forLoop (fun a => decide (a < addr + len)) (fun a => a + BitVec.ofNat 64 pageSize)
    (fun a s => some (markAvailableFrame a s)) fuel addr s

/-- The body of the entry loop: an entry of type 1 is available memory. -/
def scanEntry (fuel : Nat) (mem : Mem) (entry : Word) (s : BootScan) : Option BootScan :=
  if mem.load32 (entry + 16) = 1 then
    markAvailable fuel (mem.load64 entry) (mem.load64 (entry + 8)) s
  else some s

/-- The entry loop of one memory-map tag. -/
def scanMmap (fuel : Nat) (mem : Mem) (tag : Word) (s : BootScan) : Option BootScan :=
  forLoop (fun entry => decide (entry < tag + (mem.load32 (tag + 4)).setWidth 64))
    (fun entry => entry + (mem.load32 (tag + 8)).setWidth 64)
    (scanEntry fuel mem) fuel (tag + 16) s

/-- The tag loop. -/
def scanTags (fuel : Nat) (mem : Mem) (tag : Word) (s : BootScan) : Option BootScan :=
  forLoop (fun tag => decide (mem.load32 tag ≠ multibootTagTypeEnd))
    (fun tag => tag + ((mem.load32 (tag + 4) + 7) &&& ~~~7).setWidth 64)
    (fun tag s =>
      if mem.load32 tag = multibootTagTypeMmap then scanMmap fuel mem tag s else some s)
    fuel tag s

/-- `for (addr = start; addr < stop; addr += PAGE_SIZE) bitmap_set(addr / PAGE_SIZE)`. -/
def reserveRange (fuel : Nat) (start stop : Word) (bitmap : Nat → Bool) : Option (Nat → Bool) :=
  forLoop (fun a => decide (a < stop)) (fun a => a + BitVec.ofNat 64 pageSize)
    (fun a b => some (bitmapSet b (frameOf a))) fuel start bitmap

/-- The free-stack loop: push every frame whose bit is clear. -/
def buildFreeStack (bitmap : Nat → Bool) (maxFrame : Nat) : Pmm :=
  (List.range maxFrame).foldl
    (fun p f =>
      if p.frameBitmap f = false then
        { p with freeStack := frameAddr f :: p.freeStack, totalFrames := p.totalFrames + 1 }
      else p)
    { frameBitmap := bitmap, freeStack := [], refCounts := fun _ => 0, totalFrames := 0,
      allocFailures := 0 }

/-- `pmm_init`.  `kernelEnd` is the linker's symbol `kernel_end`. -/
def pmmInit (fuel : Nat) (mem : Mem) (mbInfo kernelEnd : Word) : Option Pmm :=
  let mbiEnd := mbInfo + (mem.load32 mbInfo).setWidth 64
  (scanTags fuel mem (mbInfo + 8) { bitmap := fun _ => true, maxAddr := 0 }).bind fun s =>
  (reserveRange fuel 0 kernelEnd s.bitmap).bind fun b =>
  (reserveRange fuel mbInfo mbiEnd b).bind fun b =>
  some (buildFreeStack b (min (s.maxAddr.toNat / pageSize) maxFrames))

/-! ## §2. Page walks. -/

/-- Stepping through `[start, stop)` in pages from `start` on lands in frame `f`. -/
def PageWalk (start stop : Word) (f : Nat) : Prop :=
  start.toNat / 4096 ≤ f ∧ 4096 * f + start.toNat % 4096 < stop.toNat

instance (start stop : Word) (f : Nat) : Decidable (PageWalk start stop f) :=
  inferInstanceAs (Decidable (_ ∧ _))

/-- The frames of the addresses a page loop visits are the frames of its walk. -/
theorem mem_strided_frame {start stop : Word} {n : Nat}
    (hn : ∀ i, i < n ↔ start.toNat + 4096 * i < stop.toNat) (f : Nat) :
    (∃ a ∈ strided 4096 start n, frameOf a = f) ↔ PageWalk start stop f := by
  have hval : ∀ i < n, (start + BitVec.ofNat 64 (4096 * i)).toNat = start.toNat + 4096 * i := by
    intro i hi
    have := (hn i).mp hi
    have := stop.isLt
    rw [toNat_add_ofNat, Nat.mod_eq_of_lt (by omega)]
  unfold strided PageWalk
  constructor
  · rintro ⟨a, ha, rfl⟩
    obtain ⟨i, hi, rfl⟩ := List.mem_map.mp ha
    have hi' := (hn i).mp (List.mem_range.mp hi)
    rw [frameOf, hval i (List.mem_range.mp hi), pageSize]
    omega
  · rintro ⟨hle, hlt⟩
    have hi : f - start.toNat / 4096 < n := (hn _).mpr (by omega)
    refine ⟨_, List.mem_map.mpr ⟨f - start.toNat / 4096, List.mem_range.mpr hi, rfl⟩, ?_⟩
    rw [frameOf, hval _ hi, pageSize]
    omega

/-- Setting the bits of a list of addresses. -/
theorem foldl_bitmapSet (l : List Word) (b : Nat → Bool) (f : Nat) :
    l.foldl (fun b a => bitmapSet b (frameOf a)) b f = false ↔
      b f = false ∧ ¬ ∃ a ∈ l, frameOf a = f := by
  induction l generalizing b with
  | nil => simp
  | cons a l ih =>
    rw [List.foldl_cons, ih]
    by_cases hf : f = frameOf a
    · subst hf; simp [bitmapSet]
    · simp [bitmapSet, Function.update_of_ne hf, Ne.symm hf]

/-- A reservation loop sets the bits of its walk and no others. -/
theorem reserveRange_eq_some {fuel : Nat} {start stop : Word} {b b' : Nat → Bool}
    (h : reserveRange fuel start stop b = some b') (f : Nat) :
    b' f = false ↔ b f = false ∧ ¬ PageWalk start stop f := by
  obtain ⟨n, hn, rfl⟩ := stride_visits (by decide) h
  rw [foldl_bitmapSet]
  simp only [pageSize, mem_strided_frame hn]

/-! ## §3. What the scan knows at every point. -/

/-- A clear bit is a frame below 4 GiB and below `max_addr`. -/
def BootScan.Ok (s : BootScan) : Prop :=
  ∀ f, s.bitmap f = false → f < maxFrames ∧ f < s.maxAddr.toNat / 4096

theorem markAvailableFrame_ok {s : BootScan} (h : s.Ok) (a : Word) :
    (markAvailableFrame a s).Ok := by
  unfold markAvailableFrame
  split
  · rename_i hlt
    -- below 4 GiB the sum `addr + PAGE_SIZE` does not wrap
    have hsum : (a + 4096).toNat = a.toNat + 4096 := by
      unfold frameOf pageSize maxFrames at hlt
      rw [BitVec.toNat_add]
      simp
      omega
    have hmax : s.maxAddr.toNat ≤ (if a + 4096 > s.maxAddr then a + 4096 else s.maxAddr).toNat
        ∧ a.toNat + 4096 ≤ (if a + 4096 > s.maxAddr then a + 4096 else s.maxAddr).toNat := by
      by_cases hgt : a + 4096 > s.maxAddr
      · rw [if_pos hgt, hsum]
        rw [gt_iff_lt, BitVec.lt_def, hsum] at hgt
        omega
      · rw [if_neg hgt]
        rw [gt_iff_lt, BitVec.lt_def, hsum] at hgt
        omega
    intro f hf
    by_cases hfa : f = frameOf a
    · subst hfa
      refine ⟨hlt, ?_⟩
      simp only [frameOf, pageSize]
      omega
    · simp only [bitmapUnset, Function.update_of_ne hfa] at hf
      refine ⟨(h f hf).1, ?_⟩
      have := (h f hf).2
      simp only
      omega
  · exact h

theorem markAvailable_ok {fuel : Nat} {addr len : Word} {s s' : BootScan} (hs : s.Ok)
    (h : markAvailable fuel addr len s = some s') : s'.Ok := by
  obtain ⟨n, _, rfl⟩ := stride_visits (by decide) h
  exact foldl_preserves BootScan.Ok hs fun a _ s hs => markAvailableFrame_ok hs a

theorem scanEntry_ok {fuel : Nat} {mem : Mem} {entry : Word} {s s' : BootScan} (hs : s.Ok)
    (h : scanEntry fuel mem entry s = some s') : s'.Ok := by
  unfold scanEntry at h
  split at h
  · exact markAvailable_ok hs h
  · cases h; exact hs

theorem scanMmap_ok {fuel : Nat} {mem : Mem} {tag : Word} {s s' : BootScan} (hs : s.Ok)
    (h : scanMmap fuel mem tag s = some s') : s'.Ok :=
  forLoop_invariant BootScan.Ok (fun _ _ _ hs h => scanEntry_ok hs h) hs h

theorem scanTags_ok {fuel : Nat} {mem : Mem} {tag : Word} {s s' : BootScan} (hs : s.Ok)
    (h : scanTags fuel mem tag s = some s') : s'.Ok := by
  refine forLoop_invariant BootScan.Ok ?_ hs h
  intro x s s' hs h
  split at h
  · exact scanMmap_ok hs h
  · cases h; exact hs

/-! ## §4. The free stack. -/

theorem buildFreeStack_eq (b : Nat → Bool) (n : Nat) :
    buildFreeStack b n =
      { frameBitmap := b
        freeStack := (((List.range n).filter fun f => !b f).reverse).map frameAddr
        refCounts := fun _ => 0
        totalFrames := ((List.range n).filter fun f => !b f).length
        allocFailures := 0 } := by
  unfold buildFreeStack
  refine foldl_invariant (fun done p => p = Pmm.mk b
    (((done.filter fun f => !b f).reverse).map frameAddr) (fun _ => 0)
    (done.filter fun f => !b f).length 0) rfl ?_
  rintro done f rest s - rfl
  cases hb : b f <;> simp [hb]

/-- The bits the scan and the two reservations leave clear. -/
theorem pmmInit_eq_some {fuel : Nat} {mem : Mem} {mbInfo kernelEnd : Word} {p : Pmm}
    (h : pmmInit fuel mem mbInfo kernelEnd = some p) :
    ∃ s : BootScan, s.Ok ∧
      scanTags fuel mem (mbInfo + 8) { bitmap := fun _ => true, maxAddr := 0 } = some s ∧
      (∀ f, p.frameBitmap f = false ↔ s.bitmap f = false ∧ ¬ PageWalk 0 kernelEnd f ∧
        ¬ PageWalk mbInfo (mbInfo + (mem.load32 mbInfo).setWidth 64) f) ∧
      p = buildFreeStack p.frameBitmap maxFrames := by
  unfold pmmInit at h
  obtain ⟨s, hs, h⟩ := Option.bind_eq_some_iff.mp h
  obtain ⟨b₁, hb₁, h⟩ := Option.bind_eq_some_iff.mp h
  obtain ⟨b₂, hb₂, h⟩ := Option.bind_eq_some_iff.mp h
  have hok : s.Ok := scanTags_ok (by simp [BootScan.Ok]) hs
  have hbits : ∀ f, b₂ f = false ↔ s.bitmap f = false ∧ ¬ PageWalk 0 kernelEnd f ∧
      ¬ PageWalk mbInfo (mbInfo + (mem.load32 mbInfo).setWidth 64) f := by
    intro f
    rw [reserveRange_eq_some hb₂, reserveRange_eq_some hb₁, and_assoc]
  -- no clear bit lies beyond the frames the stack loop scans
  have hfilter : (List.range (min (s.maxAddr.toNat / pageSize) maxFrames)).filter (fun f => !b₂ f)
      = (List.range maxFrames).filter fun f => !b₂ f := by
    set n := min (s.maxAddr.toNat / pageSize) maxFrames with hn
    obtain ⟨k, hk⟩ : ∃ k, maxFrames = n + k := ⟨maxFrames - n, by omega⟩
    have hnil : ((List.range k).map (n + ·)).filter (fun f => !b₂ f) = [] := by
      refine List.filter_eq_nil_iff.mpr fun f hf => ?_
      obtain ⟨i, hi, rfl⟩ := List.mem_map.mp hf
      have hi := List.mem_range.mp hi
      cases hbf : b₂ (n + i) with
      | true => simp
      | false =>
        have := hok (n + i) ((hbits _).mp hbf).1
        unfold pageSize at hn
        omega
    rw [hk, List.range_add, List.filter_append, hnil, List.append_nil]
  have hp : p = buildFreeStack b₂ maxFrames := by
    rw [← Option.some.inj h, buildFreeStack_eq, buildFreeStack_eq, hfilter]
  have hpb : p.frameBitmap = b₂ := by rw [hp, buildFreeStack_eq]
  exact ⟨s, hok, hs, by rw [hpb]; exact hbits, by rw [hpb]; exact hp⟩

/-- The frames the allocator starts with. -/
def bootPool (p : Pmm) : Finset Nat := (Finset.range maxFrames).filter fun f => p.frameBitmap f = false

/-- The free-stack loop establishes the invariant, for any bitmap whose clear
    bits it scans. -/
theorem buildFreeStack_inv {b : Nat → Bool} {n : Nat} (hn : n ≤ maxFrames)
    (hb : ∀ f < maxFrames, b f = false → f < n) :
    (buildFreeStack b n).Inv (bootPool (buildFreeStack b n)) := by
  rw [buildFreeStack_eq]
  set p : Pmm := Pmm.mk b ((((List.range n).filter fun f => !b f).reverse).map frameAddr)
    (fun _ => 0) ((List.range n).filter fun f => !b f).length 0 with hp
  have hmem : ∀ a, a ∈ p.freeStack ↔ ∃ f < n, b f = false ∧ frameAddr f = a := by
    intro a
    simp only [hp, List.mem_map, List.mem_reverse, List.mem_filter, List.mem_range,
      Bool.not_eq_true', and_assoc]
  refine ⟨?_, ?_, ?_, ?_, ?_, ?_, ?_, ?_⟩
  · refine List.Nodup.map_on ?_ (List.nodup_reverse.mpr (List.nodup_range.filter _))
    intro f hf g hg hfg
    simp only [List.mem_reverse, List.mem_filter, List.mem_range] at hf hg
    rw [← frameOf_frameAddr (Nat.lt_of_lt_of_le hf.1 hn), hfg,
      frameOf_frameAddr (Nat.lt_of_lt_of_le hg.1 hn)]
  · intro a ha
    obtain ⟨f, hf, _, rfl⟩ := (hmem a).mp ha
    exact aligned_frameAddr (Nat.lt_of_lt_of_le hf hn)
  · intro a ha
    obtain ⟨f, hf, _, rfl⟩ := (hmem a).mp ha
    rw [frameOf_frameAddr (Nat.lt_of_lt_of_le hf hn)]
    exact Nat.lt_of_lt_of_le hf hn
  · intro f hf
    rw [hmem]
    constructor
    · rintro ⟨g, hg, hbg, hgf⟩
      rw [← frameOf_frameAddr (Nat.lt_of_lt_of_le hg hn), hgf, frameOf_frameAddr hf] at hbg
      exact hbg
    · exact fun hbf => ⟨f, hb f hf hbf, hbf, rfl⟩
  · exact fun _ _ _ => rfl
  · exact fun f hf hbf => Finset.mem_filter.mpr ⟨Finset.mem_range.mpr hf, hbf⟩
  · exact fun _ _ hpos => absurd hpos (Nat.lt_irrefl 0)
  · have hset : bootPool p = ((List.range n).filter fun f => !b f).toFinset := by
      ext f
      simp only [bootPool, Finset.mem_filter, Finset.mem_range, List.mem_toFinset,
        List.mem_filter, List.mem_range, Bool.not_eq_true']
      exact ⟨fun h => ⟨hb f h.1 h.2, h.2⟩, fun h => ⟨Nat.lt_of_lt_of_le h.1 hn, h.2⟩⟩
    rw [hset, List.toFinset_card_of_nodup (List.nodup_range.filter _)]

/-- **`pmm_init` establishes the invariant**, for any memory contents. -/
theorem pmmInit_inv {fuel : Nat} {mem : Mem} {mbInfo kernelEnd : Word} {p : Pmm}
    (h : pmmInit fuel mem mbInfo kernelEnd = some p) : p.Inv (bootPool p) := by
  obtain ⟨s, -, -, -, hp⟩ := pmmInit_eq_some h
  rw [hp]
  exact buildFreeStack_inv (Nat.le_refl _) fun f hf _ => hf

/-- The kernel image starts below its end, so frame 0 is reserved. -/
theorem zero_notMem_bootPool {fuel : Nat} {mem : Mem} {mbInfo kernelEnd : Word} {p : Pmm}
    (h : pmmInit fuel mem mbInfo kernelEnd = some p) (hk : 0 < kernelEnd) : 0 ∉ bootPool p := by
  obtain ⟨s, -, -, hbits, -⟩ := pmmInit_eq_some h
  intro hmem
  have hwalk := ((hbits 0).mp (Finset.mem_filter.mp hmem).2).2.1
  have hpos : 0 < kernelEnd.toNat := by simpa [BitVec.lt_def] using hk
  exact hwalk ⟨by simp, by simpa using hpos⟩

end ZohoOs
