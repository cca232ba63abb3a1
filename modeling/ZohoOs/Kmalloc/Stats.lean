/-
  ZohoOs.Kmalloc.Stats — the allocator's counters, exact over whole runs.

  `kmalloc` adds the size of the block it hands out, after a possible cut;
  `kfree` subtracts the size the header has when the block comes back, and
  then merges.  The counters are compared here with the block list itself:
  how many blocks are in use, and how many bytes they hold.

  Unlike in `Kmalloc.Safety`, a request may have any size: `(size + 7) & ~7`
  wraps to `0` for the seven largest ones, and such a request is served from
  whatever block is free.

  Main results:
    * `statsLoop_tiles` — the walk of `kmalloc_get_stats` returns the bytes
      free and the largest free block;
    * `HeapSystem.Counted.step` — every call keeps the counters exact;
    * `heap_stats_exact` — so does every run, and the peak is the largest
      value `bytes_used` had on it.
-/
import ZohoOs.Kmalloc.Safety

namespace ZohoOs

open ZohoOs.Lib

/-! ## §1. `kmalloc_get_stats`. -/

/-- The walk of `kmalloc_get_stats`. -/
def statsLoop : Nat → Heap → Word → Word → Word → Option (Word × Word)
  | 0, _, _, _, _ => none
  | fuel + 1, h, bytesFree, largestFree, curr =>
      if curr = 0 then some (bytesFree, largestFree)
      else if (h.header curr).isFree then
        statsLoop fuel h (bytesFree + (h.header curr).size)
          (if (h.header curr).size > largestFree then (h.header curr).size else largestFree)
          (h.header curr).next
      else statsLoop fuel h bytesFree largestFree (h.header curr).next

/-- `kmalloc_get_stats`: what is stored at `out_stats`, if anything, and the
    heap after. -/
def kmallocGetStats (fuel : Nat) (h : Heap) (outStats : Word) :
    Option (Option KmallocStats × Heap) :=
  if outStats = 0 then some (none, h)
  else
    (statsLoop fuel h 0 0 h.freeListHead).map fun r =>
      let stats := { h.stats with bytesFree := r.1, largestFreeBlock := r.2 }
      (some stats, { h with stats := stats })

/-! ## §2. What the list holds. -/

/-- The number of blocks in use. -/
def usedCount (bs : List Block) : Nat := bs.countP fun b => !b.free

/-- The payload bytes of a block, if it is in use. -/
def Block.used (b : Block) : Nat := if b.free then 0 else b.size

/-- The payload bytes of a block, if it is free. -/
def Block.unused (b : Block) : Nat := if b.free then b.size else 0

/-- The payload bytes in use. -/
def usedBytes (bs : List Block) : Nat := (bs.map Block.used).sum

/-- The payload bytes free. -/
def freeBytes (bs : List Block) : Nat := (bs.map Block.unused).sum

/-- The largest free block. -/
def largestFree (bs : List Block) : Nat := (bs.map Block.unused).foldr max 0

@[simp] theorem usedCount_append (l r : List Block) :
    usedCount (l ++ r) = usedCount l + usedCount r := List.countP_append

@[simp] theorem usedBytes_append (l r : List Block) :
    usedBytes (l ++ r) = usedBytes l + usedBytes r := by
  simp [usedBytes]

@[simp] theorem usedCount_cons (b : Block) (bs : List Block) :
    usedCount (b :: bs) = usedCount bs + if b.free then 0 else 1 := by
  unfold usedCount
  rw [List.countP_cons]
  cases b.free <;> rfl

@[simp] theorem usedBytes_cons (b : Block) (bs : List Block) :
    usedBytes (b :: bs) = b.used + usedBytes bs := by
  simp [usedBytes]

@[simp] theorem freeBytes_cons (b : Block) (bs : List Block) :
    freeBytes (b :: bs) = b.unused + freeBytes bs := by
  simp [freeBytes]

/-- Every byte of the list is in use, free, or in a header. -/
theorem bytes_extent (bs : List Block) :
    usedBytes bs + freeBytes bs + 24 * bs.length = extent Block.len bs := by
  induction bs with
  | nil => rfl
  | cons b bs ih =>
    have hb : b.used + b.unused = b.size := by
      unfold Block.used Block.unused
      cases b.free <;> simp
    have hlen : b.len = 24 + b.size := rfl
    rw [usedBytes_cons, freeBytes_cons, extent_cons, List.length_cons]
    omega

/-- Blocks are counted by their headers. -/
theorem usedCount_le (bs : List Block) : 24 * usedCount bs ≤ extent Block.len bs := by
  have hle : usedCount bs ≤ bs.length := List.countP_le_length
  have := bytes_extent bs
  omega

/-! ## §3. How the list operations change it. -/

/-- The payload of the block handed out. -/
def takenSize (n : Nat) (b : Block) : Nat := if n + 32 ≤ b.size then n else b.size

theorem used_splitItem (n : Nat) (b : Block) :
    usedCount (splitItem n b) = 1 ∧ usedBytes (splitItem n b) = takenSize n b := by
  unfold splitItem takenSize
  split
  · simp [usedCount, usedBytes, Block.used]
  · simp [usedCount, usedBytes, Block.used]

/-- First fit puts one more block in use, and its payload. -/
theorem used_firstFit {n a x : Nat} {bs bs' : List Block} (h : firstFit n a bs = some (x, bs')) :
    ∃ b, b.free = false ∧ (x, b) ∈ place Block.len a bs' ∧
      usedCount bs' = usedCount bs + 1 ∧ usedBytes bs' = usedBytes bs + b.size := by
  obtain ⟨pre, c, post, rfl, hfit, -, rfl, rfl⟩ := firstFit_eq_some h
  obtain ⟨hcount, hbytes⟩ := used_splitItem n c
  have hc : c.used = 0 := by
    unfold Block.used
    rw [hfit.1]
    rfl
  refine ⟨⟨takenSize n c, false⟩, rfl, ?_, ?_, ?_⟩
  · unfold splitItem takenSize
    split
    · exact mem_place_iff.mpr ⟨pre, _, rfl, rfl⟩
    · exact mem_place_iff.mpr ⟨pre, _, rfl, rfl⟩
  · rw [usedCount_append, usedCount_append, usedCount_append, usedCount_cons, hcount, hfit.1]
    simp
    omega
  · rw [usedBytes_append, usedBytes_append, usedBytes_append, usedBytes_cons, hbytes, hc]
    show _ = _ + takenSize n c
    omega

/-- Merging touches free blocks only. -/
theorem used_mergeBlocks (b : Block) (bs : List Block) :
    usedCount (mergeBlocks b bs) = usedCount (b :: bs) ∧
      usedBytes (mergeBlocks b bs) = usedBytes (b :: bs) := by
  induction bs generalizing b with
  | nil => exact ⟨rfl, rfl⟩
  | cons c bs ih =>
    unfold mergeBlocks
    split
    · rename_i hfree
      obtain ⟨hcount, hbytes⟩ := ih ⟨b.size + (c.size + 24), true⟩
      rw [hcount, hbytes]
      simp [Block.used, hfree.1, hfree.2]
    · obtain ⟨hcount, hbytes⟩ := ih c
      rw [usedCount_cons, usedBytes_cons, hcount, hbytes]
      simp

theorem used_mergeAll (bs : List Block) :
    usedCount (mergeAll bs) = usedCount bs ∧ usedBytes (mergeAll bs) = usedBytes bs := by
  cases bs with
  | nil => exact ⟨rfl, rfl⟩
  | cons b bs => exact used_mergeBlocks b bs

/-- Freeing a block takes it and its payload out of use. -/
theorem used_setFree (pre post : List Block) {b : Block} (hb : b.free = false) :
    usedCount (pre ++ b :: post) = usedCount (pre ++ ⟨b.size, true⟩ :: post) + 1 ∧
      usedBytes (pre ++ b :: post) = usedBytes (pre ++ ⟨b.size, true⟩ :: post) + b.size := by
  constructor
  · simp [hb]
    omega
  · simp [Block.used, hb]
    omega

/-! ## §4. The walks and the counters. -/

/-- The counters after `kmalloc` handed out `k` bytes. -/
def KmallocStats.taken (st : KmallocStats) (k : Word) : KmallocStats :=
  { st with
    allocCount := st.allocCount + 1
    liveAllocations := st.liveAllocations + 1
    bytesUsed := st.bytesUsed + k
    peakBytesUsed := if st.bytesUsed + k > st.peakBytesUsed then st.bytesUsed + k
      else st.peakBytesUsed }

/-- The counters after `kfree` of a block of `k` bytes, clamps aside. -/
def KmallocStats.released (st : KmallocStats) (k : Word) : KmallocStats :=
  { st with
    freeCount := st.freeCount + 1
    liveAllocations := st.liveAllocations - 1
    bytesUsed := st.bytesUsed - k }

section Walks

variable {h : Heap} {a : Nat}

/-- The first-fit walk failed, or handed out one block. -/
theorem kmallocLoop_cases {fuel : Nat} {size curr : Word} {r : Word × Heap}
    (hret : kmallocLoop fuel h size curr = some r) :
    r = (0, { h with stats := { h.stats with
        failedAllocations := h.stats.failedAllocations + 1 } }) ∨
      ∃ x, r = takeBlock h x size := by
  induction fuel generalizing curr with
  | zero => cases hret
  | succ fuel ih =>
    unfold kmallocLoop at hret
    split at hret
    · exact .inl (Option.some.inj hret).symm
    · split at hret
      · exact .inr ⟨curr, (Option.some.inj hret).symm⟩
      · exact ih hret

/-- The counters after a block is handed out, from the size it ends up with. -/
theorem takeBlock_stats (h : Heap) (x size : Word) :
    (takeBlock h x size).2.stats = h.stats.taken ((takeBlock h x size).2.header x).size := by
  -- cutting the block leaves the counters alone
  have hsplit : (splitBlock h x size).stats = h.stats := rfl
  unfold takeBlock KmallocStats.taken
  simp only [Heap.setHeader, Function.update_self]
  split
  · rw [hsplit]
  · rfl

/-- The counters after a block is taken back, when no clamp acts. -/
theorem releaseBlock_stats {x : Word} (h0 : h.stats.liveAllocations > 0)
    (hle : h.stats.bytesUsed ≥ (h.header x).size) :
    (releaseBlock h x).stats = h.stats.released (h.header x).size := by
  have hsize : (Function.update h.header x { h.header x with isFree := true } x).size
      = (h.header x).size := by
    rw [Function.update_self]
  have hlive : (releaseBlock h x).stats.liveAllocations = h.stats.liveAllocations - 1 := if_pos h0
  have hused : (releaseBlock h x).stats.bytesUsed = h.stats.bytesUsed - (h.header x).size := by
    rw [← hsize] at hle ⊢
    exact if_pos hle
  calc (releaseBlock h x).stats
      = { h.stats with
          freeCount := h.stats.freeCount + 1
          liveAllocations := (releaseBlock h x).stats.liveAllocations
          bytesUsed := (releaseBlock h x).stats.bytesUsed } := rfl
    _ = h.stats.released (h.header x).size := by rw [hlive, hused]; rfl

/-- The merge pass leaves the counters alone. -/
theorem mergeLoop_stats {fuel : Nat} {curr : Word} {h' : Heap}
    (hret : mergeLoop fuel h curr = some h') : h'.stats = h.stats := by
  induction fuel generalizing h curr with
  | zero => cases hret
  | succ fuel ih =>
    unfold mergeLoop at hret
    split at hret
    · rw [← Option.some.inj hret]
    · split at hret
      · dsimp only at hret
        rw [ih hret]
        rfl
      · exact ih hret

/-- **The walk of `kmalloc_get_stats`** adds the free payloads up and keeps
    the largest. -/
theorem statsLoop_tiles {bs : List Block} {fuel s l : Nat} (ha0 : 0 < a)
    (ht : Tiles h.header a bs) (hend : a + extent Block.len bs < 2 ^ 63)
    (hl : l < 2 ^ 63) (hfuel : bs.length < fuel) :
    statsLoop fuel h (BitVec.ofNat 64 s) (BitVec.ofNat 64 l) (blockPtr a bs)
      = some (BitVec.ofNat 64 (s + freeBytes bs), BitVec.ofNat 64 (max l (largestFree bs))) := by
  induction bs generalizing a fuel s l with
  | nil =>
    obtain ⟨fuel, rfl⟩ : ∃ k, fuel = k + 1 := ⟨fuel - 1, by simp at hfuel; omega⟩
    simp [statsLoop, blockPtr, freeBytes, largestFree]
  | cons b bs ih =>
    obtain ⟨fuel, rfl⟩ : ∃ k, fuel = k + 1 := ⟨fuel - 1, by omega⟩
    obtain ⟨hb, -, hrest⟩ := ht
    rw [extent_cons] at hend
    have hlen : b.len = 24 + b.size := rfl
    have hnext : ∀ s l : Nat, l < 2 ^ 63 → statsLoop fuel h (BitVec.ofNat 64 s) (BitVec.ofNat 64 l)
        (blockPtr (a + b.len) bs)
          = some (BitVec.ofNat 64 (s + freeBytes bs), BitVec.ofNat 64 (max l (largestFree bs))) :=
      fun s l hl => ih (by omega) hrest (by omega) hl (by simpa using hfuel)
    have hlargest : largestFree (b :: bs) = max b.unused (largestFree bs) := rfl
    rw [blockPtr, statsLoop, if_neg (ofNat_ne_zero ha0 (by omega)), hb, hlargest, freeBytes_cons]
    cases hf : b.free with
    | false =>
      have hun : b.unused = 0 := by simp [Block.unused, hf]
      show statsLoop fuel h _ _ _ = _
      rw [hnext s l hl, hun, Nat.zero_add, Nat.zero_max]
    | true =>
      have hun : b.unused = b.size := by simp [Block.unused, hf]
      have hgt : BitVec.ofNat 64 b.size > BitVec.ofNat 64 l ↔ l < b.size := by
        rw [gt_iff_lt, BitVec.lt_def, toNat_ofNat_of_lt (by omega), toNat_ofNat_of_lt (by omega)]
      have hif : (if BitVec.ofNat 64 b.size > BitVec.ofNat 64 l then BitVec.ofNat 64 b.size
          else BitVec.ofNat 64 l) = BitVec.ofNat 64 (max l b.size) := by
        by_cases hlt : l < b.size
        · rw [if_pos (hgt.mpr hlt), max_eq_right hlt.le]
        · rw [if_neg (fun hc => hlt (hgt.mp hc)), max_eq_left (by omega)]
      show statsLoop fuel h (BitVec.ofNat 64 s + BitVec.ofNat 64 b.size) (if _ then _ else _) _ = _
      rw [hif, ofNat_add_word, hnext _ _ (by omega), hun, Nat.add_assoc, max_assoc]

end Walks

/-! ## §5. The counters over runs. -/

/-- A call of the allocator. -/
inductive HeapRequest where
  | kmalloc (n : Word)
  | kfree (ptr : Word)
  | getStats (outStats : Word)
  deriving DecidableEq

/-- One call that returned: a request of any size, a free of `NULL` or of a
    live pointer, or a look at the counters. -/
inductive RequestStep : HeapSystem → HeapRequest → HeapSystem → Prop
  | kmalloc (s : HeapSystem) {fuel : Nat} {n ret : Word} {h' : Heap}
      (hret : kmalloc fuel s.heap n = some (ret, h')) :
      RequestStep s (.kmalloc n) ⟨h', liveKmalloc s.live ret n⟩
  | kfree (s : HeapSystem) {fuel : Nat} {ptr : Word} {h' : Heap}
      (hptr : ptr = 0 ∨ (s.live ptr).isSome) (hret : kfree fuel s.heap ptr = some h') :
      RequestStep s (.kfree ptr) ⟨h', liveKfree s.live ptr⟩
  | getStats (s : HeapSystem) {fuel : Nat} {outStats : Word} {out : Option KmallocStats} {h' : Heap}
      (hret : kmallocGetStats fuel s.heap outStats = some (out, h')) :
      RequestStep s (.getStats outStats) ⟨h', s.live⟩

/-- The counters against the block list. -/
structure HeapStats (stats : KmallocStats) (bs : List Block) : Prop where
  live_eq : stats.liveAllocations = stats.allocCount - stats.freeCount
  live : stats.liveAllocations.toNat = usedCount bs
  used : stats.bytesUsed.toNat = usedBytes bs
  peak : stats.bytesUsed ≤ stats.peakBytesUsed

/-- **The invariant**: the blocks tile the heap, every live pointer is the
    payload of a block in use, and the counters count the blocks. -/
structure HeapSystem.Counted (s : HeapSystem) (bs : List Block) : Prop where
  tiled : HeapTiled s.heap bs
  owned : ∀ p, (s.live p).isSome → ∃ x b, (x, b) ∈ place Block.len heapStart.toNat bs ∧
    b.free = false ∧ p = BitVec.ofNat 64 (x + 24)
  stats : HeapStats s.heap.stats bs

/-- The peak after a call is the larger of the peak before and the bytes in
    use now. -/
def PeakRaised (st st' : KmallocStats) : Prop :=
  st'.peakBytesUsed.toNat = max st.peakBytesUsed.toNat st'.bytesUsed.toNat

/-- Neither clamp of `kfree` acts on the block `a`. -/
def Unclamped (h : Heap) (a : Word) : Prop :=
  h.stats.liveAllocations > 0 ∧ h.stats.bytesUsed ≥ (h.header a).size

namespace HeapStats

variable {st : KmallocStats} {bs bs' : List Block}

/-- Handing out a block. -/
theorem take (hs : HeapStats st bs) {k : Nat} (hcount : usedCount bs' = usedCount bs + 1)
    (hbytes : usedBytes bs' = usedBytes bs + k) (hext : extent Block.len bs' = heapSize) :
    HeapStats (st.taken (BitVec.ofNat 64 k)) bs' ∧
      PeakRaised st (st.taken (BitVec.ofNat 64 k)) := by
  have hsize : heapSize = 0x1000000 := rfl
  have hle := usedCount_le bs'
  have hall := bytes_extent bs'
  have hlive := hs.live
  have hused := hs.used
  have hkn : (BitVec.ofNat 64 k).toNat = k := toNat_ofNat_of_lt (by omega)
  have hsum : (st.bytesUsed + BitVec.ofNat 64 k).toNat = usedBytes bs' := by
    rw [BitVec.toNat_add, hkn, hused, hbytes]
    exact Nat.mod_eq_of_lt (by omega)
  refine ⟨⟨?_, ?_, hsum, ?_⟩, ?_⟩
  · show st.liveAllocations + 1 = st.allocCount + 1 - st.freeCount
    rw [hs.live_eq]
    bv_omega
  · show (st.liveAllocations + 1).toNat = usedCount bs'
    rw [BitVec.toNat_add, hlive, hcount]
    exact Nat.mod_eq_of_lt (by simp; omega)
  · show st.bytesUsed + BitVec.ofNat 64 k ≤ if _ then _ else _
    split
    · exact BitVec.le_refl _
    · bv_omega
  · show (if _ then _ else _ : Word).toNat = max _ (st.bytesUsed + BitVec.ofNat 64 k).toNat
    split
    · rename_i hgt
      exact (max_eq_right (by bv_omega)).symm
    · exact (max_eq_left (by bv_omega)).symm

/-- Taking a block back. -/
theorem release (hs : HeapStats st bs) {k : Nat} (hcount : usedCount bs = usedCount bs' + 1)
    (hbytes : usedBytes bs = usedBytes bs' + k) (hk : k < 2 ^ 64) :
    HeapStats (st.released (BitVec.ofNat 64 k)) bs' ∧
      PeakRaised st (st.released (BitVec.ofNat 64 k)) ∧
      st.liveAllocations > 0 ∧ st.bytesUsed ≥ BitVec.ofNat 64 k := by
  have hkn : (BitVec.ofNat 64 k).toNat = k := toNat_ofNat_of_lt hk
  have hlive := hs.live
  have hused := hs.used
  have hpeak := hs.peak
  have hpos : st.liveAllocations > 0 := by bv_omega
  have hge : st.bytesUsed ≥ BitVec.ofNat 64 k := by bv_omega
  have hdiff : (st.bytesUsed - BitVec.ofNat 64 k).toNat = usedBytes bs' := by bv_omega
  refine ⟨⟨?_, ?_, hdiff, ?_⟩, ?_, hpos, hge⟩
  · show st.liveAllocations - 1 = st.allocCount - (st.freeCount + 1)
    rw [hs.live_eq]
    bv_omega
  · show (st.liveAllocations - 1).toNat = usedCount bs'
    bv_omega
  · show st.bytesUsed - BitVec.ofNat 64 k ≤ st.peakBytesUsed
    bv_omega
  · show st.peakBytesUsed.toNat = max _ (st.bytesUsed - BitVec.ofNat 64 k).toNat
    exact (max_eq_left (by bv_omega)).symm

/-- Counters that differ elsewhere only. -/
theorem of_eq (hs : HeapStats st bs) (st' : KmallocStats)
    (h₁ : st'.liveAllocations = st.liveAllocations) (h₂ : st'.allocCount = st.allocCount)
    (h₃ : st'.freeCount = st.freeCount) (h₄ : st'.bytesUsed = st.bytesUsed)
    (h₅ : st'.peakBytesUsed = st.peakBytesUsed) : HeapStats st' bs ∧ PeakRaised st st' := by
  refine ⟨⟨?_, ?_, ?_, ?_⟩, ?_⟩
  · rw [h₁, h₂, h₃]
    exact hs.live_eq
  · rw [h₁]
    exact hs.live
  · rw [h₄]
    exact hs.used
  · rw [h₄, h₅]
    exact hs.peak
  · unfold PeakRaised
    rw [h₄, h₅]
    exact (max_eq_left hs.peak).symm

end HeapStats

namespace HeapSystem.Counted

variable {s s' : HeapSystem} {bs : List Block}

/-- A request of any size. -/
theorem kmalloc (hC : s.Counted bs) {fuel : Nat} {n ret : Word} {h' : Heap}
    (hret : ZohoOs.kmalloc fuel s.heap n = some (ret, h')) :
    ∃ bs', HeapSystem.Counted ⟨h', liveKmalloc s.live ret n⟩ bs' ∧
      PeakRaised s.heap.stats h'.stats := by
  have hmono : ∀ k, ZohoOs.kmalloc (fuel + k) s.heap n = some (ret, h') :=
    fun k => kmallocLoop_mono hret (Nat.le_add_right _ _)
  cases hfit : firstFit (alignSize n).toNat heapStart.toNat bs with
  | none =>
    have hnone : ZohoOs.kmalloc (fuel + (bs.length + 1)) s.heap n = some (0, _) :=
      hC.tiled.kmalloc_refused (by omega) hfit
    rw [hmono] at hnone
    obtain ⟨rfl, rfl⟩ := Prod.mk.inj (Option.some.inj hnone)
    obtain ⟨hst, hpeak⟩ := hC.stats.of_eq ({ s.heap.stats with
      failedAllocations := s.heap.stats.failedAllocations + 1 } : KmallocStats) rfl rfl rfl rfl rfl
    exact ⟨bs, ⟨⟨hC.tiled.head, hC.tiled.tiles, hC.tiled.covers⟩, hC.owned, hst⟩, hpeak⟩
  | some r =>
    obtain ⟨x, bs'⟩ := r
    obtain ⟨h₁, ht', hall⟩ := hC.tiled.kmalloc_served hfit
    have hsome := hall (fuel + (bs.length + 1)) (by omega)
    rw [hmono] at hsome
    obtain ⟨hr, rfl⟩ := Prod.mk.inj (Option.some.inj hsome)
    obtain ⟨b, hbfree, hbmem, hcount, hbytes⟩ := used_firstFit hfit
    have hpay := ht'.toNat_payload hbmem
    have hr0 : ret ≠ 0 := by
      intro h0
      rw [← hr, h0] at hpay
      simp at hpay
    -- the block counted is the block handed out
    have hstats : h'.stats = s.heap.stats.taken (BitVec.ofNat 64 b.size) := by
      rcases kmallocLoop_cases hret with h | ⟨y, h⟩
      · exact absurd (congrArg Prod.fst h) hr0
      · have hy : y + headerSize = BitVec.ofNat 64 x + headerSize := by
          rw [show BitVec.ofNat 64 x + headerSize = BitVec.ofNat 64 (x + 24) from ofNat_add_word x,
            ← hr]
          exact (congrArg Prod.fst h).symm
        obtain rfl : y = BitVec.ofNat 64 x := by bv_omega
        have hh : h' = (takeBlock s.heap (BitVec.ofNat 64 x) (alignSize n)).2 := congrArg Prod.snd h
        rw [hh, takeBlock_stats, ← hh, (ht'.tiles.header_of_mem hbmem).1]
    obtain ⟨hst, hpeak⟩ := hC.stats.take hcount hbytes ht'.covers
    rw [hstats]
    refine ⟨bs', ⟨ht', fun p hp => ?_, by rw [hstats]; exact hst⟩, hpeak⟩
    simp only [liveKmalloc, if_neg hr0] at hp
    by_cases hpr : p = ret
    · exact ⟨x, b, hbmem, hbfree, hpr.trans hr⟩
    · rw [Function.update_of_ne hpr] at hp
      obtain ⟨y, c, hmem, hc, hpy⟩ := hC.owned p hp
      exact ⟨y, c, keepsAllocated_firstFit hfit y c hc hmem, hc, hpy⟩

/-- A live pointer is the payload of a block in use. -/
theorem exists_block (hC : s.Counted bs) {ptr : Word} (hptr : (s.live ptr).isSome) :
    ∃ pre b post, bs = pre ++ b :: post ∧ b.free = false ∧
      ptr = BitVec.ofNat 64 (heapStart.toNat + extent Block.len pre + 24) := by
  obtain ⟨x, b, hmem, hb, hpx⟩ := hC.owned ptr hptr
  obtain ⟨pre, post, hbs, hx⟩ := mem_place_iff.mp hmem
  exact ⟨pre, b, post, hbs, hb, by rw [hpx, hx]⟩

/-- **No clamp acts on a live pointer.** -/
theorem unclamped (hC : s.Counted bs) {ptr : Word} (hptr : (s.live ptr).isSome) :
    Unclamped s.heap (ptr - headerSize) := by
  obtain ⟨pre, b, post, rfl, hb, rfl⟩ := hC.exists_block hptr
  have hmem : (heapStart.toNat + extent Block.len pre, b)
      ∈ place Block.len heapStart.toNat (pre ++ b :: post) := mem_place_iff.mpr ⟨pre, post, rfl, rfl⟩
  obtain ⟨hcount, hbytes⟩ := used_setFree pre post hb
  have hbound := hC.tiled.mem_bounds hmem
  have hsmall : heapStart.toNat + heapSize < 2 ^ 64 := by decide
  obtain ⟨-, -, h0, hle⟩ := hC.stats.release hcount hbytes (by omega)
  rw [sub_headerSize, Unclamped, (hC.tiled.tiles.header_of_mem hmem).1]
  exact ⟨h0, hle⟩

/-- A free of `NULL` or of a live pointer. -/
theorem kfree (hC : s.Counted bs) {fuel : Nat} {ptr : Word} {h' : Heap}
    (hptr : ptr = 0 ∨ (s.live ptr).isSome) (hret : ZohoOs.kfree fuel s.heap ptr = some h') :
    ∃ bs', HeapSystem.Counted ⟨h', liveKfree s.live ptr⟩ bs' ∧
      PeakRaised s.heap.stats h'.stats := by
  by_cases h0 : ptr = 0
  · rw [ZohoOs.kfree, if_pos h0] at hret
    obtain rfl := Option.some.inj hret
    refine ⟨bs, ⟨hC.tiled, fun p hp => hC.owned p ?_, hC.stats⟩,
      (hC.stats.of_eq _ rfl rfl rfl rfl rfl).2⟩
    simp only [liveKfree] at hp
    by_cases hpp : p = ptr
    · rw [hpp, Function.update_self] at hp
      cases hp
    · rwa [Function.update_of_ne hpp] at hp
  · have hlive := hptr.resolve_left h0
    obtain ⟨hpos, hle⟩ := hC.unclamped hlive
    obtain ⟨pre, b, post, rfl, hb, rfl⟩ := hC.exists_block hlive
    set x := heapStart.toNat + extent Block.len pre with hx
    have hmem : (x, b) ∈ place Block.len heapStart.toNat (pre ++ b :: post) :=
      mem_place_iff.mpr ⟨pre, post, rfl, rfl⟩
    obtain ⟨hcount, hbytes⟩ := used_setFree pre post hb
    have hbound := hC.tiled.mem_bounds hmem
    have hsmall : heapStart.toNat + heapSize < 2 ^ 64 := by decide
    obtain ⟨hst, hpeak, -, -⟩ := hC.stats.release hcount hbytes (by omega)
    obtain ⟨hmcount, hmbytes⟩ := used_mergeAll (pre ++ ⟨b.size, true⟩ :: post)
    obtain ⟨hsize, hflag, -⟩ := hC.tiled.tiles.header_of_mem hmem
    -- the size subtracted is the one the block was counted with
    have hstats : h'.stats = s.heap.stats.released (BitVec.ofNat 64 b.size) := by
      rw [ZohoOs.kfree, if_neg h0, sub_headerSize, hflag, hb, if_neg (by simp)] at hret
      rw [sub_headerSize] at hle
      rw [mergeLoop_stats hret, releaseBlock_stats hpos hle, hsize]
    obtain ⟨h₁, ht', hall⟩ := hC.tiled.kfree_block hb
    have hmono : ZohoOs.kfree (fuel + ((pre ++ b :: post).length + 1)) s.heap
        (BitVec.ofNat 64 (x + 24)) = some h' := kfree_mono hret (Nat.le_add_right _ _)
    rw [hall _ (by omega)] at hmono
    obtain rfl := Option.some.inj hmono
    rw [hstats]
    refine ⟨_, ⟨ht', fun p hp => ?_, ?_⟩, hpeak⟩
    · simp only [liveKfree] at hp
      by_cases hpp : p = BitVec.ofNat 64 (x + 24)
      · rw [hpp, Function.update_self] at hp
        cases hp
      · rw [Function.update_of_ne hpp] at hp
        obtain ⟨y, c, hmem', hc, hpy⟩ := hC.owned p hp
        have hyx : y ≠ x := fun he => hpp (by rw [hpy, he])
        refine ⟨y, c, ?_, hc, hpy⟩
        have hfreed := place_setFree hmem' hyx
        cases hl : pre ++ ⟨b.size, true⟩ :: post with
        | nil => simp at hl
        | cons d rest =>
          rw [hl] at hfreed
          exact keepsAllocated_mergeBlocks d rest y c hc hfreed
    · rw [hstats]
      exact ⟨hst.live_eq, hst.live.trans hmcount.symm, hst.used.trans hmbytes.symm, hst.peak⟩

/-- What `kmalloc_get_stats` stores. -/
theorem getStats_some (hC : s.Counted bs) {outStats : Word} (hout : outStats ≠ 0) :
    ∃ out, (∀ fuel, bs.length < fuel →
        kmallocGetStats fuel s.heap outStats = some (some out, { s.heap with stats := out })) ∧
      out = { s.heap.stats with
        bytesFree := BitVec.ofNat 64 (freeBytes bs)
        largestFreeBlock := BitVec.ofNat 64 (largestFree bs) } := by
  refine ⟨_, fun fuel hfuel => ?_, rfl⟩
  have hloop := statsLoop_tiles (h := s.heap) (a := heapStart.toNat) (s := 0) (l := 0) (by decide)
    hC.tiled.tiles hC.tiled.bound (by decide) hfuel
  rw [Nat.zero_add, Nat.zero_max, ← hC.tiled.blockPtr_eq] at hloop
  have hstart : statsLoop fuel s.heap 0 0 s.heap.freeListHead = _ := hloop
  rw [kmallocGetStats, if_neg hout, hstart]
  rfl

/-- A look at the counters. -/
theorem getStats (hC : s.Counted bs) {fuel : Nat} {outStats : Word} {out : Option KmallocStats}
    {h' : Heap} (hret : kmallocGetStats fuel s.heap outStats = some (out, h')) :
    HeapSystem.Counted ⟨h', s.live⟩ bs ∧ PeakRaised s.heap.stats h'.stats := by
  unfold kmallocGetStats at hret
  split at hret
  · obtain ⟨-, rfl⟩ := Prod.mk.inj (Option.some.inj hret)
    exact ⟨hC, (hC.stats.of_eq _ rfl rfl rfl rfl rfl).2⟩
  · obtain ⟨r, -, hr⟩ := Option.map_eq_some_iff.mp hret
    obtain ⟨-, rfl⟩ := Prod.mk.inj hr
    obtain ⟨hst, hpeak⟩ := hC.stats.of_eq ({ s.heap.stats with
      bytesFree := r.1, largestFreeBlock := r.2 } : KmallocStats) rfl rfl rfl rfl rfl
    exact ⟨⟨⟨hC.tiled.head, hC.tiled.tiles, hC.tiled.covers⟩, hC.owned, hst⟩, hpeak⟩

/-- **Every call keeps the counters exact.** -/
theorem step (hC : s.Counted bs) {c : HeapRequest} (hs : RequestStep s c s') :
    ∃ bs', s'.Counted bs' ∧ PeakRaised s.heap.stats s'.heap.stats := by
  cases hs with
  | kmalloc hret => exact hC.kmalloc hret
  | kfree hptr hret => exact hC.kfree hptr hret
  | getStats hret => exact ⟨bs, hC.getStats hret⟩

end HeapSystem.Counted

theorem bootHeap_counted (p : Pmm) (header : Word → KmallocHeader) :
    (bootHeap p header).Counted [⟨heapSize - 24, true⟩] := by
  have hzero : (0 : Word) = 0 - 0 := by decide
  refine ⟨heapInit_tiled header, fun q hq => ?_, ⟨hzero, rfl, rfl, BitVec.le_refl _⟩⟩
  cases hq

/-- What the counters of a heap say about its blocks. -/
structure StatsExact (s : HeapSystem) (bs : List Block) : Prop where
  tiled : HeapTiled s.heap bs
  live_eq : s.heap.stats.liveAllocations = s.heap.stats.allocCount - s.heap.stats.freeCount
  live : s.heap.stats.liveAllocations.toNat = usedCount bs
  used : s.heap.stats.bytesUsed.toNat = usedBytes bs
  /-- `kfree` of a live pointer subtracts without clamping. -/
  unclamped : ∀ ptr, (s.live ptr).isSome → Unclamped s.heap (ptr - headerSize)
  /-- `kmalloc_get_stats` stores the counters, with free bytes that make the
      heap up. -/
  reported : ∀ outStats ≠ 0, ∃ out h', (∀ fuel, bs.length < fuel →
      kmallocGetStats fuel s.heap outStats = some (some out, h')) ∧
    out = { s.heap.stats with bytesFree := out.bytesFree, largestFreeBlock := out.largestFreeBlock } ∧
    out.largestFreeBlock.toNat = largestFree bs ∧
    out.bytesUsed.toNat + out.bytesFree.toNat + 24 * bs.length = heapSize

theorem largestFree_le (bs : List Block) : largestFree bs ≤ freeBytes bs := by
  induction bs with
  | nil => exact Nat.le_refl 0
  | cons b bs ih =>
    have hcons : largestFree (b :: bs) = max b.unused (largestFree bs) := rfl
    rw [hcons, freeBytes_cons]
    omega

theorem HeapSystem.Counted.exact {s : HeapSystem} {bs : List Block} (hC : s.Counted bs) :
    StatsExact s bs := by
  refine ⟨hC.tiled, hC.stats.live_eq, hC.stats.live, hC.stats.used, fun ptr hp => hC.unclamped hp,
    fun outStats hout => ?_⟩
  obtain ⟨out, hret, rfl⟩ := hC.getStats_some hout
  have hall := bytes_extent bs
  rw [hC.tiled.covers] at hall
  have hsize : heapSize = 0x1000000 := rfl
  have hlargest := largestFree_le bs
  refine ⟨_, _, hret, rfl, toNat_ofNat_of_lt (by omega), ?_⟩
  show s.heap.stats.bytesUsed.toNat + (BitVec.ofNat 64 (freeBytes bs)).toNat + _ = heapSize
  rw [hC.stats.used, toNat_ofNat_of_lt (by omega), hall]

/-- **The heap counters are exact.**  In every state reached from
    `kmalloc_init` by requests of any size, frees of `NULL` or live pointers
    and looks at the counters, they count the blocks in use and their bytes,
    and the peak is the largest value `bytes_used` had on the way. -/
theorem heap_stats_exact {p : Pmm} {header : Word → KmallocHeader}
    {tr : List (Transition HeapSystem HeapRequest)} {s : HeapSystem}
    (hrun : Run RequestStep (bootHeap p header) tr s) :
    (∃ bs, StatsExact s bs) ∧
      IsGreatest {n | ∃ u ∈ Run.visited (bootHeap p header) tr, u.heap.stats.bytesUsed.toNat = n}
        s.heap.stats.peakBytesUsed.toNat := by
  have hstep : ∀ s a s', (∃ bs, HeapSystem.Counted s bs) → RequestStep s a s' →
      ∃ bs, HeapSystem.Counted s' bs := by
    intro s a s' hC hs
    obtain ⟨bs, hC⟩ := hC
    obtain ⟨bs', hC', -⟩ := hC.step hs
    exact ⟨bs', hC'⟩
  have hboot : ∃ bs, (bootHeap p header).Counted bs := ⟨_, bootHeap_counted p header⟩
  constructor
  · obtain ⟨bs, hC⟩ := hrun.invariant' hstep hboot
    exact ⟨bs, hC.exact⟩
  · refine hrun.running_max (f := fun u => u.heap.stats.bytesUsed.toNat)
      (p := fun u => u.heap.stats.peakBytesUsed.toNat) hstep (fun s a s' hC hs => ?_) hboot rfl
    obtain ⟨bs, hC⟩ := hC
    obtain ⟨-, -, hpeak⟩ := hC.step hs
    exact hpeak

/-- One request of 10 bytes on the fresh heap. -/
theorem heap_stats_exact_once :
    ∃ h', kmalloc 2 (heapInit fun _ => ⟨0, false, 0⟩) 10 = some (0x1000018, h') ∧
      ∃ bs, StatsExact ⟨h', liveKmalloc (fun _ => none) 0x1000018 10⟩ bs := by
  have hret : kmalloc 2 (heapInit fun _ => ⟨0, false, 0⟩) 10 = some (0x1000018, _) := rfl
  have hrun : Run RequestStep (bootHeap ⟨fun _ => true, [], fun _ => 0, 0, 0⟩ fun _ => ⟨0, false, 0⟩)
      ([] ++ [(_, .kmalloc 10, _)]) _ :=
    (Run.nil _).snoc (RequestStep.kmalloc _ hret)
  exact ⟨_, hret, (heap_stats_exact hrun).1⟩

end ZohoOs
