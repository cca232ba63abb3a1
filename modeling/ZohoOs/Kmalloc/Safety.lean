/-
  ZohoOs.Kmalloc.Safety — the kernel heap over whole runs of kmalloc and kfree.

  The blocks tile the heap after every call, an allocated block stays where it
  is until it is freed, and so the byte ranges handed out are apart from each
  other and from every header.
-/
import ZohoOs.Lib.Transition
import ZohoOs.Kmalloc.Tiling

namespace ZohoOs

open ZohoOs.Lib

/-! ## §1. Allocated blocks stay in place. -/

/-- Every allocated block of `bs` is still an allocated block of `bs'`, at the
    same address. -/
def KeepsAllocated (a : Nat) (bs bs' : List Block) : Prop :=
  ∀ x b, b.free = false → (x, b) ∈ place Block.len a bs → (x, b) ∈ place Block.len a bs'

theorem keepsAllocated_mergeBlocks {a : Nat} (b : Block) (bs : List Block) :
    KeepsAllocated a (b :: bs) (mergeBlocks b bs) := by
  induction bs generalizing a b with
  | nil => exact fun _ _ _ h => h
  | cons c bs ih =>
    intro x d hd hmem
    unfold mergeBlocks
    rw [place_cons] at hmem
    split
    · rename_i hfree
      -- neither of the two merged blocks is `d`
      refine ih _ x d hd ?_
      rw [place_cons] at hmem ⊢
      rcases List.mem_cons.mp hmem with h | h
      · injection h with _ hb
        rw [hb, hfree.1] at hd
        cases hd
      · rcases List.mem_cons.mp h with h | h
        · injection h with _ hc
          rw [hc, hfree.2] at hd
          cases hd
        · have hlen : a + Block.len ⟨b.size + (c.size + 24), true⟩ = a + b.len + c.len := by
            simp only [Block.len]; omega
          rw [hlen]
          exact List.mem_cons_of_mem _ h
    · rw [place_cons]
      rcases List.mem_cons.mp hmem with h | h
      · rw [h]; exact List.mem_cons_self
      · exact List.mem_cons_of_mem _ (ih c x d hd h)

theorem keepsAllocated_firstFit {n a x : Nat} {bs bs' : List Block}
    (h : firstFit n a bs = some (x, bs')) : KeepsAllocated a bs bs' := by
  obtain ⟨pre, b, post, rfl, hfit, -, -, rfl⟩ := firstFit_eq_some h
  intro y d hd hmem
  rw [place_append, List.mem_append] at hmem ⊢
  rcases hmem with hmem | hmem
  · exact .inl hmem
  · right
    rw [place_cons] at hmem
    rw [place_append, extent_splitItem]
    rcases List.mem_cons.mp hmem with hmem | hmem
    · injection hmem with _ hb
      rw [hb, hfit.1] at hd
      cases hd
    · exact List.mem_append_right _ hmem

/-- Freeing the block `b` keeps every other allocated block. -/
theorem place_setFree {a x : Nat} {pre post : List Block} {b c : Block}
    (hc : (x, c) ∈ place Block.len a (pre ++ b :: post)) (hx : x ≠ a + extent Block.len pre) :
    (x, c) ∈ place Block.len a (pre ++ ⟨b.size, true⟩ :: post) := by
  rw [place_append, List.mem_append, place_cons, List.mem_cons] at hc ⊢
  rcases hc with hc | hc | hc
  · exact .inl hc
  · injection hc with hxa
    exact absurd hxa hx
  · exact .inr (.inr hc)

/-- Marking a block free in its header marks it free in the list. -/
theorem Tiles.setFree {header : Word → KmallocHeader} {a : Nat} {pre post : List Block} {b : Block}
    (h : Tiles header a (pre ++ b :: post))
    (hend : a + extent Block.len (pre ++ b :: post) < 2 ^ 64) :
    Tiles (Function.update header (BitVec.ofNat 64 (a + extent Block.len pre))
      { header (BitVec.ofNat 64 (a + extent Block.len pre)) with isFree := true })
      a (pre ++ ⟨b.size, true⟩ :: post) := by
  have hlenb : b.len = 24 + b.size := rfl
  induction pre generalizing a with
  | nil =>
    obtain ⟨hb, h8, hrest⟩ := h
    rw [List.nil_append, extent_cons] at hend
    have ha : (BitVec.ofNat 64 a).toNat = a := toNat_ofNat_of_lt (by omega)
    refine ⟨by simp [hb, Block.len], h8, hrest.congr (by omega) fun x hx => ?_⟩
    have hxa : x ≠ BitVec.ofNat 64 a := fun he => by rw [he, ha] at hx; omega
    exact Function.update_of_ne hxa _ _
  | cons c pre ih =>
    rw [List.cons_append] at h ⊢
    obtain ⟨hc, h8, hrest⟩ := h
    rw [List.cons_append, extent_cons] at hend
    have hpos := c.len_pos
    have hin : extent Block.len (pre ++ b :: post)
        = extent Block.len pre + (b.len + extent Block.len post) := by
      rw [extent_append, extent_cons]
    have hsum : a + extent Block.len (c :: pre) = a + c.len + extent Block.len pre := by
      rw [extent_cons]; omega
    have ha : (BitVec.ofNat 64 a).toNat = a := toNat_ofNat_of_lt (by omega)
    have hx : (BitVec.ofNat 64 (a + c.len + extent Block.len pre)).toNat
        = a + c.len + extent Block.len pre := toNat_ofNat_of_lt (by omega)
    have hne : BitVec.ofNat 64 a ≠ BitVec.ofNat 64 (a + c.len + extent Block.len pre) := fun he => by
      have := congrArg BitVec.toNat he
      rw [ha, hx] at this
      omega
    rw [hsum]
    refine ⟨?_, h8, ih hrest (by omega)⟩
    rw [Function.update_of_ne hne, hc,
      blockPtr_of_ne_nil (show pre ++ b :: post ≠ [] by simp)
        (show pre ++ ⟨b.size, true⟩ :: post ≠ [] by simp)]

/-- What first fit hands out is an allocated block of the new list, of at
    least the size asked for, where no allocated block was. -/
theorem firstFit_block {n a x : Nat} {bs bs' : List Block} (h : firstFit n a bs = some (x, bs')) :
    (∃ b, b.free = false ∧ n ≤ b.size ∧ (x, b) ∈ place Block.len a bs') ∧
      ∀ b, (x, b) ∈ place Block.len a bs → b.free = true := by
  obtain ⟨pre, c, post, rfl, hfit, -, rfl, rfl⟩ := firstFit_eq_some h
  have hold : (a + extent Block.len pre, c) ∈ place Block.len a (pre ++ c :: post) :=
    mem_place_iff.mpr ⟨pre, post, rfl, rfl⟩
  refine ⟨?_, fun b hb => ?_⟩
  · unfold splitItem
    split
    · exact ⟨⟨n, false⟩, rfl, Nat.le_refl n, mem_place_iff.mpr ⟨pre, _, rfl, rfl⟩⟩
    · exact ⟨⟨c.size, false⟩, rfl, hfit.2, mem_place_iff.mpr ⟨pre, _, rfl, rfl⟩⟩
  · rw [place_inj Block.len_pos hb hold]
    exact hfit.1

/-! ## §2. The heap as a tiling, call by call. -/

/-- The list from `free_list_head` on tiles the heap with the blocks `bs`. -/
structure HeapTiled (h : Heap) (bs : List Block) : Prop where
  head : h.freeListHead = heapStart
  tiles : Tiles h.header heapStart.toNat bs
  covers : extent Block.len bs = heapSize

theorem heapInit_tiled (header : Word → KmallocHeader) :
    HeapTiled (heapInit header) [⟨heapSize - 24, true⟩] := by
  refine ⟨rfl, ⟨?_, by decide, trivial⟩, by decide⟩
  show Function.update header heapStart _ heapStart = _
  rw [Function.update_self]
  rfl

/-- `n` rounded up to a multiple of 8. -/
def roundUp8 (n : Nat) : Nat := (n + 7) / 8 * 8

theorem toNat_alignSize {n : Word} (hn : n.toNat ≤ 2 ^ 64 - 8) :
    (alignSize n).toNat = roundUp8 n.toNat := by
  have hmask : (7 : Word) = Word.lowMask 3 := rfl
  have hadd : (n + 7).toNat = n.toNat + 7 := by
    rw [BitVec.toNat_add]
    exact Nat.mod_eq_of_lt (by simp; omega)
  rw [alignSize, hmask, Word.toNat_and_not_lowMask _ (by decide), ← hmask, hadd]
  rfl

theorem alignSize_mod_eight (n : Word) : (alignSize n).toNat % 8 = 0 := by
  rw [alignSize, show (7 : Word) = Word.lowMask 3 from rfl,
    Word.toNat_and_not_lowMask _ (by decide)]
  exact Nat.mul_mod_left _ _

namespace HeapTiled

variable {h : Heap} {bs : List Block}

theorem ne_nil (ht : HeapTiled h bs) : bs ≠ [] := by
  rintro rfl
  have := ht.covers
  simp [heapSize] at this

theorem bound (ht : HeapTiled h bs) : heapStart.toNat + extent Block.len bs < 2 ^ 63 := by
  rw [ht.covers]; decide

theorem blockPtr_eq (ht : HeapTiled h bs) :
    h.freeListHead = blockPtr heapStart.toNat bs := by
  have : blockPtr heapStart.toNat (bs ++ []) = BitVec.ofNat 64 heapStart.toNat :=
    blockPtr_append ht.ne_nil []
  rw [List.append_nil] at this
  rw [ht.head, this]
  rfl

/-- A placed block lies inside the heap and starts at a multiple of 8. -/
theorem mem_bounds (ht : HeapTiled h bs) {x : Nat} {b : Block}
    (hmem : (x, b) ∈ place Block.len heapStart.toNat bs) :
    heapStart.toNat ≤ x ∧ x + 24 + b.size ≤ heapStart.toNat + heapSize := by
  have := place_bounds hmem
  rw [ht.covers] at this
  unfold Block.len at this
  omega

theorem toNat_payload (ht : HeapTiled h bs) {x : Nat} {b : Block}
    (hmem : (x, b) ∈ place Block.len heapStart.toNat bs) :
    (BitVec.ofNat 64 (x + 24)).toNat = x + 24 := by
  have := ht.mem_bounds hmem
  have : heapStart.toNat + heapSize < 2 ^ 64 := by decide
  exact toNat_ofNat_of_lt (by omega)

/-- `kmalloc` when nothing fits the request as the code rounds it. -/
theorem kmalloc_refused (ht : HeapTiled h bs) {n : Word} {fuel : Nat} (hfuel : bs.length < fuel)
    (hnone : firstFit (alignSize n).toNat heapStart.toNat bs = none) :
    kmalloc fuel h n = some (0, { h with stats := { h.stats with
      failedAllocations := h.stats.failedAllocations + 1 } }) := by
  have hloop := kmallocLoop_none (h := h) (alignSize n) (by decide) ht.tiles ht.bound hfuel hnone
  rw [← ht.blockPtr_eq] at hloop
  exact hloop

/-- `kmalloc` when first fit finds a block for it. -/
theorem kmalloc_served (ht : HeapTiled h bs) {n : Word} {x : Nat} {bs' : List Block}
    (hfit : firstFit (alignSize n).toNat heapStart.toNat bs = some (x, bs')) :
    ∃ h', HeapTiled h' bs' ∧
      ∀ fuel, bs.length < fuel → kmalloc fuel h n = some (BitVec.ofNat 64 (x + 24), h') := by
  have hloop := fun fuel (hfuel : bs.length < fuel) =>
    kmallocLoop_tiles (h := h) (a := heapStart.toNat) (alignSize n) (by decide) ht.tiles ht.bound
      hfuel (alignSize_mod_eight n) hfit
  obtain ⟨h', hret, hhead, htiles, -⟩ := hloop (bs.length + 1) (Nat.lt_succ_self _)
  refine ⟨h', ⟨by rw [hhead, ht.head], htiles, by rw [extent_firstFit hfit, ht.covers]⟩, ?_⟩
  intro fuel hfuel
  rw [kmalloc, ht.blockPtr_eq, kmallocLoop_mono hret (by omega)]

/-- `kmalloc` when nothing fits. -/
theorem kmalloc_none (ht : HeapTiled h bs) {n : Word} (hn : n.toNat ≤ 2 ^ 64 - 8) {fuel : Nat}
    (hfuel : bs.length < fuel) (hnone : firstFit (roundUp8 n.toNat) heapStart.toNat bs = none) :
    kmalloc fuel h n = some (0, { h with stats := { h.stats with
      failedAllocations := h.stats.failedAllocations + 1 } }) := by
  rw [← toNat_alignSize hn] at hnone
  exact ht.kmalloc_refused hfuel hnone

/-- `kmalloc` when first fit finds a block. -/
theorem kmalloc_some (ht : HeapTiled h bs) {n : Word} (hn : n.toNat ≤ 2 ^ 64 - 8)
    {x : Nat} {bs' : List Block}
    (hfit : firstFit (roundUp8 n.toNat) heapStart.toNat bs = some (x, bs')) :
    ∃ h', HeapTiled h' bs' ∧
      ∀ fuel, bs.length < fuel → kmalloc fuel h n = some (BitVec.ofNat 64 (x + 24), h') := by
  rw [← toNat_alignSize hn] at hfit
  exact ht.kmalloc_served hfit

/-- What a `kmalloc` that returned has done: it failed, or it handed out what
    first fit finds for the request as the code rounds it. -/
theorem kmalloc_outcome (ht : HeapTiled h bs) {n : Word} {fuel : Nat} {ret : Word} {h' : Heap}
    (hret : kmalloc fuel h n = some (ret, h')) :
    (firstFit (alignSize n).toNat heapStart.toNat bs = none ∧ ret = 0 ∧ HeapTiled h' bs) ∨
    ∃ x bs', firstFit (alignSize n).toNat heapStart.toNat bs = some (x, bs') ∧
      ret = BitVec.ofNat 64 (x + 24) ∧ ret ≠ 0 ∧ HeapTiled h' bs' := by
  have hmono : kmalloc (fuel + (bs.length + 1)) h n = some (ret, h') :=
    kmallocLoop_mono hret (Nat.le_add_right _ _)
  cases hfit : firstFit (alignSize n).toNat heapStart.toNat bs with
  | none =>
    rw [ht.kmalloc_refused (by omega) hfit] at hmono
    obtain ⟨hr, rfl⟩ := Prod.mk.inj (Option.some.inj hmono)
    exact .inl ⟨rfl, hr.symm, ht.head, ht.tiles, ht.covers⟩
  | some r =>
    obtain ⟨x, bs'⟩ := r
    obtain ⟨h₁, ht', hall⟩ := ht.kmalloc_served hfit
    rw [hall _ (by omega)] at hmono
    obtain ⟨hr, rfl⟩ := Prod.mk.inj (Option.some.inj hmono)
    obtain ⟨⟨b, -, -, hbmem⟩, -⟩ := firstFit_block hfit
    have hbound := ht'.mem_bounds hbmem
    have hend : heapStart.toNat + heapSize < 2 ^ 64 := by decide
    refine .inr ⟨x, bs', rfl, hr.symm, ?_, ht'⟩
    rw [← hr]
    exact ofNat_ne_zero (by omega) (by omega)

/-- A `kmalloc` that did not return `NULL` handed out the first block that
    fits. -/
theorem kmalloc_first_fit (ht : HeapTiled h bs) {n : Word} (hn : n.toNat ≤ 2 ^ 64 - 8)
    {fuel : Nat} {ret : Word} {h' : Heap} (hret : kmalloc fuel h n = some (ret, h'))
    (h0 : ret ≠ 0) :
    ∃ x bs', firstFit (roundUp8 n.toNat) heapStart.toNat bs = some (x, bs') ∧ HeapTiled h' bs' ∧
      ret = BitVec.ofNat 64 (x + 24) ∧ heapStart.toNat ≤ x ∧
      x + 24 + roundUp8 n.toNat ≤ heapStart.toNat + heapSize := by
  have hmono : kmalloc (fuel + (bs.length + 1)) h n = some (ret, h') :=
    kmallocLoop_mono hret (Nat.le_add_right _ _)
  cases hfit : firstFit (roundUp8 n.toNat) heapStart.toNat bs with
  | none =>
    rw [ht.kmalloc_none hn (by omega) hfit] at hmono
    exact absurd (congrArg Prod.fst (Option.some.inj hmono)).symm h0
  | some r =>
    obtain ⟨x, bs'⟩ := r
    obtain ⟨h₁, ht', hall⟩ := ht.kmalloc_some hn hfit
    rw [hall _ (by omega)] at hmono
    obtain ⟨hr, rfl⟩ := Prod.mk.inj (Option.some.inj hmono)
    obtain ⟨⟨b, -, hsize, hmem⟩, -⟩ := firstFit_block hfit
    have hbounds := ht'.mem_bounds hmem
    exact ⟨x, bs', rfl, ht', hr.symm, hbounds.1, by omega⟩

/-- `kfree` of the payload of an allocated block. -/
theorem kfree_block {pre post : List Block} {b : Block} (ht : HeapTiled h (pre ++ b :: post))
    (hb : b.free = false) :
    ∃ h', HeapTiled h' (mergeAll (pre ++ ⟨b.size, true⟩ :: post)) ∧
      ∀ fuel, (pre ++ b :: post).length < fuel →
        kfree fuel h (BitVec.ofNat 64 (heapStart.toNat + extent Block.len pre + 24)) = some h' := by
  have hmem : (heapStart.toNat + extent Block.len pre, b)
      ∈ place Block.len heapStart.toNat (pre ++ b :: post) := mem_place_iff.mpr ⟨pre, post, rfl, rfl⟩
  have hext : extent Block.len (pre ++ ⟨b.size, true⟩ :: post) = heapSize := by
    have := ht.covers
    rw [extent_append, extent_cons] at this ⊢
    exact this
  set x := heapStart.toNat + extent Block.len pre with hx
  have hptr0 : BitVec.ofNat 64 (x + 24) ≠ 0 := by
    have := ht.mem_bounds hmem
    have : heapStart.toNat + heapSize < 2 ^ 64 := by decide
    exact ofNat_ne_zero (by omega) (by omega)
  have hflag : (h.header (BitVec.ofNat 64 x)).isFree = false := by
    rw [(ht.tiles.header_of_mem hmem).2.1, hb]
  have hfreed := ht.tiles.setFree (by have := ht.bound; omega)
  -- the merge pass starts at the head of the list with `b` marked free
  obtain ⟨c, rest, hrest⟩ : ∃ c rest, pre ++ ⟨b.size, true⟩ :: post = c :: rest :=
    List.exists_cons_of_ne_nil (by simp)
  rw [hrest] at hfreed hext
  have hlen : (pre ++ b :: post).length = rest.length + 1 := by
    have := congrArg List.length hrest
    simp only [List.length_append, List.length_cons] at this ⊢
    exact this
  have hloop := fun fuel (hfuel : rest.length < fuel) =>
    mergeLoop_tiles (h := releaseBlock h (BitVec.ofNat 64 x)) (a := heapStart.toNat) (by decide)
      hfreed (by rw [hext]; decide) hfuel
  obtain ⟨h', hret, hhead, htiles, -⟩ := hloop (rest.length + 1) (Nat.lt_succ_self _)
  rw [hrest]
  refine ⟨h', ⟨by rw [hhead]; exact ht.head, htiles, ?_⟩, fun fuel hfuel => ?_⟩
  · show extent Block.len (mergeBlocks c rest) = heapSize
    rw [extent_mergeBlocks, ← extent_cons, hext]
  have hstart : (releaseBlock h (BitVec.ofNat 64 x)).freeListHead
      = BitVec.ofNat 64 heapStart.toNat := ht.head
  rw [kfree, if_neg hptr0, sub_headerSize, hflag, if_neg (by simp)]
  show mergeLoop fuel _ (releaseBlock h (BitVec.ofNat 64 x)).freeListHead = _
  rw [hstart, mergeLoop_mono hret (by omega)]

end HeapTiled

/-! ## §3. Runs, with the live allocations as ghost state. -/

/-- The heap, and for every pointer handed out and not yet freed the number of
    bytes asked for. -/
structure HeapSystem where
  heap : Heap
  live : Word → Option Nat

inductive HeapCall where
  | kmalloc (n : Word)
  | kfree (ptr : Word)
  deriving DecidableEq

/-- The live allocations after `kmalloc` returned `ret`. -/
def liveKmalloc (live : Word → Option Nat) (ret n : Word) : Word → Option Nat :=
  if ret = 0 then live else Function.update live ret (some n.toNat)

def liveKfree (live : Word → Option Nat) (ptr : Word) : Word → Option Nat :=
  Function.update live ptr none

/-- One call that returned: any request up to `2 ^ 64 - 8`, a free of `NULL`
    or of a live pointer. -/
inductive HeapStep : HeapSystem → HeapCall → HeapSystem → Prop
  | kmalloc (s : HeapSystem) {fuel : Nat} {n ret : Word} {h' : Heap} (hn : n.toNat ≤ 2 ^ 64 - 8)
      (hret : kmalloc fuel s.heap n = some (ret, h')) :
      HeapStep s (.kmalloc n) ⟨h', liveKmalloc s.live ret n⟩
  | kfree (s : HeapSystem) {fuel : Nat} {ptr : Word} {h' : Heap}
      (hptr : ptr = 0 ∨ (s.live ptr).isSome) (hret : kfree fuel s.heap ptr = some h') :
      HeapStep s (.kfree ptr) ⟨h', liveKfree s.live ptr⟩

/-- The state after `kmalloc_init`. -/
def bootHeap (p : Pmm) (header : Word → KmallocHeader) : HeapSystem :=
  ⟨(kmallocInit p header).2, fun _ => none⟩

/-- The `m` bytes from `a` and the `n` bytes from `b` do not overlap. -/
def Apart (a m b n : Nat) : Prop := a + m ≤ b ∨ b + n ≤ a

/-- What the callers of `kmalloc` rely on. -/
structure HeapSafe (bs : List Block) (live : Word → Option Nat) : Prop where
  aligned : ∀ p n, live p = some n → p.toNat % 8 = 0
  inside : ∀ p n, live p = some n →
    heapStart.toNat ≤ p.toNat ∧ p.toNat + n ≤ heapStart.toNat + heapSize
  headers : ∀ p n, live p = some n → ∀ x b, (x, b) ∈ place Block.len heapStart.toNat bs →
    Apart p.toNat n x 24
  apart : ∀ p n q m, live p = some n → live q = some m → p ≠ q → Apart p.toNat n q.toNat m

/-- **The heap invariant**: the blocks tile the heap, and every live pointer is
    the payload of an allocated block large enough for the request. -/
structure HeapSystem.Inv (s : HeapSystem) (bs : List Block) : Prop where
  tiled : HeapTiled s.heap bs
  owned : ∀ p n, s.live p = some n → ∃ x b, (x, b) ∈ place Block.len heapStart.toNat bs ∧
    b.free = false ∧ p = BitVec.ofNat 64 (x + 24) ∧ n ≤ b.size

namespace HeapSystem.Inv

variable {s : HeapSystem} {bs : List Block}

theorem live_zero (hI : s.Inv bs) : s.live 0 = none := by
  cases hl : s.live 0 with
  | none => rfl
  | some n =>
    obtain ⟨x, b, hmem, -, hp, -⟩ := hI.owned 0 n hl
    have := congrArg BitVec.toNat hp
    rw [hI.tiled.toNat_payload hmem] at this
    simp at this

theorem le_roundUp8 (n : Nat) : n ≤ roundUp8 n := by
  unfold roundUp8; omega

/-- What a `kmalloc` that returned has done: it failed and changed no header,
    or it handed out what first fit finds. -/
theorem kmalloc_cases (hI : s.Inv bs) {fuel : Nat} {n ret : Word} {h' : Heap}
    (hn : n.toNat ≤ 2 ^ 64 - 8) (hret : kmalloc fuel s.heap n = some (ret, h')) :
    (ret = 0 ∧ HeapSystem.Inv ⟨h', s.live⟩ bs) ∨
    ∃ x bs', firstFit (roundUp8 n.toNat) heapStart.toNat bs = some (x, bs') ∧
      ret = BitVec.ofNat 64 (x + 24) ∧ ret ≠ 0 ∧
      HeapSystem.Inv ⟨h', liveKmalloc s.live ret n⟩ bs' := by
  have hmono : ∀ k, ZohoOs.kmalloc (fuel + k) s.heap n = some (ret, h') :=
    fun k => kmallocLoop_mono hret (Nat.le_add_right _ _)
  cases hfit : firstFit (roundUp8 n.toNat) heapStart.toNat bs with
  | none =>
    have hfuel : bs.length < fuel + (bs.length + 1) := by omega
    have hnone := hI.tiled.kmalloc_none hn hfuel hfit
    rw [hmono] at hnone
    injection hnone with hnone
    injection hnone with hr hh
    subst hr; subst hh
    exact .inl ⟨rfl, ⟨hI.tiled.head, hI.tiled.tiles, hI.tiled.covers⟩, hI.owned⟩
  | some r =>
    obtain ⟨x, bs'⟩ := r
    obtain ⟨h₁, ht', hall⟩ := hI.tiled.kmalloc_some hn hfit
    have hsome := hall (fuel + (bs.length + 1)) (by omega)
    rw [hmono] at hsome
    injection hsome with hsome
    injection hsome with hr hh
    subst hh
    obtain ⟨⟨b, hbfree, hbsize, hbmem⟩, -⟩ := firstFit_block hfit
    have hr0 : ret ≠ 0 := by
      have := ht'.mem_bounds hbmem
      have : heapStart.toNat + heapSize < 2 ^ 64 := by decide
      rw [hr]
      exact ofNat_ne_zero (by omega) (by omega)
    refine .inr ⟨x, bs', rfl, hr, hr0, ht', fun p m hp => ?_⟩
    simp only [liveKmalloc, if_neg hr0] at hp
    by_cases hpr : p = ret
    · subst hpr
      rw [Function.update_self] at hp
      injection hp with hp
      have := le_roundUp8 n.toNat
      exact ⟨x, b, hbmem, hbfree, hr, by omega⟩
    · rw [Function.update_of_ne hpr] at hp
      obtain ⟨y, c, hmem, hc, hpy, hm⟩ := hI.owned p m hp
      exact ⟨y, c, keepsAllocated_firstFit hfit y c hc hmem, hc, hpy, hm⟩

theorem kmalloc (hI : s.Inv bs) {fuel : Nat} {n ret : Word} {h' : Heap}
    (hn : n.toNat ≤ 2 ^ 64 - 8) (hret : kmalloc fuel s.heap n = some (ret, h')) :
    ∃ bs', HeapSystem.Inv ⟨h', liveKmalloc s.live ret n⟩ bs' := by
  rcases hI.kmalloc_cases hn hret with ⟨rfl, hI'⟩ | ⟨x, bs', -, -, -, hI'⟩
  · exact ⟨bs, hI'⟩
  · exact ⟨bs', hI'⟩

/-- A live pointer is the payload of an allocated block of the list. -/
theorem exists_block (hI : s.Inv bs) {ptr : Word} (hptr : (s.live ptr).isSome) :
    ∃ pre b post, bs = pre ++ b :: post ∧ b.free = false ∧
      ptr = BitVec.ofNat 64 (heapStart.toNat + extent Block.len pre + 24) := by
  obtain ⟨n, hn⟩ := Option.isSome_iff_exists.mp hptr
  obtain ⟨x, b, hmem, hbfree, hpx, -⟩ := hI.owned ptr n hn
  obtain ⟨pre, post, hbs, hx⟩ := mem_place_iff.mp hmem
  exact ⟨pre, b, post, hbs, hbfree, by rw [hpx, hx]⟩

/-- `kfree` of the payload of an allocated block marks it free and merges the
    list. -/
theorem kfree_cases {pre post : List Block} {b : Block} (hI : s.Inv (pre ++ b :: post))
    (hb : b.free = false) :
    ∃ h', (∀ fuel, (pre ++ b :: post).length < fuel → ZohoOs.kfree fuel s.heap
        (BitVec.ofNat 64 (heapStart.toNat + extent Block.len pre + 24)) = some h') ∧
      HeapSystem.Inv ⟨h', liveKfree s.live
        (BitVec.ofNat 64 (heapStart.toNat + extent Block.len pre + 24))⟩
        (mergeAll (pre ++ ⟨b.size, true⟩ :: post)) := by
  obtain ⟨h', ht', hret⟩ := hI.tiled.kfree_block hb
  refine ⟨h', hret, ht', fun p m hp => ?_⟩
  simp only [liveKfree] at hp
  by_cases hpp : p = BitVec.ofNat 64 (heapStart.toNat + extent Block.len pre + 24)
  · rw [hpp, Function.update_self] at hp
    cases hp
  · rw [Function.update_of_ne hpp] at hp
    obtain ⟨y, c, hmem', hc, hpy, hm⟩ := hI.owned p m hp
    have hyx : y ≠ heapStart.toNat + extent Block.len pre := fun he => hpp (by rw [hpy, he])
    refine ⟨y, c, ?_, hc, hpy, hm⟩
    have hfreed := place_setFree hmem' hyx
    cases hl : pre ++ ⟨b.size, true⟩ :: post with
    | nil => simp at hl
    | cons d rest =>
      rw [hl] at hfreed
      exact keepsAllocated_mergeBlocks d rest y c hc hfreed

/-- `kfree` of `NULL` or of a live pointer returns and keeps the invariant. -/
theorem kfree (hI : s.Inv bs) {ptr : Word} (hptr : ptr = 0 ∨ (s.live ptr).isSome) :
    ∃ h' bs', (∀ fuel, bs.length < fuel → kfree fuel s.heap ptr = some h') ∧
      HeapSystem.Inv ⟨h', liveKfree s.live ptr⟩ bs' := by
  by_cases h0 : ptr = 0
  · subst h0
    refine ⟨s.heap, bs, fun fuel _ => by rw [ZohoOs.kfree, if_pos rfl], hI.tiled, fun p n hp => ?_⟩
    simp only [liveKfree] at hp
    by_cases hp0 : p = 0
    · subst hp0; simp at hp
    · rw [Function.update_of_ne hp0] at hp
      exact hI.owned p n hp
  · obtain ⟨pre, b, post, rfl, hb, rfl⟩ := hI.exists_block (hptr.resolve_left h0)
    obtain ⟨h', hret, hI'⟩ := hI.kfree_cases hb
    exact ⟨h', _, hret, hI'⟩

theorem step (hI : s.Inv bs) {c : HeapCall} {s' : HeapSystem} (hs : HeapStep s c s') :
    ∃ bs', s'.Inv bs' := by
  cases hs with
  | kmalloc hn hret => exact hI.kmalloc hn hret
  | @kfree fuel ptr h' hptr hret =>
    obtain ⟨h₁, bs', hall, hI'⟩ := hI.kfree hptr
    have hmono : ZohoOs.kfree (fuel + (bs.length + 1)) s.heap ptr = some h' :=
      kfree_mono hret (Nat.le_add_right _ _)
    rw [hall _ (by omega)] at hmono
    injection hmono with heq
    subst heq
    exact ⟨bs', hI'⟩

/-- The byte ranges handed out are aligned, inside the heap, and apart from
    every header and from each other. -/
theorem safe (hI : s.Inv bs) : HeapSafe bs s.live := by
  refine ⟨fun p n hp => ?_, fun p n hp => ?_, fun p n hp y c hc => ?_, fun p n q m hp hq hne => ?_⟩
  all_goals obtain ⟨x, b, hmem, hbfree, hpx, hn⟩ := hI.owned p n hp
  all_goals have hpn : p.toNat = x + 24 := by rw [hpx]; exact hI.tiled.toNat_payload hmem
  · have := hI.tiled.tiles.mod_eight (by decide) hmem
    omega
  · have := hI.tiled.mem_bounds hmem
    omega
  · unfold Apart
    rcases place_disjoint hmem hc with ⟨rfl, rfl⟩ | h | h
    · omega
    · simp only [Block.len] at h; omega
    · simp only [Block.len] at h; omega
  · obtain ⟨y, c, hmemq, -, hqy, hm⟩ := hI.owned q m hq
    have hqm : q.toNat = y + 24 := by rw [hqy]; exact hI.tiled.toNat_payload hmemq
    unfold Apart
    rcases place_disjoint hmem hmemq with ⟨rfl, -⟩ | h | h
    · exact absurd (hpx.trans hqy.symm) hne
    · simp only [Block.len] at h; omega
    · simp only [Block.len] at h; omega

/-- What the next `kmalloc` does: it returns, fails exactly when no free block
    is large enough, and hands out a pointer that is not live. -/
theorem next_kmalloc (hI : s.Inv bs) {n : Word} (hn : n.toNat ≤ 2 ^ 64 - 8) :
    ∃ ret h', (∀ fuel, bs.length < fuel → ZohoOs.kmalloc fuel s.heap n = some (ret, h')) ∧
      (ret = 0 ↔ ∀ b ∈ bs, ¬ b.fits (roundUp8 n.toNat)) ∧
      (ret = 0 → h'.header = s.heap.header ∧ h'.freeListHead = s.heap.freeListHead) ∧
      s.live ret = none := by
  cases hfit : firstFit (roundUp8 n.toNat) heapStart.toNat bs with
  | none =>
    refine ⟨0, _, fun fuel hfuel => hI.tiled.kmalloc_none hn hfuel hfit, ?_, fun _ => ⟨rfl, rfl⟩,
      hI.live_zero⟩
    exact ⟨fun _ => firstFit_eq_none.mp hfit, fun _ => rfl⟩
  | some r =>
    obtain ⟨x, bs'⟩ := r
    obtain ⟨h', ht', hall⟩ := hI.tiled.kmalloc_some hn hfit
    obtain ⟨⟨b, -, -, hbmem⟩, hwas⟩ := firstFit_block hfit
    have hr0 : BitVec.ofNat 64 (x + 24) ≠ 0 := by
      have := ht'.mem_bounds hbmem
      have : heapStart.toNat + heapSize < 2 ^ 64 := by decide
      exact ofNat_ne_zero (by omega) (by omega)
    refine ⟨_, h', hall, ⟨fun h => absurd h hr0, fun h => ?_⟩, fun h => absurd h hr0, ?_⟩
    · rw [firstFit_eq_none.mpr h] at hfit
      cases hfit
    · cases hl : s.live (BitVec.ofNat 64 (x + 24)) with
      | none => rfl
      | some m =>
        -- a live pointer would sit on an allocated block, and `x` was free
        obtain ⟨y, c, hmem, hc, hpy, -⟩ := hI.owned _ m hl
        have hxy := congrArg BitVec.toNat hpy
        rw [hI.tiled.toNat_payload hmem, ht'.toNat_payload hbmem] at hxy
        obtain rfl : x = y := by omega
        rw [hwas c hmem] at hc
        cases hc

end HeapSystem.Inv

theorem bootHeap_inv (p : Pmm) (header : Word → KmallocHeader) :
    (bootHeap p header).Inv [⟨heapSize - 24, true⟩] := by
  refine ⟨heapInit_tiled header, fun q n hq => ?_⟩
  cases hq

/-- Every heap reached from `kmalloc_init` satisfies the invariant. -/
theorem HeapSystem.inv_of_run {p : Pmm} {header : Word → KmallocHeader}
    {tr : List (Transition HeapSystem HeapCall)} {s : HeapSystem}
    (hrun : Run HeapStep (bootHeap p header) tr s) : ∃ bs, s.Inv bs :=
  hrun.invariant' (I := fun s => ∃ bs, s.Inv bs) (fun _ _ _ ⟨_, hI⟩ hst => hI.step hst)
    ⟨_, bootHeap_inv p header⟩

/-- **The kernel heap is safe.**  In every state reached from `kmalloc_init` by
    requests of up to `2 ^ 64 - 8` bytes and frees of `NULL` or live pointers,
    the blocks tile the heap and the live ranges are aligned, inside the heap
    and apart from headers and from each other.  The next request returns, is
    refused exactly when no free block is large enough, and then changes no
    header; the next free returns. -/
theorem kernel_heap_safe {p : Pmm} {header : Word → KmallocHeader}
    {tr : List (Transition HeapSystem HeapCall)} {s : HeapSystem}
    (hrun : Run HeapStep (bootHeap p header) tr s) :
    ∃ bs, HeapTiled s.heap bs ∧ HeapSafe bs s.live ∧
      (∀ n : Word, n.toNat ≤ 2 ^ 64 - 8 → ∃ ret h',
        (∀ fuel, bs.length < fuel → kmalloc fuel s.heap n = some (ret, h')) ∧
        (ret = 0 ↔ ∀ b ∈ bs, ¬ b.fits (roundUp8 n.toNat)) ∧
        (ret = 0 → h'.header = s.heap.header ∧ h'.freeListHead = s.heap.freeListHead) ∧
        s.live ret = none) ∧
      ∀ ptr : Word, ptr = 0 ∨ (s.live ptr).isSome →
        ∃ h', ∀ fuel, bs.length < fuel → kfree fuel s.heap ptr = some h' := by
  obtain ⟨bs, hI⟩ := HeapSystem.inv_of_run hrun
  refine ⟨bs, hI.tiled, hI.safe, fun n hn => hI.next_kmalloc hn, fun ptr hptr => ?_⟩
  obtain ⟨h', -, hall, -⟩ := hI.kfree hptr
  exact ⟨h', hall⟩

/-- One request of 10 bytes on the fresh heap. -/
theorem kernel_heap_safe_once :
    ∃ h' bs, kmalloc 2 (heapInit fun _ => ⟨0, false, 0⟩) 10 = some (0x1000018, h') ∧
      HeapTiled h' bs ∧ HeapSafe bs (liveKmalloc (fun _ => none) 0x1000018 10) := by
  have hret : kmalloc 2 (heapInit fun _ => ⟨0, false, 0⟩) 10 = some (0x1000018, _) := rfl
  have hrun : Run HeapStep (bootHeap ⟨fun _ => true, [], fun _ => 0, 0, 0⟩ fun _ => ⟨0, false, 0⟩)
      ([] ++ [(_, .kmalloc 10, _)]) _ :=
    (Run.nil _).snoc (HeapStep.kmalloc _ (by decide) hret)
  obtain ⟨bs, ht, hsafe, -, -⟩ := kernel_heap_safe hrun
  exact ⟨_, bs, hret, ht, hsafe⟩

end ZohoOs
