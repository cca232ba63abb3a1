/-
  ZohoOs.Kmalloc.Basic — the kernel heap (kmalloc.c).

  The heap is a singly linked list of blocks, each a header followed by its
  payload.  A header is a C struct at an address; the model keeps the struct
  as a value and the heap as a map from addresses to headers, which is what
  the code's `struct kmalloc_header*` dereferences read and write.

  Both list walks of the source are unbounded; here they carry fuel, and
  `none` is a walk that has not ended.
-/
import ZohoOs.Pmm.Basic

namespace ZohoOs

open ZohoOs.Lib

/-! ## §1. The heap. -/

def heapStart : Word := 0x1000000
def heapSize : Nat := 0x1000000

/-- `sizeof(struct kmalloc_header)`: a `size_t`, a padded `int`, a pointer. -/
def headerSize : Word := 24

structure KmallocHeader where
  size : Word
  isFree : Bool
  next : Word
  deriving DecidableEq

structure KmallocStats where
  allocCount : Word
  freeCount : Word
  liveAllocations : Word
  bytesUsed : Word
  peakBytesUsed : Word
  bytesFree : Word
  largestFreeBlock : Word
  failedAllocations : Word
  deriving DecidableEq

structure Heap where
  /-- The header at an address. -/
  header : Word → KmallocHeader
  freeListHead : Word
  stats : KmallocStats

def Heap.setHeader (h : Heap) (a : Word) (b : KmallocHeader) : Heap :=
  { h with header := Function.update h.header a b }

/-- The heap part of `kmalloc_init`: one free block over the whole range.
    What the memory held before is arbitrary. -/
def heapInit (header : Word → KmallocHeader) : Heap where
  header := Function.update header heapStart
    { size := BitVec.ofNat 64 heapSize - headerSize, isFree := true, next := 0 }
  freeListHead := heapStart
  stats :=
    { allocCount := 0, freeCount := 0, liveAllocations := 0, bytesUsed := 0, peakBytesUsed := 0
      bytesFree := BitVec.ofNat 64 heapSize - headerSize
      largestFreeBlock := BitVec.ofNat 64 heapSize - headerSize
      failedAllocations := 0 }

/-- The reservation loop of `kmalloc_init`: one `pmm_alloc_frame` for every
    page address from `HEAP_START` below `HEAP_START + HEAP_SIZE`. -/
def reserveHeapFrames (p : Pmm) : Pmm :=
  (List.range (heapSize / pageSize)).foldl (fun p _ => (pmmAllocFrame p).2) p

/-- `kmalloc_init`. -/
def kmallocInit (p : Pmm) (header : Word → KmallocHeader) : Pmm × Heap :=
  (reserveHeapFrames p, heapInit header)

/-! ## §2. `kmalloc`. -/

/-- `(size + 7) & ~7`. -/
def alignSize (size : Word) : Word := (size + 7) &&& ~~~7

/-- Cut `curr` after `size` payload bytes. -/
def splitBlock (h : Heap) (curr size : Word) : Heap :=
  let newBlock := curr + headerSize + size
  let h := h.setHeader newBlock
    { size := (h.header curr).size - size - headerSize, isFree := true, next := (h.header curr).next }
  h.setHeader curr { h.header curr with size := size, next := newBlock }

/-- Hand out `curr`, cutting it first when enough room remains. -/
def takeBlock (h : Heap) (curr size : Word) : Word × Heap :=
  let h := if (h.header curr).size ≥ size + headerSize + 8 then splitBlock h curr size else h
  let h := h.setHeader curr { h.header curr with isFree := false }
  let used := h.stats.bytesUsed + (h.header curr).size
  (curr + headerSize,
    { h with stats := { h.stats with
        allocCount := h.stats.allocCount + 1
        liveAllocations := h.stats.liveAllocations + 1
        bytesUsed := used
        peakBytesUsed := if used > h.stats.peakBytesUsed then used else h.stats.peakBytesUsed } })

/-- The first-fit walk. -/
def kmallocLoop : Nat → Heap → Word → Word → Option (Word × Heap)
  | 0, _, _, _ => none
  | fuel + 1, h, size, curr =>
      if curr = 0 then
        some (0, { h with stats := { h.stats with
          failedAllocations := h.stats.failedAllocations + 1 } })
      else if (h.header curr).isFree ∧ (h.header curr).size ≥ size then
        some (takeBlock h curr size)
      else kmallocLoop fuel h size (h.header curr).next

/-- `kmalloc`; the pointer `0` is `NULL`. -/
def kmalloc (fuel : Nat) (h : Heap) (size : Word) : Option (Word × Heap) :=
  kmallocLoop fuel h (alignSize size) h.freeListHead

/-! ## §3. `kfree`. -/

/-- The merge pass. -/
def mergeLoop : Nat → Heap → Word → Option Heap
  | 0, _, _ => none
  | fuel + 1, h, curr =>
      if curr = 0 ∨ (h.header curr).next = 0 then some h
      else if (h.header curr).isFree ∧ (h.header (h.header curr).next).isFree then
        let follower := h.header (h.header curr).next
        mergeLoop fuel
          (h.setHeader curr { h.header curr with
            size := (h.header curr).size + (follower.size + headerSize)
            next := follower.next })
          curr
      else mergeLoop fuel h (h.header curr).next

/-- Mark the block free and account for it. -/
def releaseBlock (h : Heap) (a : Word) : Heap :=
  let h := h.setHeader a { h.header a with isFree := true }
  { h with stats := { h.stats with
      freeCount := h.stats.freeCount + 1
      liveAllocations :=
        if h.stats.liveAllocations > 0 then h.stats.liveAllocations - 1
        else h.stats.liveAllocations
      bytesUsed :=
        if h.stats.bytesUsed ≥ (h.header a).size then h.stats.bytesUsed - (h.header a).size
        else 0 } }

/-- `kfree`. -/
def kfree (fuel : Nat) (h : Heap) (ptr : Word) : Option Heap :=
  if ptr = 0 then some h
  else if (h.header (ptr - headerSize)).isFree then some h
  else
    let h := releaseBlock h (ptr - headerSize)
    mergeLoop fuel h h.freeListHead

end ZohoOs
