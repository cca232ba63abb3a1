/-
  ZohoOs.Vmm.Basic — the virtual memory manager (vmm.c).

  A machine is the frame allocator, the memory and the static `current_pml4`.
  Page tables live in the memory: an entry is the 64-bit word at its slot's
  address.  The kernel reaches every frame under its own address, through the
  identity map the bootstrap code sets up, so a pointer of the code is a
  physical address here; `0` is `NULL`.

  The spinlocks and the TLB maintenance are not modelled: every function runs
  to its end before the next one starts.
-/
import ZohoOs.Lib.Loop
import ZohoOs.Pmm.Basic

namespace ZohoOs

open ZohoOs.Lib
open ZohoOs.Lib.Mem (slotAddr)

/-! ## §1. Entries and indices. -/

def pagePresent : Word := 1
def pageWritable : Word := 2
def pageUser : Word := 4
/-- Page-size bit in a page-directory entry. -/
def pageHuge : Word := 0x80
/-- A bit the hardware leaves to the system. -/
def pageCow : Word := 0x200

/-- The low bits of an entry that are not address bits. -/
def flagMask : Word := 0xFFF
/-- The offset bits of a 2 MiB page. -/
def hugeMask : Word := 0x1FFFFF

/-- `((addr) >> shift) & 0x1FF`. -/
def pageIndex (shift : Nat) (addr : Word) : Fin 512 :=
  ⟨((addr >>> shift) &&& 0x1FF).toNat, by
    rw [BitVec.toNat_and]
    exact Nat.lt_of_le_of_lt Nat.and_le_right (by decide)⟩

/-- A table has a slot 0. -/
instance tableSlotsNeZero : NeZero 512 := ⟨by decide⟩

def pml4Index (addr : Word) : Fin 512 := pageIndex 39 addr
def pdptIndex (addr : Word) : Fin 512 := pageIndex 30 addr
def pdIndex (addr : Word) : Fin 512 := pageIndex 21 addr
def ptIndex (addr : Word) : Fin 512 := pageIndex 12 addr

/-- `for (int i = n; i < 512; i++)`. -/
def slotsFrom (n : Nat) : List (Fin 512) := (List.finRange 512).drop n

/-! ## §2. The machine. -/

structure Machine where
  pmm : Pmm
  mem : Mem
  currentPml4 : Word
  /-- Ghost: the addresses of the table entries stored so far, newest first. -/
  stores : List Word

namespace Machine

/-- `table[index]`. -/
def entry (m : Machine) (table : Word) (index : Fin 512) : Word :=
  m.mem.load64 (slotAddr table index)

/-- `table[index] = value`. -/
def setEntry (m : Machine) (table : Word) (index : Fin 512) (value : Word) : Machine :=
  { m with
    mem := m.mem.store64 (slotAddr table index) value
    stores := slotAddr table index :: m.stores }

def allocFrame (m : Machine) : Word × Machine :=
  ((pmmAllocFrame m.pmm).1, { m with pmm := (pmmAllocFrame m.pmm).2 })

def freeFrame (m : Machine) (frame : Word) : Machine :=
  { m with pmm := pmmFreeFrame m.pmm frame }

def refInc (m : Machine) (frame : Word) : Machine :=
  { m with pmm := pmmRefInc m.pmm frame }

end Machine

/-- The entry points somewhere. -/
def Present (e : Word) : Prop := e &&& pagePresent ≠ 0

/-- The entry has its page-size bit set. -/
def Huge (e : Word) : Prop := e &&& pageHuge ≠ 0

instance (e : Word) : Decidable (Present e) := inferInstanceAs (Decidable (_ ≠ _))
instance (e : Word) : Decidable (Huge e) := inferInstanceAs (Decidable (_ ≠ _))

/-! ## §3. Tables. -/

/-- `for (int i = 0; i < 512; i++) table[i] = 0`. -/
def zeroTable (m : Machine) (table : Word) : Machine :=
  (slotsFrom 0).foldl (fun m i => m.setEntry table i 0) m

/-- `vmm_create_address_space`. -/
def vmmCreateAddressSpace (m : Machine) : Word × Machine :=
  let (newPml4, m) := m.allocFrame
  if newPml4 = 0 then (0, m)
  else
    let m := zeroTable m newPml4
    -- share the kernel half of the address space
    (newPml4, m.setEntry newPml4 0 (m.entry m.currentPml4 0))

/-- `alloc_zeroed_table`. -/
def allocZeroedTable (m : Machine) : Word × Machine :=
  let (nextTable, m) := m.allocFrame
  if nextTable = 0 then (0, m) else (nextTable, zeroTable m nextTable)

/-- `get_existing_table`. -/
def getExistingTable (m : Machine) (table : Word) (index : Fin 512) : Word :=
  if Present (m.entry table index) then m.entry table index &&& ~~~flagMask else 0

/-- `ensure_next_table`. -/
def ensureNextTable (m : Machine) (table : Word) (index : Fin 512) : Word × Machine :=
  let next := getExistingTable m table index
  if next ≠ 0 then (next, m)
  else
    let (newTable, m) := allocZeroedTable m
    if newTable = 0 then (0, m)
    else
      let next := getExistingTable m table index
      if next = 0 then
        (newTable, m.setEntry table index (newTable ||| pagePresent ||| pageWritable ||| pageUser))
      else (next, m.freeFrame newTable)

/-! ## §4. Mapping. -/

/-- `vmm_map`. -/
def vmmMap (m : Machine) (pml4 virt phys flags : Word) : Machine :=
  let (pdpt, m) := ensureNextTable m pml4 (pml4Index virt)
  if pdpt = 0 then m
  else
    let (pd, m) := ensureNextTable m pdpt (pdptIndex virt)
    if pd = 0 then m
    else if flags &&& pageHuge ≠ 0 then
      m.setEntry pd (pdIndex virt) ((phys &&& ~~~hugeMask) ||| flags ||| pagePresent)
    else
      let (pt, m) := ensureNextTable m pd (pdIndex virt)
      if pt = 0 then m
      else m.setEntry pt (ptIndex virt) ((phys &&& ~~~flagMask) ||| flags ||| pagePresent)

/-- `vmm_unmap`. -/
def vmmUnmap (m : Machine) (pml4 virt : Word) : Machine :=
  let pdpt := getExistingTable m pml4 (pml4Index virt)
  if pdpt = 0 then m
  else
    let pd := getExistingTable m pdpt (pdptIndex virt)
    if pd = 0 then m
    else if Huge (m.entry pd (pdIndex virt)) then m.setEntry pd (pdIndex virt) 0
    else
      let pt := getExistingTable m pd (pdIndex virt)
      if pt = 0 then m else m.setEntry pt (ptIndex virt) 0

/-- The loop body of `vmm_map_range`, on the counter `i` and the machine. -/
def mapRangeStep (pml4 virt phys size flags : Word) (s : Word × Machine) : Word × Machine :=
  let (i, m) := s
  -- prefer huge pages when alignment and size allow it
  if (virt + i) % 0x200000 = 0 ∧ (phys + i) % 0x200000 = 0 ∧ 0x200000 ≤ size - i then
    (i + 0x200000, vmmMap m pml4 (virt + i) (phys + i) (flags ||| pageHuge))
  else (i + 0x1000, vmmMap m pml4 (virt + i) (phys + i) flags)

/-- `vmm_map_range`; `none` when the fuel runs out. -/
def vmmMapRange (fuel : Nat) (m : Machine) (pml4 virt phys size flags : Word) : Option Machine :=
  (whileLoop (fun s => decide (s.1 < size)) (mapRangeStep pml4 virt phys size flags) fuel (0, m)).map
    Prod.snd

/-- The loop body of `vmm_unmap_range`: the tables it looks at are those of
    `current_pml4`. -/
def unmapRangeStep (pml4 virt : Word) (s : Word × Machine) : Word × Machine :=
  let (i, m) := s
  let pdpt := getExistingTable m m.currentPml4 (pml4Index (virt + i))
  let pd := if pdpt ≠ 0 then getExistingTable m pdpt (pdptIndex (virt + i)) else 0
  if pd ≠ 0 ∧ Huge (m.entry pd (pdIndex (virt + i))) then
    (i + 0x200000, vmmUnmap m pml4 (virt + i))
  else (i + 0x1000, vmmUnmap m pml4 (virt + i))

/-- `vmm_unmap_range`; `none` when the fuel runs out. -/
def vmmUnmapRange (fuel : Nat) (m : Machine) (pml4 virt size : Word) : Option Machine :=
  (whileLoop (fun s => decide (s.1 < size)) (unmapRangeStep pml4 virt) fuel (0, m)).map Prod.snd

/-- `vmm_get_phys`. -/
def vmmGetPhys (m : Machine) (pml4 virt : Word) : Word :=
  let pdpt := getExistingTable m pml4 (pml4Index virt)
  if pdpt = 0 then 0
  else
    let pd := getExistingTable m pdpt (pdptIndex virt)
    if pd = 0 then 0
    else if Huge (m.entry pd (pdIndex virt)) then
      (m.entry pd (pdIndex virt) &&& ~~~hugeMask) ||| (virt &&& hugeMask)
    else
      let pt := getExistingTable m pd (pdIndex virt)
      if pt = 0 then 0
      else (m.entry pt (ptIndex virt) &&& ~~~flagMask) ||| (virt &&& flagMask)

/-- `vmm_get_flags`. -/
def vmmGetFlags (m : Machine) (pml4 virt : Word) : Word :=
  let pdpt := getExistingTable m pml4 (pml4Index virt)
  if pdpt = 0 then 0
  else
    let pd := getExistingTable m pdpt (pdptIndex virt)
    if pd = 0 then 0
    else if Huge (m.entry pd (pdIndex virt)) then m.entry pd (pdIndex virt) &&& flagMask
    else
      let pt := getExistingTable m pd (pdIndex virt)
      if pt = 0 then 0 else m.entry pt (ptIndex virt) &&& flagMask

/-! ## §5. Cloning. -/

/-- The flags of a page shared by a clone: a writable page becomes
    copy-on-write. -/
def shareFlags (flags : Word) : Word :=
  if flags &&& pageWritable ≠ 0 then (flags &&& ~~~pageWritable) ||| pageCow else flags

/-- Share the present page at slot `i` of `src` with slot `i` of `dst`; the
    address bits are those outside `mask`. -/
def shareEntry (mask : Word) (src dst : Word) (m : Machine) (i : Fin 512) : Machine :=
  let phys := m.entry src i &&& ~~~mask
  let flags := m.entry src i &&& flagMask
  let m :=
    if flags &&& pageWritable ≠ 0 then
      m.setEntry src i (phys ||| shareFlags flags ||| pagePresent)
    else m
  (m.setEntry dst i (phys ||| shareFlags flags ||| pagePresent)).refInc phys

/-- The innermost loop body of `vmm_clone_address_space`. -/
def clonePtEntry (srcPt dstPt : Word) (m : Machine) (l : Fin 512) : Machine :=
  if Present (m.entry srcPt l) then shareEntry flagMask srcPt dstPt m l else m

def clonePdEntry (srcPd dstPd : Word) (m : Machine) (k : Fin 512) : Machine :=
  if Present (m.entry srcPd k) then
    if Huge (m.entry srcPd k) then shareEntry hugeMask srcPd dstPd m k
    else
      let srcPt := m.entry srcPd k &&& ~~~flagMask
      let (dstPt, m) := ensureNextTable m dstPd k
      (slotsFrom 0).foldl (clonePtEntry srcPt dstPt) m
  else m

def clonePdptEntry (srcPdpt dstPdpt : Word) (m : Machine) (j : Fin 512) : Machine :=
  if Present (m.entry srcPdpt j) then
    let srcPd := m.entry srcPdpt j &&& ~~~flagMask
    let (dstPd, m) := ensureNextTable m dstPdpt j
    (slotsFrom 0).foldl (clonePdEntry srcPd dstPd) m
  else m

def clonePml4Entry (srcPml4 dstPml4 : Word) (m : Machine) (i : Fin 512) : Machine :=
  if Present (m.entry srcPml4 i) then
    let srcPdpt := m.entry srcPml4 i &&& ~~~flagMask
    let (dstPdpt, m) := ensureNextTable m dstPml4 i
    (slotsFrom 0).foldl (clonePdptEntry srcPdpt dstPdpt) m
  else m

/-- `vmm_clone_address_space`. -/
def vmmCloneAddressSpace (m : Machine) (srcPml4 : Word) : Word × Machine :=
  let (dstPml4, m) := vmmCreateAddressSpace m
  (dstPml4, (slotsFrom 1).foldl (clonePml4Entry srcPml4 dstPml4) m)

/-! ## §6. Destroying. -/

/-- The innermost loop body of `vmm_destroy_address_space`. -/
def destroyPtEntry (pt : Word) (m : Machine) (l : Fin 512) : Machine :=
  if Present (m.entry pt l) then m.freeFrame (m.entry pt l &&& ~~~flagMask) else m

def destroyPdEntry (pd : Word) (m : Machine) (k : Fin 512) : Machine :=
  if Present (m.entry pd k) then
    let pt := m.entry pd k &&& ~~~flagMask
    ((slotsFrom 0).foldl (destroyPtEntry pt) m).freeFrame pt
  else m

def destroyPdptEntry (pdpt : Word) (m : Machine) (j : Fin 512) : Machine :=
  if Present (m.entry pdpt j) then
    let pd := m.entry pdpt j &&& ~~~flagMask
    ((slotsFrom 0).foldl (destroyPdEntry pd) m).freeFrame pd
  else m

def destroyPml4Entry (pml4 : Word) (m : Machine) (i : Fin 512) : Machine :=
  if Present (m.entry pml4 i) then
    let pdpt := m.entry pml4 i &&& ~~~flagMask
    ((slotsFrom 0).foldl (destroyPdptEntry pdpt) m).freeFrame pdpt
  else m

/-- `vmm_destroy_address_space`. -/
def vmmDestroyAddressSpace (m : Machine) (pml4 : Word) : Machine :=
  ((slotsFrom 1).foldl (destroyPml4Entry pml4) m).freeFrame pml4

end ZohoOs
