/-
  ZohoOs.Elf.Load — the ELF loader (elf.c).

  The file is read from memory while the loader writes to memory, so every
  field is read where the code reads it.  `*pml4` and `*entry_point` are the
  results; the log messages are not modelled.
-/
import ZohoOs.Libc.Copy
import ZohoOs.Vmm.Basic

namespace ZohoOs

open ZohoOs.Lib

/-! ## §1. Headers. -/

def elfMagic : BitVec 32 := 0x464C457F
def ptLoad : BitVec 32 := 1

/-- Fields of `elf_header_t`. -/
def headerEntry (mem : Mem) (header : Word) : Word := mem.load64 (header + 24)
def headerPhoff (mem : Mem) (header : Word) : Word := mem.load64 (header + 32)
def headerPhentsize (mem : Mem) (header : Word) : BitVec 16 := mem.load16 (header + 54)
def headerPhnum (mem : Mem) (header : Word) : BitVec 16 := mem.load16 (header + 56)

/-- Fields of `elf_phdr_t`. -/
def phdrType (mem : Mem) (phdr : Word) : BitVec 32 := mem.load32 phdr
def phdrFlags (mem : Mem) (phdr : Word) : BitVec 32 := mem.load32 (phdr + 4)
def phdrOffset (mem : Mem) (phdr : Word) : Word := mem.load64 (phdr + 8)
def phdrVaddr (mem : Mem) (phdr : Word) : Word := mem.load64 (phdr + 16)
def phdrFilesz (mem : Mem) (phdr : Word) : Word := mem.load64 (phdr + 32)
def phdrMemsz (mem : Mem) (phdr : Word) : Word := mem.load64 (phdr + 40)

/-- `elf_data + header->phoff + (i * header->phentsize)`, the product in `int`
    arithmetic. -/
def phdrAddr (mem : Mem) (elfData : Word) (i : Nat) : Word :=
  elfData + headerPhoff mem elfData
    + (BitVec.ofNat 32 (i * (headerPhentsize mem elfData).toNat)).signExtend 64

/-! ## §2. Loading. -/

namespace Machine

/-- `memset` on the machine's memory. -/
def memset (m : Machine) (s : Word) (c : BitVec 8) (n : Nat) : Machine :=
  { m with mem := ZohoOs.memset m.mem s c n }

/-- `memcpy` on the machine's memory. -/
def memcpy (m : Machine) (d s : Word) (n : Nat) : Machine :=
  { m with mem := ZohoOs.memcpy m.mem d s n }

end Machine

/-- Copy into `frame` the bytes of the file that belong in page `p` of the
    segment. -/
def elfCopyPage (m : Machine) (elfData phdr vaddrStart frame p : Word) : Machine :=
  let offset := phdrOffset m.mem phdr
  let filesz := phdrFilesz m.mem phdr
  let copyOffsetInPage := if p = 0 then vaddrStart &&& 0xFFF else 0
  let copySize := if p = 0 then 4096 - copyOffsetInPage else 4096
  let copySrcOffset :=
    if p = 0 then offset + p * 4096 else offset + p * 4096 - (vaddrStart &&& 0xFFF)
  if copySrcOffset < offset + filesz then
    let rest := offset + filesz - copySrcOffset
    let bytesFromFile := if rest > copySize then copySize else rest
    m.memcpy (frame + copyOffsetInPage) (elfData + copySrcOffset) bytesFromFile.toNat
  else m

/-- The body of the page loop of `elf_load`. -/
def elfLoadPage (m : Machine) (pml4 elfData phdr vaddrStart pageStart flags p : Word) : Machine :=
  let currentVpage := pageStart + p * 4096
  let (frame, m) := m.allocFrame
  let m := vmmMap m pml4 currentVpage frame flags
  elfCopyPage (m.memset frame 0 4096) elfData phdr vaddrStart frame p

/-- The flags of a segment's pages. -/
def segmentFlags (flags : BitVec 32) : Word :=
  if flags &&& 2 ≠ 0 then pageUser ||| pageWritable else pageUser

/-- One loadable segment. -/
def elfLoadSegment (m : Machine) (pml4 elfData phdr : Word) : Machine :=
  let flags := segmentFlags (phdrFlags m.mem phdr)
  let vaddrStart := phdrVaddr m.mem phdr
  let vaddrEnd := phdrVaddr m.mem phdr + phdrMemsz m.mem phdr
  let pageStart := vaddrStart &&& ~~~0xFFF
  let pageEnd := (vaddrEnd + 4095) &&& ~~~0xFFF
  let numPages := (pageEnd - pageStart) / 4096
  (List.range numPages.toNat).foldl
    (fun m p => elfLoadPage m pml4 elfData phdr vaddrStart pageStart flags (BitVec.ofNat 64 p)) m

/-- The loop over the program headers, from header `i` on.  `header->phnum` is
    16 bits wide, so `fuel + i = 65536` never runs out. -/
def elfLoadPhdrs (pml4 elfData : Word) : Nat → Nat → Machine → Machine
  | 0, _, m => m
  | fuel + 1, i, m =>
      if i < (headerPhnum m.mem elfData).toNat then
        let phdr := phdrAddr m.mem elfData i
        let m := if phdrType m.mem phdr = ptLoad then elfLoadSegment m pml4 elfData phdr else m
        elfLoadPhdrs pml4 elfData fuel (i + 1) m
      else m

/-- `elf_load`: the entry point and the new address space, or `none` for
    `false`. -/
def elfLoad (m : Machine) (elfData : Word) : Option (Word × Word) × Machine :=
  if m.mem.load32 elfData ≠ elfMagic then (none, m)
  else
    let (pml4, m) := vmmCreateAddressSpace m
    let entryPoint := headerEntry m.mem elfData
    (some (entryPoint, pml4), elfLoadPhdrs pml4 elfData 65536 0 m)

/-! ## §3. Where a page load writes. -/

section Frame

variable {m : Machine} {frame x : Word}

@[simp] theorem Machine.pmm_memset (s : Word) (c : BitVec 8) (n : Nat) : (m.memset s c n).pmm = m.pmm :=
  rfl

@[simp] theorem Machine.pmm_memcpy (d s : Word) (n : Nat) : (m.memcpy d s n).pmm = m.pmm := rfl

@[simp] theorem Machine.currentPml4_memset (s : Word) (c : BitVec 8) (n : Nat) :
    (m.memset s c n).currentPml4 = m.currentPml4 := rfl

@[simp] theorem Machine.currentPml4_memcpy (d s : Word) (n : Nat) :
    (m.memcpy d s n).currentPml4 = m.currentPml4 := rfl

theorem Machine.mem_memset (s : Word) (c : BitVec 8) (n : Nat) :
    (m.memset s c n).mem = ZohoOs.memset m.mem s c n := rfl

theorem Machine.mem_memcpy (d s : Word) (n : Nat) :
    (m.memcpy d s n).mem = ZohoOs.memcpy m.mem d s n := rfl

/-- The bytes of the file go into the page's frame. -/
theorem elfCopyPage_cases (m : Machine) (elfData phdr vaddrStart frame p : Word) :
    elfCopyPage m elfData phdr vaddrStart frame p = m ∨
      ∃ (off src : Word) (n : Nat), off.toNat + n ≤ 4096 ∧
        elfCopyPage m elfData phdr vaddrStart frame p = m.memcpy (frame + off) src n := by
  have hoff : (vaddrStart &&& 0xFFF).toNat < 4096 := by
    rw [BitVec.toNat_and]
    exact Nat.lt_of_le_of_lt Nat.and_le_right (by decide)
  -- the number of bytes is at most what is left of the page
  have hmin : ∀ rest size : Word, (if rest > size then size else rest).toNat ≤ size.toNat := by
    intro rest size
    split <;> bv_omega
  unfold elfCopyPage
  by_cases hp : p = 0
  · simp only [hp, if_true]
    split
    · refine .inr ⟨_, _, _, ?_, rfl⟩
      refine Nat.le_trans (Nat.add_le_add_left (hmin _ _) _) ?_
      bv_omega
    · exact .inl rfl
  · simp only [hp, if_false]
    split
    · refine .inr ⟨_, _, _, ?_, rfl⟩
      exact Nat.le_trans (Nat.add_le_add_left (hmin _ _) _) (by decide)
    · exact .inl rfl

/-- Zeroing the frame and copying into it changes the memory of that page
    only. -/
theorem elfFillPage_frame (m : Machine) (elfData phdr vaddrStart frame p : Word) :
    let m' := elfCopyPage (m.memset frame 0 4096) elfData phdr vaddrStart frame p
    m'.pmm = m.pmm ∧ m'.currentPml4 = m.currentPml4 ∧
      ∀ x, ¬ Mem.InPage frame x → m'.mem x = m.mem x := by
  have hset : ∀ x, ¬ Mem.InPage frame x → (m.memset frame 0 4096).mem x = m.mem x := by
    intro x hx
    unfold Mem.InPage at hx
    rw [Machine.mem_memset, memset_eq_fill _ _ _ (by norm_num), Mem.fill_of_le _ _ (by omega)]
  intro m'
  rcases elfCopyPage_cases (m.memset frame 0 4096) elfData phdr vaddrStart frame p with
    heq | ⟨off, src, n, hn, heq⟩
  · rw [show m' = m.memset frame 0 4096 from heq]
    exact ⟨Machine.pmm_memset _ _ _, Machine.currentPml4_memset _ _ _, hset⟩
  · rw [show m' = (m.memset frame 0 4096).memcpy (frame + off) src n from heq]
    refine ⟨by simp, by simp, fun x hx => ?_⟩
    rw [Machine.mem_memcpy, memcpy_of_le _ (by omega), hset x hx]
    unfold Mem.InPage at hx
    bv_omega

end Frame

end ZohoOs
