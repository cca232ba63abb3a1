/-
  ZohoOs.Ext2.Basic — blocks and inodes of an ext2 image (ext2.c).

  The driver reads whole blocks into buffers from `kmalloc` and picks fields
  out of them.  It takes the first block of the descriptor table for the whole
  table: with more groups than that block has room for, the descriptor of a
  group is read from behind the buffer.

  A buffer is given by the bytes from its start on, also those that lie behind
  it; what a fresh one holds is a parameter.  `kmalloc` does not fail here.

  Main results:
    * `readBlock_byte` — what a block holds;
    * `ext2_inode_iff` — an inode is looked up in the right place exactly when
      the descriptor of its group lies in the first block of the table.
-/
import ZohoOs.Lib.Logged
import ZohoOs.Tar.Decode

namespace ZohoOs

open ZohoOs.Lib

/-! ## §1. Blocks. -/

/-- The bytes of a buffer, and of what lies behind it. -/
abbrev Buffer := Nat → BitVec 8

/-- Little-endian fields. -/
def Buffer.load16 (b : Buffer) (k : Nat) : BitVec 16 := b (k + 1) ++ b k
def Buffer.load32 (b : Buffer) (k : Nat) : BitVec 32 := b.load16 (k + 2) ++ b.load16 k

/-- 512 bytes are stored at `k`. -/
def Buffer.storeSector (b : Buffer) (k : Nat) (s : Sector) : Buffer := fun i =>
  if k ≤ i ∧ i < k + 512 then s.byte (i - k) else b i

/-- The fields of the superblock that are used, and `block_size`. -/
structure Ext2 where
  inodesPerGroup : BitVec 32
  blockSize : BitVec 32

/-- `EXT2_MAGIC`. -/
def ext2Magic : BitVec 16 := 0xEF53

/-- `ext2_init`; `buffer` is what the 1024 bytes from `kmalloc` hold. -/
def ext2Init (ata : AtaRead) (buffer : Buffer) : Option Ext2 :=
  let buffer := (ata 2).elim buffer (buffer.storeSector 0)
  let buffer := (ata 3).elim buffer (buffer.storeSector 512)
  if buffer.load16 56 ≠ ext2Magic then none
  else some ⟨buffer.load32 40, (1024 : BitVec 32) <<< buffer.load32 24⟩

/-- `read_block`; a failed transfer leaves its part of the buffer alone. -/
def readBlock (ata : AtaRead) (fs : Ext2) (block : BitVec 32) (buffer : Buffer) : Buffer :=
  let sectorsPerBlock := fs.blockSize / 512
  (List.range sectorsPerBlock.toNat).foldl
    (fun buffer i => (ata (block * sectorsPerBlock + BitVec.ofNat 32 i)).elim buffer
      (buffer.storeSector (i * 512)))
    buffer

/-- The block sizes of the driver: 1024 to 4096 bytes. -/
def Ext2.SizeOk (fs : Ext2) : Prop :=
  fs.blockSize = 1024 ∨ fs.blockSize = 2048 ∨ fs.blockSize = 4096

/-- Byte `k` of a block on the disk. -/
def blockByte (sectors : BitVec 32 → Sector) (fs : Ext2) (block k : Nat) : BitVec 8 :=
  diskByte sectors (block * fs.blockSize.toNat + k)

section Blocks

variable {disk : AtaDisk} {fs : Ext2}

/-- A block is some whole sectors. -/
theorem Ext2.SizeOk.sectors (h : fs.SizeOk) :
    fs.blockSize.toNat = (fs.blockSize / 512).toNat * 512 ∧ fs.blockSize.toNat ≤ 4096 ∧
      0 < fs.blockSize.toNat := by
  rcases h with h | h | h
  · rw [h]
    decide
  · rw [h]
    decide
  · rw [h]
    decide

/-- Storing sectors one behind the other. -/
theorem storeSectors_byte (s : Nat → Sector) (buffer : Buffer) (n k : Nat) :
    (List.range n).foldl (fun (b : Buffer) i => b.storeSector (i * 512) (s i)) buffer k =
      if k < n * 512 then (s (k / 512)).byte (k % 512) else buffer k := by
  induction n with
  | zero =>
    rw [if_neg (show ¬ k < 0 * 512 by omega)]
    rfl
  | succ n ih =>
    have hsplit : k < (n + 1) * 512 ↔ (n * 512 ≤ k ∧ k < n * 512 + 512) ∨ k < n * 512 := by
      clear ih
      omega
    rw [List.range_succ, List.foldl_append, List.foldl_cons, List.foldl_nil, Buffer.storeSector]
    by_cases hin : n * 512 ≤ k ∧ k < n * 512 + 512
    · have hdiv : k / 512 = n := by omega
      have hmod : k - n * 512 = k % 512 := by omega
      rw [if_pos hin, if_pos (hsplit.mpr (.inl hin)), hdiv, hmod]
    · rw [if_neg hin, ih]
      by_cases hlow : k < n * 512
      · rw [if_pos hlow, if_pos (hsplit.mpr (.inr hlow))]
      · rw [if_neg hlow, if_neg fun h => (hsplit.mp h).elim hin hlow]

/-- **What a block holds**: the bytes on the disk, and behind them what the
    buffer had there. -/
theorem readBlock_byte (hup : disk.Up) (hsize : fs.SizeOk) (block : BitVec 32) (buffer : Buffer)
    (k : Nat) :
    readBlock disk.read fs block buffer k =
      if k < fs.blockSize.toNat then blockByte disk.sectors fs block.toNat k else buffer k := by
  obtain ⟨hsectors, -, -⟩ := hsize.sectors
  unfold readBlock
  simp only [hup.read, Option.elim]
  rw [storeSectors_byte fun i => disk.sectors (block * (fs.blockSize / 512) + BitVec.ofNat 32 i),
    ← hsectors]
  by_cases hk : k < fs.blockSize.toNat
  · rw [if_pos hk, if_pos hk]
    have hplace : block.toNat * fs.blockSize.toNat + k =
        512 * (block.toNat * (fs.blockSize / 512).toNat + k / 512) + k % 512 := by
      rw [hsectors, ← Nat.mul_assoc, Nat.mul_comm _ 512, Nat.mul_add]
      omega
    have hlba : block * (fs.blockSize / 512) + BitVec.ofNat 32 (k / 512) =
        BitVec.ofNat 32 (block.toNat * (fs.blockSize / 512).toNat + k / 512) := by
      rw [BitVec.ofNat_add, BitVec.ofNat_mul, BitVec.ofNat_toNat, BitVec.ofNat_toNat,
        BitVec.setWidth_eq, BitVec.setWidth_eq]
    unfold blockByte
    rw [hplace, ← byte_sector _ _ (Nat.mod_lt _ (by decide)), hlba]
  · rw [if_neg hk, if_neg hk]

end Blocks

/-! ## §2. Inodes. -/

/-- `sizeof(ext2_inode_t)` and `sizeof(ext2_group_desc_t)`. -/
def inodeSize : Nat := 128
def groupDescSize : Nat := 32

/-- `read_inode`, with the blocks it reads: the bytes that are copied out.
    The two buffers hold `bgdtBuf` and `blockBuf` before. -/
def readInode (ata : AtaRead) (fs : Ext2) (bgdtBuf blockBuf : Buffer) (inodeNum : BitVec 32) :
    Logged (BitVec 32) (Fin 128 → BitVec 8) := do
  let group := (inodeNum - 1) / fs.inodesPerGroup
  let index := (inodeNum - 1) % fs.inodesPerGroup
  let bgdtBlock : BitVec 32 := if fs.blockSize = 1024 then 2 else 1
  Logged.tell bgdtBlock
  let bgdtBuf := readBlock ata fs bgdtBlock bgdtBuf
  -- `(ext2_group_desc_t*)bgdt_buf + group`, and its third field
  let inodeTableBlock := bgdtBuf.load32 (group.toNat * groupDescSize + 8)
  let offset := index * BitVec.ofNat 32 inodeSize
  let block := inodeTableBlock + offset / fs.blockSize
  let blockOffset := offset % fs.blockSize
  Logged.tell block
  let blockBuf := readBlock ata fs block blockBuf
  pure fun k => blockBuf (blockOffset.toNat + k)

/-! ## §3. The inodes of an image. -/

namespace Ext2

/-- The first block of the descriptor table: behind the superblock, which
    stands in block 1 if blocks have 1024 bytes, else in block 0. -/
def descTable (fs : Ext2) : Nat := if fs.blockSize.toNat = 1024 then 2 else 1

/-- The group of inode `n`, and its place there; inodes count from 1. -/
def groupOf (fs : Ext2) (n : Nat) : Nat := (n - 1) / fs.inodesPerGroup.toNat
def indexOf (fs : Ext2) (n : Nat) : Nat := (n - 1) % fs.inodesPerGroup.toNat

/-- The block of the table that holds the descriptor of group `g`. -/
def descBlock (fs : Ext2) (g : Nat) : Nat := fs.descTable + g * groupDescSize / fs.blockSize.toNat

/-- The first block of the inode table of group `g`, as its descriptor says. -/
def inodeTable (fs : Ext2) (sectors : BitVec 32 → Sector) (g : Nat) : BitVec 32 :=
  Buffer.load32 (fun k => blockByte sectors fs fs.descTable (g * groupDescSize + k)) 8

/-- Byte `k` of inode `n`. -/
def inodeByte (fs : Ext2) (sectors : BitVec 32 → Sector) (n k : Nat) : BitVec 8 :=
  blockByte sectors fs (fs.inodeTable sectors (fs.groupOf n)).toNat (fs.indexOf n * inodeSize + k)

end Ext2

/-- An image of revision 0, as far as `read_inode` goes by it: the bitmap of the
    inodes of a group is one block. -/
structure Ext2.Image (fs : Ext2) : Prop where
  size : fs.SizeOk
  inodes : 0 < fs.inodesPerGroup.toNat
  bitmap : fs.inodesPerGroup.toNat ≤ 8 * fs.blockSize.toNat

/-- **The inode is read from where it is**: the descriptor from the block of the
    table that holds it, and the 128 bytes from the inode's place in the table
    of its group. -/
def InodeRead (disk : AtaDisk) (fs : Ext2) (bgdtBuf blockBuf : Buffer) (n : BitVec 32) : Prop :=
  (readInode disk.read fs bgdtBuf blockBuf n).log.head? =
      some (BitVec.ofNat 32 (fs.descBlock (fs.groupOf n.toNat))) ∧
    ∀ k, (readInode disk.read fs bgdtBuf blockBuf n).val k = fs.inodeByte disk.sectors n.toNat k

section Inode

variable {disk : AtaDisk} {fs : Ext2} {n : BitVec 32}

/-- Sector numbers have 32 bits. -/
theorem blockByte_mod (sectors : BitVec 32 → Sector) (hsize : fs.SizeOk) (block k : Nat) :
    blockByte sectors fs (block % 2 ^ 32) k = blockByte sectors fs block k := by
  obtain ⟨hsectors, -, -⟩ := hsize.sectors
  have hplace : ∀ b : Nat, blockByte sectors fs b k =
      (sectors (BitVec.ofNat 32 (b * (fs.blockSize / 512).toNat + k / 512))).byte (k % 512) := by
    intro b
    have hsplit : b * fs.blockSize.toNat + k =
        512 * (b * (fs.blockSize / 512).toNat + k / 512) + k % 512 := by
      rw [hsectors, ← Nat.mul_assoc, Nat.mul_comm _ 512, Nat.mul_add]
      omega
    unfold blockByte
    rw [hsplit, ← byte_sector _ _ (Nat.mod_lt _ (by decide))]
  have hlba : BitVec.ofNat 32 (block % 2 ^ 32) = BitVec.ofNat 32 block := by
    apply BitVec.eq_of_toNat_eq
    rw [BitVec.toNat_ofNat, BitVec.toNat_ofNat, Nat.mod_mod]
  rw [hplace, hplace, BitVec.ofNat_add, BitVec.ofNat_mul, hlba, ← BitVec.ofNat_mul, ← BitVec.ofNat_add]

/-- The block that is read for the descriptor. -/
theorem descTable_eq (fs : Ext2) :
    (if fs.blockSize = 1024 then 2 else 1 : BitVec 32) = BitVec.ofNat 32 fs.descTable := by
  unfold Ext2.descTable
  have hiff : fs.blockSize = 1024 ↔ fs.blockSize.toNat = 1024 :=
    ⟨fun h => congrArg BitVec.toNat h, fun h => BitVec.eq_of_toNat_eq h⟩
  by_cases h : fs.blockSize = 1024
  · rw [if_pos h, if_pos (hiff.mp h)]
    rfl
  · rw [if_neg h, if_neg (mt hiff.mpr h)]
    rfl

variable (fs) in
/-- Group and place of an inode, in the driver's arithmetic. -/
theorem toNat_groupOf (hn : n ≠ 0) :
    ((n - 1) / fs.inodesPerGroup).toNat = fs.groupOf n.toNat ∧
      ((n - 1) % fs.inodesPerGroup).toNat = fs.indexOf n.toNat := by
  have hpos : 0 < n.toNat := by
    apply Nat.pos_of_ne_zero
    intro h
    exact hn (BitVec.eq_of_toNat_eq h)
  have hsub : (n - 1).toNat = n.toNat - 1 := by
    rw [BitVec.toNat_sub_of_le (by rw [BitVec.le_def]; exact hpos)]
    rfl
  unfold Ext2.groupOf Ext2.indexOf
  rw [BitVec.toNat_udiv, BitVec.toNat_umod, hsub]
  exact ⟨rfl, rfl⟩

/-- A descriptor in the first block of the table is read back. -/
theorem load_inodeTable (hup : disk.Up) (hsize : fs.SizeOk) {g : Nat}
    (hg : g < fs.blockSize.toNat / groupDescSize) (buffer : Buffer) :
    (readBlock disk.read fs (BitVec.ofNat 32 fs.descTable) buffer).load32 (g * groupDescSize + 8) =
      fs.inodeTable disk.sectors g := by
  have hlt : ∀ i < 4, g * groupDescSize + 8 + i < fs.blockSize.toNat := by
    intro i hi
    unfold groupDescSize at hg ⊢
    omega
  have htable : (BitVec.ofNat 32 fs.descTable).toNat = fs.descTable := by
    unfold Ext2.descTable
    split <;> rfl
  have hbyte : ∀ i < 4,
      readBlock disk.read fs (BitVec.ofNat 32 fs.descTable) buffer (g * groupDescSize + 8 + i) =
        blockByte disk.sectors fs fs.descTable (g * groupDescSize + (8 + i)) := by
    intro i hi
    rw [readBlock_byte hup hsize, if_pos (hlt i hi), htable, Nat.add_assoc]
  unfold Ext2.inodeTable Buffer.load32 Buffer.load16
  rw [hbyte 1 (by omega), hbyte 2 (by omega), hbyte (2 + 1) (by omega)]
  have hfirst := hbyte 0 (by omega)
  rw [Nat.add_zero] at hfirst
  rw [hfirst]

/-- The bytes copied out are those of the inode, once its table is found. -/
theorem inodeByte_eq (hup : disk.Up) (himage : fs.Image) (hn : n ≠ 0) (blockBuf : Buffer) (k : Fin 128) :
    let offset := (n - 1) % fs.inodesPerGroup * BitVec.ofNat 32 inodeSize
    readBlock disk.read fs (fs.inodeTable disk.sectors (fs.groupOf n.toNat) + offset / fs.blockSize)
        blockBuf ((offset % fs.blockSize).toNat + k) =
      fs.inodeByte disk.sectors n.toNat k := by
  intro offset
  obtain ⟨-, hsmall, hpos⟩ := himage.size.sectors
  have hbitmap := himage.bitmap
  have hindex : fs.indexOf n.toNat < fs.inodesPerGroup.toNat := Nat.mod_lt _ himage.inodes
  have hoffset : offset.toNat = fs.indexOf n.toNat * 128 := by
    show ((n - 1) % fs.inodesPerGroup * 128#32).toNat = _
    rw [BitVec.toNat_mul, (toNat_groupOf fs hn).2]
    show fs.indexOf n.toNat * 128 % 2 ^ 32 = _
    omega
  -- an inode does not cross the end of a block
  have hin : (offset % fs.blockSize).toNat + k < fs.blockSize.toNat := by
    have hk := k.isLt
    rw [BitVec.toNat_umod, hoffset]
    rcases himage.size with h | h | h
    · rw [h]
      show fs.indexOf n.toNat * 128 % 1024 + k < 1024
      omega
    · rw [h]
      show fs.indexOf n.toNat * 128 % 2048 + k < 2048
      omega
    · rw [h]
      show fs.indexOf n.toNat * 128 % 4096 + k < 4096
      omega
  rw [readBlock_byte hup himage.size, if_pos hin, BitVec.toNat_add, blockByte_mod _ himage.size]
  unfold Ext2.inodeByte blockByte
  congr 1
  rw [BitVec.toNat_udiv, BitVec.toNat_umod, hoffset, Nat.add_mul]
  have hdiv := Nat.div_add_mod (fs.indexOf n.toNat * 128) fs.blockSize.toNat
  rw [Nat.mul_comm] at hdiv
  unfold inodeSize
  omega

/-- **Inode lookup.**  Take any image of revision 0, with any number of groups,
    and any inode number.  The inode is read from where it is exactly if the
    descriptor of its group lies in the first block of the table. -/
theorem ext2_inode_iff (hup : disk.Up) (himage : fs.Image) (hn : n ≠ 0) (bgdtBuf blockBuf : Buffer) :
    InodeRead disk fs bgdtBuf blockBuf n ↔
      fs.groupOf n.toNat < fs.blockSize.toNat / groupDescSize := by
  have hgroup := (toNat_groupOf fs hn).1
  have hglt : fs.groupOf n.toNat < 2 ^ 32 := by
    rw [← hgroup]
    exact BitVec.isLt _
  obtain ⟨-, -, hpos⟩ := himage.size.sectors
  have hlog : (readInode disk.read fs bgdtBuf blockBuf n).log.head? =
      some (BitVec.ofNat 32 fs.descTable) := congrArg some (descTable_eq fs)
  unfold InodeRead
  rw [hlog]
  constructor
  · intro hread
    obtain ⟨hblock, -⟩ := hread
    have hnat := congrArg BitVec.toNat (Option.some.inj hblock)
    -- the block that is read is the table's first, so the descriptor lies in it
    have htable : fs.descTable ≤ 2 := by
      unfold Ext2.descTable
      split <;> omega
    have hsize := himage.size
    unfold Ext2.descBlock groupDescSize at hnat
    unfold groupDescSize
    rw [BitVec.toNat_ofNat, BitVec.toNat_ofNat] at hnat
    rcases hsize with h | h | h
    · rw [h] at hnat ⊢
      have h1024 : (1024 : BitVec 32).toNat = 1024 := rfl
      rw [h1024] at hnat ⊢
      omega
    · rw [h] at hnat ⊢
      have h2048 : (2048 : BitVec 32).toNat = 2048 := rfl
      rw [h2048] at hnat ⊢
      omega
    · rw [h] at hnat ⊢
      have h4096 : (4096 : BitVec 32).toNat = 4096 := rfl
      rw [h4096] at hnat ⊢
      omega
  · intro hg
    constructor
    · have hzero : fs.groupOf n.toNat * groupDescSize / fs.blockSize.toNat = 0 := by
        apply Nat.div_eq_of_lt
        unfold groupDescSize at hg ⊢
        omega
      unfold Ext2.descBlock
      rw [hzero, Nat.add_zero]
    · intro k
      rw [← inodeByte_eq hup himage hn blockBuf k, ← load_inodeTable hup himage.size hg bgdtBuf,
        ← hgroup, ← descTable_eq]
      rfl

end Inode

/-! ## §4. An example. -/

/-- Groups of eight inodes in blocks of 1024 bytes, and a disk in which no two
    sectors next to each other are the same. -/
def smallExt2 : Ext2 := ⟨8, 1024⟩

def countingDisk : AtaDisk where
  sectors := fun lba i => BitVec.ofNat 8 (lba.toNat + i.val)
  answers := fun _ => true

theorem smallExt2_image : smallExt2.Image := ⟨.inl rfl, by decide, by decide⟩

/-- Inode 256 is the last one of group 31, the last of the block. -/
theorem ext2_inode_last : InodeRead countingDisk smallExt2 (fun _ => 0) (fun _ => 0) 256 :=
  (ext2_inode_iff (fun _ => rfl) smallExt2_image (by decide) _ _).mpr (by decide)

/-- **Inode 257 is looked up in the wrong block**: its descriptor stands in
    block 3, and block 2 is read. -/
theorem inode_of_group_32 : ¬ InodeRead countingDisk smallExt2 (fun _ => 0) (fun _ => 0) 257 := by
  intro hread
  have hlog : (readInode countingDisk.read smallExt2 (fun _ => 0) (fun _ => 0) 257).log.head? = some 2 :=
    rfl
  have hblock := hlog.symm.trans hread.1
  revert hblock
  decide

end ZohoOs
