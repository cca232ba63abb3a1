/-
  ZohoOs.Ext2.Read — reading a file (ext2.c).

  `ext2_read` cuts the request into blocks, takes zeros for a hole, and stops
  behind the twelve direct blocks.  Before that it shortens the request to the
  end of the file, by comparing `offset + size` with the size of the file in 32
  bits: a sum that wraps around is never too long.

  Main results:
    * `ext2ReadLoop_eq` — the loop over the blocks;
    * `ext2_read_iff` — the request is answered exactly when the sum does not
      wrap around, or the end of the file does not matter.
-/
import ZohoOs.Ext2.Basic
import ZohoOs.Vfs.Copy

namespace ZohoOs

open ZohoOs.Lib

/-! ## §1. `ext2_read`. -/

/-- The fields of `ext2_inode_t` that are used; there are 15 block numbers. -/
structure Ext2Inode where
  mode : BitVec 16
  size : BitVec 32
  block : Nat → BitVec 32

/-- The fields of the bytes that `read_inode` copies out. -/
def inodeOf (bytes : Fin 128 → BitVec 8) : Ext2Inode :=
  let b : Buffer := fun k => if h : k < 128 then bytes ⟨k, h⟩ else 0
  { mode := b.load16 0
    size := b.load32 4
    block := fun i => b.load32 (40 + 4 * i) }

/-- The loop of `ext2_read`, for at most `fuel` blocks: the number of bytes
    read, and the stores through `buffer`. -/
def ext2ReadLoop (ata : AtaRead) (fs : Ext2) (inode : Ext2Inode) (buffer : Word)
    (offset size : BitVec 32) : Nat → BitVec 32 → Buffer → BitVec 32 × List Store
  | 0, bytesRead, _ => (bytesRead, [])
  | fuel + 1, bytesRead, blockBuf =>
    if bytesRead < size then
      let blockIdx := (offset + bytesRead) / fs.blockSize
      let blockOff := (offset + bytesRead) % fs.blockSize
      let toRead := fs.blockSize - blockOff
      let toRead := if toRead > size - bytesRead then size - bytesRead else toRead
      if blockIdx < 12 then
        let physicalBlock := inode.block blockIdx.toNat
        let dst := buffer + bytesRead.setWidth 64
        if physicalBlock = 0 then
          let rest := ext2ReadLoop ata fs inode buffer offset size fuel (bytesRead + toRead) blockBuf
          (rest.1, storesAt dst toRead.toNat (fun _ => 0) ++ rest.2)
        else
          let blockBuf := readBlock ata fs physicalBlock blockBuf
          let rest := ext2ReadLoop ata fs inode buffer offset size fuel (bytesRead + toRead) blockBuf
          (rest.1, storesAt dst toRead.toNat (fun i => blockBuf (blockOff.toNat + i)) ++ rest.2)
      -- "Indirect blocks not yet supported"
      else (bytesRead, [])
    else (bytesRead, [])

/-- `ext2_read` with the inode at hand.  Every turn of the loop reads a byte or
    more, so `size` turns are enough. -/
def ext2ReadInode (ata : AtaRead) (fs : Ext2) (inode : Ext2Inode) (blockBuf : Buffer)
    (offset size : BitVec 32) (buffer : Word) : BitVec 32 × List Store :=
  if offset ≥ inode.size then (0, [])
  else
    let size := if offset + size > inode.size then inode.size - offset else size
    ext2ReadLoop ata fs inode buffer offset size size.toNat 0 blockBuf

/-- `ext2_read`; the three buffers from `kmalloc` hold these bytes before. -/
def ext2Read (ata : AtaRead) (fs : Ext2) (bgdtBuf inodeBuf blockBuf : Buffer) (node : BitVec 32)
    (offset size : BitVec 32) (buffer : Word) : BitVec 32 × List Store :=
  ext2ReadInode ata fs (inodeOf (readInode ata fs bgdtBuf inodeBuf node).val) blockBuf offset size buffer

/-! ## §2. The bytes of a file. -/

namespace Ext2Inode

/-- Byte `j` of the file, where it lies in a direct block: zero in a hole. -/
def fileByte (inode : Ext2Inode) (fs : Ext2) (sectors : BitVec 32 → Sector) (j : Nat) : BitVec 8 :=
  let block := inode.block (j / fs.blockSize.toNat)
  if block = 0 then 0 else blockByte sectors fs block.toNat (j % fs.blockSize.toNat)

/-- The end of the direct blocks. -/
def directEnd (fs : Ext2) : Nat := 12 * fs.blockSize.toNat

/-- How many bytes a request asks for, of those that there are: the sum is
    exact. -/
def available (inode : Ext2Inode) (fs : Ext2) (offset size : Nat) : Nat :=
  min (min (offset + size) inode.size.toNat) (directEnd fs) - offset

end Ext2Inode

section Loop

variable {disk : AtaDisk} {fs : Ext2} {inode : Ext2Inode} {buffer : Word} {offset size bytesRead : BitVec 32}
  {blockBuf : Buffer}

/-- The bytes one turn reads: up to the end of the block, or of the request. -/
theorem toNat_toRead (hsize : fs.SizeOk) (hlt : bytesRead < size) (pos : BitVec 32) :
    (if fs.blockSize - pos % fs.blockSize > size - bytesRead then size - bytesRead
      else fs.blockSize - pos % fs.blockSize).toNat =
      min (fs.blockSize.toNat - pos.toNat % fs.blockSize.toNat) (size.toNat - bytesRead.toNat) := by
  obtain ⟨-, -, hpos⟩ := hsize.sectors
  have hlt' : bytesRead.toNat < size.toNat := hlt
  have hrest : (size - bytesRead).toNat = size.toNat - bytesRead.toNat :=
    BitVec.toNat_sub_of_le (BitVec.le_def.mpr (Nat.le_of_lt hlt'))
  have hmod : (pos % fs.blockSize).toNat = pos.toNat % fs.blockSize.toNat := BitVec.toNat_umod
  have hmodlt : pos.toNat % fs.blockSize.toNat < fs.blockSize.toNat := Nat.mod_lt _ hpos
  have hblock : (fs.blockSize - pos % fs.blockSize).toNat =
      fs.blockSize.toNat - pos.toNat % fs.blockSize.toNat := by
    rw [BitVec.toNat_sub_of_le, hmod]
    rw [BitVec.le_def, hmod]
    exact hmodlt.le
  by_cases hgt : fs.blockSize - pos % fs.blockSize > size - bytesRead
  · have hgt' : (size - bytesRead).toNat < (fs.blockSize - pos % fs.blockSize).toNat := hgt
    rw [if_pos hgt]
    omega
  · have hgt' : ¬ (size - bytesRead).toNat < (fs.blockSize - pos % fs.blockSize).toNat := hgt
    rw [if_neg hgt]
    omega

theorem toNat_twelve (idx : BitVec 32) : idx < 12 ↔ idx.toNat < 12 := Iff.rfl

/-- **The loop over the blocks** reads the bytes that lie in direct blocks, up
    to the end of the request. -/
theorem ext2ReadLoop_eq (hup : disk.Up) (hsize : fs.SizeOk) {total : Nat}
    (htotal : total = min size.toNat (Ext2Inode.directEnd fs - offset.toNat)) (fuel : Nat)
    (hread : bytesRead.toNat ≤ total) (hfuel : total - bytesRead.toNat ≤ fuel) :
    ext2ReadLoop disk.read fs inode buffer offset size fuel bytesRead blockBuf =
      (BitVec.ofNat 32 total, storesAt (buffer + BitVec.ofNat 64 bytesRead.toNat)
        (total - bytesRead.toNat) fun i =>
          inode.fileByte fs disk.sectors (offset.toNat + (bytesRead.toNat + i))) := by
  obtain ⟨-, hsmall, hpos⟩ := hsize.sectors
  have hofNat : bytesRead.toNat = total → BitVec.ofNat 32 total = bytesRead := by
    intro heq
    rw [← heq, BitVec.ofNat_toNat, BitVec.setWidth_eq]
  have hdirect : Ext2Inode.directEnd fs = 12 * fs.blockSize.toNat := rfl
  induction fuel generalizing bytesRead blockBuf with
  | zero =>
    have heq : bytesRead.toNat = total := by omega
    rw [hofNat heq, heq, Nat.sub_self]
    rfl
  | succ fuel ih =>
    have hstop : bytesRead.toNat = total → (bytesRead, ([] : List Store)) =
        (BitVec.ofNat 32 total, storesAt (buffer + BitVec.ofNat 64 bytesRead.toNat)
          (total - bytesRead.toNat) fun i =>
            inode.fileByte fs disk.sectors (offset.toNat + (bytesRead.toNat + i))) := by
      intro heq
      rw [hofNat heq, heq, Nat.sub_self]
      rfl
    unfold ext2ReadLoop
    by_cases hlt : bytesRead < size
    · have hlt' : bytesRead.toNat < size.toNat := hlt
      rw [if_pos hlt]
      dsimp only
      have hidx : ((offset + bytesRead) / fs.blockSize).toNat =
          (offset + bytesRead).toNat / fs.blockSize.toNat := BitVec.toNat_udiv
      by_cases hend : bytesRead.toNat = total
      · -- the direct blocks are through
        have hat : Ext2Inode.directEnd fs ≤ (offset + bytesRead).toNat := by
          have hoffset := offset.isLt
          rw [BitVec.toNat_add]
          omega
        have hfar : ¬ (offset + bytesRead) / fs.blockSize < 12 := by
          rw [toNat_twelve, hidx, Nat.not_lt, Nat.le_div_iff_mul_le hpos]
          exact hat
        rw [if_neg hfar]
        exact hstop hend
      · have hsum : (offset + bytesRead).toNat = offset.toNat + bytesRead.toNat := by
          rw [BitVec.toNat_add]
          omega
        have hnear : (offset + bytesRead) / fs.blockSize < 12 := by
          rw [toNat_twelve, hidx, hsum, Nat.div_lt_iff_lt_mul hpos]
          omega
        have htoRead := toNat_toRead hsize hlt (offset + bytesRead)
        set toRead := if fs.blockSize - (offset + bytesRead) % fs.blockSize > size - bytesRead then
          size - bytesRead else fs.blockSize - (offset + bytesRead) % fs.blockSize with htr
        have hmod : ((offset + bytesRead) % fs.blockSize).toNat =
            (offset.toNat + bytesRead.toNat) % fs.blockSize.toNat := by
          rw [BitVec.toNat_umod, hsum]
        rw [hsum] at htoRead hidx
        obtain ⟨q, hq⟩ : ∃ q, q = (offset.toNat + bytesRead.toNat) / fs.blockSize.toNat := ⟨_, rfl⟩
        have hdivmod := Nat.div_add_mod (offset.toNat + bytesRead.toNat) fs.blockSize.toNat
        have hmodlt := Nat.mod_lt (offset.toNat + bytesRead.toNat) hpos
        rw [← hq, Nat.mul_comm] at hdivmod
        have hq12 : q < 12 := by
          rw [hq, ← hidx]
          exact hnear
        -- the turn ends in the block, so in the direct blocks
        have hblock : (q + 1) * fs.blockSize.toNat ≤ 12 * fs.blockSize.toNat :=
          Nat.mul_le_mul_right _ hq12
        rw [Nat.add_mul, Nat.one_mul] at hblock
        have hnext : (bytesRead + toRead).toNat = bytesRead.toNat + toRead.toNat := by
          rw [BitVec.toNat_add]
          omega
        have hturn : ∀ i < toRead.toNat,
            (offset.toNat + (bytesRead.toNat + i)) / fs.blockSize.toNat = q ∧
              (offset.toNat + (bytesRead.toNat + i)) % fs.blockSize.toNat =
                (offset.toNat + bytesRead.toNat) % fs.blockSize.toNat + i := by
          intro i hi
          have hsplit : offset.toNat + (bytesRead.toNat + i) =
              ((offset.toNat + bytesRead.toNat) % fs.blockSize.toNat + i) + q * fs.blockSize.toNat := by
            omega
          have hin : (offset.toNat + bytesRead.toNat) % fs.blockSize.toNat + i < fs.blockSize.toNat := by
            omega
          rw [hsplit, Nat.add_mul_div_right _ _ hpos, Nat.add_mul_mod_self_right, Nat.div_eq_of_lt hin,
            Nat.mod_eq_of_lt hin, Nat.zero_add]
          exact ⟨rfl, rfl⟩
        have hrest : ∀ buf, ext2ReadLoop disk.read fs inode buffer offset size fuel
            (bytesRead + toRead) buf = _ := fun buf =>
          @ih (bytesRead + toRead) buf (by omega) (by omega) fun heq => by
            rw [← heq, BitVec.ofNat_toNat, BitVec.setWidth_eq]
        have hdst : buffer + bytesRead.setWidth 64 = buffer + BitVec.ofNat 64 bytesRead.toNat := by
          rw [BitVec.ofNat_toNat]
        -- the stores of the turn, and those of the others
        have hjoin : ∀ g : Nat → BitVec 8, (∀ i < toRead.toNat,
              g i = inode.fileByte fs disk.sectors (offset.toNat + (bytesRead.toNat + i))) →
            storesAt (buffer + bytesRead.setWidth 64) toRead.toNat g ++
                storesAt (buffer + BitVec.ofNat 64 (bytesRead + toRead).toNat)
                  (total - (bytesRead + toRead).toNat) (fun i => inode.fileByte fs disk.sectors
                    (offset.toNat + ((bytesRead + toRead).toNat + i))) =
              storesAt (buffer + BitVec.ofNat 64 bytesRead.toNat) (total - bytesRead.toNat)
                (fun i => inode.fileByte fs disk.sectors (offset.toNat + (bytesRead.toNat + i))) := by
          intro g hg
          have hlen : total - bytesRead.toNat = toRead.toNat + (total - (bytesRead + toRead).toNat) := by
            omega
          rw [hlen, storesAt_add, hdst, storesAt_congr rfl hg, hnext, BitVec.ofNat_add, BitVec.add_assoc]
          congr 1
          refine storesAt_congr rfl fun i _ => ?_
          rw [Nat.add_assoc]
        have hphysical : inode.block ((offset + bytesRead) / fs.blockSize).toNat =
            inode.block q := by
          rw [hidx, hq]
        rw [if_pos hnear, hphysical]
        by_cases hhole : inode.block q = 0
        · rw [if_pos hhole, hrest]
          refine Prod.ext rfl (hjoin _ fun i hi => ?_)
          unfold Ext2Inode.fileByte
          rw [(hturn i hi).1]
          dsimp only
          rw [if_pos hhole]
        · rw [if_neg hhole, hrest]
          refine Prod.ext rfl (hjoin _ fun i hi => ?_)
          unfold Ext2Inode.fileByte
          rw [(hturn i hi).1, (hturn i hi).2]
          dsimp only
          rw [if_neg hhole, readBlock_byte hup hsize, hmod, if_pos (by omega)]
    · have heq : bytesRead.toNat = total := by
        have hge : size.toNat ≤ bytesRead.toNat := Nat.le_of_not_lt hlt
        omega
      rw [if_neg hlt]
      exact hstop heq

end Loop

/-! ## §3. A request. -/

/-- **The request is answered**: the bytes of the file in the range asked for
    that lie in direct blocks are stored from `buffer` on, and counted. -/
structure ReadExact (sectors : BitVec 32 → Sector) (fs : Ext2) (inode : Ext2Inode)
    (offset size : BitVec 32) (buffer : Word) (r : BitVec 32 × List Store) : Prop where
  count : r.1.toNat = inode.available fs offset.toNat size.toNat
  stores : r.2 = storesAt buffer r.1.toNat fun i => inode.fileByte fs sectors (offset.toNat + i)
  /-- No byte behind the request or behind the end of the file. -/
  inRequest : r.1.toNat ≤ size.toNat
  inFile : 0 < r.1.toNat → offset.toNat + r.1.toNat ≤ inode.size.toNat

section Request

variable {disk : AtaDisk} {fs : Ext2} {inode : Ext2Inode} {offset size : BitVec 32}

/-- The loop answers a request that ends with the file or before. -/
theorem readExact_of_count {buffer : Word} {r : BitVec 32 × List Store}
    (hcount : r.1.toNat = inode.available fs offset.toNat size.toNat)
    (hstores : r.2 = storesAt buffer r.1.toNat fun i =>
      inode.fileByte fs disk.sectors (offset.toNat + i)) :
    ReadExact disk.sectors fs inode offset size buffer r := by
  refine ⟨hcount, hstores, ?_, fun hpos => ?_⟩
  · rw [hcount]
    unfold Ext2Inode.available
    omega
  · rw [hcount] at hpos ⊢
    unfold Ext2Inode.available at hpos ⊢
    omega

variable (inode) in
/-- What the loop reads from the start of a request. -/
theorem ext2ReadLoop_start (hup : disk.Up) (hsize : fs.SizeOk) (offset size : BitVec 32)
    (blockBuf : Buffer) (buffer : Word) :
    let r := ext2ReadLoop disk.read fs inode buffer offset size size.toNat 0 blockBuf
    r.1.toNat = min size.toNat (Ext2Inode.directEnd fs - offset.toNat) ∧
      r.2 = storesAt buffer r.1.toNat fun i => inode.fileByte fs disk.sectors (offset.toNat + i) := by
  intro r
  have hsmall := size.isLt
  have hloop : r = _ := @ext2ReadLoop_eq disk fs inode buffer offset size 0 blockBuf hup hsize _ rfl
    size.toNat (Nat.zero_le _) (by omega)
  have hcount : r.1.toNat = min size.toNat (Ext2Inode.directEnd fs - offset.toNat) := by
    rw [hloop]
    show (BitVec.ofNat 32 _).toNat = _
    rw [BitVec.toNat_ofNat, Nat.mod_eq_of_lt (by omega)]
  refine ⟨hcount, ?_⟩
  rw [hcount, hloop]
  have hzero : (0 : BitVec 32).toNat = 0 := rfl
  simp only [hzero, BitVec.add_zero, Nat.sub_zero, Nat.zero_add]

/-- **Reading with the inode at hand.** -/
theorem ext2ReadInode_iff (hup : disk.Up) (hsize : fs.SizeOk) (blockBuf : Buffer) (buffer : Word) :
    ReadExact disk.sectors fs inode offset size buffer
        (ext2ReadInode disk.read fs inode blockBuf offset size buffer) ↔
      offset.toNat + size.toNat < 2 ^ 32 ∨ inode.size.toNat ≤ offset.toNat ∨
        Ext2Inode.directEnd fs ≤ inode.size.toNat := by
  obtain ⟨-, hsmall, -⟩ := hsize.sectors
  have hdirect : Ext2Inode.directEnd fs = 12 * fs.blockSize.toNat := rfl
  have hoffset := offset.isLt
  have hfile := inode.size.isLt
  unfold ext2ReadInode
  by_cases hbehind : offset ≥ inode.size
  · -- nothing to read behind the end of the file
    have hbehind' : inode.size.toNat ≤ offset.toNat := hbehind
    rw [if_pos hbehind]
    refine iff_of_true (readExact_of_count ?_ rfl) (.inr (.inl hbehind'))
    show 0 = _
    unfold Ext2Inode.available
    omega
  · have hbefore : offset.toNat < inode.size.toNat := Nat.lt_of_not_le hbehind
    rw [if_neg hbehind]
    dsimp only
    by_cases hclamp : offset + size > inode.size
    · have hclamp' : inode.size.toNat < (offset + size).toNat := hclamp
      rw [BitVec.toNat_add] at hclamp'
      -- a sum that has wrapped around is less than `offset`
      have hnowrap : offset.toNat + size.toNat < 2 ^ 32 := by
        have hlt := size.isLt
        omega
      rw [if_pos hclamp]
      have hrest : (inode.size - offset).toNat = inode.size.toNat - offset.toNat :=
        BitVec.toNat_sub_of_le (BitVec.le_def.mpr hbefore.le)
      obtain ⟨hcount, hstores⟩ := ext2ReadLoop_start inode hup hsize offset (inode.size - offset) blockBuf
        buffer
      refine iff_of_true (readExact_of_count ?_ hstores) (.inl hnowrap)
      rw [hcount, hrest]
      unfold Ext2Inode.available
      omega
    · have hfits : (offset.toNat + size.toNat) % 2 ^ 32 ≤ inode.size.toNat := by
        rw [← BitVec.toNat_add]
        exact Nat.le_of_not_lt hclamp
      rw [if_neg hclamp]
      obtain ⟨hcount, hstores⟩ := ext2ReadLoop_start inode hup hsize offset size blockBuf buffer
      constructor
      · intro hexact
        have hmany := hexact.count
        rw [hcount] at hmany
        unfold Ext2Inode.available at hmany
        omega
      · intro hcond
        refine readExact_of_count ?_ hstores
        rw [hcount]
        unfold Ext2Inode.available
        omega

/-- **Reading a file.**  Take any disk, any inode number, blocks of 1024 to 4096
    bytes, and any offset and size.  The request is answered exactly if its end
    fits in 32 bits, or it starts behind the end of the file, or the direct
    blocks end before the file does. -/
theorem ext2_read_iff (hup : disk.Up) (hsize : fs.SizeOk) (bgdtBuf inodeBuf blockBuf : Buffer)
    (node : BitVec 32) (buffer : Word) :
    let inode := inodeOf (readInode disk.read fs bgdtBuf inodeBuf node).val
    ReadExact disk.sectors fs inode offset size buffer
        (ext2Read disk.read fs bgdtBuf inodeBuf blockBuf node offset size buffer) ↔
      offset.toNat + size.toNat < 2 ^ 32 ∨ inode.size.toNat ≤ offset.toNat ∨
        Ext2Inode.directEnd fs ≤ inode.size.toNat := by
  intro inode
  exact ext2ReadInode_iff hup hsize blockBuf buffer

end Request

/-! ## §4. An example. -/

/-- A disk on which every inode is that of a file of two bytes, in a hole. -/
def twoByteDisk : AtaDisk where
  sectors := fun _ i => if i.val % 128 = 4 then 2 else 0
  answers := fun _ => true

/-- A request for the first byte. -/
theorem ext2_read_twoByte :
    ReadExact twoByteDisk.sectors smallExt2
      (inodeOf (readInode twoByteDisk.read smallExt2 (fun _ => 0) (fun _ => 0) 2).val) 0 1 0x400000
      (ext2Read twoByteDisk.read smallExt2 (fun _ => 0) (fun _ => 0) (fun _ => 0) 2 0 1 0x400000) :=
  (ext2_read_iff (fun _ => rfl) (.inl rfl) _ _ _ 2 0x400000).mpr (.inl (by decide))

/-- **A request for all but one byte of 4 GiB, from the second byte on**, is
    filled up with bytes from behind the end of the file. -/
theorem ext2_read_behind_end :
    ¬ ReadExact twoByteDisk.sectors smallExt2
      (inodeOf (readInode twoByteDisk.read smallExt2 (fun _ => 0) (fun _ => 0) 2).val) 1 0xFFFFFFFF
      0x400000
      (ext2Read twoByteDisk.read smallExt2 (fun _ => 0) (fun _ => 0) (fun _ => 0) 2 1 0xFFFFFFFF
        0x400000) := by
  intro hexact
  have hcond := (ext2ReadInode_iff (fun _ => rfl) (.inl rfl) _ _).mp hexact
  have hsize : (inodeOf (readInode twoByteDisk.read smallExt2 (fun _ => 0) (fun _ => 0) 2).val).size = 2 :=
    by decide
  rw [hsize] at hcond
  revert hcond
  decide

end ZohoOs
