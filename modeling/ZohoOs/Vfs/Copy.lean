/-
  ZohoOs.Vfs.Copy — the copying loops, in bytes (vfs.c).

  The disk is read as one long string of bytes.  In these terms both copying
  loops are simple: `vfs_read` stores the bytes from the descriptor's offset
  on, `vfs_write` replaces them, whatever the sectors they lie in.

  Main results:
    * `vfsReadLoop_eq` — the stores of `vfs_read`;
    * `vfsWriteLoop_spec` — the disk after `vfs_write`.
-/
import ZohoOs.Tar.Decode
import ZohoOs.Vfs.Files

namespace ZohoOs

open ZohoOs.Lib

/-! ## §1. Reading. -/

theorem storesAt_congr {a : Word} {m n : Nat} {b b' : Nat → BitVec 8} (hmn : m = n)
    (h : ∀ i < n, b i = b' i) : storesAt a m b = storesAt a n b' := by
  rw [hmn]
  unfold storesAt
  apply List.map_congr_left
  intro i hi
  rw [h i (List.mem_range.mp hi)]

theorem storesAt_add (a : Word) (m n : Nat) (b : Nat → BitVec 8) :
    storesAt a (m + n) b =
      storesAt a m b ++ storesAt (a + BitVec.ofNat 64 m) n fun i => b (m + i) := by
  unfold storesAt
  rw [List.range_add, List.map_append, List.map_map]
  congr 1
  apply List.map_congr_left
  intro i _
  show (a + BitVec.ofNat 64 (m + i), b (m + i)) = _
  rw [BitVec.ofNat_add, ← BitVec.add_assoc]

section

variable {startLba offset : BitVec 32}

theorem sector_number (startLba offset : BitVec 32) :
    startLba + offset / 512 = BitVec.ofNat 32 (startLba.toNat + offset.toNat / 512) := by
  apply BitVec.eq_of_toNat_eq
  have hdiv : (offset / 512).toNat = offset.toNat / 512 := BitVec.toNat_udiv
  rw [BitVec.toNat_add, hdiv, BitVec.toNat_ofNat]

/-- The sector that an offset lies in holds the bytes there. -/
theorem sector_byte (sectors : BitVec 32 → Sector) {i : Nat} (hi : offset.toNat % 512 + i < 512) :
    (sectors (startLba + offset / 512)).byte (offset.toNat % 512 + i) =
      diskByte sectors (512 * startLba.toNat + offset.toNat + i) := by
  rw [sector_number, byte_sector sectors _ hi]
  congr 1
  omega

theorem toNat_offset_mod (offset : BitVec 32) : (offset % 512).toNat = offset.toNat % 512 :=
  BitVec.toNat_umod

end

/-- **The copying loop of `vfs_read`** stores the bytes of the disk. -/
theorem vfsReadLoop_eq {disk : AtaDisk} (hup : disk.Up) (buffer : Word)
    (startLba : BitVec 32) {count bytesRead offset : BitVec 32} (sectorBuf : Sector) {o : Nat} (fuel : Nat)
    (ho : offset.toNat = o + bytesRead.toNat) (hle : bytesRead.toNat ≤ count.toNat)
    (hend : o + count.toNat < 2 ^ 32)
    (hfuel : count.toNat - bytesRead.toNat ≤ fuel) :
    vfsReadLoop disk.read buffer startLba count fuel bytesRead offset sectorBuf =
      (count, storesAt (buffer + BitVec.ofNat 64 bytesRead.toNat)
        (count.toNat - bytesRead.toNat) fun i =>
          diskByte disk.sectors (512 * startLba.toNat + offset.toNat + i)) := by
  induction fuel generalizing bytesRead offset sectorBuf with
  | zero =>
    have heq : bytesRead.toNat = count.toNat := by omega
    rw [show count.toNat - bytesRead.toNat = 0 by omega, ← BitVec.eq_of_toNat_eq heq]
    rfl
  | succ fuel ih =>
    unfold vfsReadLoop
    by_cases hlt : bytesRead < count
    · have hlt' : bytesRead.toNat < count.toNat := hlt
      have hcopy : (if 512 - offset % 512 > count - bytesRead then count - bytesRead
          else 512 - offset % 512).toNat = _ := toNat_toCopy hlt
      rw [if_pos hlt]
      dsimp only
      generalize (if 512 - offset % 512 > count - bytesRead then count - bytesRead
        else 512 - offset % 512) = toCopy at hcopy
      have hbytes := toNat_add_copied hlt hcopy
      have hoff := toNat_offset_add hlt hcopy ho hend
      have hdst : bytesRead.setWidth 64 = BitVec.ofNat 64 bytesRead.toNat := by
        apply BitVec.eq_of_toNat_eq
        rw [BitVec.toNat_setWidth, BitVec.toNat_ofNat]
      -- the stores of this turn, followed by those of the rest
      have hsplit : storesAt (buffer + BitVec.ofNat 64 bytesRead.toNat)
          (count.toNat - bytesRead.toNat) (fun i =>
            diskByte disk.sectors (512 * startLba.toNat + offset.toNat + i)) =
          storesAt (buffer + BitVec.ofNat 64 bytesRead.toNat) toCopy.toNat (fun i =>
            diskByte disk.sectors (512 * startLba.toNat + offset.toNat + i)) ++
          storesAt (buffer + BitVec.ofNat 64 (bytesRead + toCopy).toNat)
            (count.toNat - (bytesRead + toCopy).toNat) fun i =>
              diskByte disk.sectors (512 * startLba.toNat + (offset + toCopy).toNat + i) := by
        rw [show count.toNat - bytesRead.toNat =
          toCopy.toNat + (count.toNat - (bytesRead + toCopy).toNat) by omega, storesAt_add, hbytes,
          hoff, BitVec.ofNat_add, ← BitVec.add_assoc]
        simp only [Nat.add_assoc]
      have hrest : ∀ buf, vfsReadLoop disk.read buffer startLba count fuel (bytesRead + toCopy)
          (offset + toCopy) buf = _ := fun buf => ih buf (by omega) (by omega) (by omega)
      have hthis : ∀ i < toCopy.toNat,
          (disk.sectors (startLba + offset / 512)).byte (offset.toNat % 512 + i) =
            diskByte disk.sectors (512 * startLba.toNat + offset.toNat + i) :=
        fun i hi => sector_byte disk.sectors (by omega)
      rw [hup.read, hdst]
      by_cases hfull : offset % 512 = 0 ∧ toCopy = 512
      · have h512 : toCopy.toNat = 512 := congrArg BitVec.toNat hfull.2
        have hzero : offset.toNat % 512 = 0 :=
          (toNat_offset_mod offset).symm.trans (congrArg BitVec.toNat hfull.1)
        rw [if_pos hfull, hrest, hsplit, Option.map_some, Option.getD_some]
        have hstores : storesAt (buffer + BitVec.ofNat 64 bytesRead.toNat) 512
            (disk.sectors (startLba + offset / 512)).byte =
            storesAt (buffer + BitVec.ofNat 64 bytesRead.toNat) toCopy.toNat fun i =>
              diskByte disk.sectors (512 * startLba.toNat + offset.toNat + i) := by
          apply storesAt_congr h512.symm
          intro i hi
          have hbyte := hthis i (by omega)
          rw [hzero, Nat.zero_add] at hbyte
          exact hbyte
        rw [← hstores]
        rfl
      · rw [if_neg hfull, hrest, hsplit, Option.getD_some, toNat_offset_mod]
        congr 2
        apply storesAt_congr rfl
        intro i hi
        exact hthis i hi
    · have heq : bytesRead.toNat = count.toNat := by
        have hnlt : ¬ bytesRead.toNat < count.toNat := hlt
        omega
      rw [if_neg hlt, show count.toNat - bytesRead.toNat = 0 by omega, ← BitVec.eq_of_toNat_eq heq]
      rfl

/-! ## §2. Writing. -/

/-- The bytes of the disk, after a sector was written. -/
theorem diskByte_update {sectors : BitVec 32 → Sector} {lba : Nat} (hlba : lba < 2 ^ 32)
    (buffer : Sector) {a : Nat} (ha : a < 2 ^ 41) :
    diskByte (Function.update sectors (BitVec.ofNat 32 lba) buffer) a =
      if 512 * lba ≤ a ∧ a < 512 * lba + 512 then buffer.byte (a - 512 * lba)
      else diskByte sectors a := by
  have hsame : BitVec.ofNat 32 (a / 512) = BitVec.ofNat 32 lba ↔ a / 512 = lba := by
    constructor
    · intro h
      have hnat := congrArg BitVec.toNat h
      rw [BitVec.toNat_ofNat, BitVec.toNat_ofNat, Nat.mod_eq_of_lt hlba,
        Nat.mod_eq_of_lt (by omega)] at hnat
      exact hnat
    · intro h
      rw [h]
  unfold diskByte
  by_cases hin : 512 * lba ≤ a ∧ a < 512 * lba + 512
  · have hdiv : a / 512 = lba := by omega
    rw [if_pos hin, hsame.mpr hdiv, Function.update_self, show a % 512 = a - 512 * lba by omega]
  · rw [if_neg hin, Function.update_of_ne (mt hsame.mp (by omega))]

theorem patch_byte (s : Sector) (o n : Nat) (b : Nat → BitVec 8) {i : Nat} (hi : i < 512) :
    (s.patch o n b).byte i = if o ≤ i ∧ i < o + n then b (i - o) else s.byte i := by
  unfold Sector.patch Sector.byte
  dsimp only
  simp only [Nat.mod_eq_of_lt hi]

/-- What the copying loop of `vfs_write` leaves behind. -/
structure Written (disk disk' : AtaDisk) (cache : SectorCache) (lo hi : Nat)
    (b : Nat → BitVec 8) : Prop where
  up : disk'.Up
  agrees : cache.Agrees disk'
  bytes : ∀ a < 2 ^ 41, diskByte disk'.sectors a =
    if lo ≤ a ∧ a < hi then b (a - lo) else diskByte disk.sectors a

/-- **The copying loop of `vfs_write`** replaces bytes of the disk. -/
theorem vfsWriteLoop_spec (mem : Mem) (buffer : Word)
    (startLba : BitVec 32) {count bytesWritten offset : BitVec 32} (sectorBuf : Sector) {disk : AtaDisk}
    {cache : SectorCache} {o : Nat} (fuel : Nat) (hup : disk.Up) (hagrees : cache.Agrees disk)
    (ho : offset.toNat = o + bytesWritten.toNat) (hle : bytesWritten.toNat ≤ count.toNat)
    (hend : o + count.toNat < 2 ^ 32)
    (hlba : startLba.toNat + (o + count.toNat) / 512 < 2 ^ 32)
    (hfuel : count.toNat - bytesWritten.toNat ≤ fuel) :
    let r := vfsWriteLoop mem buffer startLba count fuel bytesWritten offset sectorBuf disk cache
    r.1 = count ∧ Written disk r.2.1 r.2.2 (512 * startLba.toNat + offset.toNat)
      (512 * startLba.toNat + o + count.toNat) fun i =>
        mem (buffer + BitVec.ofNat 64 (bytesWritten.toNat + i)) := by
  induction fuel generalizing bytesWritten offset sectorBuf disk cache with
  | zero =>
    have heq : bytesWritten.toNat = count.toNat := by omega
    refine ⟨BitVec.eq_of_toNat_eq heq, hup, hagrees, fun a _ => ?_⟩
    rw [if_neg (by omega)]
    rfl
  | succ fuel ih =>
    unfold vfsWriteLoop
    by_cases hlt : bytesWritten < count
    · have hlt' : bytesWritten.toNat < count.toNat := hlt
      have hcopy : (if 512 - offset % 512 > count - bytesWritten then count - bytesWritten
          else 512 - offset % 512).toNat = _ := toNat_toCopy hlt
      rw [if_pos hlt]
      dsimp only
      generalize (if 512 - offset % 512 > count - bytesWritten then count - bytesWritten
        else 512 - offset % 512) = toWrite at hcopy
      have hbytes := toNat_add_copied hlt hcopy
      have hoff := toNat_offset_add hlt hcopy ho hend
      have hsrc : bytesWritten.setWidth 64 = BitVec.ofNat 64 bytesWritten.toNat := by
        apply BitVec.eq_of_toNat_eq
        rw [BitVec.toNat_setWidth, BitVec.toNat_ofNat]
      rw [hup.read, Option.getD_some, toNat_offset_mod, sector_number, hsrc]
      generalize hlba' : startLba.toNat + offset.toNat / 512 = lba
      generalize hpatch : Sector.patch (disk.sectors (BitVec.ofNat 32 lba)) (offset.toNat % 512)
        toWrite.toNat _ = buf
      have hlt32 : lba < 2 ^ 32 := by omega
      -- the disk and the cache after this turn
      have hwrite : cachedWriteSector disk (BitVec.ofNat 32 lba) buf =
          (⟨Function.update disk.sectors (BitVec.ofNat 32 lba) buf, disk.answers⟩,
            ⟨BitVec.ofNat 32 lba, buf, true⟩) := by
        unfold cachedWriteSector AtaDisk.write
        rw [if_pos (hup _)]
      have hagrees' : SectorCache.Agrees ⟨BitVec.ofNat 32 lba, buf, true⟩
          ⟨Function.update disk.sectors (BitVec.ofNat 32 lba) buf, disk.answers⟩ := by
        intro _
        show buf = Function.update disk.sectors (BitVec.ofNat 32 lba) buf (BitVec.ofNat 32 lba)
        rw [Function.update_self]
      have hup' : AtaDisk.Up ⟨Function.update disk.sectors (BitVec.ofNat 32 lba) buf, disk.answers⟩ :=
        hup
      have hturn : ∀ a < 2 ^ 41,
          diskByte (Function.update disk.sectors (BitVec.ofNat 32 lba) buf) a =
          if 512 * startLba.toNat + offset.toNat ≤ a ∧
              a < 512 * startLba.toNat + offset.toNat + toWrite.toNat then
            mem (buffer + BitVec.ofNat 64 (bytesWritten.toNat +
              (a - (512 * startLba.toNat + offset.toNat))))
          else diskByte disk.sectors a := by
        intro a ha
        rw [diskByte_update hlt32 _ ha]
        by_cases hin : 512 * lba ≤ a ∧ a < 512 * lba + 512
        · rw [if_pos hin, ← hpatch, patch_byte _ _ _ _ (by omega), byte_sector _ _ (by omega),
            Nat.add_sub_cancel' hin.1]
          by_cases hnow : 512 * startLba.toNat + offset.toNat ≤ a ∧
              a < 512 * startLba.toNat + offset.toNat + toWrite.toNat
          · rw [if_pos hnow, if_pos (by omega), BitVec.add_assoc, ← BitVec.ofNat_add]
            congr 3
            omega
          · rw [if_neg hnow, if_neg (by omega)]
        · rw [if_neg hin, if_neg (by omega)]
      rw [hwrite]
      dsimp only
      obtain ⟨hcount, hrest⟩ := ih buf hup' hagrees'
        (show (offset + toWrite).toNat = o + (bytesWritten + toWrite).toNat by omega) (by omega)
        (by omega)
      refine ⟨hcount, hrest.up, hrest.agrees, fun a ha => ?_⟩
      rw [hrest.bytes a ha, hturn a ha, hbytes, hoff]
      by_cases hlater : 512 * startLba.toNat + (offset.toNat + toWrite.toNat) ≤ a ∧
          a < 512 * startLba.toNat + o + count.toNat
      · rw [if_pos hlater, if_pos (by omega)]
        congr 3
        omega
      · rw [if_neg hlater]
        by_cases hnow : 512 * startLba.toNat + offset.toNat ≤ a ∧
            a < 512 * startLba.toNat + offset.toNat + toWrite.toNat
        · rw [if_pos hnow, if_pos (by omega)]
        · rw [if_neg hnow, if_neg (by omega)]
    · have heq : bytesWritten.toNat = count.toNat := by
        have hnlt : ¬ bytesWritten.toNat < count.toNat := hlt
        omega
      rw [if_neg hlt]
      refine ⟨BitVec.eq_of_toNat_eq heq, hup, hagrees, fun a _ => ?_⟩
      rw [if_neg (by omega)]

/-! ## §3. The calls, on an open descriptor. -/

section

variable {fds : FdTable} {fd : BitVec 32} {lba size off : Nat}

/-- `if (count > rest) count = rest`. -/
theorem clamp_count (count : BitVec 32) {rest : BitVec 32} {n : Nat}
    (hn : n = min count.toNat rest.toNat) :
    (if count > rest then rest else count) = BitVec.ofNat 32 n := by
  apply BitVec.eq_of_toNat_eq
  have hlt := count.isLt
  rw [BitVec.toNat_ofNat, Nat.mod_eq_of_lt (by omega)]
  by_cases hgt : count > rest
  · have hgt' : rest.toNat < count.toNat := hgt
    rw [if_pos hgt]
    omega
  · have hgt' : ¬ rest.toNat < count.toNat := hgt
    rw [if_neg hgt]
    omega

/-- `vfs_read`, through an open descriptor. -/
theorem vfsRead_eq {disk : AtaDisk} (hup : disk.Up) (hfd : fd.toNat < maxFds)
    (he : fds ⟨fd.toNat, hfd⟩ = ⟨BitVec.ofNat 32 lba, BitVec.ofNat 32 size, BitVec.ofNat 32 off, true⟩)
    (hlba : lba < 2 ^ 32) (hsize : size < 2 ^ 32) (hoff : off ≤ size) (buffer : Word)
    (count : BitVec 32) (sectorBuf : Sector) :
    let n := min count.toNat (size - off)
    vfsRead disk.read fds fd buffer count sectorBuf =
      (BitVec.ofNat 32 n,
        Function.update fds ⟨fd.toNat, hfd⟩
          ⟨BitVec.ofNat 32 lba, BitVec.ofNat 32 size, BitVec.ofNat 32 (off + n), true⟩,
        storesAt buffer n fun j => diskByte disk.sectors (512 * lba + (off + j))) := by
  have hsizeval : (BitVec.ofNat 32 size).toNat = size := Nat.mod_eq_of_lt hsize
  have hoffval : (BitVec.ofNat 32 off).toNat = off := Nat.mod_eq_of_lt (by omega)
  have hlbaval : (BitVec.ofNat 32 lba).toNat = lba := Nat.mod_eq_of_lt hlba
  intro n
  unfold vfsRead
  rw [dif_pos hfd, he]
  dsimp only
  rw [if_neg (by decide)]
  by_cases hend : BitVec.ofNat 32 off ≥ BitVec.ofNat 32 size
  · have hle : size ≤ off := by
      have hle' : (BitVec.ofNat 32 size).toNat ≤ (BitVec.ofNat 32 off).toNat := hend
      rw [hsizeval, hoffval] at hle'
      exact hle'
    have hn : n = 0 := by omega
    rw [if_pos hend, hn, Nat.add_zero, ← he, Function.update_eq_self]
    rfl
  · have hrest : (BitVec.ofNat 32 size - BitVec.ofNat 32 off).toNat = size - off := by
      rw [BitVec.toNat_sub_of_le (BitVec.le_def.mpr (by omega)), hsizeval, hoffval]
    have hcount : (if count > BitVec.ofNat 32 size - BitVec.ofNat 32 off then
        BitVec.ofNat 32 size - BitVec.ofNat 32 off else count) = BitVec.ofNat 32 n := by
      apply clamp_count
      rw [hrest]
    have hnval : (BitVec.ofNat 32 n).toNat = n := Nat.mod_eq_of_lt (by omega)
    have hzero : (0 : BitVec 32).toNat = 0 := rfl
    have hloop := vfsReadLoop_eq hup buffer (BitVec.ofNat 32 lba) sectorBuf n
      (show (BitVec.ofNat 32 off).toNat = off + (0 : BitVec 32).toNat by omega)
      (show (0 : BitVec 32).toNat ≤ (BitVec.ofNat 32 n).toNat by omega) (by omega) (by omega)
    rw [hlbaval, hoffval, hnval, hzero, Nat.sub_zero] at hloop
    rw [if_neg hend, hcount, hnval, hloop, ← BitVec.ofNat_add]
    simp only [Nat.add_assoc]
    rw [show buffer + BitVec.ofNat 64 0 = buffer from BitVec.add_zero _]

/-- `vfs_read`, through a descriptor that is not open. -/
theorem vfsRead_closed (ata : AtaRead) (buffer : Word) (count : BitVec 32) (sectorBuf : Sector)
    (h : ∀ hfd : fd.toNat < maxFds, (fds ⟨fd.toNat, hfd⟩).inUse = false) :
    vfsRead ata fds fd buffer count sectorBuf = (-1, fds, []) := by
  unfold vfsRead
  by_cases hfd : fd.toNat < maxFds
  · have huse := h hfd
    rw [dif_pos hfd]
    dsimp only
    rw [huse, if_pos (by decide)]
  · rw [dif_neg hfd]

/-- `vfs_write`, through an open descriptor. -/
theorem vfsWrite_spec {v : Vfs} (hup : v.disk.Up) (hagrees : v.tar.cache.Agrees v.disk)
    (hfd : fd.toNat < maxFds)
    (he : v.fds ⟨fd.toNat, hfd⟩ =
      ⟨BitVec.ofNat 32 lba, BitVec.ofNat 32 size, BitVec.ofNat 32 off, true⟩)
    (hlba : lba + size / 512 < 2 ^ 32) (hsize : size < 2 ^ 32) (hoff : off ≤ size) (mem : Mem)
    (buffer : Word) {count : BitVec 32} (hend : off + count.toNat < 2 ^ 32) (sectorBuf : Sector) :
    let n := min count.toNat (size - off)
    let r := vfsWrite v mem fd buffer count sectorBuf
    r.1 = BitVec.ofNat 32 n ∧
      r.2.fds = Function.update v.fds ⟨fd.toNat, hfd⟩
        ⟨BitVec.ofNat 32 lba, BitVec.ofNat 32 size, BitVec.ofNat 32 (off + n), true⟩ ∧
      r.2.tar.tarStartLba = v.tar.tarStartLba ∧
      Written v.disk r.2.disk r.2.tar.cache (512 * lba + off) (512 * lba + off + n) fun i =>
        mem (buffer + BitVec.ofNat 64 i) := by
  have hsizeval : (BitVec.ofNat 32 size).toNat = size := Nat.mod_eq_of_lt hsize
  have hoffval : (BitVec.ofNat 32 off).toNat = off := Nat.mod_eq_of_lt (by omega)
  have hlbaval : (BitVec.ofNat 32 lba).toNat = lba := Nat.mod_eq_of_lt (by omega)
  have hrest : (BitVec.ofNat 32 size - BitVec.ofNat 32 off).toNat = size - off := by
    rw [BitVec.toNat_sub_of_le (BitVec.le_def.mpr (by omega)), hsizeval, hoffval]
  intro n r
  have hnval : (BitVec.ofNat 32 n).toNat = n := Nat.mod_eq_of_lt (by omega)
  -- the 32-bit comparison clamps the count as the sum of the naturals does, because it does not wrap
  have hcount : (if BitVec.ofNat 32 off + count > BitVec.ofNat 32 size then
      BitVec.ofNat 32 size - BitVec.ofNat 32 off else count) = BitVec.ofNat 32 n := by
    have hsum : (BitVec.ofNat 32 off + count).toNat = off + count.toNat := by
      rw [BitVec.toNat_add, hoffval, Nat.mod_eq_of_lt hend]
    have hiff : BitVec.ofNat 32 off + count > BitVec.ofNat 32 size ↔
        count > BitVec.ofNat 32 size - BitVec.ofNat 32 off := by
      show (BitVec.ofNat 32 size).toNat < (BitVec.ofNat 32 off + count).toNat ↔
        (BitVec.ofNat 32 size - BitVec.ofNat 32 off).toNat < count.toNat
      rw [hsum, hsizeval, hrest]
      omega
    rw [if_congr hiff rfl rfl]
    apply clamp_count
    rw [hrest]
  have hzero : (0 : BitVec 32).toNat = 0 := rfl
  have hloop := vfsWriteLoop_spec mem buffer (BitVec.ofNat 32 lba) sectorBuf n hup hagrees
    (show (BitVec.ofNat 32 off).toNat = off + (0 : BitVec 32).toNat by omega)
    (show (0 : BitVec 32).toNat ≤ (BitVec.ofNat 32 n).toNat by omega) (by omega) (by
      rw [hlbaval, hnval]
      omega) (by omega)
  dsimp only at hloop
  rw [hlbaval, hoffval, hnval] at hloop
  simp only [hzero, Nat.zero_add] at hloop
  have hr : r = ((vfsWriteLoop mem buffer (BitVec.ofNat 32 lba) (BitVec.ofNat 32 n) n 0
      (BitVec.ofNat 32 off) sectorBuf v.disk v.tar.cache).1,
      { disk := (vfsWriteLoop mem buffer (BitVec.ofNat 32 lba) (BitVec.ofNat 32 n) n 0
          (BitVec.ofNat 32 off) sectorBuf v.disk v.tar.cache).2.1
        tar := { v.tar with cache := (vfsWriteLoop mem buffer (BitVec.ofNat 32 lba)
          (BitVec.ofNat 32 n) n 0 (BitVec.ofNat 32 off) sectorBuf v.disk v.tar.cache).2.2 }
        fds := Function.update v.fds ⟨fd.toNat, hfd⟩
          ⟨BitVec.ofNat 32 lba, BitVec.ofNat 32 size, BitVec.ofNat 32 (off + n), true⟩ }) := by
    show vfsWrite v mem fd buffer count sectorBuf = _
    unfold vfsWrite
    rw [dif_pos hfd, he]
    dsimp only
    rw [if_neg (by decide), hcount, hnval, ← BitVec.ofNat_add]
  rw [hr]
  exact ⟨hloop.1, rfl, rfl, hloop.2⟩

/-- `vfs_write`, through a descriptor that is not open. -/
theorem vfsWrite_closed {v : Vfs} (mem : Mem) (buffer : Word) (count : BitVec 32)
    (sectorBuf : Sector) (h : ∀ hfd : fd.toNat < maxFds, (v.fds ⟨fd.toNat, hfd⟩).inUse = false) :
    vfsWrite v mem fd buffer count sectorBuf = (-1, v) := by
  unfold vfsWrite
  by_cases hfd : fd.toNat < maxFds
  · have huse := h hfd
    rw [dif_pos hfd]
    dsimp only
    rw [huse, if_pos (by decide)]
  · rw [dif_neg hfd]

end

end ZohoOs
