/-
  ZohoOs.Tar.Basic — the archive on the disk (tar.c, ata.c).

  Headers are read through a cache of one sector; `cached_write_sector` keeps
  it up to date.  Both searches walk from header to header, and give up 20000
  sectors behind the start.

  The ATA driver may time out without an error code: a device answers for
  some sectors only.  A header without a NUL byte is taken to end with its
  sector.
-/
import ZohoOs.Vfs.Basic

namespace ZohoOs

open ZohoOs.Lib

/-! ## §1. The device and the sector cache. -/

/-- The sectors of the device, and those that it answers for. -/
structure AtaDisk where
  sectors : BitVec 32 → Sector
  answers : BitVec 32 → Bool

namespace AtaDisk

/-- `ata_read_sector`. -/
def read (disk : AtaDisk) : AtaRead := fun lba =>
  if disk.answers lba then some (disk.sectors lba) else none

/-- `ata_write_sector`. -/
def write (disk : AtaDisk) (lba : BitVec 32) (buffer : Sector) : AtaDisk :=
  if disk.answers lba then { disk with sectors := Function.update disk.sectors lba buffer }
  else disk

end AtaDisk

/-- `struct sector_cache`. -/
structure SectorCache where
  lba : BitVec 32
  data : Sector
  valid : Bool

/-- `cached_read_sector`: the sector that is copied out, and the cache. -/
def cachedReadSector (ata : AtaRead) (cache : SectorCache) (lba : BitVec 32) :
    Sector × SectorCache :=
  if cache.valid ∧ cache.lba = lba then (cache.data, cache)
  else
    -- a failed read leaves the old bytes in the cache
    let data := (ata lba).getD cache.data
    (data, ⟨lba, data, true⟩)

/-- `cached_write_sector`. -/
def cachedWriteSector (disk : AtaDisk) (lba : BitVec 32) (buffer : Sector) :
    AtaDisk × SectorCache :=
  (disk.write lba buffer, ⟨lba, buffer, true⟩)

/-! ## §2. Headers. -/

/-- The size field is 124 bytes into a `tar_header_t`. -/
def tarSizeOffset : Nat := 124

/-- `octal_to_int`; `char` is signed, but a byte from 128 on is no digit either
    way. -/
def octalToInt (oct : Nat → BitVec 8) : BitVec 32 :=
  loop 11 0 0
where
  /-- `left` turns are left at digit `i`. -/
  loop : (left i : Nat) → BitVec 32 → BitVec 32
    | 0, _, res => res
    | left + 1, i, res =>
      if oct i < 0x30 ∨ oct i > 0x37 then res
      else loop left (i + 1) ((res <<< 3) ||| (oct i - 0x30).setWidth 32)

/-- `strcmp`, on the bytes before the NUL. -/
def strcmp : List (BitVec 8) → List (BitVec 8) → Int
  | [], [] => 0
  | c :: _, [] => c.toNat
  | [], d :: _ => - d.toNat
  | c :: s, d :: s' => if c = d then strcmp s s' else (c.toNat : Int) - d.toNat

/-- The byte at `i` of a sector. -/
def Sector.byte (s : Sector) (i : Nat) : BitVec 8 := s ⟨i % 512, Nat.mod_lt i (by decide)⟩

/-- The name of a header, up to its NUL byte. -/
def tarHeaderName (header : Sector) : List (BitVec 8) :=
  ((List.range 512).map header.byte).takeWhile fun c => c ≠ 0

/-- The size that a header gives. -/
def tarHeaderSize (header : Sector) : BitVec 32 := octalToInt fun i => header.byte (tarSizeOffset + i)

/-- The header behind the one at `lba`. -/
def nextHeader (lba size : BitVec 32) : BitVec 32 := lba + (1 + (size + 511) / 512)

/-! ## §3. The two searches. -/

/-- The static variables of tar.c. -/
structure Tar where
  tarStartLba : BitVec 32
  cache : SectorCache

/-- `tar_init_disk`. -/
def tarInitDisk (tar : Tar) (startLba : BitVec 32) : Tar := { tar with tarStartLba := startLba }

/-- The loop of both searches, from `lba` on, for at most `fuel` headers:
    `found` is asked for each header, with its number, and gives the result.
    The outer `none` means that the loop has not come to an end. -/
def tarWalk {α : Type} (ata : AtaRead) (startLba : BitVec 32)
    (found : BitVec 32 → BitVec 32 → Sector → Option α) :
    Nat → BitVec 32 → BitVec 32 → SectorCache → Option (Option α × SectorCache)
  | 0, _, _, _ => none
  | fuel + 1, index, lba, cache =>
    let (header, cache) := cachedReadSector ata cache lba
    if header.byte 0 = 0 then some (none, cache)
    else
      match found index lba header with
      | some a => some (some a, cache)
      | none =>
        let next := nextHeader lba (tarHeaderSize header)
        if next > startLba + 20000 then some (none, cache)
        else tarWalk ata startLba found fuel (index + 1) next cache

/-- A walk that reads more headers than there are sectors never ends. -/
def tarFuel : Nat := 2 ^ 32

/-- What `tar_find_file` asks each header: where its file starts, and its
    size. -/
def headerWithName (name : List (BitVec 8)) (_index lba : BitVec 32) (header : Sector) :
    Option (BitVec 32 × BitVec 32) :=
  if strcmp (tarHeaderName header) name = 0 then some (lba + 1, tarHeaderSize header) else none

/-- `tar_find_file`, `none` for -1. -/
def tarFindFile (ata : AtaRead) (tar : Tar) (name : List (BitVec 8)) :
    Option (Option (BitVec 32 × BitVec 32) × SectorCache) :=
  tarWalk ata tar.tarStartLba (headerWithName name) tarFuel 0 tar.tarStartLba tar.cache

/-- What `tar_get_file_by_index` asks each header: its name. -/
def headerWithIndex (index currentIdx _lba : BitVec 32) (header : Sector) :
    Option (List (BitVec 8)) :=
  if currentIdx = index then some (tarHeaderName header) else none

/-- `tar_get_file_by_index`, `none` for -1.  A negative `index` is at least
    2^31 here. -/
def tarGetFileByIndex (ata : AtaRead) (tar : Tar) (index : BitVec 32) :
    Option (Option (List (BitVec 8)) × SectorCache) :=
  tarWalk ata tar.tarStartLba (headerWithIndex index) tarFuel 0 tar.tarStartLba tar.cache

end ZohoOs
