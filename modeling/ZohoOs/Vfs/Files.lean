/-
  ZohoOs.Vfs.Files — opening, writing and closing files (vfs.c).

  `vfs_open` looks the path up in the archive and takes the first free
  descriptor.  `vfs_write` reads each sector it touches, changes the part that
  is written, and writes the sector back through the cache; `vfs_read` does not
  look at the cache.
-/
import ZohoOs.Lib.Memory
import ZohoOs.Tar.Basic

namespace ZohoOs

open ZohoOs.Lib

/-- The static variables of vfs.c and tar.c, and the disk. -/
structure Vfs where
  disk : AtaDisk
  tar : Tar
  fds : FdTable

/-- Replace the sector cache. -/
def Vfs.withCache (v : Vfs) (cache : SectorCache) : Vfs := { v with tar := { v.tar with cache := cache } }

/-- `vfs_init`. -/
def vfsInit (v : Vfs) : Vfs := { v with fds := fun i => { v.fds i with inUse := false } }

/-- The first free descriptor. -/
def freeFd (fds : FdTable) : Option (Fin maxFds) :=
  (List.finRange maxFds).find? fun i => ¬ (fds i).inUse

/-- `vfs_open`: the descriptor or -1; `none` if `tar_find_file` does not
    return. -/
def vfsOpen (v : Vfs) (path : List (BitVec 8)) : Option (BitVec 32 × Vfs) :=
  (tarFindFile v.disk.read v.tar path).map fun r =>
    match r.1 with
    | none => (-1, v.withCache r.2)
    | some (lba, size) =>
      match freeFd v.fds with
      | none => (-1, v.withCache r.2)
      | some i =>
        (BitVec.ofNat 32 i.val,
          { v.withCache r.2 with fds := Function.update v.fds i ⟨lba, size, 0, true⟩ })

/-- The `n` bytes `b` are copied to offset `o` of a sector. -/
def Sector.patch (s : Sector) (o n : Nat) (b : Nat → BitVec 8) : Sector := fun i =>
  if o ≤ i.val ∧ i.val < o + n then b (i.val - o) else s i

/-- The copying loop of `vfs_write`, for at most `fuel` sectors. -/
def vfsWriteLoop (mem : Mem) (buffer : Word) (startLba count : BitVec 32) :
    Nat → BitVec 32 → BitVec 32 → Sector → AtaDisk → SectorCache →
      BitVec 32 × AtaDisk × SectorCache
  | 0, bytesWritten, _, _, disk, cache => (bytesWritten, disk, cache)
  | fuel + 1, bytesWritten, offset, sectorBuf, disk, cache =>
    if bytesWritten < count then
      let lba := startLba + offset / 512
      let sectorOffset := offset % 512
      let toWrite := 512 - sectorOffset
      let toWrite := if toWrite > count - bytesWritten then count - bytesWritten else toWrite
      -- a failed read leaves the stack buffer as it was
      let sectorBuf := (disk.read lba).getD sectorBuf
      let src := buffer + bytesWritten.setWidth 64
      let sectorBuf := sectorBuf.patch sectorOffset.toNat toWrite.toNat fun i =>
        mem (src + BitVec.ofNat 64 i)
      let written := cachedWriteSector disk lba sectorBuf
      vfsWriteLoop mem buffer startLba count fuel (bytesWritten + toWrite) (offset + toWrite)
        sectorBuf written.1 written.2
    else (bytesWritten, disk, cache)

/-- `vfs_write`; `sectorBuf` is what the stack buffer held. -/
def vfsWrite (v : Vfs) (mem : Mem) (fd : BitVec 32) (buffer : Word) (count : BitVec 32)
    (sectorBuf : Sector) : BitVec 32 × Vfs :=
  if hfd : fd.toNat < maxFds then
    let f := v.fds ⟨fd.toNat, hfd⟩
    if ¬ f.inUse then (-1, v)
    else
      let count := if f.offset + count > f.size then f.size - f.offset else count
      let fds := Function.update v.fds ⟨fd.toNat, hfd⟩ { f with offset := f.offset + count }
      let r := vfsWriteLoop mem buffer f.startLba count count.toNat 0 f.offset sectorBuf v.disk
        v.tar.cache
      (r.1, { disk := r.2.1, tar := { v.tar with cache := r.2.2 }, fds := fds })
  else (-1, v)

/-- `vfs_size`. -/
def vfsSize (fds : FdTable) (fd : BitVec 32) : BitVec 32 :=
  if hfd : fd.toNat < maxFds then
    if (fds ⟨fd.toNat, hfd⟩).inUse then (fds ⟨fd.toNat, hfd⟩).size else 0
  else 0

/-- `vfs_close`. -/
def vfsClose (fds : FdTable) (fd : BitVec 32) : FdTable :=
  if hfd : fd.toNat < maxFds then
    Function.update fds ⟨fd.toNat, hfd⟩ { fds ⟨fd.toNat, hfd⟩ with inUse := false }
  else fds

/-! ## Calls. -/

/-- A call, with the arguments and the memory it reads; `sectorBuf` is what the
    stack buffer holds. -/
inductive VfsCall where
  | openFile (path : List (BitVec 8))
  | read (fd : BitVec 32) (buffer : Word) (count : BitVec 32) (sectorBuf : Sector)
  | write (mem : Mem) (fd : BitVec 32) (buffer : Word) (count : BitVec 32) (sectorBuf : Sector)
  | size (fd : BitVec 32)
  | close (fd : BitVec 32)

/-- What a call returns and stores through the caller's pointer; `vfs_close`
    returns nothing. -/
def VfsCall.run (v : Vfs) : VfsCall → Option ((BitVec 32 × List Store) × Vfs)
  | .openFile path => (vfsOpen v path).map fun r => ((r.1, []), r.2)
  | .read fd buffer count sectorBuf =>
    let r := vfsRead v.disk.read v.fds fd buffer count sectorBuf
    some ((r.1, r.2.2), { v with fds := r.2.1 })
  | .write mem fd buffer count sectorBuf =>
    let r := vfsWrite v mem fd buffer count sectorBuf
    some ((r.1, []), r.2)
  | .size fd => some ((vfsSize v.fds fd, []), v)
  | .close fd => some ((0, []), { v with fds := vfsClose v.fds fd })

/-- The results of a sequence of calls, and the state after it. -/
def vfsRun (v : Vfs) : List VfsCall → Option (List (BitVec 32 × List Store) × Vfs)
  | [] => some ([], v)
  | c :: cs => (c.run v).bind fun r => (vfsRun r.2 cs).map fun rest => (r.1 :: rest.1, rest.2)

end ZohoOs
