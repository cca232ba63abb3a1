/-
  ZohoOs.Vfs.Contain — what `vfs_write` changes (vfs.c).

  `vfs_read` compares the count with `size - offset`; `vfs_write` compares
  `offset + count`, a 32-bit sum, with the size.  A sum that wraps around
  passes the test, and the count is written as it is.

  Main results:
    * `Vfs.offsets_run` — an offset never passes the size of its file, in
      whatever state a sequence of calls leads to;
    * `vfsWriteLoop_outside` — the copying loop changes no byte outside its
      range, on any disk;
    * `write_contained_iff` — `vfs_write` is contained exactly if the sum does
      not wrap around.
-/
import ZohoOs.Vfs.Refine

namespace ZohoOs

open ZohoOs.Lib

/-! ## §1. The property. -/

/-- Byte `j` of a file that starts at sector `startLba` is byte `k` of sector
    `lba`. -/
def FileByte (startLba : BitVec 32) (j : Nat) (lba : BitVec 32) (k : Fin 512) : Prop :=
  lba = startLba + BitVec.ofNat 32 (j / 512) ∧ k.val = j % 512

/-- **Containment** of a write of `count` bytes through descriptor `i` that took
    the state `v` to the result `r`. -/
structure WriteContained (v : Vfs) (i : Fin maxFds) (count : BitVec 32) (r : BitVec 32 × Vfs) :
    Prop where
  /-- `min(count, size - offset)` bytes are transferred. -/
  transferred : r.1.toNat = min count.toNat ((v.fds i).size.toNat - (v.fds i).offset.toNat)
  /-- No byte outside the file is changed. -/
  contained : ∀ lba k, (∀ j < (v.fds i).size.toNat, ¬ FileByte (v.fds i).startLba j lba k) →
    r.2.disk.sectors lba k = v.disk.sectors lba k
  /-- The offset does not decrease. -/
  offset : (v.fds i).offset.toNat ≤ (r.2.fds i).offset.toNat

/-- No descriptor is behind the end of its file. -/
def Vfs.Offsets (v : Vfs) : Prop :=
  ∀ i, (v.fds i).inUse = true → (v.fds i).offset.toNat ≤ (v.fds i).size.toNat

/-! ## §2. Reachable states. -/

namespace Vfs.Offsets

variable {v : Vfs}

/-- A new entry for one descriptor. -/
theorem update (h : v.Offsets) {v' : Vfs} {i : Fin maxFds} {f : Fd}
    (hfds : v'.fds = Function.update v.fds i f) (hf : f.inUse = true → f.offset.toNat ≤ f.size.toNat) :
    v'.Offsets := by
  intro j hj
  rw [hfds] at hj ⊢
  by_cases hji : j = i
  · subst hji
    rw [Function.update_self] at hj ⊢
    exact hf hj
  · rw [Function.update_of_ne hji] at hj ⊢
    exact h j hj

theorem openFile (h : v.Offsets) {path : List (BitVec 8)} {r : BitVec 32 × Vfs}
    (hret : vfsOpen v path = some r) : r.2.Offsets := by
  obtain ⟨⟨found, cache⟩, -, rfl⟩ := Option.map_eq_some_iff.mp hret
  cases found with
  | none => exact h
  | some place =>
    obtain ⟨lba, size⟩ := place
    dsimp only
    cases freeFd v.fds with
    | none => exact h
    | some i => exact h.update (i := i) rfl fun _ => Nat.zero_le _

/-- `vfs_read` moves the offset by at most what is left. -/
theorem read (h : v.Offsets) (ata : AtaRead) (fd : BitVec 32) (buffer : Word) (count : BitVec 32)
    (sectorBuf : Sector) :
    Vfs.Offsets { v with fds := (vfsRead ata v.fds fd buffer count sectorBuf).2.1 } := by
  unfold vfsRead
  split
  · rename_i hfd
    set f := v.fds ⟨fd.toNat, hfd⟩ with hf
    dsimp only
    split
    · exact h
    · split
      · exact h
      · rename_i hend
        have hlt : f.offset.toNat < f.size.toNat := Nat.lt_of_not_le hend
        have hrest : (f.size - f.offset).toNat = f.size.toNat - f.offset.toNat :=
          BitVec.toNat_sub_of_le (BitVec.le_def.mpr (Nat.le_of_lt hlt))
        refine h.update (i := ⟨fd.toNat, hfd⟩) rfl fun _ => ?_
        show (f.offset + if count > f.size - f.offset then f.size - f.offset else count).toNat
          ≤ f.size.toNat
        have hcount : (if count > f.size - f.offset then f.size - f.offset else count).toNat
            ≤ f.size.toNat - f.offset.toNat := by
          split
          · exact Nat.le_of_eq hrest
          · rename_i hle
            have hle : ¬ (f.size - f.offset).toNat < count.toNat := hle
            omega
        have hsize := f.size.isLt
        rw [BitVec.toNat_add, Nat.mod_eq_of_lt (by omega)]
        omega
  · exact h

/-- So does `vfs_write`, even when its sum wraps around. -/
theorem write (h : v.Offsets) (mem : Mem) (fd : BitVec 32) (buffer : Word) (count : BitVec 32)
    (sectorBuf : Sector) : (vfsWrite v mem fd buffer count sectorBuf).2.Offsets := by
  unfold vfsWrite
  split
  · rename_i hfd
    set f := v.fds ⟨fd.toNat, hfd⟩ with hf
    dsimp only
    split
    · exact h
    · rename_i huse
      have hle : f.offset.toNat ≤ f.size.toNat := h _ (by simpa using huse)
      refine h.update (i := ⟨fd.toNat, hfd⟩) rfl fun _ => ?_
      show (f.offset + if f.offset + count > f.size then f.size - f.offset else count).toNat
        ≤ f.size.toNat
      split
      · rw [BitVec.add_comm, BitVec.sub_add_cancel]
      · rename_i hsum
        exact Nat.le_of_not_lt hsum
  · exact h

theorem close (h : v.Offsets) (fd : BitVec 32) :
    Vfs.Offsets { v with fds := vfsClose v.fds fd } := by
  unfold vfsClose
  split
  · exact h.update rfl fun huse => nomatch huse
  · exact h

theorem call (h : v.Offsets) {c : VfsCall} {r : (BitVec 32 × List Store) × Vfs}
    (hret : c.run v = some r) : r.2.Offsets := by
  cases c with
  | openFile path =>
    obtain ⟨r', hopen, rfl⟩ := Option.map_eq_some_iff.mp hret
    exact h.openFile hopen
  | read fd buffer count sectorBuf =>
    rw [← Option.some.inj hret]
    exact h.read _ fd buffer count sectorBuf
  | write mem fd buffer count sectorBuf =>
    rw [← Option.some.inj hret]
    exact h.write mem fd buffer count sectorBuf
  | size fd =>
    rw [← Option.some.inj hret]
    exact h
  | close fd =>
    rw [← Option.some.inj hret]
    exact h.close fd

end Vfs.Offsets

/-- **Offsets in reachable states.** -/
theorem Vfs.offsets_run {v v' : Vfs} (h : v.Offsets) {cs : List VfsCall}
    {rs : List (BitVec 32 × List Store)} (hrun : vfsRun v cs = some (rs, v')) : v'.Offsets := by
  induction cs generalizing v rs with
  | nil =>
    obtain ⟨-, rfl⟩ := Prod.mk.inj (Option.some.inj hrun)
    exact h
  | cons c cs ih =>
    unfold vfsRun at hrun
    obtain ⟨r, hcall, hrun⟩ := Option.bind_eq_some_iff.mp hrun
    obtain ⟨rest, hrest, heq⟩ := Option.map_eq_some_iff.mp hrun
    obtain ⟨-, rfl⟩ := Prod.mk.inj heq
    exact ih (h.call hcall) hrest

theorem vfsInit_offsets (v : Vfs) : (vfsInit v).Offsets := by
  intro i huse
  cases huse

/-! ## §3. The copying loop on any disk. -/

section Loop

variable {mem : Mem} {buffer : Word} {startLba count bytesWritten offset : BitVec 32}
  {disk : AtaDisk} {cache : SectorCache}

/-- The loop writes all that it was asked to write. -/
theorem vfsWriteLoop_count (fuel : Nat) (sectorBuf : Sector)
    (hle : bytesWritten.toNat ≤ count.toNat) (hfuel : count.toNat - bytesWritten.toNat ≤ fuel) :
    (vfsWriteLoop mem buffer startLba count fuel bytesWritten offset sectorBuf disk cache).1
      = count := by
  induction fuel generalizing bytesWritten offset sectorBuf disk cache with
  | zero => exact BitVec.eq_of_toNat_eq (show bytesWritten.toNat = count.toNat by omega)
  | succ fuel ih =>
    unfold vfsWriteLoop
    by_cases hlt : bytesWritten < count
    · have hlt' : bytesWritten.toNat < count.toNat := hlt
      rw [if_pos hlt]
      dsimp only
      generalize hw : (if 512 - offset % 512 > count - bytesWritten then count - bytesWritten
        else 512 - offset % 512) = toWrite
      have hcopy : toWrite.toNat =
          min (512 - offset.toNat % 512) (count.toNat - bytesWritten.toNat) := by
        rw [← hw]
        exact toNat_toCopy hlt
      clear hw
      have hbytes := toNat_add_copied hlt hcopy
      exact ih _ (by omega) (by omega)
    · have hlt' : ¬ bytesWritten.toNat < count.toNat := hlt
      rw [if_neg hlt]
      exact BitVec.eq_of_toNat_eq (show bytesWritten.toNat = count.toNat by omega)

/-- A sector whose bytes are patched and written back keeps its other bytes,
    whether the device answers or not. -/
theorem write_patch (lba : BitVec 32) (sectorBuf : Sector) (o n : Nat) (b : Nat → BitVec 8)
    (lba' : BitVec 32) (k : Fin 512) (hk : lba' = lba → ¬ (o ≤ k.val ∧ k.val < o + n)) :
    (cachedWriteSector disk lba (((disk.read lba).getD sectorBuf).patch o n b)).1.sectors lba' k
      = disk.sectors lba' k := by
  show (disk.write lba _).sectors lba' k = _
  unfold AtaDisk.write
  split
  · rename_i hanswers
    show Function.update disk.sectors lba _ lba' k = _
    by_cases hlba : lba' = lba
    · subst hlba
      rw [Function.update_self]
      unfold AtaDisk.read Sector.patch
      rw [if_pos hanswers, if_neg (hk rfl)]
      rfl
    · rw [Function.update_of_ne hlba]
  · rfl

/-- **The loop changes no byte outside its range.** -/
theorem vfsWriteLoop_outside (fuel : Nat) (sectorBuf : Sector) {o : Nat} {lba : BitVec 32}
    {k : Fin 512} (ho : offset.toNat = o + bytesWritten.toNat)
    (hend : o + count.toNat < 2 ^ 32)
    (hout : ∀ j, o ≤ j → j < o + count.toNat → ¬ FileByte startLba j lba k) :
    (vfsWriteLoop mem buffer startLba count fuel bytesWritten offset sectorBuf disk
      cache).2.1.sectors lba k = disk.sectors lba k := by
  induction fuel generalizing bytesWritten offset sectorBuf disk cache with
  | zero => rfl
  | succ fuel ih =>
    unfold vfsWriteLoop
    by_cases hlt : bytesWritten < count
    · have hlt' : bytesWritten.toNat < count.toNat := hlt
      rw [if_pos hlt]
      dsimp only
      generalize hw : (if 512 - offset % 512 > count - bytesWritten then count - bytesWritten
        else 512 - offset % 512) = toWrite
      have hcopy : toWrite.toNat =
          min (512 - offset.toNat % 512) (count.toNat - bytesWritten.toNat) := by
        rw [← hw]
        exact toNat_toCopy hlt
      clear hw
      have hbytes := toNat_add_copied hlt hcopy
      have hoff := toNat_offset_add hlt hcopy ho hend
      rw [ih _ (by omega)]
      refine write_patch _ _ _ _ _ lba k fun hlba hin => ?_
      rw [toNat_offset_mod] at hin
      -- the byte is in the range after all
      refine hout (offset.toNat + (k.val - offset.toNat % 512)) (by omega) (by omega) ⟨?_, ?_⟩
      · have hsector : (offset.toNat + (k.val - offset.toNat % 512)) / 512 = offset.toNat / 512 := by
          have hk := k.isLt
          omega
        rw [hlba, hsector]
        congr 1
        apply BitVec.eq_of_toNat_eq
        rw [BitVec.toNat_udiv, BitVec.toNat_ofNat]
        show offset.toNat / 512 = offset.toNat / 512 % 2 ^ 32
        omega
      · have hk := k.isLt
        omega
    · rw [if_neg hlt]

end Loop

/-! ## §4. `vfs_write`. -/

section Write

variable {v : Vfs} {fd : BitVec 32}

/-- What a call through an open descriptor does. -/
theorem vfsWrite_open (hfd : fd.toNat < maxFds) (huse : (v.fds ⟨fd.toNat, hfd⟩).inUse = true)
    (mem : Mem) (buffer : Word) (count : BitVec 32) (sectorBuf : Sector) :
    vfsWrite v mem fd buffer count sectorBuf =
      let f := v.fds ⟨fd.toNat, hfd⟩
      let n := if f.offset + count > f.size then f.size - f.offset else count
      let r := vfsWriteLoop mem buffer f.startLba n n.toNat 0 f.offset sectorBuf v.disk v.tar.cache
      (r.1, { disk := r.2.1, tar := { v.tar with cache := r.2.2 },
              fds := Function.update v.fds ⟨fd.toNat, hfd⟩ { f with offset := f.offset + n } }) := by
  unfold vfsWrite
  rw [dif_pos hfd]
  dsimp only
  rw [huse, if_neg (by decide)]

/-- **`vfs_write` is contained exactly if `offset + count` does not wrap
    around.** -/
theorem writeContained_iff (hoffsets : v.Offsets) (hfd : fd.toNat < maxFds)
    (huse : (v.fds ⟨fd.toNat, hfd⟩).inUse = true) (mem : Mem) (buffer : Word) (count : BitVec 32)
    (sectorBuf : Sector) :
    WriteContained v ⟨fd.toNat, hfd⟩ count (vfsWrite v mem fd buffer count sectorBuf) ↔
      (v.fds ⟨fd.toNat, hfd⟩).offset.toNat + count.toNat < 2 ^ 32 := by
  have hle := hoffsets _ huse
  have hcall := vfsWrite_open hfd huse mem buffer count sectorBuf
  have hsize := (v.fds ⟨fd.toNat, hfd⟩).size.isLt
  set f := v.fds ⟨fd.toNat, hfd⟩ with hf
  dsimp only at hcall
  have hrest : (f.size - f.offset).toNat = f.size.toNat - f.offset.toNat :=
    BitVec.toNat_sub_of_le (BitVec.le_def.mpr hle)
  have hsum : (f.offset + count).toNat = (f.offset.toNat + count.toNat) % 2 ^ 32 :=
    BitVec.toNat_add _ _
  have hgt : f.offset + count > f.size ↔ f.size.toNat < (f.offset + count).toNat := Iff.rfl
  constructor
  · intro hcontained
    by_contra hwrap
    -- the sum is below the offset, so that the count is not clamped
    have hnot : ¬ f.offset + count > f.size := by
      rw [hgt, hsum]
      have hcount := count.isLt
      omega
    have hall := hcontained.transferred
    rw [hcall, if_neg hnot] at hall
    dsimp only at hall
    rw [vfsWriteLoop_count _ _ (Nat.zero_le _) (Nat.sub_le _ _), ← hf] at hall
    omega
  · intro hfits
    rw [Nat.mod_eq_of_lt hfits] at hsum
    have hn : (if f.offset + count > f.size then f.size - f.offset else count).toNat
        = min count.toNat (f.size.toNat - f.offset.toNat) := by
      split
      · rename_i hclamp
        rw [hgt, hsum] at hclamp
        omega
      · rename_i hclamp
        rw [hgt, hsum] at hclamp
        omega
    generalize (if f.offset + count > f.size then f.size - f.offset else count) = n at hcall hn
    rw [hcall]
    refine ⟨?_, ?_, ?_⟩
    · show (vfsWriteLoop _ _ _ _ _ _ _ _ _ _).1.toNat = _
      rw [vfsWriteLoop_count _ _ (Nat.zero_le _) (Nat.sub_le _ _), hn]
    · intro lba k hout
      exact vfsWriteLoop_outside _ _ (o := f.offset.toNat) rfl (by omega)
        fun j _ hj => hout j (by rw [← hf]; omega)
    · show f.offset.toNat ≤ (Function.update v.fds ⟨fd.toNat, hfd⟩ _ ⟨fd.toNat, hfd⟩).offset.toNat
      rw [Function.update_self]
      show f.offset.toNat ≤ (f.offset + n).toNat
      rw [BitVec.toNat_add, Nat.mod_eq_of_lt (by omega)]
      exact Nat.le_add_right _ _

/-- **Write containment** in every state that calls lead to from `vfs_init`, on
    whatever disk. -/
theorem write_contained_iff {v₀ : Vfs} {cs : List VfsCall} {rs : List (BitVec 32 × List Store)}
    (hrun : vfsRun (vfsInit v₀) cs = some (rs, v)) (hfd : fd.toNat < maxFds)
    (huse : (v.fds ⟨fd.toNat, hfd⟩).inUse = true) (mem : Mem) (buffer : Word) (count : BitVec 32)
    (sectorBuf : Sector) :
    WriteContained v ⟨fd.toNat, hfd⟩ count (vfsWrite v mem fd buffer count sectorBuf) ↔
      (v.fds ⟨fd.toNat, hfd⟩).offset.toNat + count.toNat < 2 ^ 32 :=
  writeContained_iff (Vfs.offsets_run (vfsInit_offsets v₀) hrun) hfd huse mem buffer count sectorBuf

end Write

/-- Open a file of three bytes, and read one. -/
def openAndRead : List VfsCall := [.openFile [0x61], .read 0 0x6000 1 fun _ => 0]

/-- The descriptor is at offset 1 of 3. -/
theorem openAndRead_state : ∃ rs v, vfsRun (vfsInit (bootVfs [oneFile])) openAndRead = some (rs, v) ∧
    v.fds ⟨0, by decide⟩ = ⟨2049, 3, 1, true⟩ := by
  have hmounted : Mounted (bootVfs [oneFile]) [oneFile] := bootVfs_mounted (by decide) (by decide)
  have hlegal : FileSys.AllLegal ⟨[oneFile], fun _ => none⟩ openAndRead := by decide
  obtain ⟨v, hrun, hrefines⟩ := hmounted.refines.run hlegal
  have hfd := hrefines.fds ⟨0, by decide⟩
  rw [hrefines.start, show (FileSys.run ⟨[oneFile], fun _ => none⟩ openAndRead).2.fds ⟨0, by decide⟩
    = some ⟨0, 1⟩ from rfl] at hfd
  obtain ⟨f, hf, -, hentry⟩ := hfd
  cases Option.some.inj (show some oneFile = some f from hf)
  exact ⟨_, v, hrun, hentry⟩

/-- Two bytes are written from there. -/
theorem write_contained_iff_openAndRead : ∃ v,
    WriteContained v ⟨0, by decide⟩ 2 (vfsWrite v (fun _ => 0) 0 0x6000 2 fun _ => 0) := by
  obtain ⟨rs, v, hrun, hentry⟩ := openAndRead_state
  refine ⟨v, (write_contained_iff hrun (show (0 : BitVec 32).toNat < maxFds by decide) ?_
    (fun _ => 0) 0x6000 2 fun _ => 0).mpr ?_⟩
  · show (v.fds ⟨0, by decide⟩).inUse = true
    rw [hentry]
  · show (v.fds ⟨0, by decide⟩).offset.toNat + 2 < 2 ^ 32
    rw [hentry]
    decide

/-- **A count of 2^32 - 1 from offset 1 is not clamped.** -/
theorem wrapped_write_not_contained : ∃ rs v,
    vfsRun (vfsInit (bootVfs [oneFile])) openAndRead = some (rs, v) ∧
    (v.fds ⟨0, by decide⟩).inUse = true ∧
    ¬ WriteContained v ⟨0, by decide⟩ 0xffffffff
        (vfsWrite v (fun _ => 0) 0 0x6000 0xffffffff fun _ => 0) := by
  obtain ⟨rs, v, hrun, hentry⟩ := openAndRead_state
  have huse : (v.fds ⟨(0 : BitVec 32).toNat, by decide⟩).inUse = true := by
    show (v.fds ⟨0, by decide⟩).inUse = true
    rw [hentry]
  have hiff := writeContained_iff (Vfs.offsets_run (vfsInit_offsets _) hrun) (by decide) huse
    (fun _ => 0) 0x6000 0xffffffff fun _ => 0
  refine ⟨rs, v, hrun, huse, fun hcontained => ?_⟩
  have hfits : (v.fds ⟨0, by decide⟩).offset.toNat + (0xffffffff : BitVec 32).toNat < 2 ^ 32 :=
    hiff.mp hcontained
  rw [hentry] at hfits
  revert hfits
  decide

end ZohoOs
