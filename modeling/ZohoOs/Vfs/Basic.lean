/-
  ZohoOs.Vfs.Basic — file descriptors and `vfs_read` (vfs.c).

  A descriptor is a range of sectors on the disk with an offset into it.
  `vfs_read` copies sector by sector: a whole sector straight into the
  caller's buffer, a part of one through a buffer on the stack.  The bytes it
  stores through the caller's pointer are the result of the model.

  `ata_read_sector` may give up without an error code and without touching
  its buffer; the disk is a function that may fail.
-/
import ZohoOs.Lib.Word

namespace ZohoOs

open ZohoOs.Lib

/-! ## §1. Descriptors and the disk. -/

/-- `fd_t`. -/
structure Fd where
  startLba : BitVec 32
  size : BitVec 32
  offset : BitVec 32
  inUse : Bool
  deriving DecidableEq

/-- `MAX_FDS`. -/
def maxFds : Nat := 16

abbrev FdTable := Fin maxFds → Fd

abbrev Sector := Fin 512 → BitVec 8

/-- `ata_read_sector`: the sector, or `none` when the device times out. -/
abbrev AtaRead := BitVec 32 → Option Sector

/-- A byte stored at a virtual address. -/
abbrev Store := Word × BitVec 8

/-- The stores of `n` bytes from `a` on. -/
def storesAt (a : Word) (n : Nat) (b : Nat → BitVec 8) : List Store :=
  (List.range n).map fun i => (a + BitVec.ofNat 64 i, b i)

theorem mem_storesAt {a x : Word} {n : Nat} {b : Nat → BitVec 8} :
    (∃ v, (x, v) ∈ storesAt a n b) ↔ ∃ i < n, x = a + BitVec.ofNat 64 i := by
  unfold storesAt
  simp only [List.mem_map, List.mem_range, Prod.mk.injEq]
  constructor
  · rintro ⟨v, i, hi, hx, -⟩
    exact ⟨i, hi, hx.symm⟩
  · rintro ⟨i, hi, hx⟩
    exact ⟨b i, i, hi, hx.symm, rfl⟩

/-! ## §2. `vfs_read`. -/

/-- The copying loop of `vfs_read`, for at most `fuel` sectors: the number of
    bytes read, and the stores. -/
def vfsReadLoop (ata : AtaRead) (buffer : Word) (startLba count : BitVec 32) :
    Nat → BitVec 32 → BitVec 32 → Sector → BitVec 32 × List Store
  | 0, bytesRead, _, _ => (bytesRead, [])
  | fuel + 1, bytesRead, offset, sectorBuf =>
      if bytesRead < count then
        let lba := startLba + offset / 512
        let sectorOffset := offset % 512
        let toCopy := 512 - sectorOffset
        let toCopy := if toCopy > count - bytesRead then count - bytesRead else toCopy
        let dst := buffer + bytesRead.setWidth 64
        if sectorOffset = 0 ∧ toCopy = 512 then
          -- straight into the caller's buffer; a failed read stores nothing
          let stores := ((ata lba).map fun s => storesAt dst 512 fun i => s (Fin.ofNat 512 i)).getD []
          let rest := vfsReadLoop ata buffer startLba count fuel (bytesRead + toCopy)
            (offset + toCopy) sectorBuf
          (rest.1, stores ++ rest.2)
        else
          -- a failed read leaves the stack buffer as it was
          let sectorBuf := (ata lba).getD sectorBuf
          let stores := storesAt dst toCopy.toNat fun i =>
            sectorBuf (Fin.ofNat 512 (sectorOffset.toNat + i))
          let rest := vfsReadLoop ata buffer startLba count fuel (bytesRead + toCopy)
            (offset + toCopy) sectorBuf
          (rest.1, stores ++ rest.2)
      else (bytesRead, [])

/-- `vfs_read`; `sectorBuf` is what the stack buffer held.  Every turn of the
    loop copies a byte or more, so `count` turns are enough. -/
def vfsRead (ata : AtaRead) (fds : FdTable) (fd : BitVec 32) (buffer : Word) (count : BitVec 32)
    (sectorBuf : Sector) : BitVec 32 × FdTable × List Store :=
  -- a negative `fd` is at least 2^31 here
  if hfd : fd.toNat < maxFds then
    let f := fds ⟨fd.toNat, hfd⟩
    if ¬ f.inUse then (-1, fds, [])
    else if f.offset ≥ f.size then (0, fds, [])
    else
      let count := if count > f.size - f.offset then f.size - f.offset else count
      let fds := Function.update fds ⟨fd.toNat, hfd⟩ { f with offset := f.offset + count }
      let r := vfsReadLoop ata buffer f.startLba count count.toNat 0 f.offset sectorBuf
      (r.1, fds, r.2)
  else (-1, fds, [])

/-! ## §3. What it stores. -/

/-- The number of bytes `vfs_read` transfers through an open descriptor. -/
def readCount (f : Fd) (count : BitVec 32) : Nat := min count.toNat (f.size.toNat - f.offset.toNat)

/-- The byte at `j` of a transfer of `n` bytes from offset `o` is stored: a
    sector that lies in the transfer as a whole must be read, the others go
    through the stack buffer. -/
def ByteStored (ata : AtaRead) (startLba : BitVec 32) (o n j : Nat) : Prop :=
  o ≤ (o + j) / 512 * 512 → (o + j) / 512 * 512 + 512 ≤ o + n →
    (ata (startLba + BitVec.ofNat 32 ((o + j) / 512))).isSome

section Loop

variable {ata : AtaRead} {buffer x : Word} {startLba count bytesRead offset : BitVec 32}
  {sectorBuf : Sector}

/-- The bytes one turn of the loop copies: up to the end of the sector, or of
    the transfer. -/
theorem toNat_toCopy (hlt : bytesRead < count) :
    (if 512 - offset % 512 > count - bytesRead then count - bytesRead
      else 512 - offset % 512).toNat =
      min (512 - offset.toNat % 512) (count.toNat - bytesRead.toNat) := by
  have hlt' : bytesRead.toNat < count.toNat := hlt
  have hrest : (count - bytesRead).toNat = count.toNat - bytesRead.toNat :=
    BitVec.toNat_sub_of_le (BitVec.le_def.mpr (Nat.le_of_lt hlt'))
  have hmod : (offset % 512).toNat = offset.toNat % 512 := BitVec.toNat_umod
  have hsector : (512 - offset % 512).toNat = 512 - offset.toNat % 512 := by
    rw [BitVec.toNat_sub_of_le, hmod]
    · rfl
    · rw [BitVec.le_def, hmod]
      show offset.toNat % 512 ≤ 512
      omega
  by_cases hgt : 512 - offset % 512 > count - bytesRead
  · have hgt' : (count - bytesRead).toNat < (512 - offset % 512).toNat := hgt
    rw [if_pos hgt]
    omega
  · have hgt' : ¬ (count - bytesRead).toNat < (512 - offset % 512).toNat := hgt
    rw [if_neg hgt]
    omega

/-- The count does not wrap around in a turn. -/
theorem toNat_add_copied {toCopy : BitVec 32} (hlt : bytesRead < count)
    (hcopy : toCopy.toNat = min (512 - offset.toNat % 512) (count.toNat - bytesRead.toNat)) :
    (bytesRead + toCopy).toNat = bytesRead.toNat + toCopy.toNat := by
  have hlt' : bytesRead.toNat < count.toNat := hlt
  have hcount := count.isLt
  rw [BitVec.toNat_add, Nat.mod_eq_of_lt]
  omega

/-- Neither does the offset, where the end of the transfer fits in a word. -/
theorem toNat_offset_add {toCopy : BitVec 32} {o : Nat} (hlt : bytesRead < count)
    (hcopy : toCopy.toNat = min (512 - offset.toNat % 512) (count.toNat - bytesRead.toNat))
    (ho : offset.toNat = o + bytesRead.toNat) (hend : o + count.toNat < 2 ^ 32) :
    (offset + toCopy).toNat = offset.toNat + toCopy.toNat := by
  have hlt' : bytesRead.toNat < count.toNat := hlt
  rw [BitVec.toNat_add, Nat.mod_eq_of_lt]
  omega

/-- **What the loop stores.**  From a turn that starts on a sector boundary, or
    at the offset `o` of the whole transfer, the loop reads up to `count` and
    stores exactly the bytes of `ByteStored`. -/
theorem vfsReadLoop_spec {o : Nat} (fuel : Nat) (ho : offset.toNat = o + bytesRead.toNat)
    (hle : bytesRead.toNat ≤ count.toNat) (hend : o + count.toNat < 2 ^ 32)
    (hstart : offset.toNat % 512 = 0 ∨ bytesRead.toNat = 0 ∨ bytesRead.toNat = count.toNat)
    (hfuel : count.toNat - bytesRead.toNat ≤ fuel) :
    (vfsReadLoop ata buffer startLba count fuel bytesRead offset sectorBuf).1 = count ∧
      ((∃ v, (x, v) ∈
          (vfsReadLoop ata buffer startLba count fuel bytesRead offset sectorBuf).2) ↔
        ∃ j, bytesRead.toNat ≤ j ∧ j < count.toNat ∧ ByteStored ata startLba o count.toNat j ∧
          x = buffer + BitVec.ofNat 64 j) := by
  induction fuel generalizing bytesRead offset sectorBuf with
  | zero =>
    have heq : bytesRead.toNat = count.toNat := by omega
    refine ⟨BitVec.eq_of_toNat_eq heq, ?_⟩
    constructor
    · rintro ⟨v, hv⟩
      cases hv
    · rintro ⟨j, hj, hj', -⟩
      omega
  | succ fuel ih =>
    unfold vfsReadLoop
    by_cases hlt : bytesRead < count
    · have hlt' : bytesRead.toNat < count.toNat := hlt
      rw [if_pos hlt]
      dsimp only
      have hcopy : (if 512 - offset % 512 > count - bytesRead then count - bytesRead
          else 512 - offset % 512).toNat = _ := toNat_toCopy hlt
      set toCopy := if 512 - offset % 512 > count - bytesRead then count - bytesRead
        else 512 - offset % 512 with htc
      have hbytes : (bytesRead + toCopy).toNat = bytesRead.toNat + toCopy.toNat := by
        rw [BitVec.toNat_add, Nat.mod_eq_of_lt]
        omega
      have hoff : (offset + toCopy).toNat = o + (bytesRead + toCopy).toNat := by
        rw [hbytes, BitVec.toNat_add, Nat.mod_eq_of_lt]
        · omega
        · omega
      have hrest : ∀ buf, (vfsReadLoop ata buffer startLba count fuel (bytesRead + toCopy)
          (offset + toCopy) buf).1 = count ∧ _ := fun buf =>
        ih hoff (by omega) (by omega) (by omega)
      -- what one turn stores, followed by the rest of the loop
      have hturn : ∀ (stores : List Store) (buf : Sector),
          ((∃ v, (x, v) ∈ stores) ↔ ∃ i < toCopy.toNat,
            ByteStored ata startLba o count.toNat (bytesRead.toNat + i) ∧
              x = buffer + bytesRead.setWidth 64 + BitVec.ofNat 64 i) →
          ((∃ v, (x, v) ∈ stores ++ (vfsReadLoop ata buffer startLba count fuel
              (bytesRead + toCopy) (offset + toCopy) buf).2) ↔
            ∃ j, bytesRead.toNat ≤ j ∧ j < count.toNat ∧
              ByteStored ata startLba o count.toNat j ∧ x = buffer + BitVec.ofNat 64 j) := by
        intro stores buf hstores
        have haddr : ∀ i, buffer + bytesRead.setWidth 64 + BitVec.ofNat 64 i =
            buffer + BitVec.ofNat 64 (bytesRead.toNat + i) := by
          intro i
          have hw : bytesRead.setWidth 64 = BitVec.ofNat 64 bytesRead.toNat := by
            apply BitVec.eq_of_toNat_eq
            rw [BitVec.toNat_setWidth, BitVec.toNat_ofNat]
          rw [hw, BitVec.add_assoc, ← BitVec.ofNat_add]
        constructor
        · rintro ⟨v, hv⟩
          rcases List.mem_append.mp hv with hv | hv
          · obtain ⟨i, hi, hst, hx⟩ := hstores.mp ⟨v, hv⟩
            exact ⟨bytesRead.toNat + i, by omega, by omega, hst, hx.trans (haddr i)⟩
          · obtain ⟨j, hj, hj', hst, hx⟩ := (hrest buf).2.mp ⟨v, hv⟩
            exact ⟨j, by omega, hj', hst, hx⟩
        · rintro ⟨j, hj, hj', hst, hx⟩
          by_cases hnow : j < bytesRead.toNat + toCopy.toNat
          · obtain ⟨v, hv⟩ := hstores.mpr ⟨j - bytesRead.toNat, by omega, by
              rw [Nat.add_sub_cancel' hj]
              exact hst, by rw [haddr, Nat.add_sub_cancel' hj, hx]⟩
            exact ⟨v, List.mem_append_left _ hv⟩
          · obtain ⟨v, hv⟩ := (hrest buf).2.mpr ⟨j, by omega, hj', hst, hx⟩
            exact ⟨v, List.mem_append_right _ hv⟩
      have hlba : ∀ i < toCopy.toNat, offset / 512 =
          BitVec.ofNat 32 ((o + (bytesRead.toNat + i)) / 512) := by
        intro i hi
        apply BitVec.eq_of_toNat_eq
        have hsector : (o + (bytesRead.toNat + i)) / 512 = offset.toNat / 512 := by omega
        rw [hsector, BitVec.toNat_ofNat, BitVec.toNat_udiv]
        show offset.toNat / 512 = offset.toNat / 512 % 2 ^ 32
        omega
      have hmod : (offset % 512).toNat = offset.toNat % 512 := BitVec.toNat_umod
      by_cases hfull : offset % 512 = 0 ∧ toCopy = 512
      · rw [if_pos hfull]
        dsimp only
        refine ⟨(hrest _).1, hturn _ _ ?_⟩
        have h512 : toCopy.toNat = 512 := congrArg BitVec.toNat hfull.2
        have h0 : offset.toNat % 512 = 0 := hmod.symm.trans (congrArg BitVec.toNat hfull.1)
        cases hread : ata (startLba + offset / 512) with
        | none =>
          constructor
          · rintro ⟨v, hv⟩
            cases hv
          · rintro ⟨i, hi, hst, -⟩
            -- the sector lies in the transfer as a whole
            have hsome := hst (by omega) (by omega)
            rw [← hlba i hi, hread] at hsome
            cases hsome
        | some sec =>
          rw [Option.map_some, Option.getD_some, mem_storesAt, h512]
          constructor
          · rintro ⟨i, hi, hx⟩
            refine ⟨i, hi, fun _ _ => ?_, hx⟩
            rw [← hlba i (by omega), hread]
            rfl
          · rintro ⟨i, hi, -, hx⟩
            exact ⟨i, hi, hx⟩
      · rw [if_neg hfull]
        dsimp only
        have hpart : ∀ i < toCopy.toNat,
            ByteStored ata startLba o count.toNat (bytesRead.toNat + i) := by
          intro i hi hlow hhigh
          exfalso
          apply hfull
          constructor <;> apply BitVec.eq_of_toNat_eq
          · rw [hmod]
            show offset.toNat % 512 = 0
            omega
          · show toCopy.toNat = 512
            omega
        refine ⟨(hrest _).1, ?_⟩
        generalize (ata (startLba + offset / 512)).getD sectorBuf = buf
        generalize (fun i => buf (Fin.ofNat 512 ((offset % 512).toNat + i))) = b
        refine hturn _ buf ?_
        rw [mem_storesAt]
        constructor
        · rintro ⟨i, hi, hx⟩
          exact ⟨i, hi, hpart i hi, hx⟩
        · rintro ⟨i, hi, -, hx⟩
          exact ⟨i, hi, hx⟩
    · have heq : bytesRead.toNat = count.toNat := by
        have hnlt : ¬ bytesRead.toNat < count.toNat := hlt
        omega
      rw [if_neg hlt]
      refine ⟨BitVec.eq_of_toNat_eq heq, ?_⟩
      constructor
      · rintro ⟨v, hv⟩
        cases hv
      · rintro ⟨j, hj, hj', -⟩
        omega

end Loop

/-- **What `vfs_read` stores**: through an open descriptor, the bytes of the
    transfer that `ByteStored` names, from the start of the buffer on. -/
theorem vfsRead_stores {ata : AtaRead} {fds : FdTable} {fd : BitVec 32} {buffer x : Word}
    {count : BitVec 32} {sectorBuf : Sector} :
    (∃ v, (x, v) ∈ (vfsRead ata fds fd buffer count sectorBuf).2.2) ↔
      ∃ i : Fin maxFds, fd.toNat = i ∧ (fds i).inUse ∧ ∃ j < readCount (fds i) count,
        ByteStored ata (fds i).startLba (fds i).offset.toNat (readCount (fds i) count) j ∧
          x = buffer + BitVec.ofNat 64 j := by
  unfold vfsRead
  by_cases hfd : fd.toNat < maxFds
  · rw [dif_pos hfd]
    set f := fds ⟨fd.toNat, hfd⟩ with hf
    -- `fd` names one descriptor, so the existential is about that one
    have hthis : ∀ P : Fin maxFds → Prop, (∃ i : Fin maxFds, fd.toNat = i ∧ P i) ↔ P ⟨fd.toNat, hfd⟩ := by
      intro P
      constructor
      · rintro ⟨i, hi, hP⟩
        rwa [show i = ⟨fd.toNat, hfd⟩ from Fin.ext hi.symm] at hP
      · exact fun hP => ⟨_, rfl, hP⟩
    rw [hthis, ← hf]
    dsimp only
    cases huse : f.inUse with
    | false =>
      rw [if_pos (by simp)]
      simp
    | true =>
      rw [if_neg (by simp)]
      -- at the end of the file nothing is read, and both sides are empty
      by_cases hend : f.offset ≥ f.size
      · have hend' : f.size.toNat ≤ f.offset.toNat := hend
        have hcount : readCount f count = 0 := by
          unfold readCount
          omega
        rw [if_pos hend, hcount]
        simp
      · have hlt : f.offset.toNat < f.size.toNat := Nat.lt_of_not_le hend
        have hrest : (f.size - f.offset).toNat = f.size.toNat - f.offset.toNat :=
          BitVec.toNat_sub_of_le (BitVec.le_def.mpr (Nat.le_of_lt hlt))
        -- the count is clamped to what is left of the file
        have hcount : (if count > f.size - f.offset then f.size - f.offset else count).toNat =
            readCount f count := by
          unfold readCount
          by_cases hgt : count > f.size - f.offset
          · have hgt' : (f.size - f.offset).toNat < count.toNat := hgt
            rw [if_pos hgt]
            omega
          · have hgt' : ¬ (f.size - f.offset).toNat < count.toNat := hgt
            rw [if_neg hgt]
            omega
        have hsize : f.size.toNat < 2 ^ 32 := f.size.isLt
        have hle : readCount f count ≤ f.size.toNat - f.offset.toNat := Nat.min_le_right _ _
        generalize (if count > f.size - f.offset then f.size - f.offset else count) = n at hcount
        have h0 : (0 : BitVec 32).toNat = 0 := rfl
        have hloop : (∃ v, (x, v) ∈
            (vfsReadLoop ata buffer f.startLba n n.toNat 0 f.offset sectorBuf).2) ↔ _ :=
          (vfsReadLoop_spec (o := f.offset.toNat) n.toNat rfl (Nat.zero_le _) (by omega)
            (.inr (.inl rfl)) (by omega)).2
        rw [if_neg hend, hloop, hcount]
        simp
  · rw [dif_neg hfd]
    constructor
    · rintro ⟨v, hv⟩
      cases hv
    · rintro ⟨i, hi, -⟩
      exact absurd i.isLt (by omega)

end ZohoOs
