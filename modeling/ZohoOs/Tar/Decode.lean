/-
  ZohoOs.Tar.Decode — what the searches find in an archive.

  An archive is a list of files, each with a header sector and the sectors of
  its content, followed by a block of zeros.  `TarAt` says that the disk holds
  one; a walk over its headers is then a search in the list.

  Main results:
    * `octalToInt_digits` — the size field is read back;
    * `cachedReadSector_eq` — the cache is transparent;
    * `tarWalk_eq` — a walk is a search in the list of files;
    * `tar_decode` — the two searches of tar.c;
    * `tarAt_of_image` — every list of files has an archive.
-/
import ZohoOs.Tar.Basic
import Mathlib.Data.List.TakeWhile

namespace ZohoOs

open ZohoOs.Lib

/-! ## §1. Archives. -/

/-- A file that a TAR archive can hold. -/
structure TarFile where
  name : List (BitVec 8)
  content : List (BitVec 8)
  name_ne_nil : name ≠ []
  name_length : name.length ≤ 99
  name_ne_nul : ∀ c ∈ name, c ≠ 0
  content_length : content.length + 511 < 2 ^ 32

namespace TarFile

/-- The sectors of a file, with its header. -/
def sectors (f : TarFile) : Nat := 1 + (f.content.length + 511) / 512

theorem sectors_pos (f : TarFile) : 0 < f.sectors := Nat.lt_of_lt_of_le Nat.one_pos (Nat.le_add_right _ _)

end TarFile

/-- The byte at `a`, counted from the start of the disk. -/
def diskByte (sectors : BitVec 32 → Sector) (a : Nat) : BitVec 8 :=
  (sectors (BitVec.ofNat 32 (a / 512))).byte (a % 512)

theorem byte_sector (sectors : BitVec 32 → Sector) (lba : Nat) {i : Nat} (hi : i < 512) :
    (sectors (BitVec.ofNat 32 lba)).byte i = diskByte sectors (512 * lba + i) := by
  unfold diskByte
  rw [show (512 * lba + i) / 512 = lba by omega, show (512 * lba + i) % 512 = i by omega]

/-- The octal digit at `i` of the 11 digits of `n`. -/
def octalDigit (n i : Nat) : BitVec 8 := BitVec.ofNat 8 (0x30 + n / 8 ^ (10 - i) % 8)

/-- The disk holds a file, with its header at `lba`. -/
structure TarFile.At (f : TarFile) (sectors : BitVec 32 → Sector) (lba : Nat) : Prop where
  name : ∀ i < 100, diskByte sectors (512 * lba + i) = f.name.getD i 0
  size : ∀ i < 11, diskByte sectors (512 * lba + (tarSizeOffset + i)) =
    octalDigit f.content.length i
  content : ∀ j < f.content.length, diskByte sectors (512 * (lba + 1) + j) = f.content.getD j 0

/-- The disk holds an archive from `lba` on. -/
def TarAt (sectors : BitVec 32 → Sector) : Nat → List TarFile → Prop
  | lba, [] => ∀ i < 512, diskByte sectors (512 * lba + i) = 0
  | lba, f :: fs => f.At sectors lba ∧ TarAt sectors (lba + f.sectors) fs

/-- Where the header of file `k` is, counted from the start of the archive. -/
def headerOffset (files : List TarFile) (k : Nat) : Nat := ((files.take k).map TarFile.sectors).sum

@[simp] theorem headerOffset_zero (files : List TarFile) : headerOffset files 0 = 0 := rfl

@[simp] theorem headerOffset_succ (f : TarFile) (fs : List TarFile) (k : Nat) :
    headerOffset (f :: fs) (k + 1) = f.sectors + headerOffset fs k := rfl

/-! ## §2. Reading a header. -/

theorem octalToInt_loop {oct : Nat → BitVec 8} {n : Nat} (hn : n < 2 ^ 32)
    (hdigits : ∀ i < 11, oct i = octalDigit n i) (left i : Nat) (hleft : left + i = 11)
    (res : BitVec 32) (hres : res.toNat = n / 8 ^ left) :
    octalToInt.loop oct left i res = BitVec.ofNat 32 n := by
  induction left generalizing i res with
  | zero =>
    apply BitVec.eq_of_toNat_eq
    rw [octalToInt.loop, hres, BitVec.toNat_ofNat, Nat.mod_eq_of_lt hn, Nat.pow_zero, Nat.div_one]
  | succ left ih =>
    have hpow : 10 - i = left := by omega
    have hdigit : oct i = BitVec.ofNat 8 (0x30 + n / 8 ^ left % 8) := by
      rw [hdigits i (by omega), octalDigit, hpow]
    have hlt : n / 8 ^ left % 8 < 8 := Nat.mod_lt _ (by decide)
    have hdiv : n / 8 ^ (left + 1) = n / 8 ^ left / 8 := by
      rw [Nat.pow_succ, Nat.div_div_eq_div_mul]
    have hle : n / 8 ^ left ≤ n := Nat.div_le_self _ _
    generalize n / 8 ^ left = q at hdigit hlt hdiv hle ih
    have hval : (oct i).toNat = 0x30 + q % 8 := by
      rw [hdigit, BitVec.toNat_ofNat, Nat.mod_eq_of_lt (by omega)]
    have hrange : ¬ (oct i < 0x30 ∨ oct i > 0x37) := by
      intro h
      rcases h with h | h
      · have h' : (oct i).toNat < 0x30 := h
        omega
      · have h' : 0x37 < (oct i).toNat := h
        omega
    rw [octalToInt.loop, if_neg hrange]
    apply ih
    · omega
    · -- `res << 3 | digit` is `8 * res + digit`
      have hsub : (oct i - 0x30).toNat = q % 8 := by
        rw [BitVec.toNat_sub_of_le (show (0x30 : BitVec 8).toNat ≤ (oct i).toNat by
          rw [hval]
          exact Nat.le_add_right _ _), hval]
        exact Nat.add_sub_cancel_left _ _
      have hshift : (res <<< 3).toNat = 8 * res.toNat := by
        rw [BitVec.toNat_shiftLeft, Nat.shiftLeft_eq, hres, hdiv, Nat.mod_eq_of_lt (by omega),
          Nat.mul_comm]
      have hwidth : ((oct i - 0x30).setWidth 32).toNat = q % 8 := by
        rw [BitVec.toNat_setWidth, hsub, Nat.mod_eq_of_lt (by omega)]
      rw [BitVec.toNat_or, hshift, hwidth, hres, hdiv]
      rw [← Nat.two_pow_add_eq_or_of_lt (i := 3) (show q % 8 < 2 ^ 3 by omega)]
      omega

/-- The size field is read back. -/
theorem octalToInt_digits {oct : Nat → BitVec 8} {n : Nat} (hn : n < 2 ^ 32)
    (hdigits : ∀ i < 11, oct i = octalDigit n i) : octalToInt oct = BitVec.ofNat 32 n := by
  have hzero : n / 8 ^ 11 = 0 := Nat.div_eq_of_lt (by omega)
  exact octalToInt_loop hn hdigits 11 0 rfl 0 hzero.symm

theorem strcmp_eq_zero_iff {s s' : List (BitVec 8)} (hs : ∀ c ∈ s, c ≠ 0) (hs' : ∀ c ∈ s', c ≠ 0) :
    strcmp s s' = 0 ↔ s = s' := by
  have hpos : ∀ c : BitVec 8, c ≠ 0 → (c.toNat : Int) ≠ 0 := by
    intro c hc h
    exact hc (BitVec.eq_of_toNat_eq (Int.natCast_eq_zero.mp h))
  induction s generalizing s' with
  | nil =>
    cases s' with
    | nil => exact iff_of_true rfl rfl
    | cons d s' =>
      have hd := hpos d (hs' d List.mem_cons_self)
      unfold strcmp
      exact iff_of_false (fun h => hd (Int.neg_eq_zero.mp h)) (List.cons_ne_nil d s').symm
  | cons c s ih =>
    cases s' with
    | nil =>
      unfold strcmp
      exact iff_of_false (hpos c (hs c List.mem_cons_self)) (List.cons_ne_nil _ _)
    | cons d s' =>
      unfold strcmp
      have hrest := ih (fun x hx => hs x (List.mem_cons_of_mem _ hx))
        (fun x hx => hs' x (List.mem_cons_of_mem _ hx))
      by_cases hcd : c = d
      · rw [if_pos hcd, hcd]
        exact hrest.trans ⟨fun h => by rw [h], fun h => (List.cons.inj h).2⟩
      · rw [if_neg hcd]
        apply iff_of_false
        · intro h
          have hnat : c.toNat = d.toNat := Int.natCast_inj.mp (Int.sub_eq_zero.mp h)
          exact hcd (BitVec.eq_of_toNat_eq hnat)
        · exact fun h => hcd (List.cons.inj h).1

namespace TarFile.At

variable {f : TarFile} {sectors : BitVec 32 → Sector} {lba : Nat}

/-- The name of the header is the name of the file. -/
theorem tarHeaderName_eq (h : f.At sectors lba) :
    tarHeaderName (sectors (BitVec.ofNat 32 lba)) = f.name := by
  have hlen := f.name_length
  have hbyte : ∀ i < 100, (sectors (BitVec.ofNat 32 lba)).byte i = f.name.getD i 0 :=
    fun i hi => (byte_sector sectors lba (by omega)).trans (h.name i hi)
  unfold tarHeaderName
  generalize hl : (List.range 512).map (sectors (BitVec.ofNat 32 lba)).byte = l
  have hlength : l.length = 512 := by
    rw [← hl, List.length_map, List.length_range]
  have hget : ∀ (i : Nat) (hi : i < l.length), i < 100 → l[i] = f.name.getD i 0 := by
    intro i hi hi'
    subst hl
    rw [List.getElem_map, List.getElem_range]
    exact hbyte i hi'
  -- the name, its NUL byte, and the rest of the sector
  have htake : l.take f.name.length = f.name := by
    apply List.ext_getElem
    · rw [List.length_take, hlength]
      omega
    · intro i hi hi'
      rw [List.getElem_take, hget i (by omega) (by omega)]
      exact List.getD_eq_getElem _ _ hi'
  have hlt : f.name.length < l.length := by omega
  have hnul : l[f.name.length] = 0 := by
    rw [hget _ _ (by omega)]
    exact List.getD_eq_default _ _ (Nat.le_refl _)
  have hsplit : l = f.name ++ 0 :: l.drop (f.name.length + 1) := by
    conv_lhs => rw [← List.take_append_drop f.name.length l, htake,
      List.drop_eq_getElem_cons hlt, hnul]
  rw [hsplit, List.takeWhile_append_of_pos fun c hc => decide_eq_true (f.name_ne_nul c hc),
    List.takeWhile_cons_of_neg (by decide), List.append_nil]

theorem tarHeaderSize_eq (h : f.At sectors lba) :
    tarHeaderSize (sectors (BitVec.ofNat 32 lba)) = BitVec.ofNat 32 f.content.length := by
  have hlength := f.content_length
  apply octalToInt_digits (by omega)
  intro i hi
  rw [byte_sector sectors lba (by unfold tarSizeOffset; omega)]
  exact h.size i hi

/-- A header is no block of zeros. -/
theorem byte_zero_ne (h : f.At sectors lba) : (sectors (BitVec.ofNat 32 lba)).byte 0 ≠ 0 := by
  have hpos : 0 < f.name.length := List.length_pos_iff.mpr f.name_ne_nil
  rw [byte_sector sectors lba (by decide), h.name 0 (by decide), List.getD_eq_getElem _ _ hpos]
  exact f.name_ne_nul _ (List.getElem_mem hpos)

end TarFile.At

/-! ## §3. The sector cache. -/

/-- What the cache holds is on the disk. -/
def SectorCache.Agrees (cache : SectorCache) (disk : AtaDisk) : Prop :=
  cache.valid = true → cache.data = disk.sectors cache.lba

/-- The device answers for every sector. -/
def AtaDisk.Up (disk : AtaDisk) : Prop := ∀ lba, disk.answers lba = true

theorem AtaDisk.Up.read {disk : AtaDisk} (hup : disk.Up) (lba : BitVec 32) :
    disk.read lba = some (disk.sectors lba) := if_pos (hup lba)

/-- **The cache is transparent.** -/
theorem cachedReadSector_eq {disk : AtaDisk} (hup : disk.Up) {cache : SectorCache}
    (hagrees : cache.Agrees disk) (lba : BitVec 32) :
    (cachedReadSector disk.read cache lba).1 = disk.sectors lba ∧
      (cachedReadSector disk.read cache lba).2.Agrees disk := by
  unfold cachedReadSector
  by_cases hhit : cache.valid ∧ cache.lba = lba
  · rw [if_pos hhit]
    refine ⟨?_, hagrees⟩
    rw [← hhit.2]
    exact hagrees hhit.1
  · rw [if_neg hhit, hup.read lba]
    exact ⟨rfl, fun _ => rfl⟩

/-! ## §4. Walking the headers. -/

/-- The search of a walk in a list of files, the first of which is number
    `index` and has its header at `lba`; `limit` is where the walk gives up. -/
def searchFiles {α : Type} (g : Nat → Nat → TarFile → Option α) (limit : Nat) :
    Nat → Nat → List TarFile → Option α
  | _, _, [] => none
  | index, lba, f :: fs =>
    match g index lba f with
    | some a => some a
    | none =>
      if lba + f.sectors > limit then none
      else searchFiles g limit (index + 1) (lba + f.sectors) fs

/-- The sectors of an archive without the zeros at its end. -/
def archiveSectors (files : List TarFile) : Nat := (files.map TarFile.sectors).sum

@[simp] theorem archiveSectors_cons (f : TarFile) (fs : List TarFile) :
    archiveSectors (f :: fs) = f.sectors + archiveSectors fs := rfl

theorem length_le_archiveSectors (files : List TarFile) : files.length ≤ archiveSectors files := by
  induction files with
  | nil => exact Nat.le_refl _
  | cons f fs ih =>
    have hpos := f.sectors_pos
    rw [List.length_cons, archiveSectors_cons]
    omega

theorem nextHeader_eq (f : TarFile) (lba : Nat) :
    nextHeader (BitVec.ofNat 32 lba) (BitVec.ofNat 32 f.content.length) =
      BitVec.ofNat 32 (lba + f.sectors) := by
  have hlength := f.content_length
  have hdiv : (BitVec.ofNat 32 f.content.length + 511) / 512 =
      BitVec.ofNat 32 ((f.content.length + 511) / 512) := by
    apply BitVec.eq_of_toNat_eq
    have hsum : (BitVec.ofNat 32 f.content.length + 511).toNat = f.content.length + 511 := by
      rw [BitVec.toNat_add, BitVec.toNat_ofNat]
      show (f.content.length % 2 ^ 32 + 511) % 2 ^ 32 = _
      omega
    rw [BitVec.toNat_udiv, hsum, BitVec.toNat_ofNat]
    show (f.content.length + 511) / 512 = _
    omega
  unfold nextHeader TarFile.sectors
  rw [hdiv, BitVec.ofNat_add, BitVec.ofNat_add]
  rfl

section

variable {α : Type} {disk : AtaDisk} {start : Nat}

/-- **A walk is a search in the list of files.** -/
theorem tarWalk_eq (found : BitVec 32 → BitVec 32 → Sector → Option α)
    (g : Nat → Nat → TarFile → Option α) (hup : disk.Up)
    (hfound : ∀ index lba f, f.At disk.sectors lba →
      found (BitVec.ofNat 32 index) (BitVec.ofNat 32 lba) (disk.sectors (BitVec.ofNat 32 lba)) =
        g index lba f)
    (files : List TarFile) (index : Nat) {fuel lba : Nat} {cache : SectorCache}
    (hfuel : files.length < fuel) (hat : TarAt disk.sectors lba files) (hstart : start ≤ lba)
    (hfits : lba + archiveSectors files < 2 ^ 28) (hagrees : cache.Agrees disk) :
    ∃ cache', tarWalk disk.read (BitVec.ofNat 32 start) found fuel (BitVec.ofNat 32 index)
        (BitVec.ofNat 32 lba) cache =
          some (searchFiles g (start + 20000) index lba files, cache') ∧
      cache'.Agrees disk := by
  induction files generalizing fuel index lba cache with
  | nil =>
    obtain ⟨fuel, rfl⟩ := Nat.exists_eq_add_of_lt hfuel
    obtain ⟨hread, hnext⟩ := cachedReadSector_eq hup hagrees (BitVec.ofNat 32 lba)
    -- the block behind the last file begins with a zero, which ends the walk
    have hzero : (disk.sectors (BitVec.ofNat 32 lba)).byte 0 = 0 :=
      (byte_sector disk.sectors lba (by decide)).trans (hat 0 (by decide))
    refine ⟨_, ?_, hnext⟩
    unfold tarWalk
    dsimp only
    rw [hread, if_pos hzero]
    rfl
  | cons f fs ih =>
    obtain ⟨fuel, rfl⟩ := Nat.exists_eq_add_of_lt (Nat.zero_lt_of_lt hfuel)
    obtain ⟨hread, hnext⟩ := cachedReadSector_eq hup hagrees (BitVec.ofNat 32 lba)
    obtain ⟨hf, hfs⟩ := hat
    rw [archiveSectors_cons] at hfits
    rw [List.length_cons] at hfuel
    unfold tarWalk
    dsimp only
    rw [hread, if_neg hf.byte_zero_ne, hfound index lba f hf, hf.tarHeaderSize_eq, nextHeader_eq]
    unfold searchFiles
    cases hg : g index lba f with
    | some a => exact ⟨_, rfl, hnext⟩
    | none =>
      -- the limit of the search is compared without wrapping
      have hgt : BitVec.ofNat 32 (lba + f.sectors) > BitVec.ofNat 32 start + 20000 ↔
          lba + f.sectors > start + 20000 := by
        have hlimit : (BitVec.ofNat 32 start + 20000).toNat = start + 20000 := by
          rw [BitVec.toNat_add, BitVec.toNat_ofNat]
          show (start % 2 ^ 32 + 20000) % 2 ^ 32 = _
          omega
        have hlba : (BitVec.ofNat 32 (lba + f.sectors)).toNat = lba + f.sectors := by
          rw [BitVec.toNat_ofNat, Nat.mod_eq_of_lt (by omega)]
        show (BitVec.ofNat 32 start + 20000).toNat < (BitVec.ofNat 32 (lba + f.sectors)).toNat ↔ _
        rw [hlimit, hlba]
      dsimp only
      by_cases hfar : lba + f.sectors > start + 20000
      · rw [if_pos hfar, if_pos (hgt.mpr hfar)]
        exact ⟨_, rfl, hnext⟩
      · rw [if_neg hfar, if_neg (mt hgt.mp hfar)]
        have hindex : BitVec.ofNat 32 index + 1 = BitVec.ofNat 32 (index + 1) :=
          (BitVec.ofNat_add ..).symm
        rw [hindex]
        exact ih (index + 1) (by omega) hfs (by omega) (by omega) hnext

end

/-! ## §5. The searches. -/

/-- Where file `k` of an archive at `start` lies, and its size. -/
def fileEntry (start : Nat) (files : List TarFile) (k : Nat) : Option (BitVec 32 × BitVec 32) :=
  files[k]?.map fun f =>
    (BitVec.ofNat 32 (start + headerOffset files k + 1), BitVec.ofNat 32 f.content.length)

/-- The number of the first file with a name. -/
def fileNumber (files : List TarFile) (name : List (BitVec 8)) : Option Nat :=
  files.findIdx? fun f => f.name = name

def fileWithName (name : List (BitVec 8)) (_index lba : Nat) (f : TarFile) :
    Option (BitVec 32 × BitVec 32) :=
  if f.name = name then some (BitVec.ofNat 32 (lba + 1), BitVec.ofNat 32 f.content.length) else none

def fileWithIndex (target : BitVec 32) (index _lba : Nat) (f : TarFile) : Option (List (BitVec 8)) :=
  if BitVec.ofNat 32 index = target then some f.name else none

theorem searchFiles_name (name : List (BitVec 8)) (limit : Nat) (files : List TarFile)
    (index lba : Nat) (hlba : lba ≤ limit) :
    searchFiles (fileWithName name) limit index lba files =
      (fileNumber files name).bind fun k =>
        if lba + headerOffset files k ≤ limit then fileEntry lba files k else none := by
  induction files generalizing index lba with
  | nil => rfl
  | cons f fs ih =>
    unfold searchFiles fileNumber fileWithName
    rw [List.findIdx?_cons]
    by_cases hname : f.name = name
    · rw [if_pos hname, decide_eq_true hname]
      show _ = if lba + 0 ≤ limit then _ else _
      rw [if_pos (show lba + 0 ≤ limit from hlba)]
      rfl
    · rw [if_neg hname, decide_eq_false hname]
      dsimp only
      -- what is found behind `f` is found at its place behind `f`
      have hentry : ∀ k, fileEntry lba (f :: fs) (k + 1) = fileEntry (lba + f.sectors) fs k := by
        intro k
        unfold fileEntry
        rw [headerOffset_succ, ← Nat.add_assoc]
        rfl
      have hshift : ∀ o : Option Nat, ((if false = true then some 0 else o.map (· + 1)).bind fun k =>
          if lba + headerOffset (f :: fs) k ≤ limit then fileEntry lba (f :: fs) k else none) =
          o.bind fun k => if lba + f.sectors + headerOffset fs k ≤ limit then
            fileEntry (lba + f.sectors) fs k else none := by
        intro o
        cases o with
        | none => rfl
        | some k =>
          show (if lba + headerOffset (f :: fs) (k + 1) ≤ limit then _ else _) = _
          rw [headerOffset_succ, hentry, ← Nat.add_assoc]
          rfl
      rw [hshift]
      by_cases hfar : lba + f.sectors > limit
      · rw [if_pos hfar]
        cases fs.findIdx? fun f => f.name = name with
        | none => rfl
        | some k =>
          show none = if lba + f.sectors + headerOffset fs k ≤ limit then _ else _
          rw [if_neg (by omega)]
      · rw [if_neg hfar]
        exact ih (index + 1) (lba + f.sectors) (by omega)

theorem searchFiles_index (target : BitVec 32) (limit : Nat) (files : List TarFile)
    (index lba : Nat) (hlba : lba ≤ limit) (hindex : index ≤ target.toNat)
    (hsmall : index + files.length < 2 ^ 32) :
    searchFiles (fileWithIndex target) limit index lba files =
      if lba + headerOffset files (target.toNat - index) ≤ limit then
        files[target.toNat - index]?.map TarFile.name else none := by
  induction files generalizing index lba with
  | nil =>
    rw [List.getElem?_nil]
    split <;> rfl
  | cons f fs ih =>
    rw [List.length_cons] at hsmall
    have hnum : (BitVec.ofNat 32 index).toNat = index := Nat.mod_eq_of_lt (by omega)
    unfold searchFiles fileWithIndex
    by_cases heq : BitVec.ofNat 32 index = target
    · have hhere : target.toNat - index = 0 := by
        rw [← heq, hnum, Nat.sub_self]
      rw [if_pos heq, hhere]
      show _ = if lba + 0 ≤ limit then _ else _
      rw [if_pos (show lba + 0 ≤ limit from hlba)]
      rfl
    · have hne : index ≠ target.toNat := by
        intro h
        exact heq (BitVec.eq_of_toNat_eq (hnum.trans h))
      have hlater : target.toNat - index = target.toNat - (index + 1) + 1 := by omega
      rw [if_neg heq, hlater, headerOffset_succ, List.getElem?_cons_succ, ← Nat.add_assoc]
      dsimp only
      by_cases hfar : lba + f.sectors > limit
      · rw [if_pos hfar, if_neg (by omega)]
      · rw [if_neg hfar]
        exact ih (index + 1) (lba + f.sectors) (by omega) (by omega) (by omega)

section

variable {disk : AtaDisk} {tar : Tar} {files : List TarFile}

/-- The archive lies on the disk, which has 28-bit sector numbers. -/
def TarOnDisk (disk : AtaDisk) (tar : Tar) (files : List TarFile) : Prop :=
  TarAt disk.sectors tar.tarStartLba.toNat files ∧
    tar.tarStartLba.toNat + archiveSectors files < 2 ^ 28

theorem TarOnDisk.fuel (h : TarOnDisk disk tar files) : files.length < tarFuel := by
  have hlength := length_le_archiveSectors files
  have hfits := h.2
  unfold tarFuel
  omega

/-- **`tar_find_file`** finds the first file with the name, if its header is
    not behind the safety break. -/
theorem tarFindFile_eq (hup : disk.Up) (hdisk : TarOnDisk disk tar files)
    (hagrees : tar.cache.Agrees disk) {name : List (BitVec 8)} (hname : ∀ c ∈ name, c ≠ 0) :
    ∃ cache, tarFindFile disk.read tar name =
        some ((fileNumber files name).bind fun k =>
          if headerOffset files k ≤ 20000 then fileEntry tar.tarStartLba.toNat files k else none,
          cache) ∧
      cache.Agrees disk := by
  have hfound : ∀ (index lba : Nat) (f : TarFile), f.At disk.sectors lba →
      headerWithName name (BitVec.ofNat 32 index) (BitVec.ofNat 32 lba)
        (disk.sectors (BitVec.ofNat 32 lba)) = fileWithName name index lba f := by
    intro index lba f hf
    unfold headerWithName fileWithName
    rw [hf.tarHeaderName_eq, hf.tarHeaderSize_eq, BitVec.ofNat_add]
    by_cases h : f.name = name
    · rw [if_pos h, if_pos ((strcmp_eq_zero_iff f.name_ne_nul hname).mpr h)]
      rfl
    · rw [if_neg h, if_neg (mt (strcmp_eq_zero_iff f.name_ne_nul hname).mp h)]
  obtain ⟨cache, hwalk, hcache⟩ := tarWalk_eq _ _ hup hfound files 0 hdisk.fuel hdisk.1
    (Nat.le_refl _) hdisk.2 hagrees
  rw [searchFiles_name _ _ _ _ _ (Nat.le_add_right _ _)] at hwalk
  simp only [Nat.add_le_add_iff_left, BitVec.ofNat_toNat, BitVec.setWidth_eq] at hwalk
  exact ⟨cache, hwalk, hcache⟩

/-- **`tar_get_file_by_index`** numbers the files, up to the safety break. -/
theorem tarGetFileByIndex_eq (hup : disk.Up) (hdisk : TarOnDisk disk tar files)
    (hagrees : tar.cache.Agrees disk) (index : BitVec 32) :
    ∃ cache, tarGetFileByIndex disk.read tar index =
        some (if headerOffset files index.toNat ≤ 20000 then files[index.toNat]?.map TarFile.name
          else none, cache) ∧
      cache.Agrees disk := by
  have hfound : ∀ (i lba : Nat) (f : TarFile), f.At disk.sectors lba →
      headerWithIndex index (BitVec.ofNat 32 i) (BitVec.ofNat 32 lba)
        (disk.sectors (BitVec.ofNat 32 lba)) = fileWithIndex index i lba f := by
    intro i lba f hf
    unfold headerWithIndex fileWithIndex
    rw [hf.tarHeaderName_eq]
  obtain ⟨cache, hwalk, hcache⟩ := tarWalk_eq _ _ hup hfound files 0 hdisk.fuel hdisk.1
    (Nat.le_refl _) hdisk.2 hagrees
  have hsmall : 0 + files.length < 2 ^ 32 := by
    have hfuel := hdisk.fuel
    unfold tarFuel at hfuel
    omega
  rw [searchFiles_index _ _ _ _ _ (Nat.le_add_right _ _) (Nat.zero_le _) hsmall] at hwalk
  simp only [Nat.add_le_add_iff_left, BitVec.ofNat_toNat, BitVec.setWidth_eq, Nat.sub_zero] at hwalk
  exact ⟨cache, hwalk, hcache⟩

end

/-- **Decoding an archive.**  `tar_find_file` finds the first file with a name,
    where it starts and how long it is, and no other name;
    `tar_get_file_by_index` numbers the files.  Both return, and leave a cache
    that agrees with the disk. -/
theorem tar_decode {disk : AtaDisk} {tar : Tar} {files : List TarFile} (hup : disk.Up)
    (hdisk : TarOnDisk disk tar files)
    (hnear : ∀ k < files.length, headerOffset files k ≤ 20000)
    (hagrees : tar.cache.Agrees disk) :
    (∀ name : List (BitVec 8), (∀ c ∈ name, c ≠ 0) →
      ∃ cache, tarFindFile disk.read tar name =
          some ((fileNumber files name).bind (fileEntry tar.tarStartLba.toNat files), cache) ∧
        cache.Agrees disk) ∧
    (∀ index : BitVec 32,
      ∃ cache, tarGetFileByIndex disk.read tar index =
          some (files[index.toNat]?.map TarFile.name, cache) ∧
        cache.Agrees disk) := by
  constructor
  · intro name hname
    obtain ⟨cache, hfind, hcache⟩ := tarFindFile_eq hup hdisk hagrees hname
    refine ⟨cache, ?_, hcache⟩
    rw [hfind]
    cases hnumber : fileNumber files name with
    | none => rfl
    | some k =>
      have hk : k < files.length := (List.findIdx?_eq_some_iff_getElem.mp hnumber).1
      show some (if headerOffset files k ≤ 20000 then _ else _, _) = _
      rw [if_pos (hnear k hk)]
      rfl
  · intro index
    obtain ⟨cache, hget, hcache⟩ := tarGetFileByIndex_eq hup hdisk hagrees index
    refine ⟨cache, ?_, hcache⟩
    rw [hget]
    by_cases hindex : index.toNat < files.length
    · rw [if_pos (hnear _ hindex)]
    · rw [List.getElem?_eq_none (Nat.le_of_not_lt hindex)]
      split <;> rfl

/-! ## §6. Encoding. -/

/-- The header sector of a file, in the fields that the kernel reads. -/
def TarFile.header (f : TarFile) : Sector := fun i =>
  if i.val < 100 then f.name.getD i 0
  else if tarSizeOffset ≤ i.val ∧ i.val < tarSizeOffset + 11 then
    octalDigit f.content.length (i - tarSizeOffset)
  else 0

/-- Sector `k` of the content of a file. -/
def TarFile.contentSector (f : TarFile) (k : Nat) : Sector := fun i =>
  f.content.getD (512 * k + i) 0

/-- The sectors of an archive, without the zeros at its end. -/
def tarImage (files : List TarFile) : List Sector :=
  files.flatMap fun f =>
    f.header :: (List.range ((f.content.length + 511) / 512)).map f.contentSector

theorem tarImage_content (f : TarFile) (fs : List TarFile) {k : Nat}
    (hk : k < (f.content.length + 511) / 512) (default : Sector) :
    (tarImage (f :: fs)).getD (1 + k) default = f.contentSector k := by
  have hcons : tarImage (f :: fs) = f.header ::
      ((List.range ((f.content.length + 511) / 512)).map f.contentSector ++ tarImage fs) := rfl
  rw [hcons, Nat.add_comm 1 k, List.getD_cons_succ, List.getD_append _ _ _ _ (by simpa using hk),
    List.getD_eq_getElem _ _ (by simpa using hk), List.getElem_map, List.getElem_range]

theorem tarImage_rest (f : TarFile) (fs : List TarFile) (k : Nat) (default : Sector) :
    (tarImage (f :: fs)).getD (f.sectors + k) default = (tarImage fs).getD k default := by
  have hcons : tarImage (f :: fs) = (f.header ::
      (List.range ((f.content.length + 511) / 512)).map f.contentSector) ++ tarImage fs := rfl
  have hlength : (f.header ::
      (List.range ((f.content.length + 511) / 512)).map f.contentSector).length = f.sectors := by
    rw [List.length_cons, List.length_map, List.length_range, TarFile.sectors, Nat.add_comm]
  rw [hcons, List.getD_append_right _ _ _ _ (by omega), hlength, Nat.add_sub_cancel_left]

/-- **A disk that holds the sectors of an archive** holds the archive. -/
theorem tarAt_of_image {sectors : BitVec 32 → Sector} (files : List TarFile) (lba : Nat)
    (h : ∀ k, k ≤ archiveSectors files →
      sectors (BitVec.ofNat 32 (lba + k)) = (tarImage files).getD k fun _ => 0) :
    TarAt sectors lba files := by
  induction files generalizing lba with
  | nil =>
    intro i hi
    rw [← byte_sector sectors lba hi]
    have hzero := h 0 (Nat.zero_le _)
    rw [Nat.add_zero] at hzero
    rw [hzero]
    rfl
  | cons f fs ih =>
    have hpos := f.sectors_pos
    rw [archiveSectors_cons] at h
    have hheader : sectors (BitVec.ofNat 32 lba) = f.header := h 0 (Nat.zero_le _)
    constructor
    · constructor
      · intro i hi
        rw [← byte_sector sectors lba (by omega), hheader]
        simp only [Sector.byte, TarFile.header]
        rw [Nat.mod_eq_of_lt (by omega), if_pos hi]
      · intro i hi
        have hoffset : tarSizeOffset + i < 512 := by
          unfold tarSizeOffset
          omega
        rw [← byte_sector sectors lba hoffset, hheader]
        simp only [Sector.byte, TarFile.header]
        rw [Nat.mod_eq_of_lt hoffset, if_neg (by unfold tarSizeOffset; omega),
          if_pos ⟨Nat.le_add_right _ _, by omega⟩, Nat.add_sub_cancel_left]
      · intro j hj
        have hk : j / 512 < (f.content.length + 511) / 512 := by omega
        have hsector := h (1 + j / 512) (by unfold TarFile.sectors; omega)
        rw [tarImage_content f fs hk] at hsector
        have hbyte : diskByte sectors (512 * (lba + 1) + j) =
            (sectors (BitVec.ofNat 32 (lba + (1 + j / 512)))).byte (j % 512) := by
          unfold diskByte
          rw [show (512 * (lba + 1) + j) / 512 = lba + (1 + j / 512) by omega,
            show (512 * (lba + 1) + j) % 512 = j % 512 by omega]
        rw [hbyte, hsector]
        simp only [Sector.byte, TarFile.contentSector]
        rw [Nat.mod_eq_of_lt (Nat.mod_lt _ (by decide)), Nat.div_add_mod]
    · apply ih
      intro k hk
      rw [Nat.add_assoc, h _ (by omega), tarImage_rest]

/-- A disk with an archive at `start`. -/
def tarDisk (start : BitVec 32) (files : List TarFile) : AtaDisk where
  sectors := fun lba => (tarImage files).getD (lba.toNat - start.toNat) fun _ => 0
  answers := fun _ => true

theorem tarDisk_up (start : BitVec 32) (files : List TarFile) : (tarDisk start files).Up := fun _ => rfl

theorem tarDisk_tarOnDisk {start : BitVec 32} {files : List TarFile} (cache : SectorCache)
    (h : start.toNat + archiveSectors files < 2 ^ 28) :
    TarOnDisk (tarDisk start files) ⟨start, cache⟩ files := by
  refine ⟨tarAt_of_image files _ fun k hk => ?_, h⟩
  have hnum : (BitVec.ofNat 32 (start.toNat + k)).toNat - start.toNat = k := by
    rw [BitVec.toNat_ofNat, Nat.mod_eq_of_lt (by omega), Nat.add_sub_cancel_left]
  unfold tarDisk
  dsimp only
  rw [hnum]

/-- A file of three bytes. -/
def oneFile : TarFile := ⟨[0x61], [1, 2, 3], by decide, by decide, by decide, by decide⟩

/-- `tar.c` before the first read, with the archive at sector 2048. -/
def bootTar : Tar := ⟨2048, ⟨0, fun _ => 0, false⟩⟩

/-- `tar_decode` for an archive of one file. -/
theorem tar_decode_oneFile : ∃ cache cache',
    tarFindFile (tarDisk 2048 [oneFile]).read bootTar [0x61] = some (some (2049, 3), cache) ∧
    tarGetFileByIndex (tarDisk 2048 [oneFile]).read bootTar 1 = some (none, cache') := by
  have hdisk : TarOnDisk (tarDisk 2048 [oneFile]) bootTar [oneFile] :=
    tarDisk_tarOnDisk _ (by decide)
  have hdecode := tar_decode (tarDisk_up _ _) hdisk (by decide) (by intro h; cases h)
  obtain ⟨cache, hfind, _⟩ := hdecode.1 [0x61] (by decide)
  obtain ⟨cache', hget, _⟩ := hdecode.2 1
  exact ⟨cache, cache', hfind, hget⟩

end ZohoOs
