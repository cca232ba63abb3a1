/-
  ZohoOs.Vfs.Refine — descriptors are offsets into byte arrays (vfs.c, tar.c).

  The archive on the disk is a list of files, each an array of bytes of fixed
  size; a descriptor is a file and an offset into it.  The calls do to the disk
  what the model does to the list.  A file can be opened if the walk over the
  headers reaches its header.

  Main results:
    * `tarAt_write` — a write to a file leaves an archive, with that file
      changed;
    * `Refines.call` — one call, in the code and in the model;
    * `vfs_refines` — every sequence of calls has the results of the model.
-/
import ZohoOs.Lib.Slots
import ZohoOs.Vfs.Copy

namespace ZohoOs

open ZohoOs.Lib

/-! ## §1. Writing to a file of an archive. -/

/-- The file after `n` bytes were written at offset `o`. -/
def TarFile.splice (f : TarFile) (o n : Nat) (b : Nat → BitVec 8) : TarFile :=
  { f with
    content := (List.range f.content.length).map fun j =>
      if o ≤ j ∧ j < o + n then b (j - o) else f.content.getD j 0
    content_length := by
      rw [List.length_map, List.length_range]
      exact f.content_length }

namespace TarFile

variable (f : TarFile) (o n : Nat) (b : Nat → BitVec 8)

@[simp] theorem length_splice : (f.splice o n b).content.length = f.content.length := by
  unfold splice
  rw [List.length_map, List.length_range]

@[simp] theorem name_splice : (f.splice o n b).name = f.name := rfl

@[simp] theorem sectors_splice : (f.splice o n b).sectors = f.sectors := by
  unfold sectors
  rw [length_splice]

theorem getD_splice {j : Nat} (hj : j < f.content.length) :
    (f.splice o n b).content.getD j 0 =
      if o ≤ j ∧ j < o + n then b (j - o) else f.content.getD j 0 := by
  have hcontent : (f.splice o n b).content = (List.range f.content.length).map fun j =>
      if o ≤ j ∧ j < o + n then b (j - o) else f.content.getD j 0 := rfl
  rw [hcontent, List.getD_eq_getElem?_getD, List.getElem?_map, List.getElem?_range hj]
  rfl

end TarFile

/-- The archive after a write to file `k`. -/
def writeFile (files : List TarFile) (k o n : Nat) (b : Nat → BitVec 8) : List TarFile :=
  files.modify k fun f => f.splice o n b

section

variable (files : List TarFile) (k o n : Nat) (b : Nat → BitVec 8)

theorem map_writeFile {α : Type} (g : TarFile → α) (hg : ∀ f : TarFile, g (f.splice o n b) = g f) :
    (writeFile files k o n b).map g = files.map g := by
  unfold writeFile
  induction files generalizing k with
  | nil => cases k <;> rfl
  | cons f fs ih =>
    cases k with
    | zero =>
      show g (f.splice o n b) :: fs.map g = _
      rw [hg, List.map_cons]
    | succ k =>
      show g f :: (fs.modify k _).map g = _
      rw [ih, List.map_cons]

theorem archiveSectors_writeFile :
    archiveSectors (writeFile files k o n b) = archiveSectors files := by
  unfold archiveSectors
  rw [map_writeFile files k o n b _ fun f => f.sectors_splice o n b]

theorem headerOffset_writeFile (j : Nat) :
    headerOffset (writeFile files k o n b) j = headerOffset files j := by
  unfold headerOffset
  rw [List.map_take, List.map_take, map_writeFile files k o n b _ fun f => f.sectors_splice o n b]

end

/-! ### The disk. -/

/-- An archive depends on its own sectors only. -/
theorem tarAt_congr {sectors sectors' : BitVec 32 → Sector} (files : List TarFile) {lba : Nat}
    (h : ∀ a, 512 * lba ≤ a → a < 512 * (lba + archiveSectors files + 1) →
      diskByte sectors' a = diskByte sectors a) (hat : TarAt sectors lba files) :
    TarAt sectors' lba files := by
  induction files generalizing lba with
  | nil =>
    intro i hi
    rw [h _ (by omega) (by show 512 * lba + i < 512 * (lba + 0 + 1); omega)]
    exact hat i hi
  | cons f fs ih =>
    obtain ⟨hf, hfs⟩ := hat
    rw [archiveSectors_cons] at h
    have hsectors : f.sectors = 1 + (f.content.length + 511) / 512 := rfl
    refine ⟨⟨fun i hi => ?_, fun i hi => ?_, fun j hj => ?_⟩, ?_⟩
    · rw [h _ (by omega) (by omega)]
      exact hf.name i hi
    · rw [h _ (by omega) (by unfold tarSizeOffset; omega)]
      exact hf.size i hi
    · rw [h _ (by omega) (by omega)]
      exact hf.content j hj
    · exact ih (fun a ha ha' => h a (by omega) (by omega)) hfs

/-- Where the content of file `k` starts, in bytes. -/
def contentStart (lba : Nat) (files : List TarFile) (k : Nat) : Nat :=
  512 * (lba + headerOffset files k + 1)

/-- **A write to a file** leaves an archive, with that file changed. -/
theorem tarAt_write {sectors sectors' : BitVec 32 → Sector} (files : List TarFile) {lba k o n : Nat}
    {f : TarFile} (b : Nat → BitVec 8) (hk : files[k]? = some f)
    (hfit : o + n ≤ f.content.length) (hsmall : lba + archiveSectors files + 1 ≤ 2 ^ 32)
    (hwritten : ∀ a < 2 ^ 41, diskByte sectors' a =
      if contentStart lba files k + o ≤ a ∧ a < contentStart lba files k + o + n then
        b (a - (contentStart lba files k + o)) else diskByte sectors a)
    (hat : TarAt sectors lba files) : TarAt sectors' lba (writeFile files k o n b) := by
  induction files generalizing lba k with
  | nil =>
    rw [List.getElem?_nil] at hk
    cases hk
  | cons g gs ih =>
    obtain ⟨hg, hgs⟩ := hat
    rw [archiveSectors_cons] at hsmall
    have hsectors : g.sectors = 1 + (g.content.length + 511) / 512 := rfl
    cases k with
    | zero =>
      -- the file that is written: its header is not, and its length stays
      have hgf : g = f := Option.some.inj hk
      subst hgf
      unfold contentStart at hwritten
      rw [headerOffset_zero] at hwritten
      show (g.splice o n b).At sectors' lba ∧ TarAt sectors' (lba + (g.splice o n b).sectors) gs
      refine ⟨⟨fun i hi => ?_, fun i hi => ?_, fun j hj => ?_⟩, ?_⟩
      · rw [hwritten _ (by omega), if_neg (by omega)]
        exact hg.name i hi
      · have hoffset : tarSizeOffset + i < 512 := by
          unfold tarSizeOffset
          omega
        rw [hwritten _ (by omega), if_neg (by omega), g.length_splice]
        exact hg.size i hi
      · rw [g.length_splice] at hj
        rw [hwritten _ (by omega), g.getD_splice o n b hj]
        by_cases hin : o ≤ j ∧ j < o + n
        · rw [if_pos hin, if_pos (by omega)]
          congr 1
          omega
        · rw [if_neg hin, if_neg (by omega)]
          exact hg.content j hj
      · rw [g.sectors_splice]
        apply tarAt_congr gs _ hgs
        intro a ha ha'
        rw [hwritten a (by omega), if_neg (by omega)]
    | succ k =>
      -- a file in front of it is not touched
      have hstart : contentStart lba (g :: gs) (k + 1) = contentStart (lba + g.sectors) gs k := by
        unfold contentStart
        rw [headerOffset_succ, ← Nat.add_assoc]
      rw [hstart] at hwritten
      have hlow : 512 * (lba + g.sectors) ≤ contentStart (lba + g.sectors) gs k := by
        unfold contentStart
        omega
      show g.At sectors' lba ∧ TarAt sectors' (lba + g.sectors) (writeFile gs k o n b)
      refine ⟨⟨fun i hi => ?_, fun i hi => ?_, fun j hj => ?_⟩, ?_⟩
      · rw [hwritten _ (by omega), if_neg (by omega)]
        exact hg.name i hi
      · have hoffset : tarSizeOffset + i < 512 := by
          unfold tarSizeOffset
          omega
        rw [hwritten _ (by omega), if_neg (by omega)]
        exact hg.size i hi
      · rw [hwritten _ (by omega), if_neg (by omega)]
        exact hg.content j hj
      · exact ih hk (by omega) hwritten hgs

/-! ## §2. The model. -/

/-- A descriptor: the number of a file, and an offset into it. -/
structure Desc where
  file : Nat
  offset : Nat

/-- The files, and the descriptors. -/
structure FileSys where
  files : List TarFile
  fds : Fin maxFds → Option Desc

namespace FileSys

/-- The first file with a name, if its header is not more than 20000 sectors
    behind the start of the archive. -/
def lookup (m : FileSys) (path : List (BitVec 8)) : Option Nat :=
  (fileNumber m.files path).bind fun k => if headerOffset m.files k ≤ 20000 then some k else none

/-- The lowest free descriptor. -/
def free (m : FileSys) : Option (Fin maxFds) :=
  (List.finRange maxFds).find? fun i => (m.fds i).isNone

/-- An open descriptor, and its file. -/
def desc (m : FileSys) (fd : BitVec 32) : Option (Fin maxFds × Desc × TarFile) :=
  if h : fd.toNat < maxFds then
    (m.fds ⟨fd.toNat, h⟩).bind fun d => m.files[d.file]?.map fun f => (⟨fd.toNat, h⟩, d, f)
  else none

/-- The bytes that a transfer moves. -/
def transfer (d : Desc) (f : TarFile) (count : BitVec 32) : Nat :=
  min count.toNat (f.content.length - d.offset)

/-- Move the offset of a descriptor. -/
def advance (m : FileSys) (i : Fin maxFds) (d : Desc) (n : Nat) : FileSys :=
  { m with fds := Function.update m.fds i (some ⟨d.file, d.offset + n⟩) }

def openFile (m : FileSys) (path : List (BitVec 8)) : BitVec 32 × FileSys :=
  match m.lookup path with
  | none => (-1, m)
  | some k =>
    match m.free with
    | none => (-1, m)
    | some i =>
      (BitVec.ofNat 32 i.val, { m with fds := Function.update m.fds i (some ⟨k, 0⟩) })

def read (m : FileSys) (fd : BitVec 32) (buffer : Word) (count : BitVec 32) :
    BitVec 32 × List Store × FileSys :=
  match m.desc fd with
  | none => (-1, [], m)
  | some (i, d, f) =>
    let n := transfer d f count
    (BitVec.ofNat 32 n, storesAt buffer n fun j => f.content.getD (d.offset + j) 0,
      m.advance i d n)

def write (m : FileSys) (mem : Mem) (fd : BitVec 32) (buffer : Word) (count : BitVec 32) :
    BitVec 32 × FileSys :=
  match m.desc fd with
  | none => (-1, m)
  | some (i, d, f) =>
    let n := transfer d f count
    let files := writeFile m.files d.file d.offset n fun j => mem (buffer + BitVec.ofNat 64 j)
    (BitVec.ofNat 32 n, { m.advance i d n with files := files })

def size (m : FileSys) (fd : BitVec 32) : BitVec 32 :=
  match m.desc fd with
  | none => 0
  | some (_, _, f) => BitVec.ofNat 32 f.content.length

def close (m : FileSys) (fd : BitVec 32) : FileSys :=
  if h : fd.toNat < maxFds then { m with fds := Function.update m.fds ⟨fd.toNat, h⟩ none } else m

def call (m : FileSys) : VfsCall → (BitVec 32 × List Store) × FileSys
  | .openFile path => (((m.openFile path).1, []), (m.openFile path).2)
  | .read fd buffer count _ =>
    (((m.read fd buffer count).1, (m.read fd buffer count).2.1), (m.read fd buffer count).2.2)
  | .write mem fd buffer count _ =>
    (((m.write mem fd buffer count).1, []), (m.write mem fd buffer count).2)
  | .size fd => ((m.size fd, []), m)
  | .close fd => ((0, []), m.close fd)

/-- A path is a C string, and the end of a transfer does not wrap around. -/
def Legal (m : FileSys) : VfsCall → Prop
  | .openFile path => ∀ c ∈ path, c ≠ 0
  | .read fd _ count _ => ∀ r ∈ m.desc fd, r.2.1.offset + count.toNat < 2 ^ 32
  | .write _ fd _ count _ => ∀ r ∈ m.desc fd, r.2.1.offset + count.toNat < 2 ^ 32
  | _ => True

instance decidableLegal (m : FileSys) : (c : VfsCall) → Decidable (m.Legal c)
  | .openFile path => inferInstanceAs (Decidable (∀ c ∈ path, c ≠ 0))
  | .read fd _ count _ =>
    inferInstanceAs (Decidable (∀ r ∈ m.desc fd, r.2.1.offset + count.toNat < 2 ^ 32))
  | .write _ fd _ count _ =>
    inferInstanceAs (Decidable (∀ r ∈ m.desc fd, r.2.1.offset + count.toNat < 2 ^ 32))
  | .size _ => instDecidableTrue
  | .close _ => instDecidableTrue

/-- The results of a sequence of calls, and the model after it. -/
def run (m : FileSys) : List VfsCall → List (BitVec 32 × List Store) × FileSys
  | [] => ([], m)
  | c :: cs => ((m.call c).1 :: ((m.call c).2.run cs).1, ((m.call c).2.run cs).2)

/-- Each call is legal when its turn comes. -/
def AllLegal (m : FileSys) : List VfsCall → Prop
  | [] => True
  | c :: cs => m.Legal c ∧ (m.call c).2.AllLegal cs

instance decidableAllLegal : (m : FileSys) → (cs : List VfsCall) → Decidable (m.AllLegal cs)
  | _, [] => instDecidableTrue
  | m, c :: cs => @instDecidableAnd _ _ (decidableLegal m c) (decidableAllLegal (m.call c).2 cs)

end FileSys

/-! ## §3. Refinement. -/

/-- The byte lies in the content of a file. -/
def InContent (lba : Nat) (files : List TarFile) (a : Nat) : Prop :=
  ∃ k f, files[k]? = some f ∧ contentStart lba files k ≤ a ∧
    a < contentStart lba files k + f.content.length

/-- A descriptor of the code is that of the model. -/
def FdOf (lba : Nat) (files : List TarFile) (e : Fd) : Option Desc → Prop
  | none => e.inUse = false
  | some d => ∃ f, files[d.file]? = some f ∧ d.offset ≤ f.content.length ∧
      e = ⟨BitVec.ofNat 32 (lba + headerOffset files d.file + 1),
        BitVec.ofNat 32 f.content.length, BitVec.ofNat 32 d.offset, true⟩

/-- The disk holds the files of the model; these have the sizes of `files₀`, and
    outside their contents the disk holds what it held in `v₀`. -/
structure Refines (v₀ : Vfs) (files₀ : List TarFile) (v : Vfs) (m : FileSys) : Prop where
  start : v.tar.tarStartLba = v₀.tar.tarStartLba
  lengths : m.files.map (fun f => f.content.length) = files₀.map fun f => f.content.length
  up : v.disk.Up
  onDisk : TarOnDisk v.disk v.tar m.files
  agrees : v.tar.cache.Agrees v.disk
  small : ∀ f ∈ m.files, f.content.length < 2 ^ 31
  fds : ∀ i, FdOf v.tar.tarStartLba.toNat m.files (v.fds i) (m.fds i)
  kept : ∀ a < 2 ^ 41, ¬ InContent v₀.tar.tarStartLba.toNat files₀ a →
    diskByte v.disk.sectors a = diskByte v₀.disk.sectors a

/-- A file of an archive. -/
theorem tarAt_file {sectors : BitVec 32 → Sector} (files : List TarFile) {lba k : Nat} {f : TarFile}
    (hk : files[k]? = some f) (hat : TarAt sectors lba files) :
    f.At sectors (lba + headerOffset files k) ∧
      headerOffset files k + f.sectors ≤ archiveSectors files := by
  induction files generalizing lba k with
  | nil =>
    rw [List.getElem?_nil] at hk
    cases hk
  | cons g gs ih =>
    rw [archiveSectors_cons]
    cases k with
    | zero =>
      have hgf : g = f := Option.some.inj hk
      subst hgf
      exact ⟨hat.1, by rw [headerOffset_zero]; omega⟩
    | succ k =>
      obtain ⟨hat', hle⟩ := ih hk hat.2
      rw [headerOffset_succ, ← Nat.add_assoc]
      exact ⟨hat', by omega⟩

section

variable {v₀ v : Vfs} {files₀ : List TarFile} {m : FileSys}

theorem Refines.free_eq (h : Refines v₀ files₀ v m) : freeFd v.fds = m.free := by
  unfold freeFd FileSys.free
  congr 1
  funext i
  have hfd := h.fds i
  cases hm : m.fds i with
  | none =>
    rw [hm] at hfd
    have huse : (v.fds i).inUse = false := hfd
    rw [huse]
    rfl
  | some d =>
    rw [hm] at hfd
    obtain ⟨f, _, _, he⟩ := hfd
    rw [he]
    rfl

/-- The search only touches the cache. -/
theorem Refines.withCache (h : Refines v₀ files₀ v m) {cache : SectorCache}
    (hagrees : cache.Agrees v.disk) : Refines v₀ files₀ (v.withCache cache) m :=
  ⟨h.start, h.lengths, h.up, h.onDisk, hagrees, h.small, h.fds, h.kept⟩

/-- Change one descriptor, on both sides. -/
theorem Refines.setFd (h : Refines v₀ files₀ v m) (i : Fin maxFds) {e : Fd} {d : Option Desc}
    (hfd : FdOf v.tar.tarStartLba.toNat m.files e d) :
    Refines v₀ files₀ { v with fds := Function.update v.fds i e }
      { m with fds := Function.update m.fds i d } := by
  refine ⟨h.start, h.lengths, h.up, h.onDisk, h.agrees, h.small, fun j => ?_, h.kept⟩
  dsimp only
  by_cases hj : j = i
  · subst hj
    rw [Function.update_self, Function.update_self]
    exact hfd
  · rw [Function.update_of_ne hj, Function.update_of_ne hj]
    exact h.fds j

/-- `vfs_open`. -/
theorem Refines.openFile (h : Refines v₀ files₀ v m) {path : List (BitVec 8)}
    (hpath : ∀ c ∈ path, c ≠ 0) :
    ∃ v', vfsOpen v path = some ((m.openFile path).1, v') ∧ Refines v₀ files₀ v' (m.openFile path).2 := by
  obtain ⟨cache, hfind, hcache⟩ := tarFindFile_eq h.up h.onDisk h.agrees hpath
  have hcached := h.withCache hcache
  unfold vfsOpen
  rw [hfind, Option.map_some]
  unfold FileSys.openFile FileSys.lookup
  cases hnumber : fileNumber m.files path with
  | none => exact ⟨_, rfl, hcached⟩
  | some k =>
    simp only [Option.bind_some]
    by_cases hnear : headerOffset m.files k ≤ 20000
    · simp only [if_pos hnear]
      have hk : k < m.files.length := (List.findIdx?_eq_some_iff_getElem.mp hnumber).1
      have hfile : m.files[k]? = some m.files[k] := List.getElem?_eq_getElem hk
      have hentry : fileEntry v.tar.tarStartLba.toNat m.files k =
          some (BitVec.ofNat 32 (v.tar.tarStartLba.toNat + headerOffset m.files k + 1),
            BitVec.ofNat 32 m.files[k].content.length) := by
        unfold fileEntry
        rw [hfile]
        rfl
      rw [hentry, h.free_eq]
      cases m.free with
      | none => exact ⟨_, rfl, hcached⟩
      | some i =>
        refine ⟨_, rfl, hcached.setFd i ?_⟩
        exact ⟨m.files[k], hfile, Nat.zero_le _, rfl⟩
    · simp only [if_neg hnear]
      exact ⟨_, rfl, hcached⟩

/-- What the code knows about an open descriptor. -/
theorem Refines.desc (h : Refines v₀ files₀ v m) {fd : BitVec 32} {i : Fin maxFds} {d : Desc}
    {f : TarFile} (hdesc : m.desc fd = some (i, d, f)) :
    (∃ hfd : fd.toNat < maxFds, i = ⟨fd.toNat, hfd⟩) ∧ m.files[d.file]? = some f ∧
      d.offset ≤ f.content.length ∧ f.content.length < 2 ^ 31 ∧
      v.fds i = ⟨BitVec.ofNat 32 (v.tar.tarStartLba.toNat + headerOffset m.files d.file + 1),
        BitVec.ofNat 32 f.content.length, BitVec.ofNat 32 d.offset, true⟩ := by
  unfold FileSys.desc at hdesc
  by_cases hfd : fd.toNat < maxFds
  · rw [dif_pos hfd] at hdesc
    obtain ⟨d', hd', hdesc⟩ := Option.bind_eq_some_iff.mp hdesc
    obtain ⟨f', hf', heq⟩ := Option.map_eq_some_iff.mp hdesc
    have hfields := Prod.mk.inj heq
    obtain ⟨hi, hdf⟩ := hfields
    obtain ⟨hd, hf⟩ := Prod.mk.inj hdf
    subst hi hd hf
    have hof := h.fds ⟨fd.toNat, hfd⟩
    rw [hd'] at hof
    obtain ⟨f'', hf'', hle, he⟩ := hof
    have hsame : f'' = f' := Option.some.inj (hf''.symm.trans hf')
    subst hsame
    exact ⟨⟨hfd, rfl⟩, hf', hle, h.small _ (List.mem_of_getElem? hf'), he⟩
  · rw [dif_neg hfd] at hdesc
    cases hdesc

/-- What the code knows about a descriptor that is not open. -/
theorem Refines.desc_none (h : Refines v₀ files₀ v m) {fd : BitVec 32} (hdesc : m.desc fd = none)
    (hfd : fd.toNat < maxFds) : (v.fds ⟨fd.toNat, hfd⟩).inUse = false := by
  have hof := h.fds ⟨fd.toNat, hfd⟩
  unfold FileSys.desc at hdesc
  rw [dif_pos hfd] at hdesc
  cases hd : m.fds ⟨fd.toNat, hfd⟩ with
  | none =>
    rw [hd] at hof
    exact hof
  | some d =>
    rw [hd] at hof hdesc
    obtain ⟨f, hf, _⟩ := hof
    rw [Option.bind_some, hf] at hdesc
    cases hdesc

/-- `vfs_size`. -/
theorem Refines.size (h : Refines v₀ files₀ v m) (fd : BitVec 32) :
    vfsSize v.fds fd = m.size fd := by
  unfold vfsSize FileSys.size
  cases hdesc : m.desc fd with
  | none =>
    by_cases hfd : fd.toNat < maxFds
    · rw [dif_pos hfd, h.desc_none hdesc hfd]
      rfl
    · rw [dif_neg hfd]
  | some r =>
    obtain ⟨i, d, f⟩ := r
    obtain ⟨⟨hfd, hi⟩, _, _, _, he⟩ := h.desc hdesc
    subst hi
    rw [dif_pos hfd, he]
    rfl

/-- `vfs_close`. -/
theorem Refines.close (h : Refines v₀ files₀ v m) (fd : BitVec 32) :
    Refines v₀ files₀ { v with fds := vfsClose v.fds fd } (m.close fd) := by
  unfold vfsClose FileSys.close
  by_cases hfd : fd.toNat < maxFds
  · rw [dif_pos hfd, dif_pos hfd]
    apply h.setFd
    rfl
  · rw [dif_neg hfd, dif_neg hfd]
    exact h

/-- Where an open file starts. -/
theorem Refines.startLba_lt (h : Refines v₀ files₀ v m) {k : Nat} {f : TarFile}
    (hf : m.files[k]? = some f) :
    v.tar.tarStartLba.toNat + headerOffset m.files k + f.sectors < 2 ^ 28 := by
  have hle := (tarAt_file m.files hf h.onDisk.1).2
  have hfits := h.onDisk.2
  omega

/-- **`vfs_read`** stores the bytes at the offset, and moves it. -/
theorem Refines.read (h : Refines v₀ files₀ v m) (fd : BitVec 32) (buffer : Word) (count : BitVec 32)
    (sectorBuf : Sector) :
    let r := vfsRead v.disk.read v.fds fd buffer count sectorBuf
    r.1 = (m.read fd buffer count).1 ∧ r.2.2 = (m.read fd buffer count).2.1 ∧
      Refines v₀ files₀ { v with fds := r.2.1 } (m.read fd buffer count).2.2 := by
  unfold FileSys.read
  cases hdesc : m.desc fd with
  | none =>
    rw [vfsRead_closed _ _ _ _ fun hfd => h.desc_none hdesc hfd]
    exact ⟨rfl, rfl, h⟩
  | some r =>
    obtain ⟨i, d, f⟩ := r
    obtain ⟨⟨hfd, hi⟩, hf, hoff, hlen, he⟩ := h.desc hdesc
    subst hi
    have hlba := h.startLba_lt hf
    have hpos := f.sectors_pos
    have hat := (tarAt_file m.files hf h.onDisk.1).1
    rw [vfsRead_eq h.up hfd he (by omega) (by omega) hoff]
    have hn : FileSys.transfer d f count ≤ f.content.length - d.offset := Nat.min_le_right _ _
    refine ⟨rfl, ?_, h.setFd _ ⟨f, hf, ?_, rfl⟩⟩
    · apply storesAt_congr rfl
      intro j hj
      rw [hat.content _ (by omega)]
    · show d.offset + FileSys.transfer d f count ≤ f.content.length
      omega

/-- Where the contents lie depends on the sizes only. -/
theorem inContent_of_lengths {lba : Nat} {files files' : List TarFile}
    (h : files.map (fun f => f.content.length) = files'.map fun f => f.content.length) {a : Nat}
    (hin : InContent lba files a) : InContent lba files' a := by
  obtain ⟨k, f, hf, hlow, hhigh⟩ := hin
  have hget : files'[k]?.map (fun f : TarFile => f.content.length) = some f.content.length := by
    rw [← List.getElem?_map, ← h, List.getElem?_map, hf]
    rfl
  obtain ⟨f', hf', hlength⟩ := Option.map_eq_some_iff.mp hget
  have hsectors : ∀ l : List TarFile, headerOffset l k =
      (((l.map fun f => f.content.length).take k).map fun n => 1 + (n + 511) / 512).sum := by
    intro l
    unfold headerOffset
    rw [← List.map_take, List.map_map]
    rfl
  have hstart : contentStart lba files' k = contentStart lba files k := by
    unfold contentStart
    rw [hsectors files, hsectors files', h]
  exact ⟨k, f', hf', by omega, by omega⟩

/-- A descriptor, after a write to a file. -/
theorem fdOf_writeFile {lba : Nat} {files : List TarFile} {e : Fd} {d : Option Desc}
    (h : FdOf lba files e d) (k o n : Nat) (b : Nat → BitVec 8) :
    FdOf lba (writeFile files k o n b) e d := by
  cases d with
  | none => exact h
  | some d =>
    obtain ⟨f, hf, hoff, he⟩ := h
    unfold FdOf
    dsimp only
    rw [headerOffset_writeFile]
    unfold writeFile
    rw [List.getElem?_modify, hf]
    by_cases hk : k = d.file
    · refine ⟨f.splice o n b, ?_, ?_, ?_⟩
      · simp [hk]
      · rw [f.length_splice]
        exact hoff
      · rw [f.length_splice]
        exact he
    · exact ⟨f, by simp [hk], hoff, he⟩

/-- **`vfs_write`** replaces the bytes at the offset, and moves it. -/
theorem Refines.write (h : Refines v₀ files₀ v m) (mem : Mem) {fd : BitVec 32} (buffer : Word)
    {count : BitVec 32} (sectorBuf : Sector)
    (hend : ∀ r ∈ m.desc fd, r.2.1.offset + count.toNat < 2 ^ 32) :
    let r := vfsWrite v mem fd buffer count sectorBuf
    r.1 = (m.write mem fd buffer count).1 ∧ Refines v₀ files₀ r.2 (m.write mem fd buffer count).2 := by
  unfold FileSys.write
  cases hdesc : m.desc fd with
  | none =>
    rw [vfsWrite_closed _ _ _ _ fun hfd => h.desc_none hdesc hfd]
    exact ⟨rfl, h⟩
  | some r =>
    obtain ⟨i, d, f⟩ := r
    obtain ⟨⟨hfd, hi⟩, hf, hoff, hlen, he⟩ := h.desc hdesc
    subst hi
    have hlba := h.startLba_lt hf
    have hsectors : f.sectors = 1 + (f.content.length + 511) / 512 := rfl
    obtain ⟨hret, hfds, hstart, hwritten⟩ := vfsWrite_spec h.up h.agrees hfd he (by omega)
      (by omega) hoff mem buffer (hend _ hdesc) sectorBuf
    have hn : FileSys.transfer d f count ≤ f.content.length - d.offset := Nat.min_le_right _ _
    -- the descriptor after the call, and the bytes of the disk: one interval is overwritten
    have hmoved : FdOf v.tar.tarStartLba.toNat m.files
        ⟨BitVec.ofNat 32 (v.tar.tarStartLba.toNat + headerOffset m.files d.file + 1),
          BitVec.ofNat 32 f.content.length,
          BitVec.ofNat 32 (d.offset + FileSys.transfer d f count), true⟩
        (some ⟨d.file, d.offset + FileSys.transfer d f count⟩) := by
      refine ⟨f, hf, ?_, rfl⟩
      show d.offset + FileSys.transfer d f count ≤ f.content.length
      omega
    have hbytes : ∀ a < 2 ^ 41, diskByte (vfsWrite v mem fd buffer count sectorBuf).2.disk.sectors a =
        if contentStart v.tar.tarStartLba.toNat m.files d.file + d.offset ≤ a ∧
            a < contentStart v.tar.tarStartLba.toNat m.files d.file + d.offset +
              FileSys.transfer d f count then
          mem (buffer + BitVec.ofNat 64
            (a - (contentStart v.tar.tarStartLba.toNat m.files d.file + d.offset)))
        else diskByte v.disk.sectors a := hwritten.bytes
    have hfits := h.onDisk.2
    have hlengths := map_writeFile m.files d.file d.offset (FileSys.transfer d f count)
      (fun j => mem (buffer + BitVec.ofNat 64 j)) (fun f => f.content.length)
      fun f => f.length_splice _ _ _
    refine ⟨hret, hstart.trans h.start, hlengths.trans h.lengths, hwritten.up, ⟨?_, ?_⟩,
      hwritten.agrees, ?_, ?_, ?_⟩
    · rw [hstart]
      exact tarAt_write m.files _ hf (by omega) (by omega) hbytes h.onDisk.1
    · rw [hstart, archiveSectors_writeFile]
      exact hfits
    · -- no content has changed its length
      intro g hg
      have hmem := List.mem_map_of_mem (f := fun f : TarFile => f.content.length) hg
      rw [hlengths] at hmem
      obtain ⟨g', hg', hlength⟩ := List.mem_map.mp hmem
      rw [← hlength]
      exact h.small g' hg'
    · intro j
      rw [hfds, hstart]
      have hset := (h.setFd ⟨fd.toNat, hfd⟩ hmoved).fds j
      exact fdOf_writeFile hset _ _ _ _
    · intro a ha hout
      rw [hbytes a ha, if_neg, h.kept a ha hout]
      intro hin
      rw [← h.start] at hout
      exact hout (inContent_of_lengths h.lengths ⟨d.file, f, hf, by omega, by omega⟩)

/-- **One call**, in the code and in the model. -/
theorem Refines.call (h : Refines v₀ files₀ v m) {c : VfsCall} (hlegal : m.Legal c) :
    ∃ v', c.run v = some ((m.call c).1, v') ∧ Refines v₀ files₀ v' (m.call c).2 := by
  cases c with
  | openFile path =>
    obtain ⟨v', hopen, hrefines⟩ := h.openFile hlegal
    refine ⟨v', ?_, hrefines⟩
    show (vfsOpen v path).map (fun r => ((r.1, []), r.2)) = _
    rw [hopen]
    rfl
  | read fd buffer count sectorBuf =>
    obtain ⟨hret, hstores, hrefines⟩ := h.read fd buffer count sectorBuf
    refine ⟨_, ?_, hrefines⟩
    unfold VfsCall.run FileSys.call
    dsimp only
    rw [hret, hstores]
  | write mem fd buffer count sectorBuf =>
    obtain ⟨hret, hrefines⟩ := h.write mem buffer sectorBuf hlegal
    refine ⟨_, ?_, hrefines⟩
    unfold VfsCall.run FileSys.call
    dsimp only
    rw [hret]
  | size fd =>
    refine ⟨v, ?_, h⟩
    unfold VfsCall.run FileSys.call
    dsimp only
    rw [h.size]
  | close fd => exact ⟨_, rfl, h.close fd⟩

/-- A sequence of calls. -/
theorem Refines.run (h : Refines v₀ files₀ v m) {cs : List VfsCall} (hlegal : m.AllLegal cs) :
    ∃ v', vfsRun v cs = some ((m.run cs).1, v') ∧ Refines v₀ files₀ v' (m.run cs).2 := by
  induction cs generalizing v m with
  | nil => exact ⟨v, rfl, h⟩
  | cons c cs ih =>
    obtain ⟨v', hcall, hrefines⟩ := h.call hlegal.1
    obtain ⟨v'', hrun, hrefines'⟩ := ih hrefines hlegal.2
    refine ⟨v'', ?_, hrefines'⟩
    unfold vfsRun
    rw [hcall, Option.bind_some]
    dsimp only
    rw [hrun]
    rfl

end

/-- After `vfs_init` and `tar_init_disk`, with an archive of files below 2 GiB
    on the disk and a device that answers. -/
structure Mounted (v : Vfs) (files : List TarFile) : Prop where
  up : v.disk.Up
  onDisk : TarOnDisk v.disk v.tar files
  agrees : v.tar.cache.Agrees v.disk
  small : ∀ f ∈ files, f.content.length < 2 ^ 31
  unused : ∀ i, (v.fds i).inUse = false

theorem Mounted.refines {v : Vfs} {files : List TarFile} (h : Mounted v files) :
    Refines v files v ⟨files, fun _ => none⟩ :=
  ⟨rfl, rfl, h.up, h.onDisk, h.agrees, h.small, h.unused, fun _ _ _ => rfl⟩

/-- **File descriptors refine byte arrays.**  Every sequence of calls returns
    and stores what the model says, and leaves the files of the model on the
    disk; outside the contents of the files no byte of the disk changes. -/
theorem vfs_refines {v : Vfs} {files : List TarFile} (hmounted : Mounted v files)
    {cs : List VfsCall} (hlegal : FileSys.AllLegal ⟨files, fun _ => none⟩ cs) :
    ∃ v', vfsRun v cs = some ((FileSys.run ⟨files, fun _ => none⟩ cs).1, v') ∧
      TarAt v'.disk.sectors v.tar.tarStartLba.toNat (FileSys.run ⟨files, fun _ => none⟩ cs).2.files ∧
      ∀ a < 2 ^ 41, ¬ InContent v.tar.tarStartLba.toNat files a →
        diskByte v'.disk.sectors a = diskByte v.disk.sectors a := by
  obtain ⟨v', hrun, hrefines⟩ := hmounted.refines.run hlegal
  have hat := hrefines.onDisk.1
  rw [hrefines.start] at hat
  exact ⟨v', hrun, hat, hrefines.kept⟩

/-- The kernel after boot, with an archive at sector 2048. -/
def bootVfs (files : List TarFile) : Vfs :=
  ⟨tarDisk 2048 files, bootTar, fun _ => ⟨0, 0, 0, false⟩⟩

theorem bootVfs_mounted {files : List TarFile} (hfits : 2048 + archiveSectors files < 2 ^ 28)
    (hsmall : ∀ f ∈ files, f.content.length < 2 ^ 31) : Mounted (bootVfs files) files where
  up := tarDisk_up 2048 files
  onDisk := tarDisk_tarOnDisk _ hfits
  agrees := by
    intro h
    cases h
  small := hsmall
  unused := fun _ => rfl

/-- Open a file, write two bytes, and read what is left. -/
def sampleCalls : List VfsCall :=
  [.openFile [0x61], .write (fun _ => 7) 0 0x5000 2 fun _ => 0, .read 0 0x6000 10 fun _ => 0]

/-- `vfs_refines` for these calls. -/
theorem vfs_refines_oneFile : ∃ v, vfsRun (bootVfs [oneFile]) sampleCalls =
    some ([(0, []), (2, []), (1, [(0x6000, 3)])], v) := by
  have hmounted : Mounted (bootVfs [oneFile]) [oneFile] := bootVfs_mounted (by decide) (by decide)
  have hlegal : FileSys.AllLegal ⟨[oneFile], fun _ => none⟩ sampleCalls := by decide
  obtain ⟨v, hrun, _⟩ := vfs_refines hmounted hlegal
  exact ⟨v, hrun⟩

/-- A file of `n` zeros. -/
def zeroFile (n : Nat) (h : n + 511 < 2 ^ 32) : TarFile where
  name := [0x62]
  content := List.replicate n 0
  name_ne_nil := List.cons_ne_nil _ _
  name_length := Nat.le_add_left 1 98
  name_ne_nul := by
    intro c hc
    rw [List.mem_singleton.mp hc]
    decide
  content_length := by
    rw [List.length_replicate]
    exact h

theorem zeroFile_sectors {n : Nat} (h : n + 511 < 2 ^ 32) :
    (zeroFile n h).sectors = 1 + (n + 511) / 512 := by
  unfold TarFile.sectors zeroFile
  rw [List.length_replicate]

/-- A file behind `n` zeros, for a large `n`, is in the archive but cannot be
    opened. -/
theorem behind_zeroFile {n : Nat} (h : n + 511 < 2 ^ 32) (hlow : 20000 < 1 + (n + 511) / 512)
    (hhigh : n < 2 ^ 31) :
    Mounted (bootVfs [zeroFile n h, oneFile]) [zeroFile n h, oneFile] ∧
      fileNumber [zeroFile n h, oneFile] oneFile.name = some 1 ∧
      ∃ v, vfsOpen (bootVfs [zeroFile n h, oneFile]) oneFile.name = some (-1, v) := by
  have hone : archiveSectors [oneFile] = 2 := rfl
  have hmounted : Mounted (bootVfs [zeroFile n h, oneFile]) [zeroFile n h, oneFile] := by
    apply bootVfs_mounted
    · rw [archiveSectors_cons, zeroFile_sectors, hone]
      omega
    · intro f hf
      rcases List.mem_cons.mp hf with rfl | hf
      · show (List.replicate n (0 : BitVec 8)).length < 2 ^ 31
        rw [List.length_replicate]
        exact hhigh
      · rw [List.mem_singleton.mp hf]
        show 3 < 2 ^ 31
        omega
  have hname : (zeroFile n h).name ≠ oneFile.name := by
    show ([0x62] : List (BitVec 8)) ≠ [0x61]
    decide
  have hnumber : fileNumber [zeroFile n h, oneFile] oneFile.name = some 1 := by
    unfold fileNumber
    rw [List.findIdx?_cons, decide_eq_false hname, List.findIdx?_cons, decide_eq_true rfl]
    rfl
  have hfar : ¬ headerOffset [zeroFile n h, oneFile] 1 ≤ 20000 := by
    rw [headerOffset_succ, headerOffset_zero, zeroFile_sectors]
    omega
  refine ⟨hmounted, hnumber, ?_⟩
  obtain ⟨v, hopen, _⟩ := hmounted.refines.openFile oneFile.name_ne_nul
  unfold FileSys.openFile FileSys.lookup at hopen
  rw [hnumber, Option.bind_some, if_neg hfar] at hopen
  exact ⟨v, hopen⟩

/-- **A file behind the safety break**: the header of the second file is 20001
    sectors behind the start of the archive. -/
theorem far_file_not_found : ∃ (files : List TarFile) (v : Vfs),
    Mounted (bootVfs files) files ∧ fileNumber files [0x61] = some 1 ∧
      vfsOpen (bootVfs files) [0x61] = some (-1, v) := by
  obtain ⟨hmounted, hnumber, v, hopen⟩ :=
    behind_zeroFile (n := 10240000) (by omega) (by omega) (by omega)
  exact ⟨_, v, hmounted, hnumber, hopen⟩

end ZohoOs
