/-
  ZohoOs.Ext2.Lookup — looking up a name in a directory (ext2.c).

  `ext2_finddir` goes over the direct blocks, and in each from entry to entry
  by `rec_len`.  It checks neither that length nor the one of the name, and it
  takes an entry by its name alone: one that was deleted (inode 0) hides those
  behind it.

  Main results:
    * `findEntry_iff` — a block is searched within its bounds exactly if the
      records up to the one with the name lie in it, and lead on;
    * `findEntry_tiled` — what is found in a well-formed block;
    * `ext2_lookup_iff` — when a name is looked up as it should be.
-/
import Mathlib.Data.List.Forall2
import Mathlib.Data.List.TakeWhile
import ZohoOs.Ext2.Read

namespace ZohoOs

open ZohoOs.Lib

/-! ## §1. `ext2_finddir`. -/

/-- A read of `block_buf`: `size` bytes from `offset` on. -/
structure BufferRead where
  offset : Nat
  size : Nat

/-- The fields of the `vfs_node_t` that is returned. -/
structure Ext2Node where
  name : List (BitVec 8)
  inode : BitVec 32
  directory : Bool

/-- The fields of `ext2_dir_entry_t` at `offset`. -/
def Buffer.recLen (b : Buffer) (offset : Nat) : Nat := (b.load16 (offset + 4)).toNat
def Buffer.nameLen (b : Buffer) (offset : Nat) : Nat := (b (offset + 6)).toNat
def Buffer.nameBytes (b : Buffer) (offset : Nat) : List (BitVec 8) :=
  (List.range (b.nameLen offset)).map fun k => b (offset + 8 + k)

/-- `entry_name`, as the string that `strcmp` sees. -/
def Buffer.entryName (b : Buffer) (offset : Nat) : List (BitVec 8) := (b.nameBytes offset).takeWhile (· ≠ 0)

/-- The node that is made of the entry at `offset`. -/
def Buffer.nodeAt (b : Buffer) (offset : Nat) : Ext2Node :=
  ⟨b.entryName offset, b.load32 offset, b (offset + 7) = 2⟩

/-- The loop over the entries of a block, for at most `fuel` of them. -/
def findEntry (fs : Ext2) (blockBuf : Buffer) (name : List (BitVec 8)) :
    Nat → Nat → Logged BufferRead (Option (Option Ext2Node))
  | 0, _ => pure none
  | fuel + 1, offset =>
    if offset < fs.blockSize.toNat then do
      Logged.tell ⟨offset + 6, 1⟩
      Logged.tell ⟨offset + 8, blockBuf.nameLen offset⟩
      if blockBuf.entryName offset = name then do
        Logged.tell ⟨offset, 4⟩
        Logged.tell ⟨offset + 7, 1⟩
        pure (some (some (blockBuf.nodeAt offset)))
      else do
        Logged.tell ⟨offset + 4, 2⟩
        findEntry fs blockBuf name fuel (offset + blockBuf.recLen offset)
    else pure (some none)

/-- The loop over the direct blocks. -/
def findInBlocks (ata : AtaRead) (fs : Ext2) (name : List (BitVec 8)) (fuel : Nat) :
    List (BitVec 32) → Buffer → Logged BufferRead (Option (Option Ext2Node))
  | [], _ => pure (some none)
  | block :: blocks, blockBuf =>
    if block = 0 then findInBlocks ata fs name fuel blocks blockBuf
    else
      let blockBuf := readBlock ata fs block blockBuf
      do
        let r ← findEntry fs blockBuf name fuel 0
        r.elim (pure none) fun r =>
          r.elim (findInBlocks ata fs name fuel blocks blockBuf) fun node => pure (some (some node))

/-- The twelve direct blocks of an inode. -/
def Ext2Inode.direct (inode : Ext2Inode) : List (BitVec 32) :=
  (List.range 12).map fun i => inode.block i

/-- `ext2_finddir` with the inode at hand. -/
def ext2FinddirInode (ata : AtaRead) (fs : Ext2) (inode : Ext2Inode) (blockBuf : Buffer)
    (name : List (BitVec 8)) (fuel : Nat) : Logged BufferRead (Option (Option Ext2Node)) :=
  if inode.mode &&& 0x4000 = 0 then pure (some none)
  else findInBlocks ata fs name fuel inode.direct blockBuf

/-- `ext2_finddir`, where no block has more than `fuel` entries; the three
    buffers from `kmalloc` hold these bytes before. -/
def ext2Finddir (ata : AtaRead) (fs : Ext2) (bgdtBuf inodeBuf blockBuf : Buffer) (node : BitVec 32)
    (name : List (BitVec 8)) (fuel : Nat) : Logged BufferRead (Option (Option Ext2Node)) :=
  ext2FinddirInode ata fs (inodeOf (readInode ata fs bgdtBuf inodeBuf node).val) blockBuf name fuel

/-! ## §2. Directories. -/

/-- An entry of a directory; a deleted one has inode 0. -/
structure DirEntry where
  inode : BitVec 32
  recLen : Nat
  fileType : BitVec 8
  name : List (BitVec 8)

namespace DirEntry

/-- The entry stands at `offset`, and its name is a string that fits into it. -/
structure At (e : DirEntry) (b : Buffer) (offset : Nat) : Prop where
  inode : b.load32 offset = e.inode
  recLen : b.recLen offset = e.recLen
  fileType : b (offset + 7) = e.fileType
  nameLen : b.nameLen offset = e.name.length
  name : b.nameBytes offset = e.name
  string : ∀ c ∈ e.name, c ≠ 0
  fits : 8 + e.name.length ≤ e.recLen

/-- The node of the entry. -/
def node (e : DirEntry) : Ext2Node := ⟨e.name, e.inode, e.fileType = 2⟩

end DirEntry

/-- **The entries tile the block**, from `offset` on. -/
def EntriesTile (fs : Ext2) (b : Buffer) : Nat → List DirEntry → Prop
  | offset, [] => offset = fs.blockSize.toNat
  | offset, e :: es => e.At b offset ∧ EntriesTile fs b (offset + e.recLen) es

/-- A block on the disk. -/
def diskBlock (sectors : BitVec 32 → Sector) (fs : Ext2) (block : BitVec 32) : Buffer :=
  blockByte sectors fs block.toNat

/-- The block numbers in an indirect block; there are none in a hole. -/
def pointers (sectors : BitVec 32 → Sector) (fs : Ext2) (block : BitVec 32) : List (BitVec 32) :=
  if block = 0 then []
  else (List.range (fs.blockSize.toNat / 4)).map fun i => (diskBlock sectors fs block).load32 (4 * i)

/-- The blocks of an inode behind the direct ones. -/
def Ext2Inode.indirect (inode : Ext2Inode) (sectors : BitVec 32 → Sector) (fs : Ext2) : List (BitVec 32) :=
  pointers sectors fs (inode.block 12) ++
    (pointers sectors fs (inode.block 13)).flatMap (pointers sectors fs) ++
      ((pointers sectors fs (inode.block 14)).flatMap (pointers sectors fs)).flatMap (pointers sectors fs)

/-- The blocks that are there hold these entries. -/
def BlocksTile (sectors : BitVec 32 → Sector) (fs : Ext2) (blocks : List (BitVec 32))
    (entries : List (List DirEntry)) : Prop :=
  List.Forall₂ (fun block es => EntriesTile fs (diskBlock sectors fs block) 0 es)
    (blocks.filter (· ≠ 0)) entries

/-- **A well-formed directory**: the entries in its direct blocks, and in the
    others. -/
structure DirectoryAt (sectors : BitVec 32 → Sector) (fs : Ext2) (inode : Ext2Inode)
    (direct indirect : List (List DirEntry)) : Prop where
  mode : inode.mode &&& 0x4000 ≠ 0
  direct : BlocksTile sectors fs inode.direct direct
  indirect : BlocksTile sectors fs (inode.indirect sectors fs) indirect

/-! ## §3. What a lookup should do. -/

/-- A live entry with the name. -/
def DirEntry.Live (e : DirEntry) (name : List (BitVec 8)) : Prop := e.inode ≠ 0 ∧ e.name = name

/-- **The result is right**: there is a node exactly if a live entry has the
    name, and the node has the inode of such an entry. -/
def Found (r : Option Ext2Node) (name : List (BitVec 8)) (entries : List DirEntry) : Prop :=
  ((∃ node, r = some node) ↔ ∃ e ∈ entries, e.Live name) ∧
    ∀ node, r = some node → ∃ e ∈ entries, e.Live name ∧ node.inode = e.inode

/-- The read ends with the block or before; one of no bytes is none. -/
def BufferRead.Inside (fs : Ext2) (r : BufferRead) : Prop := ∀ k < r.size, r.offset + k < fs.blockSize.toNat

/-- **The lookup is right**: it returns, reads inside the buffer, and finds in a
    well-formed directory what is there. -/
def LookupRight (sectors : BitVec 32 → Sector) (fs : Ext2) (inode : Ext2Inode) (name : List (BitVec 8))
    (lookup : Nat → Logged BufferRead (Option (Option Ext2Node))) : Prop :=
  ∃ fuel r, (lookup fuel).val = some r ∧ (lookup fuel).All (BufferRead.Inside fs) ∧
    ∀ direct indirect, DirectoryAt sectors fs inode direct indirect →
      Found r name (direct.flatten ++ indirect.flatten)

/-! ## §4. Directories that can be searched. -/

/-- The header of the record and its name lie in the block. -/
structure RecordFits (fs : Ext2) (b : Buffer) (offset : Nat) : Prop where
  header : offset + 6 < fs.blockSize.toNat
  name : 0 < b.nameLen offset → offset + 8 + b.nameLen offset ≤ fs.blockSize.toNat

/-- **The records lead through the block**, from `offset` on: to its end, or to
    the first one with the name. -/
inductive Searched (fs : Ext2) (b : Buffer) (name : List (BitVec 8)) : Nat → Option Nat → Prop
  | done {offset : Nat} : fs.blockSize.toNat ≤ offset → Searched fs b name offset none
  | found {offset : Nat} : RecordFits fs b offset → offset + 7 < fs.blockSize.toNat →
      b.entryName offset = name → Searched fs b name offset (some offset)
  | next {offset : Nat} {r : Option Nat} : RecordFits fs b offset → b.entryName offset ≠ name →
      b.recLen offset ≠ 0 → Searched fs b name (offset + b.recLen offset) r → Searched fs b name offset r

/-- The same for one block after the other; holes are left out. -/
inductive BlocksSearched (fs : Ext2) (buf : BitVec 32 → Buffer) (name : List (BitVec 8)) :
    List (BitVec 32) → Option Ext2Node → Prop
  | done : BlocksSearched fs buf name [] none
  | hole {block : BitVec 32} {blocks : List (BitVec 32)} {r : Option Ext2Node} : block = 0 →
      BlocksSearched fs buf name blocks r → BlocksSearched fs buf name (block :: blocks) r
  | found {block : BitVec 32} {blocks : List (BitVec 32)} {offset : Nat} : block ≠ 0 →
      Searched fs (buf block) name 0 (some offset) →
      BlocksSearched fs buf name (block :: blocks) (some ((buf block).nodeAt offset))
  | next {block : BitVec 32} {blocks : List (BitVec 32)} {r : Option Ext2Node} : block ≠ 0 →
      Searched fs (buf block) name 0 none → BlocksSearched fs buf name blocks r →
      BlocksSearched fs buf name (block :: blocks) r

/-- **No deleted entry hides another one**: the first entry with the name in the
    direct blocks is a live one, and if there is none, there is no live one in
    the other blocks. -/
def NothingHidden (name : List (BitVec 8)) (direct indirect : List DirEntry) : Prop :=
  (direct.find? fun e => e.name = name).elim (∀ e ∈ indirect, ¬ e.Live name) fun e => e.inode ≠ 0

/-! ## §5. One block. -/

section Block

variable {fs : Ext2} {b : Buffer} {name : List (BitVec 8)}

theorem inside_byte (offset : Nat) :
    BufferRead.Inside fs ⟨offset, 1⟩ ↔ offset < fs.blockSize.toNat := by
  constructor
  · intro h
    exact h 0 Nat.one_pos
  · intro h k hk
    have hzero : k = 0 := Nat.lt_one_iff.mp hk
    rw [hzero]
    exact h

theorem inside_of_le {offset size : Nat} (h : offset + size ≤ fs.blockSize.toNat) :
    BufferRead.Inside fs ⟨offset, size⟩ := fun _ hk =>
  (Nat.add_lt_add_left hk offset).trans_le h

/-- The reads of the header and of the name. -/
theorem recordFits_iff {offset : Nat} :
    RecordFits fs b offset ↔ BufferRead.Inside fs ⟨offset + 6, 1⟩ ∧
      BufferRead.Inside fs ⟨offset + 8, b.nameLen offset⟩ := by
  rw [inside_byte]
  constructor
  · intro h
    refine ⟨h.header, fun k hk => ?_⟩
    have hend := h.name (Nat.zero_lt_of_lt hk)
    exact (Nat.add_lt_add_left hk _).trans_le hend
  · intro h
    refine ⟨h.1, fun hpos => ?_⟩
    have hlast := h.2 (b.nameLen offset - 1) (Nat.sub_lt hpos Nat.one_pos)
    dsimp only at hlast
    omega

/-- What the search leaves behind when it returns. -/
theorem searched_of_findEntry {fuel offset : Nat} {r : Option Ext2Node}
    (hval : (findEntry fs b name fuel offset).val = some r)
    (hall : (findEntry fs b name fuel offset).All (BufferRead.Inside fs)) :
    ∃ found, Searched fs b name offset found ∧ r = found.map b.nodeAt := by
  induction fuel generalizing offset with
  | zero => cases hval
  | succ fuel ih =>
    unfold findEntry at hval hall
    by_cases hlt : offset < fs.blockSize.toNat
    · rw [if_pos hlt] at hval hall
      rw [Logged.all_tell_bind, Logged.all_tell_bind, ← and_assoc, ← recordFits_iff] at hall
      obtain ⟨hfits, hrest⟩ := hall
      rw [Logged.val_bind, Logged.val_bind] at hval
      by_cases heq : b.entryName offset = name
      · rw [if_pos heq] at hval hrest
        rw [Logged.all_tell_bind, Logged.all_tell_bind, inside_byte] at hrest
        -- the first record with the name ends the search
        exact ⟨some offset, .found hfits hrest.2.1 heq, (Option.some.inj hval).symm⟩
      · rw [if_neg heq] at hval hrest
        rw [Logged.all_tell_bind] at hrest
        rw [Logged.val_bind] at hval
        obtain ⟨found, hsearched, hr⟩ := ih hval hrest.2
        have hmoves : b.recLen offset ≠ 0 := by
          intro hzero
          rw [hzero, Nat.add_zero] at hsearched
          -- the search is where it was
          cases hsearched with
          | done hend => exact absurd hlt (Nat.not_lt.mpr hend)
          | found _ _ h => exact heq h
          | next _ _ h _ => exact h hzero
        exact ⟨found, .next hfits heq hmoves hsearched, hr⟩
    · rw [if_neg hlt] at hval
      exact ⟨none, .done (Nat.not_lt.mp hlt), (Option.some.inj hval).symm⟩

/-- Records that lead through the block are searched. -/
theorem findEntry_of_searched {fuel offset : Nat} {found : Option Nat}
    (h : Searched fs b name offset found) (hfuel : fs.blockSize.toNat - offset < fuel) :
    (findEntry fs b name fuel offset).val = some (found.map b.nodeAt) ∧
      (findEntry fs b name fuel offset).All (BufferRead.Inside fs) := by
  induction h generalizing fuel with
  | done hend =>
    cases fuel with
    | zero => exact absurd hfuel (Nat.not_lt_zero _)
    | succ fuel =>
      unfold findEntry
      rw [if_neg (Nat.not_lt.mpr hend)]
      exact ⟨rfl, Logged.all_pure _⟩
  | found hfits htype heq =>
    rename_i offset
    have hheader := hfits.header
    obtain ⟨hread, hname⟩ := recordFits_iff.mp hfits
    cases fuel with
    | zero => exact absurd hfuel (Nat.not_lt_zero _)
    | succ fuel =>
      unfold findEntry
      rw [if_pos (show offset < fs.blockSize.toNat by omega), Logged.all_tell_bind, Logged.all_tell_bind,
        Logged.val_bind, Logged.val_bind, if_pos heq, Logged.all_tell_bind, Logged.all_tell_bind]
      exact ⟨rfl, hread, hname, inside_of_le (by omega), (inside_byte _).mpr htype, Logged.all_pure _⟩
  | next hfits hne hmoves hrest ih =>
    rename_i offset r
    have hheader := hfits.header
    obtain ⟨hread, hname⟩ := recordFits_iff.mp hfits
    cases fuel with
    | zero => exact absurd hfuel (Nat.not_lt_zero _)
    | succ fuel =>
      obtain ⟨hval, hall⟩ := @ih fuel (by omega)
      unfold findEntry
      rw [if_pos (show offset < fs.blockSize.toNat by omega), Logged.all_tell_bind, Logged.all_tell_bind,
        Logged.val_bind, Logged.val_bind, if_neg hne, Logged.all_tell_bind, Logged.val_bind]
      exact ⟨hval, hread, hname, inside_of_le (by omega), hall⟩

end Block

/-! ## §6. All blocks. -/

section Blocks

variable {disk : AtaDisk} {fs : Ext2} {name : List (BitVec 8)} {blockBuf : Buffer}

/-- A block is read over the one before. -/
theorem readBlock_readBlock (hup : disk.Up) (hsize : fs.SizeOk) (block block' : BitVec 32) :
    readBlock disk.read fs block (readBlock disk.read fs block' blockBuf) =
      readBlock disk.read fs block blockBuf := by
  funext k
  by_cases hk : k < fs.blockSize.toNat
  · rw [readBlock_byte hup hsize, if_pos hk, readBlock_byte hup hsize, if_pos hk]
  · rw [readBlock_byte hup hsize, if_neg hk, readBlock_byte hup hsize, if_neg hk,
      readBlock_byte hup hsize, if_neg hk]

/-- What the search of all blocks leaves behind. -/
theorem searched_of_findInBlocks (hup : disk.Up) (hsize : fs.SizeOk) {fuel : Nat}
    {blocks : List (BitVec 32)} {r : Option Ext2Node}
    (hval : (findInBlocks disk.read fs name fuel blocks blockBuf).val = some r)
    (hall : (findInBlocks disk.read fs name fuel blocks blockBuf).All (BufferRead.Inside fs)) :
    BlocksSearched fs (fun block => readBlock disk.read fs block blockBuf) name blocks r := by
  induction blocks generalizing blockBuf with
  | nil =>
    obtain rfl := Option.some.inj hval
    exact .done
  | cons block blocks ih =>
    unfold findInBlocks at hval hall
    by_cases hhole : block = 0
    · rw [if_pos hhole] at hval hall
      -- a hole is skipped, with the buffer as it was
      exact .hole hhole (ih hval hall)
    · rw [if_neg hhole] at hval hall
      dsimp only at hval hall
      rw [Logged.val_bind] at hval
      rw [Logged.all_bind] at hall
      obtain ⟨hblock, hrest⟩ := hall
      cases hentry : (findEntry fs (readBlock disk.read fs block blockBuf) name fuel 0).val with
      | none =>
        rw [hentry] at hval
        cases hval
      | some r₁ =>
        rw [hentry] at hval hrest
        obtain ⟨found, hsearched, hr₁⟩ := searched_of_findEntry hentry hblock
        cases found with
        | none =>
          obtain rfl : r₁ = none := hr₁
          have hnext := ih hval hrest
          simp only [readBlock_readBlock hup hsize] at hnext
          exact .next hhole hsearched hnext
        | some offset =>
          rw [hr₁] at hval
          obtain rfl := Option.some.inj hval
          exact .found hhole hsearched

/-- Blocks that can be searched are. -/
theorem findInBlocks_of_searched (hup : disk.Up) (hsize : fs.SizeOk) {blocks : List (BitVec 32)}
    {r : Option Ext2Node} {buf : BitVec 32 → Buffer} (h : BlocksSearched fs buf name blocks r)
    (hbuf : ∀ block, buf block = readBlock disk.read fs block blockBuf) :
    (findInBlocks disk.read fs name (fs.blockSize.toNat + 1) blocks blockBuf).val = some r ∧
      (findInBlocks disk.read fs name (fs.blockSize.toNat + 1) blocks blockBuf).All
        (BufferRead.Inside fs) := by
  induction h generalizing blockBuf with
  | done => exact ⟨rfl, Logged.all_pure _⟩
  | hole hhole _ ih =>
    unfold findInBlocks
    rw [if_pos hhole]
    exact ih hbuf
  | found hhole hsearched =>
    obtain ⟨hval, hall⟩ := findEntry_of_searched hsearched (Nat.lt_succ_of_le (Nat.sub_le _ _))
    rw [hbuf] at hval hall ⊢
    unfold findInBlocks
    rw [if_neg hhole]
    dsimp only
    rw [Logged.val_bind, Logged.all_bind, hval]
    exact ⟨rfl, hall, Logged.all_pure _⟩
  | next hhole hsearched _ ih =>
    obtain ⟨hval, hall⟩ := findEntry_of_searched hsearched (Nat.lt_succ_of_le (Nat.sub_le _ _))
    rw [hbuf] at hval hall
    unfold findInBlocks
    rw [if_neg hhole]
    dsimp only
    rw [Logged.val_bind, Logged.all_bind, hval]
    obtain ⟨hval', hall'⟩ := ih fun block' => (hbuf block').trans (readBlock_readBlock hup hsize _ _).symm
    exact ⟨hval', hall, hall'⟩

end Blocks

/-! ## §7. Well-formed directories. -/

section WellFormed

variable {disk : AtaDisk} {fs : Ext2} {name : List (BitVec 8)} {blockBuf : Buffer}

theorem EntriesTile.le {b : Buffer} {offset : Nat} {es : List DirEntry} (h : EntriesTile fs b offset es) :
    offset ≤ fs.blockSize.toNat := by
  induction es generalizing offset with
  | nil => exact Nat.le_of_eq h
  | cons e es ih => exact (Nat.le_add_right _ _).trans (ih h.2)

/-- An entry is seen in every buffer with the bytes of its record. -/
theorem DirEntry.At.congr {e : DirEntry} {b b' : Buffer} {offset size : Nat} (h : e.At b offset)
    (hsame : ∀ k < size, b' k = b k) (hend : offset + e.recLen ≤ size) : e.At b' offset := by
  have hfits := h.fits
  have hword : ∀ k, offset ≤ k → k + 2 ≤ offset + 8 → b'.load16 k = b.load16 k := by
    intro k hk hk'
    unfold Buffer.load16
    rw [hsame k (by omega), hsame (k + 1) (by omega)]
  have hnameLen : b'.nameLen offset = b.nameLen offset := by
    unfold Buffer.nameLen
    rw [hsame _ (by omega)]
  refine ⟨?_, ?_, ?_, hnameLen.trans h.nameLen, ?_, h.string, hfits⟩
  · rw [← h.inode]
    unfold Buffer.load32
    rw [hword offset (by omega) (by omega), hword (offset + 2) (by omega) (by omega)]
  · rw [← h.recLen]
    unfold Buffer.recLen
    rw [hword (offset + 4) (by omega) (by omega)]
  · rw [← h.fileType]
    exact hsame _ (by omega)
  · rw [← h.name]
    unfold Buffer.nameBytes
    rw [hnameLen]
    refine List.map_congr_left fun k hk => hsame _ ?_
    have hlt := List.mem_range.mp hk
    rw [h.nameLen] at hlt
    omega

/-- The driver's view of an entry. -/
theorem DirEntry.At.entryName {e : DirEntry} {b : Buffer} {offset : Nat} (h : e.At b offset) :
    b.entryName offset = e.name ∧ b.nodeAt offset = e.node := by
  have hname : b.entryName offset = e.name := by
    unfold Buffer.entryName
    rw [h.name]
    exact List.takeWhile_eq_self_iff.mpr fun c hc => decide_eq_true (h.string c hc)
  refine ⟨hname, ?_⟩
  unfold Buffer.nodeAt
  rw [hname, h.inode, h.fileType]
  rfl

/-- **What is found in a well-formed block**: the first entry with the name,
    whether it is live or not. -/
theorem findEntry_tiled {b b' : Buffer} {offset : Nat} {es : List DirEntry} {found : Option Nat}
    (hsame : ∀ k < fs.blockSize.toNat, b' k = b k) (htile : EntriesTile fs b offset es)
    (h : Searched fs b' name offset found) :
    found.map b'.nodeAt = (es.find? fun e => e.name = name).map DirEntry.node := by
  induction es generalizing offset with
  | nil =>
    have hend : offset = fs.blockSize.toNat := htile
    cases h with
    | done _ => rfl
    | found hfits _ _ =>
      have hheader := hfits.header
      omega
    | next hfits _ _ _ =>
      have hheader := hfits.header
      omega
  | cons e es ih =>
    obtain ⟨he, hes⟩ := htile
    have hfits := he.fits
    have hend := hes.le
    obtain ⟨hname, hnode⟩ := (he.congr hsame hend).entryName
    have hrecLen := (he.congr hsame hend).recLen
    cases h with
    | done hdone => omega
    | found _ _ heq =>
      rw [List.find?_cons_of_pos (by exact decide_eq_true (hname.symm.trans heq))]
      exact congrArg some hnode
    | next _ hne _ hrest =>
      rw [hrecLen] at hrest
      rw [List.find?_cons_of_neg (by exact fun h => hne (hname.trans (of_decide_eq_true h)))]
      exact ih hes hrest

/-- **What is found in the blocks of a well-formed directory.** -/
theorem findInBlocks_tiled (hup : disk.Up) (hsize : fs.SizeOk) {blocks : List (BitVec 32)}
    {entries : List (List DirEntry)} {r : Option Ext2Node} {buf : BitVec 32 → Buffer}
    (htile : BlocksTile disk.sectors fs blocks entries)
    (hbuf : ∀ block, buf block = readBlock disk.read fs block blockBuf)
    (h : BlocksSearched fs buf name blocks r) :
    r = (entries.flatten.find? fun e => e.name = name).map DirEntry.node := by
  have hsame : ∀ block, ∀ k < fs.blockSize.toNat, buf block k = diskBlock disk.sectors fs block k := by
    intro block k hk
    rw [hbuf, readBlock_byte hup hsize, if_pos hk]
    rfl
  unfold BlocksTile at htile
  induction h generalizing entries with
  | done =>
    cases htile
    rfl
  | hole hhole _ ih =>
    rw [List.filter_cons_of_neg (by simpa using hhole)] at htile
    exact ih htile
  | found hhole hsearched =>
    rw [List.filter_cons_of_pos (by simpa using hhole)] at htile
    cases htile with
    | cons hes _ =>
      have hentry := findEntry_tiled (hsame _) hes hsearched
      rw [List.flatten_cons, List.find?_append]
      obtain ⟨e, hfind, hnode⟩ := Option.map_eq_some_iff.mp hentry.symm
      rw [hfind, ← hnode]
      rfl
  | next hhole hsearched _ ih =>
    rw [List.filter_cons_of_pos (by simpa using hhole)] at htile
    cases htile with
    | cons hes hrest =>
      have hentry := findEntry_tiled (hsame _) hes hsearched
      rw [List.flatten_cons, List.find?_append, Option.map_eq_none_iff.mp hentry.symm]
      exact ih hrest

/-- **Right in a well-formed directory.** -/
theorem found_iff {direct indirect : List DirEntry} :
    Found ((direct.find? fun e => e.name = name).map DirEntry.node) name (direct ++ indirect) ↔
      NothingHidden name direct indirect := by
  unfold Found NothingHidden
  cases hfind : direct.find? fun e => e.name = name with
  | none =>
    have hother : ∀ e ∈ direct, ¬ e.Live name := fun e he hlive =>
      List.find?_eq_none.mp hfind e he (decide_eq_true hlive.2)
    have hnode : ¬ ∃ node, Option.map DirEntry.node none = some node := by
      intro h
      obtain ⟨node, hnode⟩ := h
      cases hnode
    constructor
    · intro h e he hlive
      exact hnode (h.1.mpr ⟨e, List.mem_append_right _ he, hlive⟩)
    · intro h
      refine ⟨iff_of_false hnode ?_, fun node hnode' => absurd ⟨node, hnode'⟩ hnode⟩
      intro hlive
      obtain ⟨e, he, hlive⟩ := hlive
      rcases List.mem_append.mp he with he | he
      · exact hother e he hlive
      · exact h e he hlive
  | some e =>
    have hname : e.name = name := by simpa using List.find?_some hfind
    have hmem : e ∈ direct ++ indirect := List.mem_append_left _ (List.mem_of_find?_eq_some hfind)
    constructor
    · intro h hzero
      -- the node has no inode, so no live entry has given it
      obtain ⟨e', -, hlive, hinode⟩ := h.2 e.node rfl
      exact hlive.1 (hinode.symm.trans hzero)
    · intro hinode
      have hlive : e.Live name := ⟨hinode, hname⟩
      refine ⟨iff_of_true ⟨e.node, rfl⟩ ⟨e, hmem, hlive⟩, fun node hnode => ⟨e, hmem, hlive, ?_⟩⟩
      rw [← Option.some.inj hnode]
      rfl

end WellFormed

/-! ## §8. A lookup. -/

section Lookup

variable {disk : AtaDisk} {fs : Ext2}

/-- **Looking up with the inode at hand.** -/
theorem ext2FinddirInode_iff (hup : disk.Up) (hsize : fs.SizeOk) (inode : Ext2Inode) (blockBuf : Buffer)
    (name : List (BitVec 8)) :
    LookupRight disk.sectors fs inode name (ext2FinddirInode disk.read fs inode blockBuf name) ↔
      (inode.mode &&& 0x4000 ≠ 0 →
        ∃ r, BlocksSearched fs (fun block => readBlock disk.read fs block blockBuf) name inode.direct r) ∧
      ∀ direct indirect, DirectoryAt disk.sectors fs inode direct indirect →
        NothingHidden name direct.flatten indirect.flatten := by
  by_cases hmode : inode.mode &&& 0x4000 = 0
  · -- no directory, so nothing is read
    have hlookup : ext2FinddirInode disk.read fs inode blockBuf name = fun _ => pure (some none) :=
      funext fun _ => if_pos hmode
    rw [hlookup]
    refine iff_of_true ⟨0, none, rfl, Logged.all_pure _, fun _ _ hdir => absurd hmode hdir.mode⟩ ?_
    exact ⟨fun h => absurd hmode h, fun _ _ hdir => absurd hmode hdir.mode⟩
  · have hlookup : ext2FinddirInode disk.read fs inode blockBuf name =
        fun fuel => findInBlocks disk.read fs name fuel inode.direct blockBuf :=
      funext fun _ => if_neg hmode
    rw [hlookup]
    constructor
    · intro h
      obtain ⟨fuel, r, hval, hall, hfound⟩ := h
      have hsearched := searched_of_findInBlocks hup hsize hval hall
      refine ⟨fun _ => ⟨r, hsearched⟩, fun direct indirect hdir => ?_⟩
      have hright := hfound direct indirect hdir
      rw [findInBlocks_tiled hup hsize hdir.direct (fun _ => rfl) hsearched, found_iff] at hright
      exact hright
    · intro h
      obtain ⟨hsearch, hhidden⟩ := h
      obtain ⟨r, hsearched⟩ := hsearch hmode
      obtain ⟨hval, hall⟩ := findInBlocks_of_searched hup hsize hsearched fun _ => rfl
      refine ⟨fs.blockSize.toNat + 1, r, hval, hall, fun direct indirect hdir => ?_⟩
      rw [findInBlocks_tiled hup hsize hdir.direct (fun _ => rfl) hsearched, found_iff]
      exact hhidden direct indirect hdir

/-- **Looking up a name.**  Take any disk, any inode number, blocks of 1024 to
    4096 bytes, and any name.  The lookup is right exactly if, in a directory,
    the records of the direct blocks lead through them up to the one with the
    name, and no deleted entry, if it is well-formed, hides another one. -/
theorem ext2_lookup_iff (hup : disk.Up) (hsize : fs.SizeOk) (bgdtBuf inodeBuf blockBuf : Buffer)
    (node : BitVec 32) (name : List (BitVec 8)) :
    let inode := inodeOf (readInode disk.read fs bgdtBuf inodeBuf node).val
    LookupRight disk.sectors fs inode name
        (ext2Finddir disk.read fs bgdtBuf inodeBuf blockBuf node name) ↔
      (inode.mode &&& 0x4000 ≠ 0 →
        ∃ r, BlocksSearched fs (fun block => readBlock disk.read fs block blockBuf) name inode.direct r) ∧
      ∀ direct indirect, DirectoryAt disk.sectors fs inode direct indirect →
        NothingHidden name direct.flatten indirect.flatten := by
  intro inode
  exact ext2FinddirInode_iff hup hsize inode blockBuf name

end Lookup

/-! ## §9. Examples. -/

/-- A disk on which every inode is that of a directory with the block `block`;
    the sectors from `first` on start with the bytes of `entry`. -/
def directoryDisk (block : BitVec 8) (entry : List (BitVec 8)) : AtaDisk where
  sectors := fun lba i =>
    if lba = 2 then entry.getD i.val 0
    else if i.val % 128 = 1 then 0x40 else if i.val % 128 = 40 then block else 0
  answers := fun _ => true

/-- The inode that is read for any directory of such a disk. -/
def directoryInode (block : BitVec 8) (entry : List (BitVec 8)) : Ext2Inode :=
  inodeOf (readInode (directoryDisk block entry).read smallExt2 (fun _ => 0) (fun _ => 0) 2).val

theorem blocksSearched_holes (fs : Ext2) (buf : BitVec 32 → Buffer) (name : List (BitVec 8)) (n : Nat) :
    BlocksSearched fs buf name (List.replicate n 0) none := by
  induction n with
  | zero => exact .done
  | succ n ih => exact .hole rfl ih

/-- A directory without blocks, in which nothing is found. -/
theorem ext2_lookup_empty :
    LookupRight (directoryDisk 0 []).sectors smallExt2 (directoryInode 0 []) [0x61]
      (ext2Finddir (directoryDisk 0 []).read smallExt2 (fun _ => 0) (fun _ => 0) (fun _ => 0) 2 [0x61]) := by
  have hholes : (directoryInode 0 []).direct = List.replicate 12 0 := by decide
  have hindirect : (directoryInode 0 []).indirect (directoryDisk 0 []).sectors smallExt2 = [] := by decide
  refine (@ext2_lookup_iff (directoryDisk 0 []) smallExt2 (fun _ => rfl) (.inl rfl) (fun _ => 0)
    (fun _ => 0) (fun _ => 0) 2 [0x61]).mpr ⟨fun _ => ⟨none, ?_⟩, fun direct indirect hdir => ?_⟩
  · show BlocksSearched smallExt2 _ _ (directoryInode 0 []).direct none
    rw [hholes]
    exact blocksSearched_holes _ _ _ 12
  · have hnone : BlocksTile (directoryDisk 0 []).sectors smallExt2 (directoryInode 0 []).direct direct :=
      hdir.direct
    have hnone' : BlocksTile (directoryDisk 0 []).sectors smallExt2
        ((directoryInode 0 []).indirect (directoryDisk 0 []).sectors smallExt2) indirect := hdir.indirect
    rw [hholes] at hnone
    rw [hindirect] at hnone'
    obtain rfl := List.forall₂_nil_left_iff.mp hnone
    obtain rfl := List.forall₂_nil_left_iff.mp hnone'
    exact fun e he => absurd he List.not_mem_nil

/-- The header of a deleted entry with the name `a`, as long as the block. -/
def deletedEntry : List (BitVec 8) := [0, 0, 0, 0, 0, 4, 1, 1, 0x61]

theorem deletedEntry_directory :
    DirectoryAt (directoryDisk 1 deletedEntry).sectors smallExt2 (directoryInode 1 deletedEntry)
      [[⟨0, 1024, 1, [0x61]⟩]] [] := by
  have hdirect : (directoryInode 1 deletedEntry).direct.filter (· ≠ 0) = [1] := by decide
  have hindirect : ((directoryInode 1 deletedEntry).indirect (directoryDisk 1 deletedEntry).sectors
      smallExt2).filter (· ≠ 0) = [] := by decide
  refine ⟨by decide, ?_, ?_⟩
  · unfold BlocksTile
    rw [hdirect]
    refine .cons ⟨⟨by decide, by decide, by decide, by decide, by decide, by decide, by decide⟩, ?_⟩ .nil
    show 0 + 1024 = 1024
    rfl
  · unfold BlocksTile
    rw [hindirect]
    exact .nil

/-- **A record of length 0** is visited for ever, and **a deleted entry** is
    found. -/
theorem lookup_not_right :
    ¬ LookupRight (directoryDisk 1 []).sectors smallExt2 (directoryInode 1 []) [0x61]
        (ext2Finddir (directoryDisk 1 []).read smallExt2 (fun _ => 0) (fun _ => 0) (fun _ => 0) 2 [0x61]) ∧
      ¬ LookupRight (directoryDisk 1 deletedEntry).sectors smallExt2 (directoryInode 1 deletedEntry) [0x61]
        (ext2Finddir (directoryDisk 1 deletedEntry).read smallExt2 (fun _ => 0) (fun _ => 0) (fun _ => 0) 2
          [0x61]) := by
  constructor
  · intro h
    have hcond := (ext2FinddirInode_iff (fun _ => rfl) (.inl rfl) _ _ _).mp h
    obtain ⟨r, hr⟩ := hcond.1 (by decide)
    have hdirect : (directoryInode 1 []).direct = 1 :: List.replicate 11 0 := by decide
    change BlocksSearched _ _ _ (directoryInode 1 []).direct r at hr
    rw [hdirect] at hr
    have hstuck : ∀ found, ¬ Searched smallExt2
        (readBlock (directoryDisk 1 []).read smallExt2 1 fun _ => 0) [0x61] 0 found := by
      intro found hfound
      cases hfound with
      | done hend => exact absurd hend (by decide)
      | found _ _ heq => exact absurd heq (by decide)
      | next _ _ hmoves _ => exact hmoves (by decide)
    cases hr with
    | hole hhole _ => exact absurd hhole (by decide)
    | found _ hsearched => exact hstuck _ hsearched
    | next _ hsearched _ => exact hstuck _ hsearched
  · intro h
    have hcond := (ext2FinddirInode_iff (fun _ => rfl) (.inl rfl) _ _ _).mp h
    have hhidden : (0 : BitVec 32) ≠ 0 := hcond.2 _ _ deletedEntry_directory
    exact hhidden rfl

end ZohoOs
