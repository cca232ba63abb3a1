/-
  ZohoOs.Elf.Segment — the arithmetic of one loadable segment.

  `elf_load` maps the pages that `[vaddr, vaddr + memsz)` touches, and copies
  into page `p` the bytes of the file from `copy_src_offset` on, as many as
  fit.  All of it is 64-bit arithmetic on fields of the program header; here it
  is read as arithmetic on numbers.
-/
import ZohoOs.Elf.Load

namespace ZohoOs

open ZohoOs.Lib

/-! ## §1. The variables of the page loop. -/

/-- `num_pages`. -/
def segmentPages (vaddr memsz : Word) : Nat :=
  ((((vaddr + memsz + 4095) &&& ~~~0xFFF) - (vaddr &&& ~~~0xFFF)) / 4096).toNat

/-- `copy_src_offset`. -/
def copySrcOffset (offset vaddr p : Word) : Word :=
  if p = 0 then offset + p * 4096 else offset + p * 4096 - (vaddr &&& 0xFFF)

/-- `copy_offset_in_page`. -/
def copyOffsetInPage (vaddr p : Word) : Word := if p = 0 then vaddr &&& 0xFFF else 0

/-- `copy_size`. -/
def copySize (vaddr p : Word) : Word := if p = 0 then 4096 - copyOffsetInPage vaddr p else 4096

/-- `bytes_from_file`, where the page takes any. -/
def bytesFromFile (offset filesz vaddr p : Word) : Word :=
  let rest := offset + filesz - copySrcOffset offset vaddr p
  if rest > copySize vaddr p then copySize vaddr p else rest

/-- The page takes bytes of the file. -/
def CopiesFrom (offset filesz vaddr p : Word) : Prop :=
  copySrcOffset offset vaddr p < offset + filesz

instance (offset filesz vaddr p : Word) : Decidable (CopiesFrom offset filesz vaddr p) :=
  inferInstanceAs (Decidable (_ < _))

theorem elfCopyPage_eq (m : Machine) (elfData phdr vaddr frame p : Word) :
    elfCopyPage m elfData phdr vaddr frame p =
      if CopiesFrom (phdrOffset m.mem phdr) (phdrFilesz m.mem phdr) vaddr p then
        m.memcpy (frame + copyOffsetInPage vaddr p)
          (elfData + copySrcOffset (phdrOffset m.mem phdr) vaddr p)
          (bytesFromFile (phdrOffset m.mem phdr) (phdrFilesz m.mem phdr) vaddr p).toNat
      else m := rfl

theorem elfLoadSegment_eq (m : Machine) (pml4 elfData phdr : Word) :
    elfLoadSegment m pml4 elfData phdr =
      (List.range (segmentPages (phdrVaddr m.mem phdr) (phdrMemsz m.mem phdr))).foldl
        (fun m' p => elfLoadPage m' pml4 elfData phdr (phdrVaddr m.mem phdr)
          (phdrVaddr m.mem phdr &&& ~~~0xFFF) (segmentFlags (phdrFlags m.mem phdr))
          (BitVec.ofNat 64 p)) m := rfl

/-! ## §2. As numbers. -/

/-- How far into the segment page `p` starts, where the segment starts `v` bytes
    into its first page. -/
def pageStartIn (v p : Nat) : Nat := if p = 0 then 0 else p * 4096 - v

/-- How many bytes of the segment page `p` can hold. -/
def pageRoom (v p : Nat) : Nat := if p = 0 then 4096 - v else 4096

/-- How many bytes the pages hold, from the start of the segment on. -/
def pagesRoom (v n : Nat) : Nat := n * 4096 - v

section

variable {offset filesz vaddr memsz : Word}

theorem toNat_pageOffset (vaddr : Word) : (vaddr &&& 0xFFF).toNat = vaddr.toNat % 4096 :=
  Word.toNat_and_lowMask vaddr (by decide : 12 ≤ 64)

theorem segmentPages_lt (vaddr memsz : Word) : segmentPages vaddr memsz < 2 ^ 52 := by
  unfold segmentPages
  rw [BitVec.toNat_udiv]
  have hlt := ((((vaddr + memsz + 4095) &&& ~~~0xFFF) - (vaddr &&& ~~~0xFFF))).isLt
  show _ / 4096 < _
  omega

theorem toNat_pageBytes {p : Nat} (hp : p < 2 ^ 52) : (BitVec.ofNat 64 p * 4096 : Word).toNat = p * 4096 := by
  have hsize : (4096 : Word).toNat = 4096 := rfl
  rw [BitVec.toNat_mul, BitVec.toNat_ofNat, hsize]
  omega

theorem ofNat_eq_zero_iff {p : Nat} (hp : p < 2 ^ 52) : BitVec.ofNat 64 p = 0 ↔ p = 0 := by
  constructor
  · intro h
    have hval := congrArg BitVec.toNat h
    rw [BitVec.toNat_ofNat, Nat.mod_eq_of_lt (by omega)] at hval
    exact hval
  · intro h
    rw [h]
    rfl

/-- Where in the file page `p` takes its bytes from. -/
theorem toNat_copySrcOffset {p : Nat} (hp : p < 2 ^ 52) :
    (copySrcOffset offset vaddr (BitVec.ofNat 64 p)).toNat =
      (offset.toNat + pageStartIn (vaddr.toNat % 4096) p) % 2 ^ 64 := by
  unfold copySrcOffset pageStartIn
  by_cases h0 : p = 0
  · rw [if_pos ((ofNat_eq_zero_iff hp).mpr h0), if_pos h0, BitVec.toNat_add, toNat_pageBytes hp, h0,
      Nat.zero_mul]
  · have hv : vaddr.toNat % 4096 < 4096 := Nat.mod_lt _ (by decide)
    rw [if_neg (mt (ofNat_eq_zero_iff hp).mp h0), if_neg h0, BitVec.toNat_sub, BitVec.toNat_add,
      toNat_pageBytes hp, toNat_pageOffset]
    omega

theorem toNat_copySize {p : Nat} (hp : p < 2 ^ 52) :
    (copySize vaddr (BitVec.ofNat 64 p)).toNat = pageRoom (vaddr.toNat % 4096) p := by
  unfold copySize copyOffsetInPage pageRoom
  by_cases h0 : p = 0
  · have hle : vaddr &&& 0xFFF ≤ 4096 := by
      rw [BitVec.le_def, toNat_pageOffset]
      exact (Nat.mod_lt _ (by decide)).le
    have hzero := (ofNat_eq_zero_iff hp).mpr h0
    rw [if_pos hzero, if_pos hzero, if_pos h0, BitVec.toNat_sub_of_le hle, toNat_pageOffset]
    rfl
  · rw [if_neg (mt (ofNat_eq_zero_iff hp).mp h0), if_neg h0]
    rfl

/-- How many bytes page `p` takes. -/
theorem toNat_bytesFromFile {p : Nat} (hp : p < 2 ^ 52) (hfile : offset.toNat + filesz.toNat < 2 ^ 64)
    (hcopy : CopiesFrom offset filesz vaddr (BitVec.ofNat 64 p)) :
    (bytesFromFile offset filesz vaddr (BitVec.ofNat 64 p)).toNat =
      min (offset.toNat + filesz.toNat -
        (offset.toNat + pageStartIn (vaddr.toNat % 4096) p) % 2 ^ 64)
        (pageRoom (vaddr.toNat % 4096) p) := by
  have hend : (offset + filesz).toNat = offset.toNat + filesz.toNat := by
    rw [BitVec.toNat_add, Nat.mod_eq_of_lt hfile]
  have hrest : (offset + filesz - copySrcOffset offset vaddr (BitVec.ofNat 64 p)).toNat =
      offset.toNat + filesz.toNat -
        (offset.toNat + pageStartIn (vaddr.toNat % 4096) p) % 2 ^ 64 := by
    rw [BitVec.toNat_sub_of_le (BitVec.le_of_lt hcopy), hend, toNat_copySrcOffset hp]
  have hsize : (copySize vaddr (BitVec.ofNat 64 p)).toNat = pageRoom (vaddr.toNat % 4096) p :=
    toNat_copySize hp
  unfold bytesFromFile
  rw [← hrest, ← hsize]
  dsimp only
  by_cases hbig : offset + filesz - copySrcOffset offset vaddr (BitVec.ofNat 64 p) >
      copySize vaddr (BitVec.ofNat 64 p)
  · rw [if_pos hbig, min_eq_right (BitVec.le_def.mp (BitVec.le_of_lt hbig))]
  · rw [if_neg hbig, min_eq_left (BitVec.le_def.mp (BitVec.not_lt.mp hbig))]

theorem copiesFrom_iff {p : Nat} (hp : p < 2 ^ 52) (hfile : offset.toNat + filesz.toNat < 2 ^ 64) :
    CopiesFrom offset filesz vaddr (BitVec.ofNat 64 p) ↔
      (offset.toNat + pageStartIn (vaddr.toNat % 4096) p) % 2 ^ 64 <
        offset.toNat + filesz.toNat := by
  unfold CopiesFrom
  rw [BitVec.lt_def, toNat_copySrcOffset hp, BitVec.toNat_add, Nat.mod_eq_of_lt hfile]

/-! ## §3. Where the copies end. -/

/-- **The file bytes of a segment lie below `size`**, for the pages it gets: the
    segment has no page; or it has file bytes, and those that fit its pages end
    below `size`; or it has none, and no page wraps around to the start of the
    file, or only to bytes below `size`. -/
def CopyFits (vaddr memsz offset filesz : Word) (size : Nat) : Prop :=
  let n := segmentPages vaddr memsz
  let room := pagesRoom (vaddr.toNat % 4096) n
  n = 0 ∨
    0 < filesz.toNat ∧ offset.toNat + min filesz.toNat room ≤ size ∨
    filesz.toNat = 0 ∧
      (offset.toNat + (room - 4096) < 2 ^ 64 ∨ offset.toNat + room ≤ 2 ^ 64 + size)

instance (vaddr memsz offset filesz : Word) (size : Nat) :
    Decidable (CopyFits vaddr memsz offset filesz size) :=
  inferInstanceAs (Decidable (_ ∨ _))

theorem pageStartIn_le (v p : Nat) : pageStartIn v p ≤ p * 4096 := by
  unfold pageStartIn
  by_cases h0 : p = 0
  · rw [if_pos h0]
    exact Nat.zero_le _
  · rw [if_neg h0]
    exact Nat.sub_le _ _

theorem pageStartIn_add_room {v : Nat} (hv : v < 4096) (p : Nat) :
    pageStartIn v p + pageRoom v p = pagesRoom v (p + 1) := by
  unfold pageStartIn pageRoom pagesRoom
  by_cases h0 : p = 0
  · rw [if_pos h0, if_pos h0, h0]
    omega
  · rw [if_neg h0, if_neg h0]
    omega

theorem pagesRoom_mono (v : Nat) {n k : Nat} (h : n ≤ k) : pagesRoom v n ≤ pagesRoom v k := by
  unfold pagesRoom
  omega

/-- The page that holds byte `k` of the segment. -/
theorem exists_page {v n k : Nat} (hv : v < 4096) (hk : k < pagesRoom v n) :
    ∃ p < n, pageStartIn v p ≤ k ∧ k < pageStartIn v p + pageRoom v p := by
  obtain ⟨p, hp⟩ : ∃ p, p = (k + v) / 4096 := ⟨_, rfl⟩
  have hlow : p * 4096 ≤ k + v := by
    rw [hp]
    exact Nat.div_mul_le_self _ _
  have hhigh : k + v < (p + 1) * 4096 := by
    rw [hp]
    exact Nat.lt_mul_of_div_lt (Nat.lt_succ_self _) (by decide)
  unfold pagesRoom at hk
  refine ⟨p, by omega, ?_, ?_⟩
  · unfold pageStartIn
    by_cases h0 : p = 0
    · rw [if_pos h0]
      exact Nat.zero_le _
    · rw [if_neg h0]
      omega
  · rw [pageStartIn_add_room hv]
    exact Nat.lt_sub_of_add_lt hhigh

/-- Where the last page starts. -/
theorem pageStartIn_last {v n : Nat} (hv : v < 4096) :
    pageStartIn v (n - 1) = pagesRoom v n - 4096 := by
  unfold pageStartIn pagesRoom
  by_cases h1 : n - 1 = 0
  · rw [if_pos h1]
    omega
  · rw [if_neg h1]
    omega

/-- The arithmetic of `copyFits_iff`, with the fields as numbers. -/
theorem pages_fit_iff {off fs v n size : Nat} (hv : v < 4096) (hn : n < 2 ^ 52)
    (hfile : off + fs < 2 ^ 64) (hsize : size < 2 ^ 32) :
    (∀ p < n, (off + pageStartIn v p) % 2 ^ 64 < off + fs →
        (off + pageStartIn v p) % 2 ^ 64 +
          min (off + fs - (off + pageStartIn v p) % 2 ^ 64) (pageRoom v p) ≤ size) ↔
      n = 0 ∨ 0 < fs ∧ off + min fs (pagesRoom v n) ≤ size ∨
        fs = 0 ∧ (off + (pagesRoom v n - 4096) < 2 ^ 64 ∨ off + pagesRoom v n ≤ 2 ^ 64 + size) := by
  by_cases hn0 : n = 0
  · refine iff_of_true (fun p hp => ?_) (.inl hn0)
    rw [hn0] at hp
    exact absurd hp (Nat.not_lt_zero p)
  rw [or_iff_right hn0]
  have hroom : 0 < pagesRoom v n := by
    unfold pagesRoom
    omega
  constructor
  · intro h
    by_cases hfs : 0 < fs
    · -- the page of the last byte that is copied
      obtain ⟨p, hp, hstart, hend⟩ : ∃ p < n, pageStartIn v p ≤ min fs (pagesRoom v n) - 1 ∧
          min fs (pagesRoom v n) - 1 < pageStartIn v p + pageRoom v p := exists_page hv (by omega)
      have hlow : (off + pageStartIn v p) % 2 ^ 64 = off + pageStartIn v p :=
        Nat.mod_eq_of_lt (by omega)
      have hcopied := h p hp
      rw [hlow] at hcopied
      exact .inl ⟨hfs, by omega⟩
    · -- the last page
      have hlast := pageStartIn_last (n := n) hv
      refine .inr ⟨by omega, ?_⟩
      by_contra hbad
      rw [not_or] at hbad
      have hlen : pagesRoom v n ≤ n * 4096 := Nat.sub_le _ _
      have hsmall : pagesRoom v n + 4096 ≤ 2 ^ 64 := by omega
      have hcopied := h (n - 1) (Nat.sub_lt (Nat.pos_of_ne_zero hn0) Nat.one_pos)
      have hsum := pageStartIn_add_room hv (n - 1)
      rw [Nat.sub_add_cancel (Nat.pos_of_ne_zero hn0)] at hsum
      -- only the last page's bounds matter from here, and `omega` need not see the rest
      clear h hlen hn
      generalize pageStartIn v (n - 1) = start at hlast hcopied hsum
      generalize pageRoom v (n - 1) = room at hcopied hsum
      generalize pagesRoom v n = total at hroom hlast hbad hsum hsmall
      have hge : 2 ^ 64 ≤ off + start := by
        rw [hlast]
        exact Nat.le_of_not_lt hbad.1
      obtain ⟨src, hsrc⟩ := Nat.exists_eq_add_of_le hge
      have hwrap : (off + start) % 2 ^ 64 = src := by omega
      rw [hwrap] at hcopied
      have hend := hcopied (by omega)
      rw [min_eq_right (by omega)] at hend
      exact hbad.2 (by omega)
  · rintro (⟨hfs, hfit⟩ | ⟨hfs, hfit⟩) p hp hcopy
    · -- the bytes of the file fit, and no page takes others
      have hnext := pagesRoom_mono v (Nat.succ_le_of_lt hp)
      have hsum := pageStartIn_add_room hv p
      by_cases hlow : off + pageStartIn v p < 2 ^ 64
      · rw [Nat.mod_eq_of_lt hlow] at hcopy ⊢
        simp only [Nat.succ_eq_add_one] at hnext
        omega
      · simp only [Nat.succ_eq_add_one] at hnext
        omega
    · -- an empty file: what is copied starts behind the wrap
      have hnext := pagesRoom_mono v (Nat.succ_le_of_lt hp)
      have hsum := pageStartIn_add_room hv p
      have hstart := pageStartIn_le v p
      by_cases hlow : off + pageStartIn v p < 2 ^ 64
      · rw [Nat.mod_eq_of_lt hlow] at hcopy
        omega
      · have hp0 : p ≠ 0 := by
          intro h0
          rw [h0] at hlow
          omega
        have hpage : pageRoom v p = 4096 := if_neg hp0
        simp only [Nat.succ_eq_add_one] at hnext
        omega

/-- **Exactly when the copies of a segment stay below `size`.** -/
theorem copyFits_iff {size : Nat} (hfile : offset.toNat + filesz.toNat < 2 ^ 64)
    (hsize : size < 2 ^ 32) :
    (∀ p < segmentPages vaddr memsz, CopiesFrom offset filesz vaddr (BitVec.ofNat 64 p) →
        (copySrcOffset offset vaddr (BitVec.ofNat 64 p)).toNat +
          (bytesFromFile offset filesz vaddr (BitVec.ofNat 64 p)).toNat ≤ size) ↔
      CopyFits vaddr memsz offset filesz size := by
  have hpages := segmentPages_lt vaddr memsz
  refine Iff.trans ?_ (pages_fit_iff (Nat.mod_lt vaddr.toNat (by decide)) hpages hfile hsize)
  refine forall₂_congr fun p hp => ?_
  have hlt : p < 2 ^ 52 := by omega
  constructor
  · intro h hcopy
    have hcopies := (copiesFrom_iff hlt hfile).mpr hcopy
    have hend := h hcopies
    rw [toNat_copySrcOffset hlt, toNat_bytesFromFile hlt hfile hcopies] at hend
    exact hend
  · intro h hcopies
    rw [toNat_copySrcOffset hlt, toNat_bytesFromFile hlt hfile hcopies]
    exact h ((copiesFrom_iff hlt hfile).mp hcopies)

end

end ZohoOs
