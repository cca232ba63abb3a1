/-
  ZohoOs.Elf.Content — what a loaded segment reads as.

  `elf_load` copies a segment page by page: the first page from the place of
  `vaddr` in it, the others from their start, each with an offset into the
  file of its own.  Put together, the pages read as the bytes of the file
  between `vaddr` and `vaddr + filesz`, and as zero everywhere else.

  Main results:
    * `elfCopyPage_content` — the bytes of one page;
    * `segment_reads` — the bytes of all pages, for every header without
      64-bit wrap whose pages were not mapped before, when no allocation
      fails.
-/
import ZohoOs.Elf.Frames
import ZohoOs.Elf.Reads
import ZohoOs.Vmm.Range

namespace ZohoOs

open ZohoOs.Lib
open ZohoOs.Lib.Mem (Aligned InPage)
open ZohoOs.Lib.Radix

/-! ## §1. One page. -/

/-- The byte at offset `o` from the start of a segment's first page, where the
    segment starts `v` bytes into that page. -/
def segmentByte (file : Nat → BitVec 8) (v filesz o : Nat) : BitVec 8 :=
  if v ≤ o ∧ o - v < filesz then file (o - v) else 0

theorem segmentByte_file {file : Nat → BitVec 8} {v filesz o : Nat} (h : o < filesz) :
    segmentByte file v filesz (v + o) = file o := by
  unfold segmentByte
  rw [Nat.add_sub_cancel_left, if_pos ⟨Nat.le_add_right _ _, h⟩]

theorem segmentByte_before {file : Nat → BitVec 8} {v filesz o : Nat} (h : o < v) :
    segmentByte file v filesz o = 0 := if_neg fun hc => by omega

theorem segmentByte_behind {file : Nat → BitVec 8} {v filesz o : Nat} (h : v + filesz ≤ o) :
    segmentByte file v filesz o = 0 := if_neg fun hc => by omega

theorem segmentByte_congr {f g : Nat → BitVec 8} {v filesz o : Nat} (h : ∀ j < filesz, f j = g j) :
    segmentByte f v filesz o = segmentByte g v filesz o := by
  unfold segmentByte
  by_cases hc : v ≤ o ∧ o - v < filesz
  · rw [if_pos hc, if_pos hc, h _ hc.2]
  · rw [if_neg hc, if_neg hc]

/-- The bytes of the file from `offset` on. -/
def fileByte (mem : Mem) (elfData offset : Word) (j : Nat) : BitVec 8 :=
  mem (elfData + offset + BitVec.ofNat 64 j)

section Page

variable {m : Machine} {elfData phdr vaddr offset filesz n : Word} {p k : Nat}

theorem toNat_copyOffsetInPage (hp : p < 2 ^ 52) :
    (copyOffsetInPage vaddr (BitVec.ofNat 64 p)).toNat = if p = 0 then vaddr.toNat % 4096 else 0 := by
  unfold copyOffsetInPage
  by_cases h0 : p = 0
  · rw [if_pos ((ofNat_eq_zero_iff hp).mpr h0), if_pos h0, toNat_pageOffset]
  · rw [if_neg (mt (ofNat_eq_zero_iff hp).mp h0), if_neg h0]
    rfl

/-- A byte at a place of a page, relative to a range that starts in the page. -/
theorem toNat_placeSub {off : Word} (hk : k < 4096) (hoff : off.toNat ≤ 4096) :
    (n + BitVec.ofNat 64 k - (n + off)).toNat =
      if off.toNat ≤ k then k - off.toNat else 2 ^ 64 - (off.toNat - k) := by
  have hkn : (BitVec.ofNat 64 k : Word).toNat = k := by
    rw [BitVec.toNat_ofNat]
    omega
  have hsub : n + BitVec.ofNat 64 k - (n + off) = BitVec.ofNat 64 k - off := by
    rw [← BitVec.sub_sub, BitVec.add_comm, BitVec.add_sub_cancel]
  rw [hsub, BitVec.toNat_sub, hkn]
  split <;> omega

/-- A byte outside the page lies behind what is written of it. -/
theorem le_toNat_outside {off x : Word} {j : Nat} (hx : ¬ InPage n x) (hj : j + off.toNat ≤ 4096) :
    j ≤ (x - (n + off)).toNat := by
  unfold InPage at hx
  have hle : off ≤ x - n := by
    rw [BitVec.le_def]
    omega
  rw [← BitVec.sub_sub, BitVec.toNat_sub_of_le hle]
  omega

/-- A zeroed page. -/
theorem mem_cleared (m : Machine) (n x : Word) :
    (m.memset n 0 4096).mem x = if (x - n).toNat < 4096 then 0 else m.mem x := by
  rw [Machine.mem_memset, memset_eq_fill _ _ _ (by norm_num)]
  rfl

theorem mem_cleared_place (m : Machine) (n : Word) (hk : k < 4096) :
    (m.memset n 0 4096).mem (n + BitVec.ofNat 64 k) = 0 := by
  have hplace : (n + BitVec.ofNat 64 k - n).toNat = k := by
    rw [BitVec.add_comm, BitVec.add_sub_cancel, BitVec.toNat_ofNat]
    omega
  rw [mem_cleared, if_pos (by omega)]

/-- Where byte `k` of page `p` lies in the segment, when the segment's bytes
    start at place `c` of the page. -/
theorem place_in_segment {v c : Nat} (hv : v < 4096) (hc : (if p = 0 then v else 0) = c) :
    (v ≤ p * 4096 + k ↔ c ≤ k) ∧ (c ≤ k → p * 4096 + k - v = pageStartIn v p + (k - c)) := by
  unfold pageStartIn
  by_cases h0 : p = 0
  · rw [if_pos h0] at hc ⊢
    omega
  · rw [if_neg h0] at hc ⊢
    omega

/-- A page takes its bytes from byte `pageStartIn` of the segment on. -/
theorem copySrcOffset_eq (hp : p < 2 ^ 52) :
    copySrcOffset offset vaddr (BitVec.ofNat 64 p) =
      offset + BitVec.ofNat 64 (pageStartIn (vaddr.toNat % 4096) p) := by
  have hstart := pageStartIn_le (vaddr.toNat % 4096) p
  apply BitVec.eq_of_toNat_eq
  rw [toNat_copySrcOffset hp, BitVec.toNat_add, BitVec.toNat_ofNat]
  omega

/-- **The bytes of one page**: the file's where the segment has file bytes, and
    zero elsewhere. -/
theorem elfCopyPage_content (hoffset : phdrOffset (m.memset n 0 4096).mem phdr = offset)
    (hfilesz : phdrFilesz (m.memset n 0 4096).mem phdr = filesz) (hp : p < 2 ^ 52)
    (hfile : offset.toNat + filesz.toNat < 2 ^ 64) (hwrap : offset.toNat + p * 4096 < 2 ^ 64)
    (hapart : ∀ j < filesz.toNat, ¬ InPage n (elfData + offset + BitVec.ofNat 64 j)) (hk : k < 4096) :
    (elfCopyPage (m.memset n 0 4096) elfData phdr vaddr n (BitVec.ofNat 64 p)).mem
        (n + BitVec.ofNat 64 k) =
      segmentByte (fileByte m.mem elfData offset) (vaddr.toNat % 4096) filesz.toNat (p * 4096 + k) := by
  have hv : vaddr.toNat % 4096 < 4096 := Nat.mod_lt _ (by decide)
  have hstart := pageStartIn_le (vaddr.toNat % 4096) p
  have hcopies : CopiesFrom offset filesz vaddr (BitVec.ofNat 64 p) ↔ _ := copiesFrom_iff hp hfile
  rw [Nat.mod_eq_of_lt (by omega)] at hcopies
  -- the place where the page's bytes of the segment start
  obtain ⟨c, hc⟩ : ∃ c, (copyOffsetInPage vaddr (BitVec.ofNat 64 p)).toNat = c := ⟨_, rfl⟩
  have hplace := hc
  rw [toNat_copyOffsetInPage hp] at hplace
  obtain ⟨hcond, hplaceIn⟩ := place_in_segment (k := k) hv hplace
  have hroom : c + pageRoom (vaddr.toNat % 4096) p = 4096 := by
    rw [← hplace]
    unfold pageRoom
    split <;> omega
  rw [elfCopyPage_eq, hoffset, hfilesz]
  unfold segmentByte
  by_cases hcopy : CopiesFrom offset filesz vaddr (BitVec.ofNat 64 p)
  · have hlt := hcopies.mp hcopy
    have hcount := toNat_bytesFromFile hp hfile hcopy
    rw [Nat.mod_eq_of_lt (by omega)] at hcount
    rw [if_pos hcopy, Machine.mem_memcpy, copySrcOffset_eq hp]
    have hbyte : ∀ j, elfData + (offset + BitVec.ofNat 64 (pageStartIn (vaddr.toNat % 4096) p)) +
        BitVec.ofNat 64 j =
          elfData + offset + BitVec.ofNat 64 (pageStartIn (vaddr.toNat % 4096) p + j) := by
      intro j
      rw [BitVec.ofNat_add, ← BitVec.add_assoc, ← BitVec.add_assoc]
    rw [memcpy_eq_fill _ (by omega) fun j hj => by
      rw [hcount] at hj
      rw [hbyte]
      exact le_toNat_outside (hapart _ (by omega)) (by omega)]
    unfold Mem.fill
    rw [toNat_placeSub hk (by omega), hc]
    by_cases hck : c ≤ k
    · rw [if_pos hck, hplaceIn hck, hcount]
      by_cases hin : k - c < min (offset.toNat + filesz.toNat -
          (offset.toNat + pageStartIn (vaddr.toNat % 4096) p)) (pageRoom (vaddr.toNat % 4096) p)
      · rw [if_pos hin, if_pos ⟨hcond.mpr hck, by omega⟩]
        show (m.memset n 0 4096).mem (elfData + (offset + BitVec.ofNat 64 _) + BitVec.ofNat 64 (k - c)) = _
        have hout := hapart (pageStartIn (vaddr.toNat % 4096) p + (k - c)) (by omega)
        unfold InPage at hout
        rw [hbyte, mem_cleared, if_neg hout]
        rfl
      · rw [if_neg hin, mem_cleared_place m n hk, if_neg]
        omega
    · rw [if_neg hck, if_neg (by omega), mem_cleared_place m n hk, if_neg]
      exact fun hcs => hck (hcond.mp hcs.1)
  · have hge := mt hcopies.mpr hcopy
    rw [if_neg hcopy, mem_cleared_place m n hk, if_neg]
    rintro ⟨hle, hlt⟩
    rw [hplaceIn (hcond.mp hle)] at hlt
    omega

end Page

/-! ## §2. The pages of a segment. -/

/-- The address of page `i` of a segment. -/
def segmentPage (vaddr : Word) (i : Nat) : Word := (vaddr &&& ~~~0xFFF) + BitVec.ofNat 64 i * 4096

/-- None of the sums of the page loop wraps around. -/
structure NoWrap (vaddr memsz offset filesz : Word) : Prop where
  segment : vaddr.toNat + memsz.toNat + 4095 < 2 ^ 64
  file : offset.toNat + filesz.toNat < 2 ^ 64
  pages : ∀ p < segmentPages vaddr memsz, offset.toNat + p * 4096 < 2 ^ 64

section Addresses

variable {vaddr memsz : Word} {i j : Nat}

theorem toNat_pageStart (vaddr : Word) : (vaddr &&& ~~~0xFFF).toNat = vaddr.toNat / 4096 * 4096 := by
  show (vaddr &&& ~~~flagMask).toNat = _
  rw [flagMask_eq, Word.toNat_and_not_lowMask _ (by decide)]
  norm_num

theorem segmentPages_eq (h : vaddr.toNat + memsz.toNat + 4095 < 2 ^ 64) :
    segmentPages vaddr memsz = (vaddr.toNat + memsz.toNat + 4095) / 4096 - vaddr.toNat / 4096 := by
  have hceil : ((vaddr + memsz + 4095) &&& ~~~0xFFF).toNat =
      (vaddr.toNat + memsz.toNat + 4095) / 4096 * 4096 := by
    rw [toNat_pageStart, BitVec.toNat_add, BitVec.toNat_add]
    have h4095 : (4095 : Word).toNat = 4095 := rfl
    rw [h4095]
    omega
  have hle : vaddr &&& ~~~0xFFF ≤ (vaddr + memsz + 4095) &&& ~~~0xFFF := by
    rw [BitVec.le_def, hceil, toNat_pageStart]
    omega
  unfold segmentPages
  have h4096 : (4096 : Word).toNat = 4096 := rfl
  rw [BitVec.toNat_udiv, BitVec.toNat_sub_of_le hle, hceil, toNat_pageStart, h4096]
  omega

variable (vaddr) in
theorem toNat_segmentPage (hi : i < 2 ^ 52) :
    (segmentPage vaddr i).toNat = (vaddr.toNat / 4096 * 4096 + i * 4096) % 2 ^ 64 := by
  unfold segmentPage
  rw [BitVec.toNat_add, toNat_pageStart, toNat_pageBytes hi]

/-- Fewer than `2 ^ 36` pages in a row are different pages, canonical or not. -/
theorem segmentPage_ne (hij : i < j) (hj : j < 2 ^ 36) :
    VPage.of (segmentPage vaddr j) ≠ VPage.of (segmentPage vaddr i) := by
  intro heq
  have hi' := toNat_segmentPage vaddr (show i < 2 ^ 52 by omega)
  have hj' := toNat_segmentPage vaddr (show j < 2 ^ 52 by omega)
  have e₁ := congrArg (fun vp => vp.pml4.val) heq
  have e₂ := congrArg (fun vp => vp.pdpt.val) heq
  have e₃ := congrArg (fun vp => vp.pd.val) heq
  have e₄ := congrArg (fun vp => vp.pt.val) heq
  simp only [VPage.pml4_of_val, VPage.pdpt_of_val, VPage.pd_of_val, VPage.pt_of_val] at e₁ e₂ e₃ e₄
  omega

variable (vaddr) in
/-- The page and the place in it of an address in the pages of a segment. -/
theorem exists_segmentPage {v : Word} {n : Nat} (hlow : vaddr.toNat / 4096 * 4096 ≤ v.toNat)
    (hhigh : v.toNat < vaddr.toNat / 4096 * 4096 + n * 4096) (hn : n < 2 ^ 52) :
    ∃ i < n, VPage.of v = VPage.of (segmentPage vaddr i) ∧
      v.toNat = vaddr.toNat / 4096 * 4096 + (i * 4096 + v.toNat % 4096) := by
  have hvlt := v.isLt
  refine ⟨(v.toNat - vaddr.toNat / 4096 * 4096) / 4096, by omega, ?_, by omega⟩
  have hpage := toNat_segmentPage vaddr
    (show (v.toNat - vaddr.toNat / 4096 * 4096) / 4096 < 2 ^ 52 by omega)
  have hsame : (segmentPage vaddr ((v.toNat - vaddr.toNat / 4096 * 4096) / 4096)).toNat =
      v.toNat / 4096 * 4096 := by
    rw [hpage]
    omega
  refine VPage.eq_iff.mpr ⟨?_, ?_⟩
  · simp only [VPage.SameHuge, VPage.ptPath, List.cons.injEq, Fin.ext_iff, and_true,
      VPage.pml4_of_val, VPage.pdpt_of_val, VPage.pd_of_val, hsame]
    omega
  · rw [Fin.ext_iff, VPage.pt_of_val, VPage.pt_of_val, hsame]
    omega

end Addresses

/-! ## §3. The page loop. -/

/-- **A segment that is ready to be loaded**: `filesz <= memsz`, no sum wraps,
    no page of it is mapped, and its header and its file bytes lie neither in
    free frames nor in tables. -/
structure SegmentReady (pool : Finset Nat) (m : Machine) (root elfData phdr : Word) : Prop where
  wf : m.Wf pool (wholeTree root)
  filesz_le : phdrFilesz m.mem phdr ≤ phdrMemsz m.mem phdr
  noWrap : NoWrap (phdrVaddr m.mem phdr) (phdrMemsz m.mem phdr) (phdrOffset m.mem phdr)
    (phdrFilesz m.mem phdr)
  unmapped : ∀ i < segmentPages (phdrVaddr m.mem phdr) (phdrMemsz m.mem phdr),
    pageLookup m root (VPage.of (segmentPage (phdrVaddr m.mem phdr) i)) = none
  header : ∀ k : Word, k.toNat < 48 → m.Quiet root (phdr + k)
  file : ∀ j < (phdrFilesz m.mem phdr).toNat,
    m.Quiet root (elfData + phdrOffset m.mem phdr + BitVec.ofNat 64 j)

/-- The first `j` turns of the page loop. -/
def loadPages (m : Machine) (root elfData phdr : Word) (j : Nat) : Machine :=
  (List.range j).foldl (fun m' p => elfLoadPage m' root elfData phdr (phdrVaddr m.mem phdr)
    (phdrVaddr m.mem phdr &&& ~~~0xFFF) (segmentFlags (phdrFlags m.mem phdr)) (BitVec.ofNat 64 p)) m

/-- What the first `j` turns have done to `m₀`. -/
structure PagesDone (pool : Finset Nat) (m₀ : Machine) (root elfData phdr : Word) (j : Nat)
    (m : Machine) : Prop where
  wf : m.Wf pool (wholeTree root)
  quiet : ∀ x, m₀.Quiet root x → m.mem x = m₀.mem x ∧ m.Quiet root x
  pages : ∀ i < j, ∃ n, Aligned n ∧ n ≠ 0 ∧
    pageLookup m root (VPage.of (segmentPage (phdrVaddr m₀.mem phdr) i)) =
      some (smallMapping n (segmentFlags (phdrFlags m₀.mem phdr))) ∧
    ∀ k < 4096, m.Quiet root (n + BitVec.ofNat 64 k) ∧
      m.mem (n + BitVec.ofNat 64 k) = segmentByte (fileByte m₀.mem elfData (phdrOffset m₀.mem phdr))
        ((phdrVaddr m₀.mem phdr).toNat % 4096) (phdrFilesz m₀.mem phdr).toNat (i * 4096 + k)
  others : ∀ vp, (∀ i < j, vp ≠ VPage.of (segmentPage (phdrVaddr m₀.mem phdr) i)) →
    pageLookup m root vp = pageLookup m₀ root vp
  count : m.pmm.freeStack.length + j ≤ m₀.pmm.freeStack.length

section Loop

variable {pool : Finset Nat} {m₀ m : Machine} {root elfData phdr : Word} {j : Nat}

theorem elfLoadSegment_loadPages (m : Machine) (root elfData phdr : Word) :
    elfLoadSegment m root elfData phdr =
      loadPages m root elfData phdr (segmentPages (phdrVaddr m.mem phdr) (phdrMemsz m.mem phdr)) := rfl

theorem loadPages_succ (m : Machine) (root elfData phdr : Word) (j : Nat) :
    loadPages m root elfData phdr (j + 1) =
      elfLoadPage (loadPages m root elfData phdr j) root elfData phdr (phdrVaddr m.mem phdr)
        (phdrVaddr m.mem phdr &&& ~~~0xFFF) (segmentFlags (phdrFlags m.mem phdr))
        (BitVec.ofNat 64 j) := by
  unfold loadPages
  rw [List.range_succ, List.foldl_append]
  rfl

/-- Failures are only ever added. -/
theorem elfLoadPage_failures_le (m : Machine) (root elfData phdr vaddr pageStart flags p : Word) :
    m.pmm.allocFailures ≤
      (elfLoadPage m root elfData phdr vaddr pageStart flags p).pmm.allocFailures := by
  rw [elfLoadPage_eq, (elfFillPage_frame _ _ _ _ _ _).1]
  exact (allocFrame_failures_le m).trans (vmmMap_failures_le _ _ _ _ _)

theorem loadPages_failures_le (m : Machine) (root elfData phdr : Word) (j : Nat) :
    m.pmm.allocFailures ≤ (loadPages m root elfData phdr j).pmm.allocFailures := by
  induction j with
  | zero => exact Nat.le_refl _
  | succ j ih =>
    rw [loadPages_succ]
    exact ih.trans (elfLoadPage_failures_le _ _ _ _ _ _ _ _)

theorem PagesDone.start (h : m₀.Wf pool (wholeTree root)) : PagesDone pool m₀ root elfData phdr 0 m₀ :=
  ⟨h, fun _ hx => ⟨rfl, hx⟩, fun i hi => absurd hi (Nat.not_lt_zero i), fun _ _ => rfl, Nat.le_refl _⟩

/-- There are fewer frames than pages of an address space. -/
theorem freeStack_length_lt {pool : Finset Nat} {p : Pmm} (h : p.Inv pool) :
    p.freeStack.length < 2 ^ 36 := by
  have hinj : (p.freeStack.map frameOf).Nodup :=
    h.nodup.map_on fun a ha b hb => frameOf_inj (h.aligned a ha) (h.aligned b hb)
  have hsub : (p.freeStack.map frameOf).toFinset ⊆ Finset.range maxFrames := by
    intro f hf
    rw [List.mem_toFinset, List.mem_map] at hf
    obtain ⟨a, ha, rfl⟩ := hf
    exact Finset.mem_range.mpr (h.inRange a ha)
  have hcard := Finset.card_le_card hsub
  rw [List.toFinset_card_of_nodup hinj, List.length_map, Finset.card_range] at hcard
  exact hcard.trans_lt (by decide)

/-- The next page is not mapped yet. -/
theorem PagesDone.next (hr : SegmentReady pool m₀ root elfData phdr)
    (h : PagesDone pool m₀ root elfData phdr j m)
    (hj : j < segmentPages (phdrVaddr m₀.mem phdr) (phdrMemsz m₀.mem phdr)) :
    (∀ i < j, VPage.of (segmentPage (phdrVaddr m₀.mem phdr) j) ≠
        VPage.of (segmentPage (phdrVaddr m₀.mem phdr) i)) ∧
      SmallPage m root (segmentPage (phdrVaddr m₀.mem phdr) j)
        (segmentFlags (phdrFlags m₀.mem phdr)) := by
  have hlt := freeStack_length_lt hr.wf.pmm
  have hcount := h.count
  have hne : ∀ i < j, VPage.of (segmentPage (phdrVaddr m₀.mem phdr) j) ≠
      VPage.of (segmentPage (phdrVaddr m₀.mem phdr) i) :=
    fun i hi => segmentPage_ne hi (by omega)
  refine ⟨hne, segmentFlags_low _, segmentFlags_small _, fun x hx => ?_⟩
  rw [h.others _ hne, hr.unmapped j hj] at hx
  cases hx

/-- When the next page is mapped and its frame zeroed, the header and the file
    are still what they were. -/
theorem PagesDone.mapped (hr : SegmentReady pool m₀ root elfData phdr)
    (h : PagesDone pool m₀ root elfData phdr j m)
    (hj : j < segmentPages (phdrVaddr m₀.mem phdr) (phdrMemsz m₀.mem phdr)) {n : Word} {rest : List Word}
    (hst : m.pmm.freeStack = n :: rest) :
    let mapped := mappedPage m root (phdrVaddr m₀.mem phdr &&& ~~~0xFFF)
      (segmentFlags (phdrFlags m₀.mem phdr)) (BitVec.ofNat 64 j)
    (∀ x, m₀.Quiet root x → mapped.mem x = m₀.mem x ∧ ¬ InPage n x) ∧
      phdrOffset (mapped.memset n 0 4096).mem phdr = phdrOffset m₀.mem phdr ∧
      phdrFilesz (mapped.memset n 0 4096).mem phdr = phdrFilesz m₀.mem phdr := by
  intro mapped
  obtain ⟨-, hpage⟩ := h.next hr hj
  have hkept : ∀ x, m₀.Quiet root x → mapped.mem x = m₀.mem x ∧ ¬ InPage n x := by
    intro x hx
    obtain ⟨hmem, hq⟩ := h.quiet x hx
    obtain ⟨hmem', hout⟩ := mappedPage_quiet h.wf hst hpage hq
    exact ⟨hmem'.trans hmem, hout⟩
  have hfield : ∀ c : Word, c.toNat + 8 ≤ 48 →
      (mapped.memset n 0 4096).mem.load64 (phdr + c) = m₀.mem.load64 (phdr + c) := by
    intro c hc
    refine Mem.load64_congr fun k hk => ?_
    have hck : (c + k).toNat < 48 := by
      rw [BitVec.toNat_add]
      omega
    obtain ⟨hmem, hout⟩ := hkept _ (hr.header _ hck)
    unfold InPage at hout
    rw [BitVec.add_assoc, mem_cleared, if_neg hout, hmem]
  exact ⟨hkept, hfield 8 (by decide), hfield 32 (by decide)⟩

/-- **One turn of the loop** adds a page. -/
theorem PagesDone.step (hr : SegmentReady pool m₀ root elfData phdr)
    (h : PagesDone pool m₀ root elfData phdr j m)
    (hj : j < segmentPages (phdrVaddr m₀.mem phdr) (phdrMemsz m₀.mem phdr)) :
    let m' := elfLoadPage m root elfData phdr (phdrVaddr m₀.mem phdr)
      (phdrVaddr m₀.mem phdr &&& ~~~0xFFF) (segmentFlags (phdrFlags m₀.mem phdr)) (BitVec.ofNat 64 j)
    m'.pmm.allocFailures = m.pmm.allocFailures → PagesDone pool m₀ root elfData phdr (j + 1) m' := by
  intro m' hfail
  have hj52 : j < 2 ^ 52 := hj.trans (segmentPages_lt _ _)
  obtain ⟨hne, hpage⟩ := h.next hr hj
  cases hst : m.pmm.freeStack with
  | nil =>
    -- a page without a frame counts as a failure
    obtain ⟨-, -, hlt, -⟩ := elfLoadPage_nil elfData phdr (phdrVaddr m₀.mem phdr) h.wf hst hpage
    exact absurd hfail (Nat.ne_of_gt hlt)
  | cons n rest =>
    obtain ⟨halloc, -, -⟩ := allocFrame_cons hst
    obtain ⟨hloaded, hsuf⟩ := elfLoadPage_spec elfData phdr (phdrVaddr m₀.mem phdr) h.wf hst hpage
    obtain ⟨hn, hn0, -, -, -⟩ := h.wf.top hst
    have hlook : ∀ vp, pageLookup m' root vp =
        if vp = VPage.of (segmentPage (phdrVaddr m₀.mem phdr) j) then
          some (smallMapping n (segmentFlags (phdrFlags m₀.mem phdr)))
        else pageLookup m root vp := by
      rcases hloaded.lookup with ⟨-, hlook⟩ | ⟨hsucc, -⟩
      · exact hlook
      · exact absurd (hsucc.symm.trans hfail) (Nat.succ_ne_self _)
    have hquiet : ∀ x, m₀.Quiet root x → m'.mem x = m₀.mem x ∧ m'.Quiet root x := by
      intro x hx
      obtain ⟨hmem, hq⟩ := h.quiet x hx
      obtain ⟨hmem', hq'⟩ := hloaded.quiet x hq
      exact ⟨hmem'.trans hmem, hq'⟩
    refine ⟨hloaded.wf, hquiet, fun i hi => ?_, fun vp hvp => ?_, ?_⟩
    · rcases Nat.lt_succ_iff_lt_or_eq.mp hi with hi | rfl
      · -- an earlier page: its frame is quiet
        obtain ⟨f, hf, hf0, hmap, hbytes⟩ := h.pages i hi
        refine ⟨f, hf, hf0, ?_, fun k hk => ?_⟩
        · rw [hlook, if_neg fun he => hne i hi he.symm]
          exact hmap
        · obtain ⟨hq, hbyte⟩ := hbytes k hk
          obtain ⟨hmem', hq'⟩ := hloaded.quiet _ hq
          exact ⟨hq', hmem'.trans hbyte⟩
      · -- the page just loaded
        refine ⟨n, hn, hn0, ?_, fun k hk => ⟨?_, ?_⟩⟩
        · rw [hlook, if_pos rfl]
        · refine hloaded.frame _ ?_
          unfold InPage
          rw [BitVec.add_comm, BitVec.add_sub_cancel, BitVec.toNat_ofNat]
          omega
        · obtain ⟨hkept, hoffset, hfilesz⟩ := h.mapped hr hj hst
          show (elfLoadPage _ _ _ _ _ _ _ _).mem _ = _
          rw [elfLoadPage_eq, halloc, elfCopyPage_content hoffset hfilesz hj52 hr.noWrap.file
            (hr.noWrap.pages i hj) (fun b hb => (hkept _ (hr.file b hb)).2) hk]
          exact segmentByte_congr fun b hb => (hkept _ (hr.file b hb)).1
    · rw [hlook, if_neg (hvp j (Nat.lt_succ_self j))]
      exact h.others vp fun i hi => hvp i (Nat.lt_succ_of_lt hi)
    · have hlen := hsuf.length_le
      have hcount := h.count
      rw [hst] at hcount
      simp only [List.length_cons] at hcount
      have hlen' : m'.pmm.freeStack.length ≤ rest.length := hlen
      omega

/-- **The whole loop.** -/
theorem loadPages_done (hr : SegmentReady pool m₀ root elfData phdr)
    (hj : j ≤ segmentPages (phdrVaddr m₀.mem phdr) (phdrMemsz m₀.mem phdr))
    (hfail : (loadPages m₀ root elfData phdr j).pmm.allocFailures = m₀.pmm.allocFailures) :
    PagesDone pool m₀ root elfData phdr j (loadPages m₀ root elfData phdr j) := by
  induction j with
  | zero => exact .start hr.wf
  | succ j ih =>
    rw [loadPages_succ] at hfail ⊢
    have hle := loadPages_failures_le m₀ root elfData phdr j
    have hle' := elfLoadPage_failures_le (loadPages m₀ root elfData phdr j) root elfData phdr
      (phdrVaddr m₀.mem phdr) (phdrVaddr m₀.mem phdr &&& ~~~0xFFF)
      (segmentFlags (phdrFlags m₀.mem phdr)) (BitVec.ofNat 64 j)
    exact (ih (by omega) (by omega)).step hr (by omega) (by omega)

/-! ## §4. What is read of the file. -/

/-- The event reads fields of the header, or bytes of the segment's own part of
    the file, the `filesz` bytes at `src`. -/
def ElfEvent.InSegment (phdr src : Word) (filesz : Nat) : ElfEvent → Prop
  | .read p n => (p - phdr).toNat + n ≤ 48 ∨ (p - src).toNat + n ≤ filesz
  | _ => True

/-- A read of a field of the header. -/
theorem inSegment_field (phdr src : Word) (filesz : Nat) {c : Word} {n : Nat} (h : c.toNat + n ≤ 48) :
    (ElfEvent.read (phdr + c) n).InSegment phdr src filesz := by
  left
  rw [BitVec.add_comm, BitVec.add_sub_cancel]
  exact h

/-- The bytes a page takes are bytes of the segment. -/
theorem inSegment_copy {offset filesz vaddr : Word} {p : Nat} (hp : p < 2 ^ 52)
    (hfile : offset.toNat + filesz.toNat < 2 ^ 64) (hwrap : offset.toNat + p * 4096 < 2 ^ 64)
    (hcopy : CopiesFrom offset filesz vaddr (BitVec.ofNat 64 p)) :
    (ElfEvent.read (elfData + copySrcOffset offset vaddr (BitVec.ofNat 64 p))
      (bytesFromFile offset filesz vaddr (BitVec.ofNat 64 p)).toNat).InSegment phdr (elfData + offset)
        filesz.toNat := by
  have hstart := pageStartIn_le (vaddr.toNat % 4096) p
  have hlt := (copiesFrom_iff hp hfile).mp hcopy
  have hcount := toNat_bytesFromFile hp hfile hcopy
  rw [Nat.mod_eq_of_lt (by omega)] at hlt hcount
  have hsub : elfData + (offset + BitVec.ofNat 64 (pageStartIn (vaddr.toNat % 4096) p)) -
      (elfData + offset) = BitVec.ofNat 64 (pageStartIn (vaddr.toNat % 4096) p) := by
    rw [← BitVec.add_assoc, BitVec.add_comm (elfData + offset), BitVec.add_sub_cancel]
  right
  rw [copySrcOffset_eq hp, hsub, hcount, BitVec.toNat_ofNat]
  omega

/-- The next turn of the loop reads nothing else. -/
theorem PagesDone.log (hr : SegmentReady pool m₀ root elfData phdr)
    (h : PagesDone pool m₀ root elfData phdr j m)
    (hj : j < segmentPages (phdrVaddr m₀.mem phdr) (phdrMemsz m₀.mem phdr)) {n : Word} {rest : List Word}
    (hst : m.pmm.freeStack = n :: rest) :
    (elfLoadPageLog m root elfData phdr (phdrVaddr m₀.mem phdr) (phdrVaddr m₀.mem phdr &&& ~~~0xFFF)
      (segmentFlags (phdrFlags m₀.mem phdr)) (BitVec.ofNat 64 j)).All
        (ElfEvent.InSegment phdr (elfData + phdrOffset m₀.mem phdr) (phdrFilesz m₀.mem phdr).toNat) := by
  obtain ⟨halloc, -, -⟩ := allocFrame_cons hst
  obtain ⟨-, hoffset, hfilesz⟩ := h.mapped hr hj hst
  unfold mappedPage at hoffset hfilesz
  rw [halloc] at hoffset hfilesz
  unfold elfLoadPageLog
  rw [Logged.all_tell_bind, Logged.all_bind, Logged.all_tell_bind, halloc]
  refine ⟨trivial, ?_, trivial, Logged.all_pure _⟩
  unfold elfCopyPageLog copyPageReads Logged.All
  rw [hoffset, hfilesz, List.forall_mem_cons, List.forall_mem_cons]
  refine ⟨inSegment_field _ _ _ (by decide), inSegment_field _ _ _ (by decide), fun e he => ?_⟩
  split at he
  · rename_i hcopy
    rw [List.mem_singleton.mp he]
    exact inSegment_copy (hj.trans (segmentPages_lt _ _)) hr.noWrap.file (hr.noWrap.pages j hj) hcopy
  · cases he

/-- The frames last for every turn of a loop in which no allocation fails. -/
theorem freeStack_cons (hr : SegmentReady pool m₀ root elfData phdr)
    (hj : j < segmentPages (phdrVaddr m₀.mem phdr) (phdrMemsz m₀.mem phdr))
    (hfail : (loadPages m₀ root elfData phdr (j + 1)).pmm.allocFailures = m₀.pmm.allocFailures) :
    PagesDone pool m₀ root elfData phdr j (loadPages m₀ root elfData phdr j) ∧
      ∃ n rest, (loadPages m₀ root elfData phdr j).pmm.freeStack = n :: rest := by
  have hle := loadPages_failures_le m₀ root elfData phdr j
  rw [loadPages_succ] at hfail
  have hle' := elfLoadPage_failures_le (loadPages m₀ root elfData phdr j) root elfData phdr
    (phdrVaddr m₀.mem phdr) (phdrVaddr m₀.mem phdr &&& ~~~0xFFF)
    (segmentFlags (phdrFlags m₀.mem phdr)) (BitVec.ofNat 64 j)
  have hdone := loadPages_done hr hj.le (by omega)
  refine ⟨hdone, ?_⟩
  cases hst : (loadPages m₀ root elfData phdr j).pmm.freeStack with
  | nil =>
    obtain ⟨-, -, hlt, -⟩ := elfLoadPage_nil elfData phdr (phdrVaddr m₀.mem phdr) hdone.wf hst (hdone.next hr hj).2
    have hlt' : (loadPages m₀ root elfData phdr j).pmm.allocFailures <
        (elfLoadPage (loadPages m₀ root elfData phdr j) root elfData phdr (phdrVaddr m₀.mem phdr)
          (phdrVaddr m₀.mem phdr &&& ~~~0xFFF) (segmentFlags (phdrFlags m₀.mem phdr))
          (BitVec.ofNat 64 j)).pmm.allocFailures := hlt
    omega
  | cons n rest => exact ⟨n, rest, rfl⟩

theorem loadPages_failures_mono (m : Machine) (root elfData phdr : Word) {i j : Nat} (h : i ≤ j) :
    (loadPages m root elfData phdr i).pmm.allocFailures ≤
      (loadPages m root elfData phdr j).pmm.allocFailures := by
  induction h with
  | refl => exact Nat.le_refl _
  | step _ ih =>
    rw [loadPages_succ]
    exact ih.trans (elfLoadPage_failures_le _ _ _ _ _ _ _ _)

/-- **What the segment's load reads.** -/
theorem elfLoadSegmentLog_inSegment (hr : SegmentReady pool m₀ root elfData phdr)
    (hfail : (elfLoadSegment m₀ root elfData phdr).pmm.allocFailures = m₀.pmm.allocFailures) :
    (elfLoadSegmentLog m₀ root elfData phdr).All
      (ElfEvent.InSegment phdr (elfData + phdrOffset m₀.mem phdr) (phdrFilesz m₀.mem phdr).toNat) := by
  unfold elfLoadSegmentLog
  dsimp only
  rw [Logged.all_tell_bind, Logged.all_tell_bind, Logged.all_tell_bind, Logged.all_tell_bind]
  refine ⟨inSegment_field _ _ _ (by decide), inSegment_field _ _ _ (by decide),
    inSegment_field _ _ _ (by decide), trivial, Logged.all_foldlM_range _ _ _ fun j hj => ?_⟩
  have hmono := loadPages_failures_mono m₀ root elfData phdr hj
  have hle := loadPages_failures_le m₀ root elfData phdr (j + 1)
  have hlast : (loadPages m₀ root elfData phdr
      (segmentPages (phdrVaddr m₀.mem phdr) (phdrMemsz m₀.mem phdr))).pmm.allocFailures =
        m₀.pmm.allocFailures := hfail
  obtain ⟨hdone, n, rest, hst⟩ := freeStack_cons hr hj (by
    have : (loadPages m₀ root elfData phdr (j + 1)).pmm.allocFailures ≤ _ := hmono
    omega)
  exact hdone.log hr hj hst

/-! ## §5. Main result. -/

/-- The byte at the virtual address `v` of the space is `b`. -/
def ReadsAs (m : Machine) (root v : Word) (b : BitVec 8) : Prop :=
  vmmGetPhys m root v ≠ 0 ∧ m.mem (vmmGetPhys m root v) = b

/-- **What a loaded segment reads as**, `m'` being the machine after the load. -/
structure SegmentReads (m : Machine) (root elfData phdr : Word) (m' : Machine) : Prop where
  /-- The bytes of the file, then zeros. -/
  content : ∀ o < (phdrMemsz m.mem phdr).toNat,
    ReadsAs m' root (phdrVaddr m.mem phdr + BitVec.ofNat 64 o)
      (if o < (phdrFilesz m.mem phdr).toNat then
        m.mem (elfData + phdrOffset m.mem phdr + BitVec.ofNat 64 o)
      else 0)
  /-- The rest of the first and of the last page is zero. -/
  around : ∀ v : Word, (phdrVaddr m.mem phdr).toNat / 4096 * 4096 ≤ v.toNat →
    v.toNat < (phdrVaddr m.mem phdr).toNat / 4096 * 4096 +
      segmentPages (phdrVaddr m.mem phdr) (phdrMemsz m.mem phdr) * 4096 →
    (v.toNat < (phdrVaddr m.mem phdr).toNat ∨
      (phdrVaddr m.mem phdr).toNat + (phdrMemsz m.mem phdr).toNat ≤ v.toNat) →
    ReadsAs m' root v 0
  /-- Of the file, only the segment's own bytes are read. -/
  reads : (elfLoadSegmentLog m root elfData phdr).All
    (ElfEvent.InSegment phdr (elfData + phdrOffset m.mem phdr) (phdrFilesz m.mem phdr).toNat)

/-- A mapped address reads as the byte in its frame. -/
theorem readsAs_iff (hwf : m.Wf pool (wholeTree root)) {v n flags : Word} (hn : Aligned n) (hn0 : n ≠ 0)
    (hmap : pageLookup m root (VPage.of v) = some (smallMapping n flags)) {b : BitVec 8} :
    ReadsAs m root v b ↔ m.mem (n + BitVec.ofNat 64 (v.toNat % 4096)) = b := by
  have hphys := hwf.vmmGetPhys_eq wholeTree_path hmap
  have hoff : (v &&& flagMask).toNat = v.toNat % 4096 := by
    rw [flagMask_eq, Word.toNat_and_lowMask _ (by decide)]
    norm_num
  have haddr : vmmGetPhys m root v = n + BitVec.ofNat 64 (v.toNat % 4096) := by
    rw [hphys]
    show (n &&& ~~~flagMask) ||| (v &&& flagMask) = _
    have hnlt := n.isLt
    have hn' : n.toNat % 4096 = 0 := hn
    apply BitVec.eq_of_toNat_eq
    rw [and_not_flagMask hn, Word.toNat_or_low (k := 12) (by decide) (and_not_flagMask hn) (by omega),
      hoff, BitVec.toNat_add, BitVec.toNat_ofNat]
    omega
  have hne : vmmGetPhys m root v ≠ 0 := by
    rw [hphys]
    show (n &&& ~~~flagMask) ||| (v &&& flagMask) ≠ 0
    rw [and_not_flagMask hn]
    exact fun hz => hn0 (BitVec.or_eq_zero_iff.mp hz).1
  unfold ReadsAs
  rw [and_iff_right hne, haddr]

/-- An address in the pages done. -/
theorem PagesDone.readsAs (h : PagesDone pool m₀ root elfData phdr j m) {v : Word} {i : Nat} (hi : i < j)
    (hpage : VPage.of v = VPage.of (segmentPage (phdrVaddr m₀.mem phdr) i)) :
    ReadsAs m root v (segmentByte (fileByte m₀.mem elfData (phdrOffset m₀.mem phdr))
      ((phdrVaddr m₀.mem phdr).toNat % 4096) (phdrFilesz m₀.mem phdr).toNat
      (i * 4096 + v.toNat % 4096)) := by
  obtain ⟨n, hn, hn0, hmap, hbytes⟩ := h.pages i hi
  rw [← hpage] at hmap
  rw [readsAs_iff h.wf hn hn0 hmap]
  exact (hbytes (v.toNat % 4096) (Nat.mod_lt _ (by decide))).2

/-- **The arithmetic of the segment copy**: a segment whose pages were not
    mapped, loaded without a failed allocation, reads as the bytes of the file
    followed by zeros, with zeros around it, and nothing else of the file is
    read. -/
theorem segment_reads (hr : SegmentReady pool m root elfData phdr)
    (hloaded : (elfLoadSegment m root elfData phdr).pmm.allocFailures = m.pmm.allocFailures) :
    SegmentReads m root elfData phdr (elfLoadSegment m root elfData phdr) := by
  have hdone : PagesDone pool m root elfData phdr
      (segmentPages (phdrVaddr m.mem phdr) (phdrMemsz m.mem phdr)) (elfLoadSegment m root elfData phdr) := by
    rw [elfLoadSegment_loadPages] at hloaded ⊢
    exact loadPages_done hr le_rfl hloaded
  have hwrap := hr.noWrap.segment
  have hpages := segmentPages_eq hwrap
  have hlt := segmentPages_lt (phdrVaddr m.mem phdr) (phdrMemsz m.mem phdr)
  have hle := BitVec.le_def.mp hr.filesz_le
  refine ⟨fun o ho => ?_, fun v hlow hhigh hout => ?_, elfLoadSegmentLog_inSegment hr hloaded⟩
  · have hv : (phdrVaddr m.mem phdr + BitVec.ofNat 64 o).toNat = (phdrVaddr m.mem phdr).toNat + o := by
      rw [BitVec.toNat_add, BitVec.toNat_ofNat]
      omega
    obtain ⟨i, hi, hpage, hplace⟩ := exists_segmentPage (phdrVaddr m.mem phdr)
      (v := phdrVaddr m.mem phdr + BitVec.ofNat 64 o) (by omega) (by omega) hlt
    have hbyte := hdone.readsAs hi hpage
    have hplace' : i * 4096 + (phdrVaddr m.mem phdr + BitVec.ofNat 64 o).toNat % 4096 =
        (phdrVaddr m.mem phdr).toNat % 4096 + o := by omega
    rw [hplace'] at hbyte
    by_cases hfile : o < (phdrFilesz m.mem phdr).toNat
    · rw [if_pos hfile]
      rw [segmentByte_file hfile] at hbyte
      exact hbyte
    · rw [if_neg hfile]
      rw [segmentByte_behind (by omega)] at hbyte
      exact hbyte
  · obtain ⟨i, hi, hpage, hplace⟩ := exists_segmentPage _ hlow hhigh hlt
    have hbyte := hdone.readsAs hi hpage
    rcases hout with hbefore | hbehind
    · rw [segmentByte_before (by omega)] at hbyte
      exact hbyte
    · rw [segmentByte_behind (by omega)] at hbyte
      exact hbyte

/-! ## §6. An example. -/

/-- A page takes four frames at most. -/
theorem elfLoadPage_frames (m : Machine) (root elfData phdr vaddr pageStart flags p : Word) :
    let m' := elfLoadPage m root elfData phdr vaddr pageStart flags p
    m.pmm.freeStack.length ≤ m'.pmm.freeStack.length + 4 ∧
      (4 ≤ m.pmm.freeStack.length → m'.pmm.allocFailures = m.pmm.allocFailures) := by
  intro m'
  have hpmm : m'.pmm = (mappedPage m root pageStart flags p).pmm := by
    show (elfLoadPage m root elfData phdr vaddr pageStart flags p).pmm = _
    rw [elfLoadPage_eq, (elfFillPage_frame _ _ _ _ _ _).1]
  have hmap := vmmMap_frames m.allocFrame.2 root (pageStart + p * 4096) m.allocFrame.1 flags
  have halloc : m.pmm.freeStack.length ≤ m.allocFrame.2.pmm.freeStack.length + 1 ∧
      (m.pmm.freeStack ≠ [] → m.allocFrame.2.pmm.allocFailures = m.pmm.allocFailures) := by
    have hframes := allocZeroedTable_frames m
    rw [allocZeroedTable_pmm] at hframes
    exact hframes
  rw [hpmm]
  refine ⟨?_, fun hlen => ?_⟩
  · have hmap' : _ ≤ (mappedPage m root pageStart flags p).pmm.freeStack.length + 3 := hmap
    omega
  · have hne : m.pmm.freeStack ≠ [] := by
      intro hnil
      rw [hnil] at hlen
      cases hlen
    rw [← halloc.2 hne]
    exact vmmMap_allocFailures (by omega) _ _ _ _

/-- Four frames a page are enough. -/
theorem loadPages_enough (m : Machine) (root elfData phdr : Word) (j : Nat)
    (h : 4 * j ≤ m.pmm.freeStack.length) :
    (loadPages m root elfData phdr j).pmm.allocFailures = m.pmm.allocFailures ∧
      m.pmm.freeStack.length ≤ (loadPages m root elfData phdr j).pmm.freeStack.length + 4 * j := by
  induction j with
  | zero => exact ⟨rfl, Nat.le_refl _⟩
  | succ j ih =>
    obtain ⟨hsame, hlen⟩ := ih (by omega)
    rw [loadPages_succ]
    obtain ⟨hlen', hsame'⟩ := elfLoadPage_frames (loadPages m root elfData phdr j) root elfData phdr
      (phdrVaddr m.mem phdr) (phdrVaddr m.mem phdr &&& ~~~0xFFF)
      (segmentFlags (phdrFlags m.mem phdr)) (BitVec.ofNat 64 j)
    exact ⟨(hsame' (by omega)).trans hsame, by omega⟩

end Loop

section Empty

variable {pool : Finset Nat} {m : Machine} {root : Word}

/-- An empty root is the only table. -/
theorem tableAt_emptyRoot (hzero : ∀ i, m.entry root i = 0) {q : List (Fin 512)} {s : Word}
    (h : tableAt pageChild m.entry root q = some s) : q = [] ∧ s = root := by
  induction q generalizing s with
  | nil => exact ⟨rfl, (Option.some.inj h).symm⟩
  | cons i q ih =>
    obtain ⟨t, ht, hs⟩ := tableAt_cons_eq_some.mp h
    obtain ⟨rfl, rfl⟩ := ih ht
    rw [hzero, pageChild_zero] at hs
    cases hs

theorem Machine.Wf.of_emptyRoot (hp : m.pmm.Inv pool) (hz : 0 ∉ pool) (hal : Aligned root)
    (hne : root ≠ 0) (hfree : root ∉ m.pmm.freeStack) (hzero : ∀ i, m.entry root i = 0) :
    m.Wf pool (wholeTree root) := by
  have htab : ∀ {r q s}, m.TableOf (wholeTree root) r q s → r = root ∧ q = [] ∧ s = root := by
    intro r q s hs
    obtain ⟨hr, hs⟩ := wholeTree_tableOf.mp hs
    exact ⟨hr, tableAt_emptyRoot hzero hs⟩
  refine ⟨hp, hz, fun r hr => ?_, ?_, ?_, ?_, ?_⟩
  · rw [Set.mem_singleton_iff.mp hr]
    exact hal
  · intro r p r' p' t h h'
    obtain ⟨hr, hq, -⟩ := htab h
    obtain ⟨hr', hq', -⟩ := htab h'
    exact ⟨hr.trans hr'.symm, hq.trans hq'.symm⟩
  · intro r p t h
    rw [(htab h).2.2]
    exact hne
  · intro r p t h
    rw [(htab h).2.2]
    exact hfree
  · intro r p t i h _
    rw [(htab h).2.2]
    exact .inr (hzero i)

end Empty

section Small

variable {m : Machine} {n : Nat}

/-- A machine whose free frames start at 2 MiB, with an empty PML4 at
    0x1000. -/
structure SmallMachine (n : Nat) (m : Machine) : Prop where
  frames : m.pmm = smallPmm n
  few : n ≤ 1024
  empty : ∀ x, InPage 0x1000 x → m.mem x = 0

theorem SmallMachine.entry (h : SmallMachine n m) (i : Fin 512) : m.entry 0x1000 i = 0 := by
  have hsame : m.mem.load64 (Mem.slotAddr 0x1000 i) = Mem.load64 (fun _ => 0) (Mem.slotAddr 0x1000 i) :=
    Mem.load64_slot_congr i fun x hx => h.empty x hx
  exact hsame.trans (by simp [Mem.load64, Mem.load32, Mem.load16])

theorem SmallMachine.high (h : SmallMachine n m) {f : Word} (hf : f ∈ m.pmm.freeStack) :
    0x200000 ≤ f.toNat := by
  rw [h.frames] at hf
  have hinv := smallPmm_inv h.few
  have hlow := smallPmm_low _ (hinv.free_mem _ (hinv.inRange f hf) (hinv.bitmap_of_mem hf))
  unfold frameOf pageSize at hlow
  omega

theorem SmallMachine.wf (h : SmallMachine n m) : m.Wf (bootPool (smallPmm n)) (wholeTree 0x1000) := by
  have hinv : m.pmm.Inv (bootPool (smallPmm n)) := by
    rw [h.frames]
    exact smallPmm_inv h.few
  refine .of_emptyRoot hinv (fun h0 => ?_) (by decide) (by decide) (fun hf => ?_) h.entry
  · exact absurd (smallPmm_low 0 h0) (by decide)
  · exact absurd (h.high hf) (by decide)

/-- What lies below the free frames and away from the only table is quiet. -/
theorem SmallMachine.quiet (h : SmallMachine n m) {x : Word} (hlow : 0x180000 ≤ x.toNat)
    (hhigh : x.toNat < 0x181000) : m.Quiet 0x1000 x := by
  refine ⟨fun f hf hx => ?_, fun q t ht hx => ?_⟩
  · have hflow := h.high hf
    unfold InPage at hx
    bv_omega
  · rw [(tableAt_emptyRoot h.entry (wholeTree_tableOf.mp ht).2).2] at hx
    unfold InPage at hx
    bv_omega

end Small

/-- The bytes that are not zero of a file with a program header at offset 64
    and three bytes of its segment at offset 120.  The segment has five bytes,
    and starts two bytes in front of a page boundary. -/
def segmentFile : List (Nat × BitVec 8) :=
  [(64, 1), (68, 6), (72, 120), (80, 0xFE), (81, 0x0F), (84, 0x80), (96, 3), (104, 5),
    (120, 0x0A), (121, 0x0B), (122, 0x0C)]

/-- Eight free frames, an empty PML4 at 0x1000, and the file at 1.5 MiB. -/
def segmentMachine : Machine :=
  { pmm := smallPmm 8
    mem := fun a =>
      if 123 ≤ (a - 0x180000).toNat then 0
      else (segmentFile.lookup (a - 0x180000).toNat).getD 0
    currentPml4 := 0x1000
    stores := [] }

theorem segmentMachine_small : SmallMachine 8 segmentMachine := by
  refine ⟨by simp only [segmentMachine], by decide, fun x hx => if_pos ?_⟩
  unfold InPage at hx
  bv_omega

theorem segmentMachine_ready :
    SegmentReady (bootPool (smallPmm 8)) segmentMachine 0x1000 0x180000 0x180040 := by
  have hzero := segmentMachine_small.entry
  refine ⟨segmentMachine_small.wf, by decide, ⟨by decide, by decide, by decide⟩, fun i _ => ?_,
    fun k hk => ?_, fun j hj => ?_⟩
  · refine pageLookup_eq_none ?_ fun pd hpd => ?_
    · cases htab : tableAt pageChild segmentMachine.entry 0x1000 (VPage.of (segmentPage _ i)).ptPath with
      | none => rfl
      | some t => exact absurd (tableAt_emptyRoot hzero htab).1 (List.cons_ne_nil _ _)
    · exact absurd (tableAt_emptyRoot hzero hpd).1 (List.cons_ne_nil _ _)
  · exact segmentMachine_small.quiet (by bv_omega) (by bv_omega)
  · have hfilesz : (phdrFilesz segmentMachine.mem 0x180040).toNat = 3 := by decide
    have hoffset : phdrOffset segmentMachine.mem 0x180040 = 120 := by decide
    rw [hfilesz] at hj
    rw [hoffset]
    have hjn : (BitVec.ofNat 64 j : Word).toNat = j := by
      rw [BitVec.toNat_ofNat]
      omega
    exact segmentMachine_small.quiet (by bv_omega) (by bv_omega)

/-- That segment is loaded. -/
theorem segment_reads_small :
    SegmentReads segmentMachine 0x1000 0x180000 0x180040
      (elfLoadSegment segmentMachine 0x1000 0x180000 0x180040) := by
  have hpages : segmentPages (phdrVaddr segmentMachine.mem 0x180040)
      (phdrMemsz segmentMachine.mem 0x180040) = 2 := by decide
  have hlen : segmentMachine.pmm.freeStack.length = 8 := by
    rw [segmentMachine_small.frames, freeStack_smallPmm]
    rfl
  have henough := (loadPages_enough segmentMachine 0x1000 0x180000 0x180040 2 (by omega)).1
  have hloaded : (elfLoadSegment segmentMachine 0x1000 0x180000 0x180040).pmm.allocFailures =
      segmentMachine.pmm.allocFailures := by
    rw [elfLoadSegment_loadPages, hpages]
    exact henough
  exact segment_reads segmentMachine_ready hloaded

end ZohoOs
