/-
  ZohoOs.Elf.Overlap — segments that share a page.

  The byte ranges of two segments may be disjoint and still have bytes in one
  4 KiB page.  `elf_load` gives every page of every segment a fresh frame and
  maps it over what was there, so a shared page ends up with the frame and the
  flags of the last segment that has it: the bytes of the earlier ones read as
  zero, and a page of a writable segment can become read-only.

  Main result:
    * `elf_segments_iff` — the segments read as prescribed exactly when every
      byte of the file in a page of a later segment is zero, and the last
      segment with a page of a writable one is writable.
-/
import ZohoOs.Elf.Exhaust

namespace ZohoOs

open ZohoOs.Lib
open ZohoOs.Lib.Mem (Aligned InPage)
open ZohoOs.Lib.Radix

/-! ## §1. One page. -/

/-- What `j` puts at place `k` of its page. -/
def PageJob.byte (mem : Mem) (elfData : Word) (j : PageJob) (k : Nat) : BitVec 8 :=
  segmentByte (fileByte mem elfData (phdrOffset mem j.phdr)) (j.vaddr.toNat % 4096)
    (phdrFilesz mem j.phdr).toNat (j.page * 4096 + k)

/-- The header of `j` and the bytes it copies are quiet, and no sum wraps. -/
structure PageJob.Ready (m : Machine) (root elfData : Word) (j : PageJob) : Prop where
  page : j.page < 2 ^ 52
  file : (phdrOffset m.mem j.phdr).toNat + (phdrFilesz m.mem j.phdr).toNat < 2 ^ 64
  wrap : (phdrOffset m.mem j.phdr).toNat + j.page * 4096 < 2 ^ 64
  header : ∀ k : Word, k.toNat < 48 → m.Quiet root (j.phdr + k)
  bytes : ∀ b < (phdrFilesz m.mem j.phdr).toNat,
    m.Quiet root (elfData + phdrOffset m.mem j.phdr + BitVec.ofNat 64 b)

/-- The page has a frame of its own, with these flags and bytes. -/
def Machine.Holds (m : Machine) (root : Word) (vp : VPage) (flags : Word) (byte : Nat → BitVec 8) :
    Prop :=
  ∃ n, Aligned n ∧ n ≠ 0 ∧ pageLookup m root vp = some (smallMapping n flags) ∧
    ∀ k < 4096, m.mem (n + BitVec.ofNat 64 k) = byte k

section Page

variable {pool : Finset Nat} {m m' : Machine} {root root' elfData : Word} {j : PageJob}

/-- A field of a quiet header. -/
theorem PageJob.Ready.field (h : j.Ready m root elfData)
    (hmem : ∀ x, m.Quiet root x → m'.mem x = m.mem x) {c : Word} (hc : c.toNat + 8 ≤ 48) :
    m'.mem.load64 (j.phdr + c) = m.mem.load64 (j.phdr + c) := by
  refine Mem.load64_congr fun k hk => ?_
  have hck : (c + k).toNat < 48 := by
    rw [BitVec.toNat_add]
    omega
  rw [BitVec.add_assoc]
  exact hmem _ (h.header _ hck)

/-- What leaves the quiet bytes alone leaves a page that is ready alone. -/
theorem PageJob.Ready.of_quiet (h : j.Ready m root elfData)
    (hkept : ∀ x, m.Quiet root x → m'.mem x = m.mem x ∧ m'.Quiet root' x) :
    j.Ready m' root' elfData ∧ j.byte m'.mem elfData = j.byte m.mem elfData := by
  have hmem : ∀ x, m.Quiet root x → m'.mem x = m.mem x := fun x hx => (hkept x hx).1
  have hoffset : phdrOffset m'.mem j.phdr = phdrOffset m.mem j.phdr := h.field hmem (by decide)
  have hfilesz : phdrFilesz m'.mem j.phdr = phdrFilesz m.mem j.phdr := h.field hmem (by decide)
  refine ⟨⟨h.page, ?_, ?_, fun k hk => (hkept _ (h.header k hk)).2, fun b hb => ?_⟩, ?_⟩
  · rw [hoffset, hfilesz]
    exact h.file
  · rw [hoffset]
    exact h.wrap
  · rw [hfilesz] at hb
    rw [hoffset]
    exact (hkept _ (h.bytes b hb)).2
  · funext k
    unfold PageJob.byte
    rw [hoffset, hfilesz]
    exact segmentByte_congr fun b hb => hmem _ (h.bytes b hb)

/-- **One turn fills the frame it took.** -/
theorem PageJob.Ready.run (h : j.Ready m root elfData) (hwf : m.Wf pool (wholeTree root))
    (hj : m.NotHuge root j.vpage) {n : Word} {rest : List Word} (hst : m.pmm.freeStack = n :: rest) :
    ∀ k < 4096, (j.run root elfData m).Quiet root (n + BitVec.ofNat 64 k) ∧
      (j.run root elfData m).mem (n + BitVec.ofNat 64 k) = j.byte m.mem elfData k := by
  intro k hk
  have hpage : SmallPage m root ((j.vaddr &&& ~~~0xFFF) + BitVec.ofNat 64 j.page * 4096)
      (segmentFlags j.phdrFlags) := ⟨segmentFlags_low _, segmentFlags_small _, hj⟩
  obtain ⟨hloaded, -⟩ := elfLoadPage_spec elfData j.phdr j.vaddr hwf hst hpage
  obtain ⟨halloc, -, -⟩ := allocFrame_cons hst
  refine ⟨hloaded.frame _ ?_, ?_⟩
  · unfold InPage
    rw [BitVec.add_comm, BitVec.add_sub_cancel, BitVec.toNat_ofNat]
    omega
  · -- the frame is mapped and zeroed; header and file are what they were
    set mapped := mappedPage m root (j.vaddr &&& ~~~0xFFF) (segmentFlags j.phdrFlags)
      (BitVec.ofNat 64 j.page) with hmapped
    have hkept : ∀ x, m.Quiet root x → mapped.mem x = m.mem x ∧ ¬ InPage n x :=
      fun x hx => mappedPage_quiet hwf hst hpage hx
    have hcleared : ∀ x, m.Quiet root x → (mapped.memset n 0 4096).mem x = m.mem x := by
      intro x hx
      obtain ⟨hmem, hout⟩ := hkept x hx
      unfold InPage at hout
      rw [mem_cleared, if_neg hout, hmem]
    have hoffset : phdrOffset (mapped.memset n 0 4096).mem j.phdr = phdrOffset m.mem j.phdr :=
      h.field hcleared (by decide)
    have hfilesz : phdrFilesz (mapped.memset n 0 4096).mem j.phdr = phdrFilesz m.mem j.phdr :=
      h.field hcleared (by decide)
    show (elfLoadPage _ _ _ _ _ _ _ _).mem _ = _
    rw [elfLoadPage_eq, halloc, elfCopyPage_content hoffset hfilesz h.page h.file h.wrap
      (fun b hb => (hkept _ (h.bytes b hb)).2) hk]
    exact segmentByte_congr fun b hb => (hkept _ (h.bytes b hb)).1

end Page

/-! ## §2. The pages one after the other. -/

/-- The last of the turns that load its page. -/
def LastTurn (jobs : List PageJob) (j : PageJob) : Prop :=
  ∃ before after, jobs = before ++ j :: after ∧ ∀ k ∈ after, k.vpage ≠ j.vpage

section Jobs

variable {pool : Finset Nat} {m : Machine} {root elfData : Word} {j : PageJob} {jobs : List PageJob}

variable (elfData) in
/-- **The last turn of a page decides**: its frame, its flags and its bytes are
    what the page has in the end. -/
theorem loadJobs_holds (hwf : m.Wf pool (wholeTree root)) (hjobs : ∀ j ∈ jobs, m.NotHuge root j.vpage)
    (hready : ∀ j ∈ jobs, j.Ready m root elfData)
    (hneed : m.neededFrames root (jobs.map PageJob.vpage) ≤ m.pmm.freeStack.length)
    (hlast : LastTurn jobs j) :
    (loadJobs root elfData m jobs).Holds root j.vpage (segmentFlags j.phdrFlags)
      (j.byte m.mem elfData) := by
  induction jobs generalizing m with
  | nil =>
    obtain ⟨before, after, hsplit, -⟩ := hlast
    exact absurd hsplit.symm (by simp)
  | cons i jobs ih =>
    obtain ⟨hkeep, hcases⟩ := PageJob.run_outcome elfData hwf (hjobs i List.mem_cons_self)
    have hrest : ∀ k ∈ jobs, (i.run root elfData m).NotHuge root k.vpage :=
      fun k hk => hkeep.notHuge _ (hjobs k (List.mem_cons_of_mem i hk))
    have hfits : PageFits m root i.vpage (segmentFlags i.phdrFlags) (i.run root elfData m) := by
      rcases hcases with hfits | ⟨-, hfails⟩
      · exact hfits
      · exact absurd hfails.needed (Nat.not_lt_of_le (le_neededFrames_cons.trans hneed))
    rw [List.map_cons, neededFrames_cons hfits.tables] at hneed
    have hframes := hfits.frames
    obtain ⟨before, after, hsplit, hafter⟩ := hlast
    cases before with
    | nil =>
      -- this turn: the later ones leave its page and its frame alone
      obtain ⟨rfl, rfl⟩ := List.cons.inj hsplit
      obtain ⟨n, rest, hst, -, hlook⟩ := hfits.loaded
      obtain ⟨hn, hn0, -, -, -⟩ := hwf.top hst
      obtain ⟨-, -, hothers, hkept⟩ := loadJobs_fits elfData hkeep.wf hrest (by omega)
      have hbytes := (hready i List.mem_cons_self).run hwf (hjobs i List.mem_cons_self) hst
      refine ⟨n, hn, hn0, ?_, fun k hk => ?_⟩
      · have hnot : i.vpage ∉ jobs.map PageJob.vpage := by
          intro hmem
          obtain ⟨k, hk, heq⟩ := List.mem_map.mp hmem
          exact hafter k hk heq
        exact (hothers _ hnot).trans ((hlook _).trans (if_pos rfl))
      · obtain ⟨hquiet, hbyte⟩ := hbytes k hk
        exact (hkept _ hquiet).trans hbyte
    | cons i' before =>
      obtain ⟨rfl, htail⟩ := List.cons.inj hsplit
      have hj : j ∈ jobs := by
        rw [htail]
        exact List.mem_append_right _ List.mem_cons_self
      have hready' : ∀ k ∈ jobs, k.Ready (i.run root elfData m) root elfData :=
        fun k hk => ((hready k (List.mem_cons_of_mem i hk)).of_quiet hfits.quiet).1
      rw [← ((hready j (List.mem_cons_of_mem i hj)).of_quiet hfits.quiet).2]
      exact ih hkeep.wf hrest hready' (by omega) ⟨before, after, htail, hafter⟩

end Jobs

/-! ## §3. The segments of a file. -/

/-- The fields of a program header. -/
structure Segment where
  phdr : Word
  flags : BitVec 32
  offset : Word
  vaddr : Word
  filesz : Word
  memsz : Word
  deriving DecidableEq

/-- The `k`-th program header. -/
def segmentAt (mem : Mem) (elfData : Word) (k : Nat) : Segment :=
  let phdr := phdrAddr mem elfData k
  { phdr := phdr
    flags := phdrFlags mem phdr
    offset := phdrOffset mem phdr
    vaddr := phdrVaddr mem phdr
    filesz := phdrFilesz mem phdr
    memsz := phdrMemsz mem phdr }

/-- The `k`-th program header is `PT_LOAD`, with these fields. -/
def IsSegment (mem : Mem) (elfData : Word) (k : Nat) (s : Segment) : Prop :=
  k < (headerPhnum mem elfData).toNat ∧ phdrType mem (phdrAddr mem elfData k) = ptLoad ∧
    segmentAt mem elfData k = s

namespace Segment

/-- `PF_W`. -/
def Writable (s : Segment) : Prop := s.flags &&& 2 ≠ 0

def pages (s : Segment) : Nat := segmentPages s.vaddr s.memsz

/-- The address of byte `o`. -/
def addr (s : Segment) (o : Nat) : Word := s.vaddr + BitVec.ofNat 64 o

/-- What byte `o` is to read as. -/
def content (s : Segment) (mem : Mem) (elfData : Word) (o : Nat) : BitVec 8 :=
  if o < s.filesz.toNat then fileByte mem elfData s.offset o else 0

/-- The turn for page `p`. -/
def job (s : Segment) (p : Nat) : PageJob := ⟨s.phdr, s.vaddr, s.flags, p⟩

/-- `vp` is a page of the segment. -/
def Has (s : Segment) (vp : VPage) : Prop := ∃ p < s.pages, (s.job p).vpage = vp

end Segment

/-- No segment behind the `k`-th has the page. -/
def IsLastFor (mem : Mem) (elfData : Word) (k : Nat) (vp : VPage) : Prop :=
  ∀ k' s', IsSegment mem elfData k' s' → k < k' → ¬ s'.Has vp

section Segments

variable {mem : Mem} {elfData : Word} {k p : Nat} {s : Segment} {j : PageJob} {jobs l : List PageJob}

theorem mem_imageJobs :
    j ∈ imageJobs mem elfData ↔ ∃ k s p, IsSegment mem elfData k s ∧ p < s.pages ∧ j = s.job p := by
  unfold imageJobs phdrJobs
  rw [List.mem_flatMap]
  constructor
  · rintro ⟨k, hk, hj⟩
    rw [List.mem_range'_1] at hk
    unfold segmentJobs at hj
    by_cases hload : phdrType mem (phdrAddr mem elfData k) = ptLoad
    · rw [if_pos hload, List.mem_map] at hj
      obtain ⟨p, hp, rfl⟩ := hj
      exact ⟨k, _, p, ⟨by omega, hload, rfl⟩, List.mem_range.mp hp, rfl⟩
    · rw [if_neg hload] at hj
      cases hj
  · rintro ⟨k, s, p, ⟨hk, hload, rfl⟩, hp, rfl⟩
    refine ⟨k, List.mem_range'_1.mpr ⟨Nat.zero_le k, by omega⟩, ?_⟩
    unfold segmentJobs
    rw [if_pos hload, List.mem_map]
    exact ⟨p, List.mem_range.mpr hp, rfl⟩

/-- Of the segments with a page there is a last one. -/
theorem exists_last_segment {vp : VPage} (h : IsSegment mem elfData k s) (hs : s.Has vp) :
    ∃ k' s', k ≤ k' ∧ IsSegment mem elfData k' s' ∧ s'.Has vp ∧ IsLastFor mem elfData k' vp := by
  classical
  have hspec := Nat.findGreatest_spec (P := fun i => ∃ t, IsSegment mem elfData i t ∧ t.Has vp)
    h.1.le ⟨s, h, hs⟩
  obtain ⟨s', hs', hvp⟩ := hspec
  refine ⟨_, s', Nat.le_findGreatest h.1.le ⟨s, h, hs⟩, hs', hvp, fun k'' s'' h'' hlt hvp'' => ?_⟩
  exact Nat.findGreatest_is_greatest hlt h''.1.le ⟨s'', h'', hvp''⟩

theorem LastTurn.prepend (h : LastTurn jobs j) (l : List PageJob) : LastTurn (l ++ jobs) j := by
  obtain ⟨before, after, rfl, hafter⟩ := h
  exact ⟨l ++ before, after, (List.append_assoc l before _).symm, hafter⟩

theorem LastTurn.append (h : LastTurn jobs j) (hl : ∀ i ∈ l, i.vpage ≠ j.vpage) :
    LastTurn (jobs ++ l) j := by
  obtain ⟨before, after, rfl, hafter⟩ := h
  refine ⟨before, after ++ l, ?_, fun i hi => ?_⟩
  · rw [List.append_assoc, List.cons_append]
  · rcases List.mem_append.mp hi with hi | hi
    · exact hafter i hi
    · exact hl i hi

/-- A segment has each of its pages once. -/
theorem lastTurn_segmentJobs (h : IsSegment mem elfData k s) (hp : p < s.pages) (hfew : s.pages < 2 ^ 36) :
    LastTurn (segmentJobs mem (phdrAddr mem elfData k)) (s.job p) := by
  obtain ⟨-, hload, rfl⟩ := h
  unfold segmentJobs
  rw [if_pos hload]
  have hapart : ((List.range (segmentAt mem elfData k).pages).map (segmentAt mem elfData k).job).Pairwise
      fun a b => b.vpage ≠ a.vpage := by
    rw [List.pairwise_map]
    refine List.pairwise_lt_range.imp_of_mem fun {a b} _ hb hab => ?_
    exact segmentPage_ne hab ((List.mem_range.mp hb).trans hfew)
  obtain ⟨before, after, hsplit⟩ :=
    List.append_of_mem (List.mem_map_of_mem (f := (segmentAt mem elfData k).job) (List.mem_range.mpr hp))
  rw [hsplit] at hapart
  exact ⟨before, after, hsplit, (List.pairwise_cons.mp (List.pairwise_append.mp hapart).2.1).1⟩

theorem imageJobs_split (hk : k < (headerPhnum mem elfData).toNat) :
    imageJobs mem elfData = phdrJobs mem elfData 0 k ++
      (segmentJobs mem (phdrAddr mem elfData k) ++
        phdrJobs mem elfData (k + 1) ((headerPhnum mem elfData).toNat - (k + 1))) := by
  have hcount : (headerPhnum mem elfData).toNat =
      k + ((headerPhnum mem elfData).toNat - (k + 1) + 1) := by omega
  rw [← phdrJobs_succ]
  unfold imageJobs phdrJobs
  rw [← List.flatMap_append]
  nth_rewrite 1 [hcount]
  rw [← List.range'_append_1, Nat.zero_add]

/-- A segment has no more pages than the file. -/
theorem pages_le_length (h : IsSegment mem elfData k s) : s.pages ≤ (imageJobs mem elfData).length := by
  obtain ⟨hk, hload, rfl⟩ := h
  have hlen : (segmentJobs mem (phdrAddr mem elfData k)).length = (segmentAt mem elfData k).pages := by
    unfold segmentJobs
    rw [if_pos hload, List.length_map, List.length_range]
    rfl
  rw [imageJobs_split hk, List.length_append, List.length_append, hlen]
  omega

/-- **The last segment with a page loads it last.** -/
theorem lastTurn_imageJobs (h : IsSegment mem elfData k s) (hp : p < s.pages) (hfew : s.pages < 2 ^ 36)
    (hlast : IsLastFor mem elfData k (s.job p).vpage) :
    LastTurn (imageJobs mem elfData) (s.job p) := by
  rw [imageJobs_split h.1]
  refine ((lastTurn_segmentJobs h hp hfew).append fun i hi heq => ?_).prepend _
  obtain ⟨k', hk', hi⟩ := List.mem_flatMap.mp hi
  rw [List.mem_range'_1] at hk'
  unfold segmentJobs at hi
  by_cases hload : phdrType mem (phdrAddr mem elfData k') = ptLoad
  · rw [if_pos hload, List.mem_map] at hi
    obtain ⟨p', hp', rfl⟩ := hi
    exact hlast k' _ ⟨by omega, hload, rfl⟩ (by omega) ⟨p', List.mem_range.mp hp', heq⟩
  · rw [if_neg hload] at hi
    cases hi

end Segments

/-! ## §4. Loading a file. -/

/-- **The segments are apart**: no two have a byte in common, the 48 bits of an
    address being what a page walk reads of it.  No segment has more bytes in
    the file than in memory, no sum wraps, and the bytes of the file lie in no
    free frame and in no table. -/
structure SegmentsApart (m : Machine) (elfData : Word) : Prop where
  apart : ∀ k s k' s', IsSegment m.mem elfData k s → IsSegment m.mem elfData k' s' → k ≠ k' →
    ∀ o < s.memsz.toNat, ∀ o' < s'.memsz.toNat,
      (s.addr o).toNat % 2 ^ 48 ≠ (s'.addr o').toNat % 2 ^ 48
  filesz_le : ∀ k s, IsSegment m.mem elfData k s → s.filesz ≤ s.memsz
  noWrap : ∀ k s, IsSegment m.mem elfData k s → NoWrap s.vaddr s.memsz s.offset s.filesz
  file : ∀ k s, IsSegment m.mem elfData k s → ∀ b < s.filesz.toNat,
    m.Quiet m.currentPml4 (elfData + s.offset + BitVec.ofNat 64 b)

/-- **A later segment takes nothing away**: in its pages the earlier ones have
    only zeros in the file, and the last segment with a page of a writable one
    is writable. -/
structure NothingLost (mem : Mem) (elfData : Word) : Prop where
  bytes : ∀ k s k' s', IsSegment mem elfData k s → IsSegment mem elfData k' s' → k < k' →
    ∀ o < s.filesz.toNat, s'.Has (VPage.of (s.addr o)) → fileByte mem elfData s.offset o = 0
  writable : ∀ k s k' s', IsSegment mem elfData k s → IsSegment mem elfData k' s' → k < k' →
    s.Writable → ∀ o < s.memsz.toNat, s'.Has (VPage.of (s.addr o)) →
      IsLastFor mem elfData k' (VPage.of (s.addr o)) → s'.Writable

/-- **The segments are intact** in the new space: every byte reads as
    prescribed, and the pages of a writable segment are writable. -/
def SegmentsIntact (m : Machine) (elfData : Word) : Prop :=
  ∃ entry pml4 m', elfLoad m elfData = (some (entry, pml4), m') ∧
    ∀ k s, IsSegment m.mem elfData k s → ∀ o < s.memsz.toNat,
      ReadsAs m' pml4 (s.addr o) (s.content m.mem elfData o) ∧
        (s.Writable → ∃ x, pageLookup m' pml4 (VPage.of (s.addr o)) = some x ∧
          x.flags &&& pageWritable ≠ 0)

section Addresses

variable {s s' : Segment} {v v' : Word} {o p : Nat}

theorem low48_eq (hpage : VPage.of v = VPage.of v') (hoff : v.toNat % 4096 = v'.toNat % 4096) :
    v.toNat % 2 ^ 48 = v'.toNat % 2 ^ 48 := by
  have e₁ := congrArg (fun vp => vp.pml4.val) hpage
  have e₂ := congrArg (fun vp => vp.pdpt.val) hpage
  have e₃ := congrArg (fun vp => vp.pd.val) hpage
  have e₄ := congrArg (fun vp => vp.pt.val) hpage
  simp only [VPage.pml4_of_val, VPage.pdpt_of_val, VPage.pd_of_val, VPage.pt_of_val] at e₁ e₂ e₃ e₄
  omega

theorem Segment.toNat_addr (hw : NoWrap s.vaddr s.memsz s.offset s.filesz) (ho : o < s.memsz.toNat) :
    (s.addr o).toNat = s.vaddr.toNat + o := by
  have hwrap := hw.segment
  unfold Segment.addr
  rw [BitVec.toNat_add, BitVec.toNat_ofNat]
  omega

/-- The page of a byte of the segment, and its place there. -/
theorem Segment.exists_page (hw : NoWrap s.vaddr s.memsz s.offset s.filesz) (ho : o < s.memsz.toNat) :
    ∃ p < s.pages, (s.job p).vpage = VPage.of (s.addr o) ∧
      p * 4096 + (s.addr o).toNat % 4096 = s.vaddr.toNat % 4096 + o := by
  have hwrap := hw.segment
  have haddr := Segment.toNat_addr hw ho
  have hpages := segmentPages_eq hwrap
  obtain ⟨p, hp, hpage, hplace⟩ := exists_segmentPage s.vaddr (v := s.addr o) (by omega) (by omega)
    (segmentPages_lt s.vaddr s.memsz)
  exact ⟨p, hp, hpage.symm, by omega⟩

/-- A place of a page that holds a byte of the file is the address of that
    byte. -/
theorem Segment.addr_of_place (hw : NoWrap s.vaddr s.memsz s.offset s.filesz) (hle : s.filesz ≤ s.memsz)
    (hpage : (s.job p).vpage = VPage.of v)
    (hfrom : s.vaddr.toNat % 4096 ≤ p * 4096 + v.toNat % 4096)
    (hto : p * 4096 + v.toNat % 4096 - s.vaddr.toNat % 4096 < s.filesz.toNat) :
    ∃ o < s.memsz.toNat, (s.addr o).toNat % 2 ^ 48 = v.toNat % 2 ^ 48 := by
  have hle' := BitVec.le_def.mp hle
  have ho : p * 4096 + v.toNat % 4096 - s.vaddr.toNat % 4096 < s.memsz.toNat := by omega
  refine ⟨_, ho, low48_eq ?_ ?_⟩
  · have haddr := Segment.toNat_addr hw ho
    obtain ⟨q, hq, hqpage, hplace⟩ := Segment.exists_page hw ho
    have hqp : q = p := by omega
    rw [← hqpage, hqp]
    exact hpage
  · have haddr := Segment.toNat_addr hw ho
    omega

end Addresses

section Image

variable {pool : Finset Nat} {m m' : Machine} {root elfData : Word} {k p o : Nat} {s : Segment}

theorem segment_job_byte {mem : Mem} (h : IsSegment mem elfData k s) (i : Nat) :
    (s.job p).byte mem elfData i = segmentByte (fileByte mem elfData s.offset) (s.vaddr.toNat % 4096)
      s.filesz.toNat (p * 4096 + i) := by
  obtain ⟨-, -, rfl⟩ := h
  rfl

theorem imageJobs_ready (himage : ImageSettled m elfData) (hseg : SegmentsApart m elfData) :
    ∀ j ∈ imageJobs m.mem elfData, j.Ready m m.currentPml4 elfData := by
  intro j hj
  obtain ⟨k, s, p, hs, hp, rfl⟩ := mem_imageJobs.mp hj
  have hwrap := hseg.noWrap k s hs
  have hfile := hseg.file k s hs
  obtain ⟨hk, -, rfl⟩ := hs
  refine ⟨hp.trans (segmentPages_lt _ _), hwrap.file, hwrap.pages p hp, fun c hc => ?_, hfile⟩
  refine (himage _ (.inr ⟨k, hk, ?_⟩)).1
  show ((segmentAt m.mem elfData k).phdr + c - (segmentAt m.mem elfData k).phdr).toNat < 48
  rw [BitVec.add_comm, BitVec.add_sub_cancel]
  exact hc

/-- **The loaded file**: a page holds what the last segment with it puts
    there. -/
theorem elfLoad_holds (hkernel : m.Wf pool (wholeTree m.currentPml4)) (himage : ImageSettled m elfData)
    (hmagic : m.mem.load32 elfData = elfMagic) (hseg : SegmentsApart m elfData)
    (hclear : ImageClear m elfData) (hfew : framesNeeded m elfData ≤ m.pmm.freeStack.length) :
    ∃ entry pml4 m', elfLoad m elfData = (some (entry, pml4), m') ∧ m'.Wf pool (wholeTree pml4) ∧
      ∀ k s p, IsSegment m.mem elfData k s → p < s.pages →
        IsLastFor m.mem elfData k (s.job p).vpage →
          m'.Holds pml4 (s.job p).vpage (segmentFlags s.flags) ((s.job p).byte m.mem elfData) := by
  have hlt := freeStack_length_lt hkernel.pmm
  cases hst : m.pmm.freeStack with
  | nil =>
    have hone : 1 ≤ framesNeeded m elfData := Nat.le_add_right 1 _
    rw [hst] at hfew
    exact absurd hfew (Nat.not_le_of_lt hone)
  | cons n rest =>
    obtain ⟨hwf, hsmall, hload⟩ := elfLoad_jobs hkernel himage hclear hmagic hst
    set m₁ := m.createdSpace n (m.entry m.currentPml4 0) with hm₁
    have hneeded : framesNeeded m elfData =
        1 + m₁.neededFrames n ((imageJobs m.mem elfData).map PageJob.vpage) := by
      rw [neededFrames_createdSpace hkernel hst]
      rfl
    have hneed : m₁.neededFrames n ((imageJobs m.mem elfData).map PageJob.vpage) ≤
        m₁.pmm.freeStack.length := by
      rw [freeStack_createdSpace hst]
      rw [hst, List.length_cons] at hfew
      omega
    have hquiet : ∀ x, m.Quiet m.currentPml4 x → m₁.mem x = m.mem x ∧ m₁.Quiet n x :=
      fun x hx => hx.createdSpace hkernel hst
    have hready := imageJobs_ready himage hseg
    refine ⟨_, n, _, hload, (loadJobs_keeps hwf hsmall).wf, fun k s p hs hp hlast => ?_⟩
    have hmem : s.job p ∈ imageJobs m.mem elfData := mem_imageJobs.mpr ⟨k, s, p, hs, hp, rfl⟩
    have hpages : s.pages < 2 ^ 36 := by
      have hle := pages_le_length hs
      have hcount : (imageJobs m.mem elfData).length ≤ framesNeeded m elfData := by
        unfold framesNeeded
        dsimp only
        rw [List.length_map]
        omega
      omega
    rw [← ((hready _ hmem).of_quiet hquiet).2]
    exact loadJobs_holds elfData hwf hsmall (fun j hj => ((hready j hj).of_quiet hquiet).1) hneed
      (lastTurn_imageJobs hs hp hpages hlast)

theorem writable_iff (n : Word) (f : BitVec 32) :
    (smallMapping n (segmentFlags f)).flags &&& pageWritable ≠ 0 ↔ f &&& 2 ≠ 0 := by
  show (segmentFlags f ||| pagePresent) &&& pageWritable ≠ 0 ↔ f &&& 2 ≠ 0
  unfold segmentFlags
  by_cases hf : f &&& 2 ≠ 0
  · rw [if_pos hf]
    exact iff_of_true (by decide) hf
  · rw [if_neg hf]
    exact iff_of_false (by decide) hf

/-- **Where a byte of a segment ends up**: it reads as prescribed if no later
    segment has its page, and as zero if one has; its page is writable if the
    last segment that has it is. -/
theorem segment_byte_holds (hseg : SegmentsApart m elfData) (hwf : m'.Wf pool (wholeTree root))
    (hholds : ∀ k s p, IsSegment m.mem elfData k s → p < s.pages →
      IsLastFor m.mem elfData k (s.job p).vpage →
        m'.Holds root (s.job p).vpage (segmentFlags s.flags) ((s.job p).byte m.mem elfData))
    (hs : IsSegment m.mem elfData k s) (ho : o < s.memsz.toNat) :
    ∃ k' s', k ≤ k' ∧ IsSegment m.mem elfData k' s' ∧ s'.Has (VPage.of (s.addr o)) ∧
      IsLastFor m.mem elfData k' (VPage.of (s.addr o)) ∧
      (∀ b, ReadsAs m' root (s.addr o) b ↔ (if k = k' then s.content m.mem elfData o else 0) = b) ∧
      ∃ x, pageLookup m' root (VPage.of (s.addr o)) = some x ∧
        (x.flags &&& pageWritable ≠ 0 ↔ s'.Writable) := by
  have hw := hseg.noWrap k s hs
  obtain ⟨q, hq, hqpage, hqplace⟩ := Segment.exists_page hw ho
  obtain ⟨k', s', hle, hs', hhas, hlast⟩ := exists_last_segment hs ⟨q, hq, hqpage⟩
  -- a page of the last segment, and the very page of the byte if that is `s`
  obtain ⟨p, hp, hpage, hsame⟩ : ∃ p < s'.pages, (s'.job p).vpage = VPage.of (s.addr o) ∧
      (k = k' → s = s' ∧ p = q) := by
    by_cases hk : k = k'
    · have hss : s = s' := by
        rw [← hs.2.2, ← hs'.2.2, hk]
      exact ⟨q, hss ▸ hq, hss ▸ hqpage, fun _ => ⟨hss, rfl⟩⟩
    · obtain ⟨p, hp, hpage⟩ := hhas
      exact ⟨p, hp, hpage, fun hk' => absurd hk' hk⟩
  obtain ⟨n, hn, hn0, hmap, hbytes⟩ := hholds k' s' p hs' hp (hpage ▸ hlast)
  rw [hpage] at hmap
  refine ⟨k', s', hle, hs', hhas, hlast, fun b => ?_, _, hmap, writable_iff n s'.flags⟩
  rw [readsAs_iff hwf hn hn0 hmap, hbytes _ (Nat.mod_lt _ (by decide)), segment_job_byte hs']
  by_cases hk : k = k'
  · obtain ⟨rfl, rfl⟩ := hsame hk
    rw [if_pos hk, hqplace]
    unfold Segment.content
    by_cases hfile : o < s.filesz.toNat
    · rw [if_pos hfile, segmentByte_file hfile]
    · rw [if_neg hfile, segmentByte_behind (by omega)]
  · -- the place belongs to `s`, so the later segment has no byte there
    rw [if_neg hk]
    have hzero : segmentByte (fileByte m.mem elfData s'.offset) (s'.vaddr.toNat % 4096) s'.filesz.toNat
        (p * 4096 + (s.addr o).toNat % 4096) = 0 := by
      unfold segmentByte
      rw [if_neg]
      intro hin
      obtain ⟨o', ho', hcommon⟩ := Segment.addr_of_place (hseg.noWrap k' s' hs')
        (hseg.filesz_le k' s' hs') hpage hin.1 hin.2
      exact hseg.apart k s k' s' hs hs' hk o ho o' ho' hcommon.symm
    rw [hzero]

/-- With room for the file, and no page of it under a 2 MiB page of the
    kernel. -/
theorem segmentsIntact_iff (hkernel : m.Wf pool (wholeTree m.currentPml4))
    (himage : ImageSettled m elfData) (hmagic : m.mem.load32 elfData = elfMagic)
    (hseg : SegmentsApart m elfData) (hclear : ImageClear m elfData)
    (hfew : framesNeeded m elfData ≤ m.pmm.freeStack.length) :
    SegmentsIntact m elfData ↔ NothingLost m.mem elfData := by
  obtain ⟨entry, pml4, m', hload, hwf, hholds⟩ :=
    elfLoad_holds hkernel himage hmagic hseg hclear hfew
  have hbyte := fun k s hs o ho => segment_byte_holds hseg hwf hholds (k := k) (s := s) (o := o) hs ho
  constructor
  · rintro ⟨entry', root, m'', hload', hintact⟩
    obtain ⟨hresult, rfl⟩ := Prod.mk.inj (hload.symm.trans hload')
    obtain ⟨-, rfl⟩ := Prod.mk.inj (Option.some.inj hresult)
    constructor
    · -- the last segment on the page decides its bytes and its permission
      intro k s k' s' hs hs' hlt o ho hhas
      have hle := BitVec.le_def.mp (hseg.filesz_le k s hs)
      obtain ⟨l, t, hkl, ht, -, hlast, hreads, -⟩ := hbyte k s hs o (by omega)
      have hk'l : k' ≤ l := Nat.le_of_not_lt fun h => hlast k' s' hs' h hhas
      have hcontent := (hreads _).mp (hintact k s hs o (by omega)).1
      rw [if_neg (by omega)] at hcontent
      unfold Segment.content at hcontent
      rw [if_pos ho] at hcontent
      exact hcontent.symm
    · intro k s k' s' hs hs' hlt hwrite o ho hhas hlast'
      obtain ⟨l, t, hkl, ht, hthas, hlast, -, x, hx, hiff⟩ := hbyte k s hs o ho
      have hl : l = k' := by
        apply Nat.le_antisymm
        · exact Nat.le_of_not_lt fun h => hlast' l t ht h hthas
        · exact Nat.le_of_not_lt fun h => hlast k' s' hs' h hhas
      have hts : t = s' := by
        rw [← ht.2.2, ← hs'.2.2, hl]
      obtain ⟨y, hy, hyw⟩ := (hintact k s hs o ho).2 hwrite
      rw [hx] at hy
      cases hy
      exact hts ▸ hiff.mp hyw
  · intro hlost
    refine ⟨entry, pml4, m', hload, fun k s hs o ho => ?_⟩
    obtain ⟨l, t, hkl, ht, hthas, hlast, hreads, x, hx, hiff⟩ := hbyte k s hs o ho
    constructor
    · rw [hreads]
      by_cases hk : k = l
      · rw [if_pos hk]
      · rw [if_neg hk]
        unfold Segment.content
        by_cases hfile : o < s.filesz.toNat
        · rw [if_pos hfile]
          exact (hlost.bytes k s l t hs ht (by omega) o hfile hthas).symm
        · rw [if_neg hfile]
    · intro hwrite
      refine ⟨x, hx, hiff.mpr ?_⟩
      by_cases hk : k = l
      · have hst : s = t := by
          rw [← hs.2.2, ← ht.2.2, hk]
        exact hst ▸ hwrite
      · exact hlost.writable k s l t hs ht (by omega) hwrite o ho hthas hlast

/-- **Segments that share a page.**  Take any file with the right magic number
    whose segments are apart and whose headers are settled.  If no page of it
    lies under a 2 MiB page of the kernel, the frames suffice, and a later
    segment takes nothing away from an earlier one, then the segments are
    intact.  Of the files without such a page for which the frames suffice,
    they are intact for no others. -/
theorem elf_segments_iff (hkernel : m.Wf pool (wholeTree m.currentPml4))
    (himage : ImageSettled m elfData) (hmagic : m.mem.load32 elfData = elfMagic)
    (hseg : SegmentsApart m elfData) :
    (ImageClear m elfData ∧ framesNeeded m elfData ≤ m.pmm.freeStack.length ∧
        NothingLost m.mem elfData → SegmentsIntact m elfData) ∧
      (ImageClear m elfData → framesNeeded m elfData ≤ m.pmm.freeStack.length →
        (SegmentsIntact m elfData ↔ NothingLost m.mem elfData)) := by
  have hiff := segmentsIntact_iff hkernel himage hmagic hseg
  refine ⟨fun hcond => ?_, hiff⟩
  obtain ⟨hclear, hfew, hlost⟩ := hcond
  exact (hiff hclear hfew).mpr hlost

end Image

/-! ## §5. Two segments. -/

/-- The bytes that are not zero of a file with two segments of five bytes, three
    of them in the file.  The first is writable and starts at PML4 slot 1; the
    second is read-only and starts 256 times `b` behind it. -/
def pairFile (b : BitVec 8) : List (Nat × BitVec 8) :=
  [(0, 0x7F), (1, 0x45), (2, 0x4C), (3, 0x46), (32, 64), (54, 56), (56, 2),
    (64, 1), (68, 6), (84, 0x80), (96, 3), (104, 5),
    (120, 1), (124, 4), (137, b), (140, 0x80), (152, 3), (160, 5)]

/-- Sixteen free frames, an empty PML4 at 0x1000, and the file at 1.5 MiB. -/
def pairMachine (b : BitVec 8) : Machine :=
  { pmm := smallPmm 16
    mem := fun a =>
      if 176 ≤ (a - 0x180000).toNat then 0
      else ((pairFile b).lookup (a - 0x180000).toNat).getD 0
    currentPml4 := 0x1000
    stores := [] }

/-- Its segments. -/
def firstSegment : Segment := ⟨0x180040, 6, 0, 0x8000000000, 3, 5⟩

def secondSegment (b : BitVec 8) : Segment :=
  ⟨0x180078, 4, 0, 0x8000000000 + (b.setWidth 64 <<< 8), 3, 5⟩

theorem pairMachine_small (b : BitVec 8) : SmallMachine 16 (pairMachine b) := by
  refine ⟨by simp only [pairMachine], by decide, fun x hx => if_pos ?_⟩
  unfold InPage at hx
  bv_omega

/-- What the headers say, for a second segment in the page of the first one or
    in the next. -/
theorem pairMachine_headers {b : BitVec 8} (hb : b = 0x08 ∨ b = 0x10) :
    (pairMachine b).mem.load32 0x180000 = elfMagic ∧
      (headerPhnum (pairMachine b).mem 0x180000).toNat = 2 ∧
      segmentAt (pairMachine b).mem 0x180000 0 = ⟨0x180040, 6, 0, 0x8000000000, 3, 5⟩ ∧
      segmentAt (pairMachine b).mem 0x180000 1 = secondSegment b ∧
      phdrType (pairMachine b).mem 0x180040 = ptLoad ∧ phdrType (pairMachine b).mem 0x180078 = ptLoad := by
  rcases hb with rfl | rfl
  · exact ⟨by decide, by decide, by decide, by decide, by decide, by decide⟩
  · exact ⟨by decide, by decide, by decide, by decide, by decide, by decide⟩

section Pair

variable {b : BitVec 8} {k : Nat} {s : Segment}

theorem pairMachine_segments (hb : b = 0x08 ∨ b = 0x10) :
    IsSegment (pairMachine b).mem 0x180000 k s ↔ k = 0 ∧ s = firstSegment ∨ k = 1 ∧ s = secondSegment b := by
  obtain ⟨-, hphnum, hfirst, hsecond, hload, hload'⟩ := pairMachine_headers hb
  have hphdr : phdrAddr (pairMachine b).mem 0x180000 0 = 0x180040 := congrArg Segment.phdr hfirst
  have hphdr' : phdrAddr (pairMachine b).mem 0x180000 1 = 0x180078 := congrArg Segment.phdr hsecond
  unfold IsSegment
  rw [hphnum]
  constructor
  · intro hs
    obtain ⟨hk, -, rfl⟩ := hs
    obtain rfl | rfl : k = 0 ∨ k = 1 := by omega
    · exact .inl ⟨rfl, hfirst⟩
    · exact .inr ⟨rfl, hsecond⟩
  · intro hs
    rcases hs with ⟨rfl, rfl⟩ | ⟨rfl, rfl⟩
    · rw [hphdr]
      exact ⟨by decide, hload, hfirst⟩
    · rw [hphdr']
      exact ⟨by decide, hload', hsecond⟩

theorem pairMachine_settled (hb : b = 0x08 ∨ b = 0x10) : ImageSettled (pairMachine b) 0x180000 := by
  obtain ⟨-, hphnum, hfirst, hsecond, -, -⟩ := pairMachine_headers hb
  have hphdr : phdrAddr (pairMachine b).mem 0x180000 0 = 0x180040 := congrArg Segment.phdr hfirst
  have hphdr' : phdrAddr (pairMachine b).mem 0x180000 1 = 0x180078 := congrArg Segment.phdr hsecond
  intro x hx
  have hrange : 0x180000 ≤ x.toNat ∧ x.toNat < 0x181000 := by
    rcases hx with hheader | ⟨i, hi, hbyte⟩
    · bv_omega
    · rw [hphnum] at hi
      obtain rfl | rfl : i = 0 ∨ i = 1 := by omega
      · rw [hphdr] at hbyte
        bv_omega
      · rw [hphdr'] at hbyte
        bv_omega
  refine ⟨(pairMachine_small b).quiet hrange.1 hrange.2, fun h0 => ?_⟩
  unfold InPage at h0
  bv_omega

/-- Both segments have one page. -/
theorem pair_pages (hb : b = 0x08 ∨ b = 0x10) :
    firstSegment.pages = 1 ∧ (secondSegment b).pages = 1 ∧
      VPage.of (segmentPage (secondSegment b).vaddr 0) =
        ⟨1, 0, 0, if b = 0x08 then 0 else 1⟩ := by
  rcases hb with rfl | rfl
  · exact ⟨by decide, by decide, by decide⟩
  · exact ⟨by decide, by decide, by decide⟩

theorem pairMachine_apart (hb : b = 0x08 ∨ b = 0x10) : SegmentsApart (pairMachine b) 0x180000 := by
  have hwrap : NoWrap firstSegment.vaddr firstSegment.memsz firstSegment.offset firstSegment.filesz :=
    ⟨by decide, by decide, by decide⟩
  have hwrap' : NoWrap (secondSegment b).vaddr (secondSegment b).memsz (secondSegment b).offset
      (secondSegment b).filesz := by
    rcases hb with rfl | rfl
    · exact ⟨by decide, by decide, by decide⟩
    · exact ⟨by decide, by decide, by decide⟩
  -- five bytes each, 256 times `b` apart
  have hbytes : ∀ o < 5, ∀ o' < 5,
      (firstSegment.addr o).toNat % 2 ^ 48 ≠ ((secondSegment b).addr o').toNat % 2 ^ 48 := by
    rcases hb with rfl | rfl
    · decide
    · decide
  constructor
  · intro k s k' s' hs hs' hne o ho o' ho'
    rcases (pairMachine_segments hb).mp hs with ⟨rfl, rfl⟩ | ⟨rfl, rfl⟩
    · rcases (pairMachine_segments hb).mp hs' with ⟨rfl, rfl⟩ | ⟨rfl, rfl⟩
      · exact absurd rfl hne
      · exact hbytes o ho o' ho'
    · rcases (pairMachine_segments hb).mp hs' with ⟨rfl, rfl⟩ | ⟨rfl, rfl⟩
      · exact (hbytes o' ho' o ho).symm
      · exact absurd rfl hne
  · intro k s hs
    rcases (pairMachine_segments hb).mp hs with ⟨rfl, rfl⟩ | ⟨rfl, rfl⟩
    · decide
    · show (3 : Word) ≤ 5
      decide
  · intro k s hs
    rcases (pairMachine_segments hb).mp hs with ⟨rfl, rfl⟩ | ⟨rfl, rfl⟩
    · exact hwrap
    · exact hwrap'
  · intro k s hs j hj
    -- both take their bytes from the start of the file
    have hstart : s.offset = 0 ∧ s.filesz = 3 := by
      rcases (pairMachine_segments hb).mp hs with ⟨rfl, rfl⟩ | ⟨rfl, rfl⟩
      · exact ⟨rfl, rfl⟩
      · exact ⟨rfl, rfl⟩
    rw [hstart.2] at hj
    have hj3 : j < 3 := hj
    have hjn : (BitVec.ofNat 64 j : Word).toNat = j := by
      rw [BitVec.toNat_ofNat]
      omega
    rw [hstart.1]
    exact (pairMachine_small b).quiet (by bv_omega) (by bv_omega)

theorem pairMachine_jobs (hb : b = 0x08 ∨ b = 0x10) :
    imageJobs (pairMachine b).mem 0x180000 = [firstSegment.job 0, (secondSegment b).job 0] := by
  rcases hb with rfl | rfl
  · decide
  · decide

theorem pairMachine_clear (hb : b = 0x08 ∨ b = 0x10) : ImageClear (pairMachine b) 0x180000 := by
  intro j hj hslot
  rw [pairMachine_jobs hb] at hj
  have hone : j.vpage.pml4 = 1 := by
    rcases List.mem_cons.mp hj with rfl | hj
    · decide
    · rw [List.mem_singleton.mp hj]
      show (VPage.of (segmentPage (secondSegment b).vaddr 0)).pml4 = 1
      rw [(pair_pages hb).2.2]
  rw [hone] at hslot
  exact absurd hslot (by decide)

/-- Two pages and at most six tables, with the PML4. -/
theorem pairMachine_frames (hb : b = 0x08 ∨ b = 0x10) :
    framesNeeded (pairMachine b) 0x180000 ≤ (pairMachine b).pmm.freeStack.length := by
  have hlen : (pairMachine b).pmm.freeStack.length = 16 := by
    rw [(pairMachine_small b).frames, freeStack_smallPmm]
    rfl
  rw [hlen]
  unfold framesNeeded
  rw [pairMachine_jobs hb]
  have hcard := (Finset.card_filter_le
    (([firstSegment.job 0, (secondSegment b).job 0].map PageJob.vpage).flatMap VPage.tablePaths).toFinset
    fun q => ¬ (pairMachine b).Lent q).trans (List.toFinset_card_le _)
  have hpaths : (([firstSegment.job 0, (secondSegment b).job 0].map PageJob.vpage).flatMap
    VPage.tablePaths).length = 6 := rfl
  have htwo : ([firstSegment.job 0, (secondSegment b).job 0].map PageJob.vpage).length = 2 := rfl
  rw [hpaths] at hcard
  dsimp only
  rw [htwo]
  omega

/-- Segments in two pages are intact. -/
theorem elf_segments_apart : SegmentsIntact (pairMachine 0x10) 0x180000 := by
  have hb : (0x10 : BitVec 8) = 0x08 ∨ (0x10 : BitVec 8) = 0x10 := .inr rfl
  obtain ⟨hmagic, -⟩ := pairMachine_headers hb
  -- no byte of the first segment is in the page of the second
  have hpage : ∀ o < 5, VPage.of (firstSegment.addr o) ≠ ⟨1, 0, 0, 1⟩ := by decide
  have hout : ∀ o < 5, ¬ (secondSegment 0x10).Has (VPage.of (firstSegment.addr o)) := by
    intro o ho hhas
    obtain ⟨p, hp, hvp⟩ := hhas
    rw [(pair_pages hb).2.1, Nat.lt_one_iff] at hp
    rw [hp] at hvp
    exact hpage o ho (hvp.symm.trans (pair_pages hb).2.2)
  have hlost : NothingLost (pairMachine 0x10).mem 0x180000 := by
    constructor
    · intro k s k' s' hs hs' hlt o ho hhas
      rcases (pairMachine_segments hb).mp hs with ⟨rfl, rfl⟩ | ⟨rfl, rfl⟩
      · rcases (pairMachine_segments hb).mp hs' with ⟨rfl, rfl⟩ | ⟨rfl, rfl⟩
        · exact absurd hlt (Nat.lt_irrefl 0)
        · have ho3 : o < 3 := ho
          exact absurd hhas (hout o (by omega))
      · rcases (pairMachine_segments hb).mp hs' with ⟨rfl, -⟩ | ⟨rfl, -⟩ <;> omega
    · intro k s k' s' hs hs' hlt hwrite o ho hhas hlast
      rcases (pairMachine_segments hb).mp hs with ⟨rfl, rfl⟩ | ⟨rfl, rfl⟩
      · rcases (pairMachine_segments hb).mp hs' with ⟨rfl, rfl⟩ | ⟨rfl, rfl⟩
        · exact absurd hlt (Nat.lt_irrefl 0)
        · exact absurd hhas (hout o ho)
      · rcases (pairMachine_segments hb).mp hs' with ⟨rfl, -⟩ | ⟨rfl, -⟩ <;> omega
  exact (elf_segments_iff (pairMachine_small 0x10).wf (pairMachine_settled hb) hmagic
    (pairMachine_apart hb)).1 ⟨pairMachine_clear hb, pairMachine_frames hb, hlost⟩

/-- **Segments in one page are not**: the bytes of the first one are gone. -/
theorem shared_page_not_intact : ¬ SegmentsIntact (pairMachine 0x08) 0x180000 := by
  have hb : (0x08 : BitVec 8) = 0x08 ∨ (0x08 : BitVec 8) = 0x10 := .inl rfl
  obtain ⟨hmagic, -⟩ := pairMachine_headers hb
  rw [segmentsIntact_iff (pairMachine_small 0x08).wf (pairMachine_settled hb) hmagic
    (pairMachine_apart hb) (pairMachine_clear hb) (pairMachine_frames hb)]
  intro hlost
  have hhas : (secondSegment 0x08).Has (VPage.of (firstSegment.addr 0)) := by
    refine ⟨0, ?_, ?_⟩
    · rw [(pair_pages hb).2.1]
      exact Nat.zero_lt_one
    · exact (pair_pages hb).2.2
  have hzero := hlost.bytes 0 firstSegment 1 (secondSegment 0x08)
    ((pairMachine_segments hb).mpr (.inl ⟨rfl, rfl⟩)) ((pairMachine_segments hb).mpr (.inr ⟨rfl, rfl⟩))
    Nat.zero_lt_one 0 (by decide) hhas
  revert hzero
  decide

end Pair

end ZohoOs
