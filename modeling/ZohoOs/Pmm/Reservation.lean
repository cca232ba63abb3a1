/-
  ZohoOs.Pmm.Reservation — which bytes of the machine `pmm_init` gives away.

  A free frame should lie inside the available regions and share no byte with
  the kernel image or with the information block.  The page loops of
  `pmm_init` start at byte addresses that need not be page-aligned, so they
  can miss at the two ends of a range: the first and the last frame of a
  region may stick out of it, and the walk over the information block stops
  one frame early when the block straddles one page boundary more than its
  length needs.  `pmmInit_clean_iff` shows that these boundary frames are the
  only ones that can go wrong.
-/
import ZohoOs.Pmm.Multiboot
import ZohoOs.Pmm.Ledger

namespace ZohoOs

open ZohoOs.Lib

/-! ## §1. Bytes of frames, regions and blocks. -/

/-- The byte address `x` lies in frame `f`. -/
def InFrame (f x : Nat) : Prop := 4096 * f ≤ x ∧ x < 4096 * f + 4096

/-- The byte address `x` lies in one of the regions. -/
def InRegions (regions : List (Word × Word)) (x : Nat) : Prop :=
  ∃ r ∈ regions, r.1.toNat ≤ x ∧ x < r.1.toNat + r.2.toNat

/-- Frame `f` is entirely available memory. -/
def FrameAvailable (regions : List (Word × Word)) (f : Nat) : Prop :=
  ∀ x, InFrame f x → InRegions regions x

/-- What a frame on the free stack should be: available memory that shares no
    byte with the kernel image or the information block. -/
structure FrameClean (regions : List (Word × Word)) (kernelEnd mbInfo mbiEnd : Word) (f : Nat) :
    Prop where
  available : FrameAvailable regions f
  kernel : ∀ x, InFrame f x → ¬ x < kernelEnd.toNat
  info : ∀ x, InFrame f x → ¬ (mbInfo.toNat ≤ x ∧ x < mbiEnd.toNat)

/-- The boundary frames are clean: the frames with the first and with the last
    byte of each region, if free, are available memory, and the frame with the
    last byte of the information block is not free. -/
structure BoundaryClean (regions : List (Word × Word)) (kernelEnd mbInfo mbiEnd : Word) :
    Prop where
  first : ∀ r ∈ regions, FrameFree regions kernelEnd mbInfo mbiEnd (r.1.toNat / 4096) →
    FrameAvailable regions (r.1.toNat / 4096)
  last : ∀ r ∈ regions,
    FrameFree regions kernelEnd mbInfo mbiEnd ((r.1.toNat + r.2.toNat - 1) / 4096) →
    FrameAvailable regions ((r.1.toNat + r.2.toNat - 1) / 4096)
  infoLast : ¬ FrameFree regions kernelEnd mbInfo mbiEnd ((mbiEnd.toNat - 1) / 4096)

/-! ## §2. Only boundary frames can be unclean. -/

section Boundary

variable {regions : List (Word × Word)} {kernelEnd mbInfo mbiEnd : Word} {f : Nat}

/-- A walk that lands anywhere does not wrap: the region ends where it says. -/
theorem PageWalk.toNat_add {addr len : Word} (h : PageWalk addr (addr + len) f) :
    (addr + len).toNat = addr.toNat + len.toNat := by
  obtain ⟨hle, hlt⟩ := h
  have hl := len.isLt
  have ha := addr.isLt
  rw [BitVec.toNat_add] at hlt ⊢
  by_contra hne
  have hwrap : 2 ^ 64 ≤ addr.toNat + len.toNat := by
    by_contra hsmall
    exact hne (Nat.mod_eq_of_lt (by omega))
  omega

/-- A walked frame that is neither the region's first nor its last lies inside
    the region. -/
theorem frameAvailable_of_interior {r : Word × Word} (hr : r ∈ regions)
    (hw : PageWalk r.1 (r.1 + r.2) f) (hfirst : f ≠ r.1.toNat / 4096)
    (hlast : f ≠ (r.1.toNat + r.2.toNat - 1) / 4096) : FrameAvailable regions f := by
  have hend := hw.toNat_add
  obtain ⟨hle, hlt⟩ := hw
  rw [hend] at hlt
  intro x hx
  unfold InFrame at hx
  exact ⟨r, hr, by omega, by omega⟩

/-- No free frame shares a byte with the kernel image. -/
theorem FrameFree.kernel_clean (h : FrameFree regions kernelEnd mbInfo mbiEnd f) {x : Nat}
    (hx : InFrame f x) : ¬ x < kernelEnd.toNat := by
  intro hlt
  unfold InFrame at hx
  exact h.2.1 ⟨by simp, by simp; omega⟩

/-- A free frame that shares a byte with the information block is the frame of
    the block's last byte. -/
theorem FrameFree.eq_last_of_info (h : FrameFree regions kernelEnd mbInfo mbiEnd f) {x : Nat}
    (hx : InFrame f x) (hin : mbInfo.toNat ≤ x ∧ x < mbiEnd.toNat) :
    f = (mbiEnd.toNat - 1) / 4096 := by
  have hnw := h.2.2
  unfold PageWalk at hnw
  unfold InFrame at hx
  omega

/-- Every free frame is clean exactly when the boundary frames are. -/
theorem frameClean_iff_boundary (hblock : mbInfo.toNat < mbiEnd.toNat) :
    (∀ f, FrameFree regions kernelEnd mbInfo mbiEnd f →
      FrameClean regions kernelEnd mbInfo mbiEnd f) ↔
    BoundaryClean regions kernelEnd mbInfo mbiEnd := by
  constructor
  · intro h
    refine ⟨fun r _ hf => (h _ hf).available, fun r _ hf => (h _ hf).available, fun hf => ?_⟩
    -- the last byte of the block lies in its own frame
    exact (h _ hf).info (mbiEnd.toNat - 1) ⟨by omega, by omega⟩ ⟨by omega, by omega⟩
  · intro h f hf
    obtain ⟨-, r, hr, hw⟩ := hf.1
    refine ⟨?_, fun x hx => hf.kernel_clean hx, fun x hx hin => ?_⟩
    · by_cases hfirst : f = r.1.toNat / 4096
      · subst hfirst; exact h.first r hr hf
      · by_cases hlast : f = (r.1.toNat + r.2.toNat - 1) / 4096
        · subst hlast; exact h.last r hr hf
        · exact frameAvailable_of_interior hr hw hfirst hlast
    · rw [hf.eq_last_of_info hx hin] at hf
      exact h.infoLast hf

end Boundary

/-! ## §3. The boot reservation. -/

/-- The frames on the free stack of a well-formed block. -/
theorem mem_freeStack_iff {fuel : Nat} {mem : Mem} {mbInfo kernelEnd : Word} {tags : List MbTag}
    {p : Pmm} (hmbi : MbiAt mem mbInfo tags) (h : pmmInit fuel mem mbInfo kernelEnd = some p)
    (P : Nat → Prop) :
    (∀ a ∈ p.freeStack, P (frameOf a)) ↔
      ∀ f, FrameFree (availableRegions tags) kernelEnd mbInfo (mbiEndOf mbInfo tags) f → P f := by
  obtain ⟨-, hbits⟩ := pmmInit_freeStack hmbi h
  have hinv := pmmInit_inv h
  constructor
  · intro hall f hf
    have hlt : f < maxFrames := hf.1.1
    have hon := (hinv.onStack_iff f hlt).mpr ((hbits f).mpr hf)
    have := hall _ hon
    rwa [frameOf_frameAddr hlt] at this
  · intro hall a ha
    exact hall _ ((hbits _).mp (hinv.bitmap_of_mem ha))

/-- **The boot reservation, exactly.**  For every well-formed block on which
    `pmm_init` returns, every frame it leaves on the free stack is available
    memory clear of the kernel image and the information block if and only if
    the boundary frames are. -/
theorem pmmInit_clean_iff {fuel : Nat} {mem : Mem} {mbInfo kernelEnd : Word} {tags : List MbTag}
    {p : Pmm} (hmbi : MbiAt mem mbInfo tags) (h : pmmInit fuel mem mbInfo kernelEnd = some p) :
    (∀ a ∈ p.freeStack,
      FrameClean (availableRegions tags) kernelEnd mbInfo (mbiEndOf mbInfo tags) (frameOf a)) ↔
    BoundaryClean (availableRegions tags) kernelEnd mbInfo (mbiEndOf mbInfo tags) := by
  rw [mem_freeStack_iff hmbi h]
  refine frameClean_iff_boundary ?_
  rw [hmbi.toNat_mbiEnd]
  omega

/-- A block that lies inside one page, and one region with page-aligned ends. -/
theorem pmmInit_clean_iff_aligned :
    ∃ fuel p, pmmInit fuel (oneRegionBlock 0x10000 0x200000 0x4000) 0x10000 0x180000 = some p ∧
      ((∀ a ∈ p.freeStack,
        FrameClean (availableRegions (oneRegionTags 0x200000 0x4000)) 0x180000 0x10000
          (mbiEndOf 0x10000 (oneRegionTags 0x200000 0x4000)) (frameOf a)) ↔
      BoundaryClean (availableRegions (oneRegionTags 0x200000 0x4000)) 0x180000 0x10000
        (mbiEndOf 0x10000 (oneRegionTags 0x200000 0x4000))) := by
  have hmbi := oneRegionBlock_at 0x10000 0x200000 0x4000 (by decide) (by decide)
  obtain ⟨N, hN⟩ := pmmInit_returns 0x180000 hmbi (by decide)
    (oneRegionTags_below (by decide))
  obtain ⟨p, hp⟩ := hN N (Nat.le_refl N)
  exact ⟨N, p, hp, pmmInit_clean_iff hmbi hp⟩

/-- An information block at `0x200FF0`, 56 bytes long, in the middle of a
    page-aligned region: its last bytes lie in frame `0x201`, which the
    reservation walk does not reach. -/
theorem pmmInit_gives_away_info_block :
    MbiAt (oneRegionBlock 0x200FF0 0x100000 0x300000) 0x200FF0 (oneRegionTags 0x100000 0x300000) ∧
    (∃ fuel p, pmmInit fuel (oneRegionBlock 0x200FF0 0x100000 0x300000) 0x200FF0 0x180000
        = some p) ∧
    ¬ ∀ fuel p, pmmInit fuel (oneRegionBlock 0x200FF0 0x100000 0x300000) 0x200FF0 0x180000
        = some p → ∀ a ∈ p.freeStack,
          FrameClean (availableRegions (oneRegionTags 0x100000 0x300000)) 0x180000 0x200FF0
            (mbiEndOf 0x200FF0 (oneRegionTags 0x100000 0x300000)) (frameOf a) := by
  have hmbi := oneRegionBlock_at 0x200FF0 0x100000 0x300000 (by decide) (by decide)
  obtain ⟨N, hN⟩ := pmmInit_returns 0x180000 hmbi (by decide)
    (oneRegionTags_below (by decide))
  obtain ⟨p, hp⟩ := hN N (Nat.le_refl N)
  have hend : mbiEndOf 0x200FF0 (oneRegionTags 0x100000 0x300000) = 0x201028 := by
    rw [mbiEndOf, tagsLength_oneRegionTags]
    rfl
  refine ⟨hmbi, ⟨N, p, hp⟩, fun hall => ?_⟩
  have hclean := (mem_freeStack_iff hmbi hp _).mp (hall N p hp) 0x201
  rw [availableRegions_oneRegionTags, hend] at hclean
  exact (hclean (by decide)).info 0x201000 (by unfold InFrame; decide) (by decide)

end ZohoOs
