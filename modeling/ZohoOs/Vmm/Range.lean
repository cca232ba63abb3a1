/-
  ZohoOs.Vmm.Range — mapping a range of pages.

  `vmm_map_range` maps the head and the tail of a range by 4 KiB pages and the
  body by 2 MiB pages wherever both addresses are aligned.  The invariant of
  its loop is about the part `[virt, virt + n)` already done: every page of it
  goes to its own frame, and no page outside it has changed (`RangeInv`).  The
  loop that maps every page by its own `vmm_map` keeps the same invariant, so
  the two agree on every page.
-/
import ZohoOs.Vmm.PageMap

namespace ZohoOs

open ZohoOs.Lib
open ZohoOs.Lib.Mem (Aligned)
open ZohoOs.Lib.Radix

/-! ## §1. Ranges of addresses. -/

/-- `n` bytes from `virt` on, all in one canonical half. -/
def CanonicalRange (virt : Word) (n : Nat) : Prop :=
  virt.toNat + n ≤ 2 ^ 47 ∨ 2 ^ 64 - 2 ^ 47 ≤ virt.toNat ∧ virt.toNat + n ≤ 2 ^ 64

instance (virt : Word) (n : Nat) : Decidable (CanonicalRange virt n) :=
  inferInstanceAs (Decidable (_ ∨ _))

/-- `v` is one of the `n` bytes from `virt` on. -/
def InRange (virt : Word) (n : Nat) (v : Word) : Prop :=
  virt.toNat ≤ v.toNat ∧ v.toNat < virt.toNat + n

instance (virt : Word) (n : Nat) (v : Word) : Decidable (InRange virt n v) :=
  inferInstanceAs (Decidable (_ ∧ _))

/-- A size rounded up to whole pages. -/
def pageCeil (n : Nat) : Nat := (n + 4095) / 4096 * 4096

section Ranges

variable {virt v : Word} {n k o : Nat}

theorem CanonicalRange.mono (h : CanonicalRange virt n) (hk : k ≤ n) : CanonicalRange virt k := by
  unfold CanonicalRange at h ⊢
  omega

/-- The whole pages of a range lie in its canonical half too. -/
theorem CanonicalRange.ceil (hv : Aligned virt) (h : CanonicalRange virt n) :
    CanonicalRange virt (pageCeil n) := by
  have hv' : virt.toNat % 4096 = 0 := hv
  unfold CanonicalRange pageCeil at *
  omega

theorem toNat_add_of_range (h : CanonicalRange virt n) (ho : o < n) :
    (virt + BitVec.ofNat 64 o).toNat = virt.toNat + o := by
  unfold CanonicalRange at h
  rw [BitVec.toNat_add, BitVec.toNat_ofNat]
  omega

theorem InRange.canonical (h : CanonicalRange virt n) (hv : InRange virt n v) : Canonical v := by
  unfold CanonicalRange at h
  unfold InRange at hv
  unfold Canonical
  omega

theorem inRange_add (h : CanonicalRange virt n) (ho : o < n) :
    InRange virt n (virt + BitVec.ofNat 64 o) := by
  have := toNat_add_of_range h ho
  unfold InRange
  omega

end Ranges

/-! ## §2. One step. -/

/-- What the first `n` bytes of a range being mapped look like in `m`, where
    the loop started in `m₀`. -/
structure RangeInv (pool : Finset Nat) (root virt phys : Word) (m₀ : Machine) (n : Nat)
    (m : Machine) : Prop where
  wf : m.Wf pool (wholeTree root)
  outside : ∀ v, Canonical v → ¬ InRange virt n v →
    pageLookup m root (VPage.of v) = pageLookup m₀ root (VPage.of v)
  failures : m₀.pmm.allocFailures ≤ m.pmm.allocFailures
  /-- Unless an allocation failed, each page has its frame. -/
  inside : m.pmm.allocFailures = m₀.pmm.allocFailures → ∀ v, InRange virt n v →
    ∃ x, pageLookup m root (VPage.of v) = some x ∧
      x.phys.toNat = phys.toNat + (v.toNat / 4096 * 4096 - virt.toNat)
  /-- A step takes three frames at most. -/
  frames : m₀.pmm.freeStack.length ≤ m.pmm.freeStack.length + 3 * (n / 4096)
  enough : 3 * (n / 4096) ≤ m₀.pmm.freeStack.length → m.pmm.allocFailures = m₀.pmm.allocFailures

/-- `vmm_map` takes three frames at most. -/
theorem vmmMap_frames (m : Machine) (root virt phys flags : Word) :
    m.pmm.freeStack.length ≤ (vmmMap m root virt phys flags).pmm.freeStack.length + 3 := by
  have h₁ := (ensureNextTable_frames m root (pml4Index virt)).1
  unfold vmmMap
  generalize ensureNextTable m root (pml4Index virt) = x₁ at h₁
  obtain ⟨pdpt, m₁⟩ := x₁
  simp only at h₁ ⊢
  split
  · omega
  have h₂ := (ensureNextTable_frames m₁ pdpt (pdptIndex virt)).1
  generalize ensureNextTable m₁ pdpt (pdptIndex virt) = x₂ at h₂
  obtain ⟨pd, m₂⟩ := x₂
  simp only at h₂ ⊢
  split
  · omega
  split
  · simp only [Machine.pmm_setEntry]
    omega
  have h₃ := (ensureNextTable_frames m₂ pd (pdIndex virt)).1
  generalize ensureNextTable m₂ pd (pdIndex virt) = x₃ at h₃
  obtain ⟨pt, m₃⟩ := x₃
  simp only at h₃ ⊢
  split
  · omega
  · simp only [Machine.pmm_setEntry]
    omega

section Step

variable {pool : Finset Nat} {root virt phys flags : Word} {m₀ m : Machine} {n : Nat}

theorem RangeInv.start (h : m₀.Wf pool (wholeTree root)) :
    RangeInv pool root virt phys m₀ 0 m₀ := by
  refine ⟨h, fun _ _ _ => rfl, Nat.le_refl _, fun _ v hv => ?_, Nat.le_add_right _ _, fun _ => rfl⟩
  unfold InRange at hv
  omega

/-- **A step extends the part done** when it maps the `k` bytes after it, each
    page to its frame, and changes no other page. -/
theorem RangeInv.extend (h : RangeInv pool root virt phys m₀ n m) {k : Nat} {a p f : Word}
    (hn : n % 4096 = 0) (hk : 4096 ≤ k)
    (hwf : (vmmMap m root a p f).Wf pool (wholeTree root))
    (hcases : ((vmmMap m root a p f).pmm.allocFailures = m.pmm.allocFailures ∧
        (∀ v, Canonical v → InRange virt (n + k) v → ¬ InRange virt n v →
          ∃ x, pageLookup (vmmMap m root a p f) root (VPage.of v) = some x ∧
            x.phys.toNat = phys.toNat + (v.toNat / 4096 * 4096 - virt.toNat)) ∧
        ∀ v, Canonical v → ¬ (InRange virt (n + k) v ∧ ¬ InRange virt n v) →
          pageLookup (vmmMap m root a p f) root (VPage.of v) = pageLookup m root (VPage.of v)) ∨
      ((vmmMap m root a p f).pmm.allocFailures = m.pmm.allocFailures + 1 ∧
        ∀ v, pageLookup (vmmMap m root a p f) root (VPage.of v) = pageLookup m root (VPage.of v)))
    (hrange : CanonicalRange virt (n + k)) :
    RangeInv pool root virt phys m₀ (n + k) (vmmMap m root a p f) := by
  have hframes := vmmMap_frames m root a p f
  have hold := h.frames
  have hle := h.failures
  have hdiv : n / 4096 + 1 ≤ (n + k) / 4096 := by omega
  have hsub : ∀ v, InRange virt n v → InRange virt (n + k) v := by
    intro v hv
    unfold InRange at hv ⊢
    omega
  refine ⟨hwf, ?_, ?_, ?_, by omega, ?_⟩
  · intro v hv hout
    have hout' : ¬ InRange virt n v := fun hin => hout (hsub v hin)
    rw [← h.outside v hv hout']
    rcases hcases with ⟨-, -, hkeep⟩ | ⟨-, hkeep⟩
    · exact hkeep v hv fun hin => hout hin.1
    · exact hkeep v
  · rcases hcases with ⟨hsame, -, -⟩ | ⟨hsucc, -⟩ <;> omega
  · intro hfail v hv
    have hcanon := hv.canonical hrange
    rcases hcases with ⟨hsame, hnew, hkeep⟩ | ⟨hsucc, -⟩
    · by_cases hin : InRange virt n v
      · rw [hkeep v hcanon fun hc => hc.2 hin]
        exact h.inside (by omega) v hin
      · exact hnew v hcanon hv hin
    · omega
  · intro henough
    have hfree : 3 ≤ m.pmm.freeStack.length := by omega
    rw [vmmMap_allocFailures hfree]
    exact h.enough (by omega)

/-- The page after the part done. -/
theorem page_after_iff {v : Word} (hv : Aligned virt) (hn : n % 4096 = 0)
    (hrange : CanonicalRange virt (n + 4096)) (hcanon : Canonical v) :
    VPage.of v = VPage.of (virt + BitVec.ofNat 64 n) ↔
      InRange virt (n + 4096) v ∧ ¬ InRange virt n v := by
  have hv' : virt.toNat % 4096 = 0 := hv
  have ha := toNat_add_of_range hrange (show n < n + 4096 by omega)
  have hac := (inRange_add hrange (show n < n + 4096 by omega)).canonical hrange
  rw [VPage.page_eq_iff hcanon hac, ha]
  unfold InRange
  omega

/-- The 2 MiB region after the part done. -/
theorem region_after_iff {v : Word} (hv : (virt.toNat + n) % 2097152 = 0)
    (hrange : CanonicalRange virt (n + 2097152)) (hcanon : Canonical v) :
    (VPage.of v).SameHuge (VPage.of (virt + BitVec.ofNat 64 n)) ↔
      InRange virt (n + 2097152) v ∧ ¬ InRange virt n v := by
  have ha := toNat_add_of_range hrange (show n < n + 2097152 by omega)
  have hac := (inRange_add hrange (show n < n + 2097152 by omega)).canonical hrange
  rw [VPage.region_eq_iff hcanon hac, ha]
  unfold InRange
  omega

/-- **A 4 KiB step.** -/
theorem RangeInv.small (h : RangeInv pool root virt phys m₀ n m) (hn : n % 4096 = 0)
    (hv : Aligned virt) (hp : Aligned phys) (hrange : CanonicalRange virt (n + 4096))
    (hphys : phys.toNat + n < 2 ^ 64) (hlow : LowFlags flags) (hflags : flags &&& pageHuge = 0)
    (hunder : ¬ UnderHuge m₀ root (virt + BitVec.ofNat 64 n)) (hwf₀ : m₀.Wf pool (wholeTree root)) :
    RangeInv pool root virt phys m₀ (n + 4096)
      (vmmMap m root (virt + BitVec.ofNat 64 n) (phys + BitVec.ofNat 64 n) flags) := by
  set a := virt + BitVec.ofNat 64 n with ha
  have hat : a.toNat = virt.toNat + n := toNat_add_of_range hrange (by omega)
  have hac : Canonical a := (inRange_add hrange (show n < n + 4096 by omega)).canonical hrange
  have hsmall : flags &&& pageHuge = 0 →
      ∀ x, pageLookup m root (VPage.of a) = some x → x.huge = false := by
    intro _ x hx
    have hout : ¬ InRange virt n a := by
      unfold InRange
      omega
    rw [h.outside a hac hout] at hx
    rw [← Bool.not_eq_true]
    exact fun hxh => hunder (underHuge_of_lookup hwf₀ hx hxh)
  obtain ⟨hwf, hcases⟩ := h.wf.vmmMap_lookup (phys + BitVec.ofNat 64 n) rfl wholeTree_path hlow hsmall
  refine h.extend hn (Nat.le_refl _) hwf ?_ hrange
  rcases hcases with ⟨hsame, hlook⟩ | ⟨hsucc, hlook⟩
  · refine .inl ⟨hsame, fun v hvc hin hout => ?_, fun v hvc hnot => ?_⟩
    · have hpage := (page_after_iff hv hn hrange hvc).mpr ⟨hin, hout⟩
      refine ⟨smallMapping (phys + BitVec.ofNat 64 n) flags, ?_, ?_⟩
      · rw [hlook root _ wholeTree_path, if_neg (not_not_intro hflags), if_pos ⟨rfl, hpage⟩]
      · have hv' : virt.toNat % 4096 = 0 := hv
        have hp' : phys.toNat % 4096 = 0 := hp
        show ((phys + BitVec.ofNat 64 n) &&& ~~~flagMask).toNat = _
        rw [flagMask_eq, Word.toNat_and_not_lowMask _ (by decide), BitVec.toNat_add,
          BitVec.toNat_ofNat]
        unfold InRange at hin hout
        omega
    · rw [hlook root _ wholeTree_path, if_neg (not_not_intro hflags), if_neg]
      intro hpage
      exact hnot ((page_after_iff hv hn hrange hvc).mp hpage.2)
  · exact .inr ⟨hsucc, fun v => hlook root _ wholeTree_path⟩

/-- **A 2 MiB step.** -/
theorem RangeInv.huge (h : RangeInv pool root virt phys m₀ n m) (hn : n % 4096 = 0)
    (hv : (virt.toNat + n) % 2097152 = 0) (hp : (phys.toNat + n) % 2097152 = 0)
    (hrange : CanonicalRange virt (n + 2097152)) (hphys : phys.toNat + n + 2097152 ≤ 2 ^ 64)
    (hlow : LowFlags flags) :
    RangeInv pool root virt phys m₀ (n + 2097152)
      (vmmMap m root (virt + BitVec.ofNat 64 n) (phys + BitVec.ofNat 64 n) (flags ||| pageHuge)) := by
  have hlow' : LowFlags (flags ||| pageHuge) := Word.or_within hlow (by decide)
  have hhuge : (flags ||| pageHuge) &&& pageHuge ≠ 0 := by
    rw [BitVec.and_or_distrib_right]
    intro hz
    exact absurd (BitVec.or_eq_zero_iff.mp hz).2 (by decide)
  obtain ⟨hwf, hcases⟩ := h.wf.vmmMap_lookup (phys + BitVec.ofNat 64 n)
    (rfl : VPage.of (virt + BitVec.ofNat 64 n) = _) wholeTree_path hlow' fun hz => absurd hz hhuge
  refine h.extend hn (by omega) hwf ?_ hrange
  rcases hcases with ⟨hsame, hlook⟩ | ⟨hsucc, hlook⟩
  · refine .inl ⟨hsame, fun v hvc hin hout => ?_, fun v hvc hnot => ?_⟩
    · have hregion := (region_after_iff hv hrange hvc).mpr ⟨hin, hout⟩
      refine ⟨hugeMapping (phys + BitVec.ofNat 64 n) (flags ||| pageHuge) (VPage.of v), ?_, ?_⟩
      · rw [hlook root _ wholeTree_path, if_pos hhuge, if_pos ⟨rfl, hregion⟩]
      · have hoff : (VPage.of v).hugeOffset.toNat = v.toNat / 4096 % 512 * 4096 := by
          rw [VPage.toNat_hugeOffset, VPage.pt_of_val]
          rfl
        have hbase : (phys + BitVec.ofNat 64 n).toNat = phys.toNat + n := by
          rw [BitVec.toNat_add, BitVec.toNat_ofNat]
          omega
        show (((phys + BitVec.ofNat 64 n) &&& ~~~hugeMask) ||| (VPage.of v).hugeOffset).toNat = _
        rw [hugeMask_eq, Word.toNat_or_low (by decide) Word.and_not_and_not (by omega),
          Word.toNat_and_not_lowMask _ (by decide), hbase, hoff]
        unfold InRange at hin hout
        omega
    · rw [hlook root _ wholeTree_path, if_pos hhuge, if_neg]
      intro hregion
      exact hnot ((region_after_iff hv hrange hvc).mp hregion.2)
  · exact .inr ⟨hsucc, fun v => hlook root _ wholeTree_path⟩

/-- The bytes of the part done translate to the frames asked for. -/
theorem RangeInv.getPhys (h : RangeInv pool root virt phys m₀ n m)
    (hfail : m.pmm.allocFailures = m₀.pmm.allocFailures) (hv : Aligned virt) (hp : Aligned phys)
    (hrange : CanonicalRange virt n) (hphys : phys.toNat + n ≤ 2 ^ 64) {o : Nat} (ho : o < n) :
    vmmGetPhys m root (virt + BitVec.ofNat 64 o) = phys + BitVec.ofNat 64 o := by
  obtain ⟨x, hx, hxp⟩ := h.inside hfail _ (inRange_add hrange ho)
  have hv' : virt.toNat % 4096 = 0 := hv
  have hp' : phys.toNat % 4096 = 0 := hp
  have hadd := toNat_add_of_range hrange ho
  have hal : x.phys &&& ~~~flagMask = x.phys := by
    refine and_not_flagMask ?_
    show x.phys.toNat % 4096 = 0
    omega
  have hoff : ((virt + BitVec.ofNat 64 o) &&& flagMask).toNat = o % 4096 := by
    rw [flagMask_eq, Word.toNat_and_lowMask _ (by decide), hadd]
    omega
  rw [h.wf.vmmGetPhys_eq wholeTree_path hx]
  apply BitVec.eq_of_toNat_eq
  rw [Word.toNat_or_low (k := 12) (by decide) hal (by omega), hoff, hxp, hadd, BitVec.toNat_add,
    BitVec.toNat_ofNat]
  omega

end Step

/-! ## §3. The loops. -/

/-- What `vmm_map_range` asks of its caller: aligned addresses, a range in one
    canonical half, frames that do not wrap, flag bits without `PAGE_HUGE`, and
    no huge page in the range. -/
structure RangeRequest (pool : Finset Nat) (root virt phys size flags : Word) (m : Machine) : Prop where
  wf : m.Wf pool (wholeTree root)
  virtAligned : Aligned virt
  physAligned : Aligned phys
  low : LowFlags flags
  plain : flags &&& pageHuge = 0
  range : CanonicalRange virt size.toNat
  noWrap : phys.toNat + size.toNat ≤ 2 ^ 64
  clear : ∀ v, InRange virt size.toNat v → ¬ UnderHuge m root v

/-- Every page of the first `k` mapped by its own `vmm_map`. -/
def mapPages (m : Machine) (root virt phys flags : Word) (k : Nat) : Machine :=
  (List.range k).foldl (fun m j =>
    vmmMap m root (virt + BitVec.ofNat 64 (4096 * j)) (phys + BitVec.ofNat 64 (4096 * j)) flags) m

section Loops

variable {pool : Finset Nat} {root virt phys size flags : Word} {m₀ m : Machine} {i : Word}

theorem pageCeil_le (h : RangeRequest pool root virt phys size flags m₀) :
    phys.toNat + pageCeil size.toNat ≤ 2 ^ 64 ∧ pageCeil size.toNat ≤ 2 ^ 47 := by
  have hp : phys.toNat % 4096 = 0 := h.physAligned
  have hw := h.noWrap
  have hr := h.range
  unfold CanonicalRange at hr
  unfold pageCeil
  omega

/-- **One turn of the loop** of `vmm_map_range`. -/
theorem mapRangeStep_inv (hreq : RangeRequest pool root virt phys size flags m₀)
    (hn : i.toNat % 4096 = 0) (hlt : i.toNat < size.toNat)
    (h : RangeInv pool root virt phys m₀ i.toNat m) :
    ∃ k, 4096 ≤ k ∧ (mapRangeStep root virt phys size flags (i, m)).1.toNat = i.toNat + k ∧
      (i.toNat + k) % 4096 = 0 ∧ i.toNat + k ≤ pageCeil size.toNat ∧
      RangeInv pool root virt phys m₀ (i.toNat + k) (mapRangeStep root virt phys size flags (i, m)).2 := by
  have hi : BitVec.ofNat 64 i.toNat = i := by simp
  have hv := hreq.virtAligned
  have hp := hreq.physAligned
  have hrange := hreq.range.ceil hv
  obtain ⟨hphys, hsize⟩ := pageCeil_le hreq
  have hceil : i.toNat + 4096 ≤ pageCeil size.toNat := by
    unfold pageCeil
    omega
  have hvi : (virt + i).toNat = virt.toNat + i.toNat := by
    have := toNat_add_of_range hreq.range hlt
    rwa [hi] at this
  have hpi : (phys + i).toNat = phys.toNat + i.toNat := by
    have := hreq.noWrap
    rw [BitVec.toNat_add]
    omega
  unfold mapRangeStep
  simp only
  -- the source maps 2 MB at once where both addresses are aligned to it and so much is left
  split
  · rename_i hbig
    obtain ⟨hva, hpa, hroom⟩ := hbig
    have hva' : (virt.toNat + i.toNat) % 2097152 = 0 := by
      have := congrArg BitVec.toNat hva
      rw [BitVec.toNat_umod, hvi] at this
      exact this
    have hpa' : (phys.toNat + i.toNat) % 2097152 = 0 := by
      have := congrArg BitVec.toNat hpa
      rw [BitVec.toNat_umod, hpi] at this
      exact this
    have hroom' : i.toNat + 2097152 ≤ size.toNat := by
      rw [BitVec.le_def, BitVec.toNat_sub_of_le (by rw [BitVec.le_def]; omega)] at hroom
      have h2m : (0x200000 : Word).toNat = 2097152 := rfl
      omega
    have hle : i.toNat + 2097152 ≤ pageCeil size.toNat := by
      unfold pageCeil
      omega
    have hstep := h.huge hn hva' hpa' (hrange.mono hle) (by omega) hreq.low
    rw [hi] at hstep
    refine ⟨2097152, by decide, ?_, by omega, hle, hstep⟩
    rw [BitVec.toNat_add]
    show (i.toNat + 2097152) % 2 ^ 64 = _
    omega
  · have hclear : ¬ UnderHuge m₀ root (virt + BitVec.ofNat 64 i.toNat) :=
      hreq.clear _ (inRange_add hreq.range hlt)
    have hstep := h.small hn hv hp (hrange.mono hceil) (by omega) hreq.low hreq.plain hclear hreq.wf
    rw [hi] at hstep
    refine ⟨4096, Nat.le_refl _, ?_, by omega, hceil, hstep⟩
    rw [BitVec.toNat_add]
    show (i.toNat + 4096) % 2 ^ 64 = _
    omega

/-- **`vmm_map_range` stops**, with the whole range done. -/
theorem vmmMapRange_returns (hreq : RangeRequest pool root virt phys size flags m₀) :
    ∃ m' bound, (∀ fuel, bound < fuel → vmmMapRange fuel m₀ root virt phys size flags = some m') ∧
      RangeInv pool root virt phys m₀ (pageCeil size.toNat) m' := by
  obtain ⟨⟨i, m'⟩, ⟨hn, hle, hinv⟩, hend, hrun⟩ :=
    whileLoop_total (fun s : Word × Machine => decide (s.1 < size))
      (mapRangeStep root virt phys size flags)
      (fun s => s.1.toNat % 4096 = 0 ∧ s.1.toNat ≤ pageCeil size.toNat ∧
        RangeInv pool root virt phys m₀ s.1.toNat s.2)
      (fun s => pageCeil size.toNat - s.1.toNat)
      (fun ⟨i, m⟩ ⟨hn, hle, hinv⟩ hc => by
        have hlt : i.toNat < size.toNat := of_decide_eq_true hc
        obtain ⟨k, hk, hnext, hn', hle', hinv'⟩ := mapRangeStep_inv hreq hn hlt hinv
        refine ⟨⟨by rw [hnext]; exact hn', by rw [hnext]; exact hle', by rw [hnext]; exact hinv'⟩, ?_⟩
        show pageCeil size.toNat - (mapRangeStep root virt phys size flags (i, m)).1.toNat
          < pageCeil size.toNat - i.toNat
        rw [hnext]
        show pageCeil size.toNat - (i.toNat + k) < pageCeil size.toNat - i.toNat
        have hceil : size.toNat ≤ pageCeil size.toNat := by
          unfold pageCeil
          omega
        omega)
      (s := ((0 : Word), m₀)) ⟨rfl, Nat.zero_le _, .start hreq.wf⟩
  have hdone : i.toNat = pageCeil size.toNat := by
    have hge : ¬ i.toNat < size.toNat := of_decide_eq_false hend
    unfold pageCeil at hle ⊢
    simp only at hn hle
    omega
  rw [← hdone]
  refine ⟨m', pageCeil size.toNat - (0 : Word).toNat, fun fuel hfuel => ?_, hinv⟩
  rw [vmmMapRange, hrun fuel (by simp only; rw [← hdone]; omega)]
  rfl

/-- Mapping every page by its own call keeps the same invariant. -/
theorem mapPages_inv (hreq : RangeRequest pool root virt phys size flags m₀) (k : Nat)
    (hk : 4096 * k ≤ pageCeil size.toNat) :
    RangeInv pool root virt phys m₀ (4096 * k) (mapPages m₀ root virt phys flags k) := by
  have hrange := hreq.range.ceil hreq.virtAligned
  obtain ⟨hphys, -⟩ := pageCeil_le hreq
  induction k with
  | zero => exact .start hreq.wf
  | succ k ih =>
    have hlt : 4096 * k < size.toNat := by
      unfold pageCeil at hk
      omega
    have hclear := hreq.clear _ (inRange_add hreq.range hlt)
    rw [mapPages, List.range_succ, List.foldl_append]
    exact (ih (by omega)).small (by omega) hreq.virtAligned hreq.physAligned (hrange.mono (by omega)) (by omega)
      hreq.low hreq.plain hclear hreq.wf

end Loops

/-- Two loops that have done the same range agree on every page's frame. -/
theorem RangeInv.frames_eq {pool : Finset Nat} {root virt phys : Word} {m₀ m m' : Machine} {n : Nat}
    (h : RangeInv pool root virt phys m₀ n m) (h' : RangeInv pool root virt phys m₀ n m')
    (hfail : m.pmm.allocFailures = m₀.pmm.allocFailures)
    (hfail' : m'.pmm.allocFailures = m₀.pmm.allocFailures) {v : Word} (hv : Canonical v) :
    (pageLookup m root (VPage.of v)).map Mapping.phys
      = (pageLookup m' root (VPage.of v)).map Mapping.phys := by
  by_cases hin : InRange virt n v
  · obtain ⟨x, hx, hxp⟩ := h.inside hfail v hin
    obtain ⟨y, hy, hyp⟩ := h'.inside hfail' v hin
    rw [hx, hy]
    exact congrArg some (BitVec.eq_of_toNat_eq (hxp.trans hyp.symm))
  · rw [h.outside v hv hin, h'.outside v hv hin]

/-- The range is mapped in `m'`, byte for byte, and what lay outside it in `m`
    is as it was. -/
structure RangeMapped (root virt phys size : Word) (m m' : Machine) : Prop where
  bytes : ∀ o < size.toNat,
    vmmGetPhys m' root (virt + BitVec.ofNat 64 o) = phys + BitVec.ofNat 64 o
  outside : ∀ v, Canonical v → ¬ InRange virt (pageCeil size.toNat) v →
    pageLookup m' root (VPage.of v) = pageLookup m root (VPage.of v)
  outsidePhys : ∀ v, Canonical v → ¬ InRange virt (pageCeil size.toNat) v →
    pageLookup m root (VPage.of v) ≠ none → vmmGetPhys m' root v = vmmGetPhys m root v

/-- A finished loop without a failed allocation has mapped the range. -/
theorem RangeInv.rangeMapped {pool : Finset Nat} {root virt phys size flags : Word} {m m' : Machine}
    (h : RangeInv pool root virt phys m (pageCeil size.toNat) m')
    (hreq : RangeRequest pool root virt phys size flags m)
    (hfail : m'.pmm.allocFailures = m.pmm.allocFailures) : RangeMapped root virt phys size m m' := by
  refine ⟨fun o ho => ?_, h.outside, fun v hv hout hmapped => ?_⟩
  · have hrange := hreq.range.ceil hreq.virtAligned
    have hle : size.toNat ≤ pageCeil size.toNat := by
      unfold pageCeil
      omega
    exact h.getPhys hfail hreq.virtAligned hreq.physAligned hrange (pageCeil_le hreq).1 (by omega)
  · obtain ⟨x, hx⟩ := Option.ne_none_iff_exists'.mp hmapped
    rw [hreq.wf.vmmGetPhys_eq wholeTree_path hx,
      h.wf.vmmGetPhys_eq wholeTree_path ((h.outside v hv hout).trans hx)]

/-- **The huge-page optimisation is transparent.**  For every request that
    `vmm_map_range` is made for, the call returns.  Three free frames a page
    are enough for it; and whenever no allocation of the call failed, every
    byte of the range translates to its own physical byte and no page outside
    the range, rounded up to whole pages, has changed.  Every page then has the
    frame it has after mapping each page by its own `vmm_map`, when that does
    not run out of frames either. -/
theorem map_range_transparent {pool : Finset Nat} {root virt phys size flags : Word} {m : Machine}
    (hreq : RangeRequest pool root virt phys size flags m) :
    ∃ m' bound, (∀ fuel, bound < fuel → vmmMapRange fuel m root virt phys size flags = some m') ∧
      (3 * (pageCeil size.toNat / 4096) ≤ m.pmm.freeStack.length →
        m'.pmm.allocFailures = m.pmm.allocFailures) ∧
      (m'.pmm.allocFailures = m.pmm.allocFailures → RangeMapped root virt phys size m m' ∧
        ((mapPages m root virt phys flags (pageCeil size.toNat / 4096)).pmm.allocFailures
            = m.pmm.allocFailures → ∀ v, Canonical v →
          (pageLookup m' root (VPage.of v)).map Mapping.phys =
            (pageLookup (mapPages m root virt phys flags (pageCeil size.toNat / 4096)) root
              (VPage.of v)).map Mapping.phys)) := by
  obtain ⟨m', bound, hrun, hinv⟩ := vmmMapRange_returns hreq
  have hmul : 4096 * (pageCeil size.toNat / 4096) = pageCeil size.toNat := by
    unfold pageCeil
    omega
  have hpages := mapPages_inv hreq (pageCeil size.toNat / 4096) (by omega)
  rw [hmul] at hpages
  refine ⟨m', bound, hrun, hinv.enough, fun hfail => ⟨hinv.rangeMapped hreq hfail, ?_⟩⟩
  intro hfail' v hv
  exact hinv.frames_eq hpages hfail hfail' hv

/-- One 2 MiB page and one page after it, in PML4 slot 1 of the first address
    space. -/
theorem map_range_transparent_slot1 :
    ∃ m₁, vmmCreateAddressSpace (bootMachine (smallPmm 8)) = (0x207000, m₁) ∧
      ∃ m' bound, (∀ fuel, bound < fuel →
          vmmMapRange fuel m₁ 0x207000 0x8000000000 0x40000000 0x201000 0x6 = some m') ∧
        (3 * (pageCeil (0x201000 : Word).toNat / 4096) ≤ m₁.pmm.freeStack.length →
          m'.pmm.allocFailures = m₁.pmm.allocFailures) ∧
        (m'.pmm.allocFailures = m₁.pmm.allocFailures →
          RangeMapped 0x207000 0x8000000000 0x40000000 0x201000 m₁ m' ∧
          ((mapPages m₁ 0x207000 0x8000000000 0x40000000 0x6
              (pageCeil (0x201000 : Word).toNat / 4096)).pmm.allocFailures
              = m₁.pmm.allocFailures → ∀ v, Canonical v →
            (pageLookup m' 0x207000 (VPage.of v)).map Mapping.phys =
              (pageLookup (mapPages m₁ 0x207000 0x8000000000 0x40000000 0x6
                (pageCeil (0x201000 : Word).toNat / 4096)) 0x207000
                (VPage.of v)).map Mapping.phys)) := by
  obtain ⟨m₁, hcreate, hwf₁, -, hempty⟩ := boot_first_space
  refine ⟨m₁, hcreate, map_range_transparent (?_ : RangeRequest (bootPool (smallPmm 8)) _ _ _ _ _ _)⟩
  refine ⟨hwf₁, by decide, by decide, by decide, by decide, by decide, by decide, fun v hv => ?_⟩
  have hcanon : Canonical v := hv.canonical (by decide)
  have hslot : pml4Index (pageAddr v) ≠ 0 := by
    intro hz
    have hval := VPage.pml4_of_val (pageAddr v)
    rw [VPage.pml4_of, hz, toNat_pageAddr] at hval
    have hbase : (0x8000000000 : Word).toNat = 549755813888 := rfl
    have hlen : (0x201000 : Word).toNat = 2101248 := rfl
    unfold InRange at hv
    rw [hbase, hlen] at hv
    have hzero : (0 : Fin 512).val = 0 := rfl
    omega
  refine not_underHuge_of_none ?_
  rw [← of_pageAddr hcanon]
  exact hempty _ (canonical_pageAddr hcanon) (aligned_pageAddr v) hslot

end ZohoOs
