/-
  ZohoOs.Vmm.UnmapRange — unmapping a range of pages.

  `vmm_unmap_range` unmaps in the address space it is given, but chooses its
  steps by the tables of `current_pml4`: after an address that the kernel maps
  by a huge page it goes on 2 MiB further.  `Visits` are the offsets at which
  it stops, read off the kernel's tables before the call; the 4 KiB pages of
  the address space at any other offset stay mapped.
-/
import ZohoOs.Vmm.Range
import ZohoOs.Vmm.Spaces

namespace ZohoOs

open ZohoOs.Lib
open ZohoOs.Lib.Mem (Aligned)
open ZohoOs.Lib.Radix

/-! ## §1. Pages of a huge page. -/

/-- The page of `v` is part of a huge page. -/
def HugeAt (m : Machine) (root v : Word) : Prop :=
  (pageLookup m root (VPage.of v)).any Mapping.huge = true

instance (m : Machine) (root v : Word) : Decidable (HugeAt m root v) :=
  inferInstanceAs (Decidable (_ = true))

section HugeAt

variable {m m' : Machine} {root root' v w : Word}

/-- It is, when the slot of its page directory has the page-size bit set. -/
theorem hugeAt_iff : HugeAt m root v ↔
    ∃ pd, tableAt pageChild m.entry root (VPage.of v).pdPath = some pd ∧
      Huge (m.entry pd (VPage.of v).pd) := by
  constructor
  · intro h
    unfold HugeAt pageLookup at h
    cases hpd : tableAt pageChild m.entry root (VPage.of v).pdPath with
    | none =>
      simp only [hpd, Option.any_none] at h
      cases h
    | some pd =>
      refine ⟨pd, rfl, ?_⟩
      by_contra hh
      simp only [hpd, if_neg hh] at h
      cases hpt : tableAt pageChild m.entry root (VPage.of v).ptPath with
      | none =>
        simp only [hpt, Option.any_none] at h
        cases h
      | some pt =>
        simp only [hpt] at h
        split at h
        · cases h
        · cases h
  · intro h
    obtain ⟨pd, hpd, hh⟩ := h
    unfold HugeAt
    rw [pageLookup_of_huge hpd hh]
    rfl

/-- A huge page maps all of its 2 MiB region. -/
theorem hugeAt_of_sameHuge (hsame : (VPage.of v).SameHuge (VPage.of w)) :
    HugeAt m root v ↔ HugeAt m root w := by
  obtain ⟨hpath, hslot⟩ := VPage.sameHuge_iff.mp hsame
  rw [hugeAt_iff, hugeAt_iff, hpath, hslot]

theorem hugeAt_congr (h : pageLookup m' root' (VPage.of v) = pageLookup m root (VPage.of v)) :
    HugeAt m' root' v ↔ HugeAt m root v := by
  unfold HugeAt
  rw [h]

/-- What `vmm_unmap_range` looks at. -/
theorem inspects_iff {pool : Finset Nat} (h : m.Wf pool (wholeTree root)) :
    (let pdpt := getExistingTable m root (pml4Index v)
     let pd := if pdpt ≠ 0 then getExistingTable m pdpt (pdptIndex v) else 0
     pd ≠ 0 ∧ Huge (m.entry pd (pdIndex v))) ↔ HugeAt m root v := by
  have hroot : m.TableOf (wholeTree root) root [] root := ⟨wholeTree_path, rfl⟩
  rw [hugeAt_iff]
  rcases h.getExistingTable_cases (i := pml4Index v) hroot (by simp) wholeTree_path (by simp) with
    ⟨pdpt, hpdpt, hget, hne⟩ | ⟨hnone, -, hget⟩
  · rcases h.getExistingTable_cases (i := pdptIndex v) hpdpt (by simp) wholeTree_path (by simp) with
      ⟨pd, hpd, hget', hne'⟩ | ⟨hnone', -, hget'⟩
    · have hpath : tableAt pageChild m.entry root (VPage.of v).pdPath = some pd := hpd.2
      simp only [hget, hget', hne, hne', ne_eq, not_false_eq_true, if_true, true_and, hpath,
        Option.some.injEq, exists_eq_left']
      exact Iff.rfl
    · have hpath : tableAt pageChild m.entry root (VPage.of v).pdPath = none := hnone'
      simp only [hget, hget', hne, ne_eq, not_false_eq_true, if_true, not_true_eq_false, false_and,
        hpath, reduceCtorEq, exists_const]
  · have hpath : tableAt pageChild m.entry root (VPage.of v).pdPath = none :=
      tableAt_none_of_suffix hnone (List.suffix_cons _ _)
    simp only [hget, ne_eq, not_true_eq_false, if_false, false_and, hpath, reduceCtorEq, exists_const]

end HugeAt

/-! ## §2. The offsets at which the loop stops. -/

/-- How far the loop goes on after offset `o`. -/
def unmapSkip (m : Machine) (virt : Word) (o : Nat) : Nat :=
  if HugeAt m m.currentPml4 (virt + BitVec.ofNat 64 o) then 2097152 else 4096

/-- **The offsets at which the loop stops**, by the tables of `current_pml4`. -/
inductive Visits (m : Machine) (virt size : Word) : Nat → Prop
  | start (h : 0 < size.toNat) : Visits m virt size 0
  | next {o : Nat} (h : Visits m virt size o) (hlt : o + unmapSkip m virt o < size.toNat) :
      Visits m virt size (o + unmapSkip m virt o)

section Visits

variable {m : Machine} {virt size : Word} {o t : Nat}

theorem unmapSkip_cases (m : Machine) (virt : Word) (o : Nat) :
    (HugeAt m m.currentPml4 (virt + BitVec.ofNat 64 o) ∧ unmapSkip m virt o = 2097152) ∨
      (¬ HugeAt m m.currentPml4 (virt + BitVec.ofNat 64 o) ∧ unmapSkip m virt o = 4096) := by
  unfold unmapSkip
  split
  · rename_i h
    exact .inl ⟨h, rfl⟩
  · rename_i h
    exact .inr ⟨h, rfl⟩

theorem Visits.inside (h : Visits m virt size o) : o < size.toNat ∧ o % 4096 = 0 := by
  induction h with
  | start h => exact ⟨h, rfl⟩
  | @next o _ hlt ih =>
    refine ⟨hlt, ?_⟩
    rcases unmapSkip_cases m virt o with ⟨-, hs⟩ | ⟨-, hs⟩ <;> omega

/-- **The loop leaves no gap**: every offset lies in the step after some
    stop. -/
theorem exists_visit (ht : t < size.toNat) :
    ∃ o, Visits m virt size o ∧ o ≤ t ∧ t < o + unmapSkip m virt o := by
  induction t with
  | zero =>
    refine ⟨0, .start ht, Nat.le_refl _, ?_⟩
    rcases unmapSkip_cases m virt 0 with ⟨-, hs⟩ | ⟨-, hs⟩ <;> omega
  | succ t ih =>
    obtain ⟨o, ho, hle, hlt⟩ := ih (by omega)
    by_cases hin : t + 1 < o + unmapSkip m virt o
    · exact ⟨o, ho, by omega, hin⟩
    · -- the next stop is `t + 1` itself
      have hnext : o + unmapSkip m virt o = t + 1 := by omega
      refine ⟨t + 1, hnext ▸ ho.next (by omega), Nat.le_refl _, ?_⟩
      rcases unmapSkip_cases m virt (t + 1) with ⟨-, hs⟩ | ⟨-, hs⟩ <;> omega

end Visits

/-! ## §3. One unmapping, seen from two trees. -/

/-- The address space `root` next to the kernel's tree, which is
    `current_pml4`: it shares the kernel's slot 0, or is the kernel's tree. -/
structure Machine.Beside (pool : Finset Nat) (root : Word) (m : Machine) : Prop where
  wf : m.Wf pool (spaceForest m.currentPml4 {root})
  shared : m.entry root 0 = m.entry m.currentPml4 0

section Beside

variable {pool : Finset Nat} {m : Machine} {root v : Word}

theorem vmmUnmap_of_shared {r r' : Word} (hslot : m.entry r (pml4Index v) = m.entry r' (pml4Index v)) :
    vmmUnmap m r v = vmmUnmap m r' v := by
  unfold vmmUnmap
  rw [getExistingTable_congr hslot]

namespace Machine.Beside

theorem kernelTree (h : m.Beside pool root) : m.Wf pool (wholeTree m.currentPml4) := by
  refine h.wf.mono ?_ ?_
  · intro r hr
    rw [Set.mem_singleton_iff.mp hr]
    exact Set.mem_insert _ _
  · intro r hr
    rw [Set.mem_singleton_iff.mp hr]
    simp [spaceForest]

theorem tree (h : m.Beside pool root) : m.Wf pool (wholeTree root) :=
  h.wf.wholeTree_of_shared h.shared

theorem path (hslot : pml4Index v ≠ 0) :
    (spaceForest m.currentPml4 {root}).Path root [(VPage.of v).pml4] :=
  spaceForest_path (Finset.mem_singleton_self root) hslot

theorem root_table : m.TableOf (spaceForest m.currentPml4 {root}) root [] root :=
  ⟨spaceForest_path_nil (Finset.mem_singleton_self root), rfl⟩

theorem kernel_table : m.TableOf (spaceForest m.currentPml4 {root}) m.currentPml4 [] m.currentPml4 :=
  ⟨spaceForest_path_kernel, rfl⟩

/-- The tree of the forest that holds the tables of an address. -/
theorem owner (h : m.Beside pool root) (v : Word) : ∃ r,
    (spaceForest m.currentPml4 {root}).Path r [(VPage.of v).pml4] ∧
      m.entry root (pml4Index v) = m.entry r (pml4Index v) := by
  by_cases hslot : pml4Index v = 0
  · refine ⟨m.currentPml4, spaceForest_path_kernel, ?_⟩
    rw [hslot, h.shared]
  · exact ⟨root, path hslot, rfl⟩

/-- `vmm_unmap` keeps the two trees side by side. -/
theorem unmap (h : m.Beside pool root) (v : Word) :
    (vmmUnmap m root v).Beside pool root ∧ (vmmUnmap m root v).currentPml4 = m.currentPml4 := by
  obtain ⟨r, hpath, hslot⟩ := h.owner v
  have hwf := (h.wf.vmmUnmap_lookup (rfl : VPage.of v = _) hpath).1
  -- a store below the root tables leaves them alone
  have hkeep : ∀ {t : Word} {p : List (Fin 512)} {i : Fin 512} (s : Word),
      m.TableOf (spaceForest m.currentPml4 {root}) r p t → p ≠ [] →
      m.TableOf (spaceForest m.currentPml4 {root}) s [] s →
      (m.setEntry t i 0).entry s 0 = m.entry s 0 := by
    intro t p i s ht hp hs
    rw [h.wf.entry_setEntry_of ht hs, if_neg]
    intro hc
    exact hp hc.2.1.symm
  rw [vmmUnmap_of_shared hslot]
  rcases h.wf.vmmUnmap_cases (rfl : VPage.of v = _) hpath with
    ⟨-, heq⟩ | ⟨pd, hpd, -, heq⟩ | ⟨pt, hpt, heq⟩
  · rw [heq]
    exact ⟨h, rfl⟩
  · rw [heq] at hwf ⊢
    refine ⟨⟨hwf, ?_⟩, rfl⟩
    show (m.setEntry pd _ 0).entry root 0 = (m.setEntry pd _ 0).entry m.currentPml4 0
    rw [hkeep root hpd (by simp [VPage.pdPath]) root_table,
      hkeep m.currentPml4 hpd (by simp [VPage.pdPath]) kernel_table, h.shared]
  · rw [heq] at hwf ⊢
    refine ⟨⟨hwf, ?_⟩, rfl⟩
    show (m.setEntry pt _ 0).entry root 0 = (m.setEntry pt _ 0).entry m.currentPml4 0
    rw [hkeep root hpt (by simp [VPage.ptPath]) root_table,
      hkeep m.currentPml4 hpt (by simp [VPage.ptPath]) kernel_table, h.shared]

/-- **What the space maps afterwards.** -/
theorem unmap_lookup (h : m.Beside pool root) (v w : Word) :
    pageLookup (vmmUnmap m root v) root (VPage.of w) =
      if HugeAt m root v then
        if (VPage.of w).SameHuge (VPage.of v) then none else pageLookup m root (VPage.of w)
      else if VPage.of w = VPage.of v then none else pageLookup m root (VPage.of w) := by
  have hlook := (h.tree.vmmUnmap_lookup (rfl : VPage.of v = _) wholeTree_path).2
  rw [hlook root (VPage.of w) wholeTree_path]
  simp only [true_and]
  rfl

/-- **What the kernel maps afterwards**: the same, but for the pages the space
    lost. -/
theorem unmap_kernel (h : m.Beside pool root) {v w : Word} (hw : VPage.of w ≠ VPage.of v)
    (hhuge : HugeAt m m.currentPml4 v → ¬ (VPage.of w).SameHuge (VPage.of v)) :
    pageLookup (vmmUnmap m root v) m.currentPml4 (VPage.of w)
      = pageLookup m m.currentPml4 (VPage.of w) := by
  obtain ⟨r, hpath, hslot⟩ := h.owner v
  have hlook := (h.wf.vmmUnmap_lookup (rfl : VPage.of v = _) hpath).2
  rw [vmmUnmap_of_shared hslot, hlook m.currentPml4 (VPage.of w) spaceForest_path_kernel]
  split
  · rename_i hh
    rw [if_neg]
    intro hc
    rw [← hc.1] at hh
    exact hhuge hh hc.2
  · rw [if_neg]
    exact fun hc => hw hc.2

end Machine.Beside

end Beside

/-! ## §4. The loop. -/

/-- Two stops are a whole step apart. -/
theorem Visits.apart {m : Machine} {virt size : Word} {o n : Nat} (ho : Visits m virt size o)
    (hn : Visits m virt size n) (hlt : n < o) : n + unmapSkip m virt n ≤ o := by
  induction o using Nat.strongRecOn generalizing n with
  | _ o ih =>
    cases ho with
    | start h => exact absurd hlt (Nat.not_lt_zero _)
    | @next o' ho' hsize =>
      have hskip : 0 < unmapSkip m virt o' := by
        rcases unmapSkip_cases m virt o' with ⟨-, hs⟩ | ⟨-, hs⟩ <;> omega
      rcases Nat.lt_trichotomy n o' with hc | hc | hc
      · have := ih o' (by omega) ho' hn hc
        omega
      · rw [hc]
      · have := ih n hlt hn ho' hc
        omega

/-- The page of `v` is unmapped by one of the stops before `n`. -/
def Removed (m₀ : Machine) (root virt size : Word) (n : Nat) (v : Word) : Prop :=
  ∃ o < n, Visits m₀ virt size o ∧
    (VPage.of v = VPage.of (virt + BitVec.ofNat 64 o) ∨
      HugeAt m₀ root v ∧ (VPage.of v).SameHuge (VPage.of (virt + BitVec.ofNat 64 o)))

/-- The state `m` of the loop at offset `n`, started in `m₀`. -/
structure UnmapInv (pool : Finset Nat) (root virt size : Word) (m₀ : Machine) (n : Nat)
    (m : Machine) : Prop where
  beside : m.Beside pool root
  current : m.currentPml4 = m₀.currentPml4
  visits : n < size.toNat → Visits m₀ virt size n
  /-- The kernel's tables still read alike where the loop has not been. -/
  ahead : ∀ v, Canonical v → virt.toNat + n ≤ v.toNat →
    (HugeAt m m₀.currentPml4 v ↔ HugeAt m₀ m₀.currentPml4 v)
  gone : ∀ v, Removed m₀ root virt size n v → pageLookup m root (VPage.of v) = none
  kept : ∀ v, ¬ Removed m₀ root virt size n v →
    pageLookup m root (VPage.of v) = pageLookup m₀ root (VPage.of v)

section Loop

variable {pool : Finset Nat} {root virt size : Word} {m₀ m : Machine} {n : Nat}

/-- A huge page that is no longer mapped was removed as a whole. -/
theorem UnmapInv.removed_huge (h : UnmapInv pool root virt size m₀ n m) {a v : Word}
    (hv : HugeAt m₀ root v) (hsame : (VPage.of v).SameHuge (VPage.of a)) (ha : ¬ HugeAt m root a) :
    Removed m₀ root virt size n v := by
  have ha₀ : HugeAt m₀ root a := (hugeAt_of_sameHuge hsame).mp hv
  have hgone : Removed m₀ root virt size n a := by
    by_contra hkept
    exact ha ((hugeAt_congr (h.kept a hkept)).mpr ha₀)
  obtain ⟨o, hlt, ho, hpage | ⟨-, hregion⟩⟩ := hgone
  · refine ⟨o, hlt, ho, .inr ⟨hv, ?_⟩⟩
    rw [← hpage]
    exact hsame
  · exact ⟨o, hlt, ho, .inr ⟨hv, Eq.trans hsame hregion⟩⟩

/-- **One turn of the loop.** -/
theorem UnmapInv.step (h : UnmapInv pool root virt size m₀ n m) (hlt : n < size.toNat)
    (hv : Aligned virt) (hn : n % 4096 = 0) (hrange : CanonicalRange virt size.toNat) :
    UnmapInv pool root virt size m₀ (n + unmapSkip m₀ virt n)
      (vmmUnmap m root (virt + BitVec.ofNat 64 n)) := by
  have hvisit := h.visits hlt
  have hat := toNat_add_of_range hrange hlt
  have hac : Canonical (virt + BitVec.ofNat 64 n) := (inRange_add hrange hlt).canonical hrange
  have hstop : (virt + BitVec.ofNat 64 n).toNat % 4096 = 0 := by
    have hv' : virt.toNat % 4096 = 0 := hv
    omega
  have hskip : HugeAt m m₀.currentPml4 (virt + BitVec.ofNat 64 n) →
      unmapSkip m₀ virt n = 2097152 := by
    intro hh
    exact if_pos ((h.ahead _ hac (by omega)).mp hh)
  have hpos : 4096 ≤ unmapSkip m₀ virt n := by
    rcases unmapSkip_cases m₀ virt n with ⟨-, hs⟩ | ⟨-, hs⟩ <;> omega
  set a := virt + BitVec.ofNat 64 n
  obtain ⟨hbeside, hcur⟩ := h.beside.unmap a
  refine ⟨hbeside, hcur.trans h.current, fun hsize => hvisit.next hsize, ?_, ?_, ?_⟩
  · intro w hw hge
    have hpage : VPage.of w ≠ VPage.of a := by
      intro he
      have := (VPage.page_eq_iff hw hac).mp he
      omega
    have hregion : HugeAt m m.currentPml4 a → ¬ (VPage.of w).SameHuge (VPage.of a) := by
      intro hh he
      rw [h.current] at hh
      have := (VPage.region_eq_iff hw hac).mp he
      have := hskip hh
      omega
    have hkeep := h.beside.unmap_kernel hpage hregion
    rw [h.current] at hkeep
    rw [hugeAt_congr hkeep]
    exact h.ahead w hw (by omega)
  · intro v hrem
    -- a page that is gone stays gone
    have hstill : pageLookup m root (VPage.of v) = none →
        pageLookup (vmmUnmap m root a) root (VPage.of v) = none := by
      intro hnone
      rw [h.beside.unmap_lookup a v, hnone]
      simp
    obtain ⟨o, holt, ho, hcase⟩ := hrem
    by_cases hon : o < n
    · exact hstill (h.gone v ⟨o, hon, ho, hcase⟩)
    · have hoeq : o = n := by
        rcases Nat.lt_or_ge n o with hc | hc
        · have := ho.apart hvisit hc
          omega
        · omega
      rw [hoeq] at hcase
      rcases hcase with hpage | ⟨hh, hsame⟩
      · have hpage' : VPage.of v = VPage.of a := hpage
        have hself : (VPage.of a).SameHuge (VPage.of a) := rfl
        rw [h.beside.unmap_lookup a v, hpage', if_pos hself, if_pos rfl, ite_self]
      · by_cases ha : HugeAt m root a
        · rw [h.beside.unmap_lookup a v, if_pos ha, if_pos hsame]
        · exact hstill (h.gone v (h.removed_huge hh hsame ha))
  · intro v hrem
    have hkept : pageLookup m root (VPage.of v) = pageLookup m₀ root (VPage.of v) := by
      refine h.kept v fun hr => hrem ?_
      obtain ⟨o, holt, hrest⟩ := hr
      exact ⟨o, by omega, hrest⟩
    have hpage : VPage.of v ≠ VPage.of a := fun he => hrem ⟨n, by omega, hvisit, .inl he⟩
    by_cases hh : HugeAt m root a
    · rw [h.beside.unmap_lookup a v, if_pos hh, if_neg, hkept]
      intro hsame
      have hv₀ : HugeAt m₀ root v := (hugeAt_congr hkept).mp ((hugeAt_of_sameHuge hsame).mpr hh)
      exact hrem ⟨n, by omega, hvisit, .inr ⟨hv₀, hsame⟩⟩
    · rw [h.beside.unmap_lookup a v, if_neg hh, if_neg hpage, hkept]

end Loop

/-- What `vmm_unmap_range` is asked for: whole pages of one canonical half,
    with each huge page of the space that they meet. -/
structure UnmapRequest (pool : Finset Nat) (root virt size : Word) (m : Machine) : Prop where
  beside : m.Beside pool root
  virtAligned : Aligned virt
  sizeAligned : Aligned size
  range : CanonicalRange virt size.toNat
  whole : ∀ v w, InRange virt size.toNat v → HugeAt m root v → Canonical w →
    (VPage.of w).SameHuge (VPage.of v) → InRange virt size.toNat w

section Range

variable {pool : Finset Nat} {root virt size : Word} {m₀ m : Machine} {n : Nat}

/-- The body of the loop at offset `i`. -/
theorem unmapRangeStep_eq {i : Word} (h : UnmapInv pool root virt size m₀ i.toNat m)
    (hlt : i.toNat < size.toNat) (hrange : CanonicalRange virt size.toNat) :
    (unmapRangeStep root virt (i, m)).1.toNat = i.toNat + unmapSkip m₀ virt i.toNat ∧
      (unmapRangeStep root virt (i, m)).2 = vmmUnmap m root (virt + i) := by
  have hi : BitVec.ofNat 64 i.toNat = i := by simp
  have hat := toNat_add_of_range hrange hlt
  have hac : Canonical (virt + BitVec.ofNat 64 i.toNat) := (inRange_add hrange hlt).canonical hrange
  have hlook : HugeAt m m.currentPml4 (virt + i) ↔ HugeAt m₀ m₀.currentPml4 (virt + i) := by
    rw [h.current]
    rw [hi] at hac hat
    exact h.ahead _ hac (by omega)
  have hsize : size.toNat ≤ 2 ^ 47 := by
    unfold CanonicalRange at hrange
    omega
  unfold unmapRangeStep
  simp only
  rcases unmapSkip_cases m₀ virt i.toNat with ⟨hh, hs⟩ | ⟨hh, hs⟩
  · rw [hi] at hh
    rw [if_pos ((inspects_iff h.beside.kernelTree).mpr (hlook.mpr hh)), hs]
    refine ⟨?_, rfl⟩
    show (i + 0x200000).toNat = _
    rw [BitVec.toNat_add]
    show (i.toNat + 2097152) % 2 ^ 64 = _
    omega
  · rw [hi] at hh
    rw [if_neg fun hc => hh (hlook.mp ((inspects_iff h.beside.kernelTree).mp hc)), hs]
    refine ⟨?_, rfl⟩
    show (i + 0x1000).toNat = _
    rw [BitVec.toNat_add]
    show (i.toNat + 4096) % 2 ^ 64 = _
    omega

/-- The body keeps the invariant and moves on. -/
theorem unmapRangeStep_inv {i : Word} (hreq : UnmapRequest pool root virt size m₀)
    (hn : i.toNat % 4096 = 0) (hlt : i.toNat < size.toNat)
    (h : UnmapInv pool root virt size m₀ i.toNat m) :
    ((unmapRangeStep root virt (i, m)).1.toNat % 4096 = 0 ∧
      UnmapInv pool root virt size m₀ (unmapRangeStep root virt (i, m)).1.toNat
        (unmapRangeStep root virt (i, m)).2) ∧
      size.toNat - (unmapRangeStep root virt (i, m)).1.toNat < size.toNat - i.toNat := by
  obtain ⟨hnext, hmach⟩ := unmapRangeStep_eq h hlt hreq.range
  have hstep := h.step hlt hreq.virtAligned hn hreq.range
  have hi : BitVec.ofNat 64 i.toNat = i := by simp
  rw [hi] at hstep
  rw [hnext, hmach]
  rcases unmapSkip_cases m₀ virt i.toNat with ⟨-, hs⟩ | ⟨-, hs⟩
  · exact ⟨⟨by omega, hstep⟩, by omega⟩
  · exact ⟨⟨by omega, hstep⟩, by omega⟩

/-- **`vmm_unmap_range` stops**, past the end of the range. -/
theorem vmmUnmapRange_returns (hreq : UnmapRequest pool root virt size m₀) :
    ∃ m' bound n, (∀ fuel, bound < fuel → vmmUnmapRange fuel m₀ root virt size = some m') ∧
      size.toNat ≤ n ∧ UnmapInv pool root virt size m₀ n m' := by
  have hstart : UnmapInv pool root virt size m₀ 0 m₀ := by
    refine ⟨hreq.beside, rfl, fun h => .start h, fun _ _ _ => Iff.rfl, fun v hv => ?_, fun _ _ => rfl⟩
    obtain ⟨o, ho, -⟩ := hv
    exact absurd ho (Nat.not_lt_zero _)
  obtain ⟨⟨i, m'⟩, ⟨-, hinv⟩, hend, hrun⟩ :=
    whileLoop_total (fun s : Word × Machine => decide (s.1 < size)) (unmapRangeStep root virt)
      (fun s => s.1.toNat % 4096 = 0 ∧ UnmapInv pool root virt size m₀ s.1.toNat s.2)
      (fun s => size.toNat - s.1.toNat)
      (fun _ hs hc => unmapRangeStep_inv hreq hs.1 (of_decide_eq_true hc) hs.2)
      (s := ((0 : Word), m₀)) ⟨rfl, hstart⟩
  have hge : ¬ i.toNat < size.toNat := of_decide_eq_false hend
  refine ⟨m', size.toNat, i.toNat, fun fuel hfuel => ?_, by omega, hinv⟩
  rw [vmmUnmapRange, hrun fuel (by show size.toNat - 0 < fuel; omega)]
  rfl

/-- The loop stops at every 4 KiB page that the space has mapped in the
    range. -/
def StopsAtEveryPage (m : Machine) (root virt size : Word) : Prop :=
  ∀ o < size.toNat, o % 4096 = 0 →
    pageLookup m root (VPage.of (virt + BitVec.ofNat 64 o)) ≠ none →
    ¬ HugeAt m root (virt + BitVec.ofNat 64 o) → Visits m virt size o

/-- Every huge page of the range is met by a stop: it is as long as the longest
    step. -/
theorem exists_visit_huge (hreq : UnmapRequest pool root virt size m₀) {v : Word}
    (hv : InRange virt size.toNat v) (hh : HugeAt m₀ root v) :
    ∃ o, Visits m₀ virt size o ∧ (VPage.of v).SameHuge (VPage.of (virt + BitVec.ofNat 64 o)) := by
  have hvc := hv.canonical hreq.range
  have hlt := v.isLt
  -- the last byte of the huge page
  set w : Word := BitVec.ofNat 64 (v.toNat / 2097152 * 2097152 + 2097151) with hw
  have hwn : w.toNat = v.toNat / 2097152 * 2097152 + 2097151 := by
    rw [hw, BitVec.toNat_ofNat]
    omega
  have hwc : Canonical w := by
    unfold Canonical at hvc ⊢
    omega
  have hlast : InRange virt size.toNat w := by
    refine hreq.whole v w hv hh hwc ((VPage.region_eq_iff hwc hvc).mpr ?_)
    rw [hwn]
    omega
  unfold InRange at hlast
  have hvisit : ∃ o, Visits m₀ virt size o ∧ o ≤ w.toNat - virt.toNat ∧
      w.toNat - virt.toNat < o + unmapSkip m₀ virt o := exists_visit (by omega)
  obtain ⟨o, ho, hle, hnext⟩ := hvisit
  have hoc := (inRange_add hreq.range ho.inside.1).canonical hreq.range
  have hat := toNat_add_of_range hreq.range ho.inside.1
  refine ⟨o, ho, (VPage.region_eq_iff hvc hoc).mpr ?_⟩
  rw [hat]
  rcases unmapSkip_cases m₀ virt o with ⟨-, hs⟩ | ⟨-, hs⟩ <;> omega

/-- **What a finished loop has unmapped.** -/
theorem UnmapInv.unmapped_iff (hinv : UnmapInv pool root virt size m₀ n m)
    (hreq : UnmapRequest pool root virt size m₀) (hge : size.toNat ≤ n) :
    (∀ v, InRange virt size.toNat v → pageLookup m root (VPage.of v) = none) ↔
      StopsAtEveryPage m₀ root virt size := by
  have hv' : virt.toNat % 4096 = 0 := hreq.virtAligned
  constructor
  · -- a mapped page that is gone was met by a stop
    intro hall o ho hal hmapped hsmall
    have hgone : Removed m₀ root virt size n (virt + BitVec.ofNat 64 o) := by
      by_contra hkept
      have hnone := hall _ (inRange_add hreq.range ho)
      rw [hinv.kept _ hkept] at hnone
      exact hmapped hnone
    -- what removed it is a stop at the same page, and so at the same offset
    obtain ⟨o', -, ho', hpage | ⟨hh, -⟩⟩ := hgone
    · have hoc := (inRange_add hreq.range ho).canonical hreq.range
      have hoc' := (inRange_add hreq.range ho'.inside.1).canonical hreq.range
      have hdiv := (VPage.page_eq_iff hoc hoc').mp hpage
      rw [toNat_add_of_range hreq.range ho, toNat_add_of_range hreq.range ho'.inside.1] at hdiv
      have hmul := ho'.inside.2
      have hoo : o = o' := by omega
      rw [hoo]
      exact ho'
    · exact absurd hh hsmall
  · -- a page of the range is met by a stop, or by one in its huge page
    intro hstops v hv
    have hvc := hv.canonical hreq.range
    by_cases hh : HugeAt m₀ root v
    · obtain ⟨o, ho, hsame⟩ := exists_visit_huge hreq hv hh
      exact hinv.gone v ⟨o, by have := ho.inside.1; omega, ho, .inr ⟨hh, hsame⟩⟩
    · by_cases hnone : pageLookup m₀ root (VPage.of v) = none
      · by_cases hrem : Removed m₀ root virt size n v
        · exact hinv.gone v hrem
        · rw [hinv.kept v hrem, hnone]
      · unfold InRange at hv
        set o := (v.toNat - virt.toNat) / 4096 * 4096 with hodef
        have ho : o < size.toNat := by omega
        have hoc := (inRange_add hreq.range ho).canonical hreq.range
        have hpage : VPage.of v = VPage.of (virt + BitVec.ofNat 64 o) := by
          rw [VPage.page_eq_iff hvc hoc, toNat_add_of_range hreq.range ho]
          omega
        have hsmall : ¬ HugeAt m₀ root (virt + BitVec.ofNat 64 o) := by
          intro hc
          unfold HugeAt at hh hc
          rw [← hpage] at hc
          exact hh hc
        rw [hpage] at hnone
        have hvisit := hstops o ho (by omega) hnone hsmall
        exact hinv.gone v ⟨o, by omega, hvisit, .inl hpage⟩

/-- A stop unmaps pages of the range only. -/
theorem UnmapInv.kept_outside (hinv : UnmapInv pool root virt size m₀ n m)
    (hreq : UnmapRequest pool root virt size m₀) {v : Word} (hv : Canonical v)
    (hout : ¬ InRange virt size.toNat v) :
    pageLookup m root (VPage.of v) = pageLookup m₀ root (VPage.of v) := by
  have hv' : virt.toNat % 4096 = 0 := hreq.virtAligned
  have hs' : size.toNat % 4096 = 0 := hreq.sizeAligned
  refine hinv.kept v fun hrem => hout ?_
  obtain ⟨o, -, ho, hpage | ⟨hh, hsame⟩⟩ := hrem
  · have hoc := (inRange_add hreq.range ho.inside.1).canonical hreq.range
    have hdiv := (VPage.page_eq_iff hv hoc).mp hpage
    rw [toNat_add_of_range hreq.range ho.inside.1] at hdiv
    have hmul := ho.inside
    unfold InRange
    omega
  · have hin := inRange_add hreq.range ho.inside.1
    exact hreq.whole _ v hin ((hugeAt_of_sameHuge hsame).mp hh) hv hsame

/-- A stop at a huge page of `current_pml4` is at its start, when the range
    contains the page. -/
theorem Visits.huge_start (hreq : UnmapRequest pool m₀.currentPml4 virt size m₀) {o : Nat}
    (ho : Visits m₀ virt size o) (hh : HugeAt m₀ m₀.currentPml4 (virt + BitVec.ofNat 64 o)) :
    (virt.toNat + o) % 2097152 = 0 := by
  have hv' : virt.toNat % 4096 = 0 := hreq.virtAligned
  induction ho with
  | start h =>
    -- the first byte of the huge page lies in the range, so it is `virt`
    have hin := inRange_add hreq.range h
    have hc := hin.canonical hreq.range
    have hat := toNat_add_of_range hreq.range h
    set a := virt + BitVec.ofNat 64 0
    set w : Word := BitVec.ofNat 64 (a.toNat / 2097152 * 2097152) with hw
    have hlt := a.isLt
    have hwn : w.toNat = a.toNat / 2097152 * 2097152 := by
      rw [hw, BitVec.toNat_ofNat]
      omega
    have hwc : Canonical w := by
      unfold Canonical at hc ⊢
      omega
    have hfirst := hreq.whole a w hin hh hwc ((VPage.region_eq_iff hwc hc).mpr (by omega))
    unfold InRange at hfirst
    omega
  | @next o ho hlt ih =>
    rcases unmapSkip_cases m₀ virt o with ⟨hh', hs⟩ | ⟨hh', hs⟩
    · have := ih hh'
      omega
    · -- otherwise the page before it was part of the same huge page
      by_contra hmid
      have hmul := ho.inside
      rw [hs] at hh hlt hmid
      have hc := (inRange_add hreq.range ho.inside.1).canonical hreq.range
      have hc' := (inRange_add hreq.range hlt).canonical hreq.range
      refine hh' ((hugeAt_of_sameHuge ((VPage.region_eq_iff hc hc').mpr ?_)).mpr hh)
      rw [toNat_add_of_range hreq.range ho.inside.1, toNat_add_of_range hreq.range hlt]
      omega

/-- **The active address space**: unmapping in `current_pml4` itself, the loop
    steps over the pages of a huge page it has just unmapped, and over no
    others. -/
theorem stopsAtEveryPage_current (hreq : UnmapRequest pool m₀.currentPml4 virt size m₀) :
    StopsAtEveryPage m₀ m₀.currentPml4 virt size := by
  intro t ht hal hmapped hsmall
  have hvisit : ∃ o, Visits m₀ virt size o ∧ o ≤ t ∧ t < o + unmapSkip m₀ virt o := exists_visit ht
  obtain ⟨o, ho, hle, hlt⟩ := hvisit
  have hmul := ho.inside
  rcases unmapSkip_cases m₀ virt o with ⟨hh, hs⟩ | ⟨-, hs⟩
  · have hstart := ho.huge_start hreq hh
    have hc := (inRange_add hreq.range ho.inside.1).canonical hreq.range
    have hc' := (inRange_add hreq.range ht).canonical hreq.range
    refine absurd ((hugeAt_of_sameHuge ((VPage.region_eq_iff hc' hc).mpr ?_)).mpr hh) hsmall
    rw [toNat_add_of_range hreq.range ho.inside.1, toNat_add_of_range hreq.range ht]
    omega
  · have hot : o = t := by omega
    rw [← hot]
    exact ho

/-- **Range unmapping, exactly.**  For every address space next to the
    kernel's, or the kernel's own, and every range of whole pages that contains
    each huge page it meets, `vmm_unmap_range` returns and leaves every page
    outside the range as it was; and no page of the range is mapped any more
    if and only if the loop, which steps by the tables of `current_pml4`, stops
    at every 4 KiB page of the range that was mapped. -/
theorem unmap_range_iff (hreq : UnmapRequest pool root virt size m₀) :
    ∃ m' bound, (∀ fuel, bound < fuel → vmmUnmapRange fuel m₀ root virt size = some m') ∧
      (∀ v, Canonical v → ¬ InRange virt size.toNat v →
        pageLookup m' root (VPage.of v) = pageLookup m₀ root (VPage.of v)) ∧
      ((∀ v, InRange virt size.toNat v → pageLookup m' root (VPage.of v) = none) ↔
        StopsAtEveryPage m₀ root virt size) := by
  obtain ⟨m', bound, n, hrun, hge, hinv⟩ := vmmUnmapRange_returns hreq
  exact ⟨m', bound, hrun, fun v hv hout => hinv.kept_outside hreq hv hout,
    hinv.unmapped_iff hreq hge⟩

end Range

/-! ## §5. Two pages beside a huge page of the kernel. -/

/-- The kernel maps 2 MiB at 0x8000000000, and a space two pages there. -/
theorem two_pages_beside_huge : ∃ (pool : Finset Nat) (m : Machine) (root : Word),
    UnmapRequest pool root 0x8000000000 0x2000 m ∧
      ¬ StopsAtEveryPage m root 0x8000000000 0x2000 := by
  have hboot := bootMachine_small_wf (n := 16) (by decide)
  set m₀ := bootMachine (smallPmm 16)
  have hfree₀ : m₀.pmm.freeStack.length = 16 := by
    show (smallPmm 16).freeStack.length = 16
    rw [freeStack_smallPmm]
    rfl
  -- the kernel's huge page
  set m₁ := vmmMap m₀ p4Table 0x8000000000 0x40000000 0x82
  have hcur₁ : m₁.currentPml4 = p4Table := currentPml4_vmmMap _ _ _ _ _
  have hfree₁ : m₀.pmm.freeStack.length ≤ m₁.pmm.freeStack.length + 3 := vmmMap_frames _ _ _ _ _
  have hfail₁ := vmmMap_allocFailures (m := m₀) (by omega) p4Table 0x8000000000 0x40000000 0x82
  have hflags₁ : (0x82 : Word) &&& pageHuge ≠ 0 := by decide
  obtain ⟨hwf₁, ⟨-, hlook₁⟩ | ⟨hbad, -⟩⟩ := hboot.vmmMap_lookup 0x40000000
    (Eq.refl (VPage.of 0x8000000000)) wholeTree_path (by decide) (fun hz => absurd hz hflags₁)
  swap
  · exact absurd hbad (by show m₁.pmm.allocFailures ≠ _; omega)
  have hhuge₁ : HugeAt m₁ p4Table 0x8000000000 := by
    unfold HugeAt
    rw [hlook₁ p4Table _ wholeTree_path, if_pos hflags₁, if_pos ⟨rfl, rfl⟩]
    rfl
  -- the space
  have hnone : m₁.Spaces (bootPool (smallPmm 16)) m₁.currentPml4 ∅ :=
    Machine.Spaces.none (by rw [hcur₁]; exact hwf₁)
  rw [hcur₁] at hnone
  cases hst : m₁.pmm.freeStack with
  | nil =>
    have hlen := congrArg List.length hst
    have h0 : ([] : List Word).length = 0 := rfl
    omega
  | cons n rest =>
  obtain ⟨-, -, hs₂⟩ := hnone.create hst
  set m₂ := m₁.createdSpace n (m₁.entry p4Table 0)
  have hn : n ∈ insert n (∅ : Finset Word) := Finset.mem_insert_self n ∅
  obtain ⟨hnal, -, -, -, hfresh⟩ := hwf₁.top hst
  have hhuge₂ : HugeAt m₂ p4Table 0x8000000000 := by
    refine (hugeAt_congr (Machine.Wf.pageLookup_of_tables (F := wholeTree p4Table) wholeTree_path
      fun q s hs j => ?_)).mpr hhuge₁
    rw [entry_createdSpace hnal (hwf₁.aligned hs), if_neg fun he => hfresh _ _ (he ▸ hs)]
  have hfree₂ : m₂.pmm.freeStack.length = rest.length := by
    rw [freeStack_createdSpace hst]
  have hrest := congrArg List.length hst
  rw [List.length_cons] at hrest
  -- its two pages
  have hslot : pml4Index 0x8000000000 ≠ 0 := by decide
  have hslot' : pml4Index 0x8000001000 ≠ 0 := by decide
  obtain ⟨hs₃, hkeep₃⟩ := hs₂.map hn 0x50000000 hslot (show (0x6 : Word) &&& pageHuge = 0 by decide)
  have hfree₃ := vmmMap_frames m₂ n 0x8000000000 0x50000000 0x6
  have hcur₃ := currentPml4_vmmMap m₂ n 0x8000000000 0x50000000 0x6
  set m₃ := vmmMap m₂ n 0x8000000000 0x50000000 0x6
  obtain ⟨hs₄, hkeep₄⟩ := hs₃.map hn 0x50001000 hslot' (show (0x6 : Word) &&& pageHuge = 0 by decide)
  have hcur₄ := currentPml4_vmmMap m₃ n 0x8000001000 0x50001000 0x6
  have hfail₄ := vmmMap_allocFailures (m := m₃) (by omega) n 0x8000001000 0x50001000 0x6
  have hpath : (spaceForest p4Table (insert n ∅)).Path n [(VPage.of 0x8000001000).pml4] :=
    spaceForest_path hn hslot'
  obtain ⟨-, ⟨-, hlook₄⟩ | ⟨hbad, -⟩⟩ := hs₃.wf.vmmMap_lookup 0x50001000
    (Eq.refl (VPage.of 0x8000001000)) hpath (show LowFlags 0x6 by decide) fun _ x hx =>
      hs₃.lookup_small hn hslot' hx
  swap
  · omega
  set m₄ := vmmMap m₃ n 0x8000001000 0x50001000 0x6
  have hkernel : p4Table ≠ n := Ne.symm (hs₂.ne_kernel hn)
  have hhuge : HugeAt m₄ p4Table 0x8000000000 := by
    refine (hugeAt_congr (Machine.Wf.pageLookup_of_tables spaceForest_path_kernel
      (hkeep₄ p4Table hkernel))).mpr ?_
    exact (hugeAt_congr (Machine.Wf.pageLookup_of_tables spaceForest_path_kernel
      (hkeep₃ p4Table hkernel))).mpr hhuge₂
  have hmapped : pageLookup m₄ n (VPage.of 0x8000001000) = some (smallMapping 0x50001000 0x6) := by
    rw [hlook₄ n _ hpath, if_neg (by decide), if_pos ⟨rfl, rfl⟩]
  refine ⟨bootPool (smallPmm 16), m₄, n, ⟨⟨?_, ?_⟩, by decide, by decide, by decide, ?_⟩, ?_⟩
  · rw [hs₄.current]
    exact hs₄.wf
  · rw [hs₄.current]
    exact hs₄.shared n hn
  · intro v w hv hh
    -- the space has no huge page there
    have hv0 : (VPage.of v).pml4 ≠ 0 := by
      intro hz
      have hval := VPage.pml4_of_val v
      rw [hz] at hval
      have h1 : (0x8000000000 : Word).toNat = 549755813888 := rfl
      have h2 : (0x2000 : Word).toNat = 8192 := rfl
      have h3 : (0 : Fin 512).val = 0 := rfl
      unfold InRange at hv
      omega
    unfold HugeAt at hh
    rw [Option.any_eq_true] at hh
    obtain ⟨x, hx, hxh⟩ := hh
    have := hs₄.lookup_small hn hv0 hx
    rw [hxh] at this
    cases this
  · intro hstops
    have hvisit := hstops 0x1000 (by decide) (by decide) (by
      show pageLookup m₄ n (VPage.of 0x8000001000) ≠ none
      rw [hmapped]
      simp) (by
      show ¬ (pageLookup m₄ n (VPage.of 0x8000001000)).any Mapping.huge = true
      rw [hmapped]
      decide)
    have hskip : unmapSkip m₄ 0x8000000000 0 = 2097152 := by
      refine if_pos ?_
      rw [hs₄.current]
      exact hhuge
    have := hvisit.apart (.start (by decide)) (by decide)
    omega

/-- **The second page stays mapped**: the loop looks at the kernel's huge page
    and goes on 2 MiB further. -/
theorem unmap_range_skips_page :
    ¬ ∀ (pool : Finset Nat) (m : Machine) (root virt size : Word), UnmapRequest pool root virt size m →
      ∃ m' bound, (∀ fuel, bound < fuel → vmmUnmapRange fuel m root virt size = some m') ∧
        (∀ v, Canonical v → ¬ InRange virt size.toNat v →
          pageLookup m' root (VPage.of v) = pageLookup m root (VPage.of v)) ∧
        ∀ v, InRange virt size.toNat v → pageLookup m' root (VPage.of v) = none := by
  intro hall
  obtain ⟨pool, m, root, hreq, hnot⟩ := two_pages_beside_huge
  obtain ⟨m₁, bound₁, hrun₁, -, hgone⟩ := hall pool m root _ _ hreq
  obtain ⟨m₂, bound₂, n, hrun₂, hge, hinv⟩ := vmmUnmapRange_returns hreq
  have hsame : m₁ = m₂ := by
    have h₁ := hrun₁ (bound₁ + bound₂ + 1) (by omega)
    have h₂ := hrun₂ (bound₁ + bound₂ + 1) (by omega)
    exact Option.some.inj (h₁.symm.trans h₂)
  rw [hsame] at hgone
  exact hnot ((hinv.unmapped_iff hreq hge).mp hgone)

/-- The same two pages. -/
theorem unmap_range_iff_two_pages : ∃ (m : Machine) (root : Word), ∃ m' bound,
    (∀ fuel, bound < fuel → vmmUnmapRange fuel m root 0x8000000000 0x2000 = some m') ∧
      (∀ v, Canonical v → ¬ InRange 0x8000000000 (0x2000 : Word).toNat v →
        pageLookup m' root (VPage.of v) = pageLookup m root (VPage.of v)) ∧
      ((∀ v, InRange 0x8000000000 (0x2000 : Word).toNat v →
        pageLookup m' root (VPage.of v) = none) ↔
          StopsAtEveryPage m root 0x8000000000 0x2000) := by
  obtain ⟨pool, m, root, hreq, -⟩ := two_pages_beside_huge
  exact ⟨m, root, unmap_range_iff hreq⟩

end ZohoOs
