/-
  ZohoOs.Vmm.CloneBalance — a clone keeps the accounts of the address spaces.

  The walk takes a frame for every table of the clone and counts every page
  it shares once more.  `CloneBooked` adds the accounts to what is known in
  the middle of the walk, and `cloneLoop_booked` goes through the loops: an
  allocation that failed would show in the count of failures at the end.
-/
import ZohoOs.Vmm.Balance

namespace ZohoOs

open ZohoOs.Lib
open ZohoOs.Lib.Mem (Aligned)
open ZohoOs.Lib.Radix

/-! ## §1. Sharing a page. -/

namespace Machine.Accounts

variable {pool : Finset Nat} {own : Set Nat} {kernel a t : Word} {roots : Finset Word} {m : Machine}
  {vp : VPage}

/-- **Sharing a page**: the clone's page is one more holder, and the allocator
    counts it. -/
theorem share {b s : Word} (h : m.Accounts pool own kernel roots noExtra) (ha : a ∈ roots) (hb : b ∈ roots)
    (hvp : vp.pml4 ≠ 0) (hs : m.TableOf (spaceForest kernel roots) a vp.ptPath s)
    (ht : m.TableOf (spaceForest kernel roots) b vp.ptPath t) (hp : Present (m.entry s vp.pt))
    (hz : m.entry t vp.pt = 0) :
    (shareEntry flagMask s t m vp.pt).Accounts pool own kernel roots noExtra := by
  have hc : Covers flagMask := covers_of_pageMask (d := 3) (e := m.entry s vp.pt) rfl
  have hpres := present_sharedEntry hc hp
  have haddr := sharedEntry_addr hc hp
  set phys := m.entry s vp.pt &&& ~~~flagMask with hphys
  set e := sharedEntry flagMask (m.entry s vp.pt)
  have hsrc : holding roots m (.page a vp) = some phys := by
    rw [holding_page, if_pos ⟨ha, hvp⟩, pageLookup_of_pt hs.2, if_pos hp]
    rfl
  have hdst : holding roots m (.page b vp) = none := by
    rw [holding_page, if_pos ⟨hb, hvp⟩, pageLookup_of_pt ht.2, hz, if_neg not_present_zero]
    rfl
  have hown := h.held_own _ _ hsrc
  -- the count first: it is about the allocator alone
  have h₁ := h.refInc hsrc (show (0 : Nat) < 2 ^ 31 by decide)
  have hsame₁ : holding roots (m.refInc phys) = holding roots m := holding_congr (fun _ _ _ _ => rfl)
    fun _ _ _ _ => rfl
  -- then the source's entry, which stays with its frame
  obtain ⟨m₂, hm₂, h₂, hsame₂, ht₂⟩ : ∃ m₂,
      m₂ = (if (m.entry s vp.pt &&& flagMask) &&& pageWritable ≠ 0 then (m.refInc phys).setEntry s vp.pt e else m.refInc phys) ∧
      m₂.Accounts pool own kernel roots (plusOne noExtra phys) ∧ holding roots m₂ = holding roots m ∧
      m₂.TableOf (spaceForest kernel roots) b vp.ptPath t := by
    by_cases hw : (m.entry s vp.pt &&& flagMask) &&& pageWritable ≠ 0
    · obtain ⟨hnew, hrest⟩ := holding_setPte h₁.spaces ha hvp hs hpres
      have hsame : holding roots ((m.refInc phys).setEntry s vp.pt e) = holding roots (m.refInc phys) := by
        funext y
        by_cases hy : y = .page a vp
        · rw [hy, hnew, haddr, hsame₁, hsrc]
        · exact hrest y hy
      refine ⟨_, (if_pos hw).symm, ?_, hsame.trans hsame₁, ?_⟩
      · exact h₁.setPte ha hvp hs hpres (by rw [haddr]; exact hown) fun a => by rw [hsame]
      · exact ((h₁.spaces.setPte (i := vp.pt) hs (by simp [VPage.ptPath]) (.inl hpres)).2 _ _ _).mpr ht
    · exact ⟨_, (if_neg hw).symm, h₁, hsame₁, ht⟩
  -- and the clone's, which takes the reference
  have heq : shareEntry flagMask s t m vp.pt = m₂.setEntry t vp.pt e := by
    rw [shareEntry_eq, hm₂]
    split <;> rfl
  obtain ⟨hnew, hrest⟩ := holding_setPte h₂.spaces hb hvp ht₂ hpres
  rw [haddr] at hnew
  rw [← hsame₂] at hdst
  rw [heq]
  refine h₂.setPte hb hvp ht₂ hpres (by rw [haddr]; exact hown) fun a => ?_
  rw [uses_take (finitelyHeld_holding roots m₂) hdst hnew hrest a]
  simp only [plusOne, noExtra]
  omega

end Machine.Accounts

/-! ## §2. Failed allocations are counted. -/

theorem allocFailures_shareEntry (mask s t : Word) (m : Machine) (i : Fin 512) :
    (shareEntry mask s t m i).pmm.allocFailures = m.pmm.allocFailures := by
  have hinc : ∀ (p : Pmm) (a : Word), (pmmRefInc p a).allocFailures = p.allocFailures := by
    intro p a
    simp only [pmmRefInc]
    split <;> rfl
  rw [shareEntry_eq]
  refine (hinc _ _).trans ?_
  show (if _ then _ else m : Machine).pmm.allocFailures = _
  split <;> rfl

theorem cloneTurn_failures_le {below : Word → Word → List Word → CloneState → CloneState}
    (hbelow : ∀ s t l x, x.1.pmm.allocFailures ≤ (below s t l x).1.pmm.allocFailures) {d : Nat}
    {src dst : Word} {above : List Word} (x : CloneState) (i : Fin 512) :
    x.1.pmm.allocFailures ≤ (cloneTurn below d src dst above x i).1.pmm.allocFailures := by
  by_cases hp : Present (x.1.entry src i)
  · cases hm : pageMask d (x.1.entry src i) with
    | some mask =>
      rw [cloneTurn_page hp hm]
      exact (allocFailures_shareEntry mask src dst x.1 i).ge
    | none =>
      rw [cloneTurn_table hp hm]
      exact (ensureNextTable_failures_le x.1 dst i).trans
        (hbelow _ _ _ ((ensureNextTable x.1 dst i).2, x.2))
  · rw [cloneTurn_absent hp]

/-- The loops of a clone count their failed allocations. -/
theorem cloneLoop_failures_le (n d : Nat) (src dst : Word) (above : List Word) (x : CloneState) :
    x.1.pmm.allocFailures ≤ (cloneLoop n d src dst above x).1.pmm.allocFailures := by
  induction n generalizing d src dst above x with
  | zero => exact Nat.le_refl _
  | succ n ih =>
    rw [cloneLoop]
    refine foldl_preserves (fun y : CloneState => x.1.pmm.allocFailures ≤ y.1.pmm.allocFailures)
      (Nat.le_refl _) fun i _ y hy => ?_
    exact hy.trans (cloneTurn_failures_le (fun s t l x => ih (d + 1) s t l x) y i)

/-! ## §3. In the middle of the walk. -/

/-- A slot of a page table is a page. -/
theorem VPage.exists_ptPath {p : List (Fin 512)} (hlen : p.length = 3) (i : Fin 512) :
    ∃ vp : VPage, vp.ptPath = p ∧ vp.pt = i := by
  match p, hlen with
  | [k, j, l], _ => exact ⟨⟨l, j, k, i⟩, rfl, rfl⟩

/-- A part of the walk that got every frame it asked for. -/
structure CloneBooked (pool : Finset Nat) (own : Set Nat) (kernel : Word) (roots : Finset Word) (a b : Word)
    (m₀ : Machine) (D : Set (List (Fin 512))) (x y : CloneState) : Prop where
  cloning : Cloning (spaceForest kernel roots) a b m₀ D y.1
  kept : ∀ q u, x.1.TableOf (spaceForest kernel roots) b q u →
    y.1.TableOf (spaceForest kernel roots) b q u
  accounts : y.1.Accounts pool own kernel roots noExtra
  quiet : ∀ w, x.1.QuietIn (spaceForest kernel roots) w →
    y.1.mem w = x.1.mem w ∧ y.1.QuietIn (spaceForest kernel roots) w

section Walk

variable {pool : Finset Nat} {own : Set Nat} {kernel a b s t : Word} {roots : Finset Word} {m₀ : Machine}
  {D : Set (List (Fin 512))} {x : CloneState} {p : List (Fin 512)} {i : Fin 512} {n : Nat}
  {above : List Word}

/-- **One turn**, when the loop below does its part. -/
theorem cloneTurn_booked (h : Cloning (spaceForest kernel roots) a b m₀ D x.1)
    (hacc : x.1.Accounts pool own kernel roots noExtra) (hab : a ≠ b) (ha : a ∈ roots) (hb : b ∈ roots)
    (hs : m₀.TableOf (spaceForest kernel roots) a p s)
    (ht : x.1.TableOf (spaceForest kernel roots) b p t) (hi : i ∈ pageSlots p.length)
    (hD : ∀ y ∈ through (i :: p), y ∉ D) (hn : n + (p.length + 1) = 4) (h0 : 0 ∉ above)
    (hbelow : ∀ s' t' D' (x' : CloneState), Cloning (spaceForest kernel roots) a b m₀ D' x'.1 →
      x'.1.Accounts pool own kernel roots noExtra → m₀.TableOf (spaceForest kernel roots) a (i :: p) s' →
      x'.1.TableOf (spaceForest kernel roots) b (i :: p) t' →
      (∀ j ∈ pageSlots (i :: p).length, ∀ y ∈ through (j :: i :: p), y ∉ D') →
      (cloneLoop n (i :: p).length s' t' (t :: above) x').1.pmm.allocFailures = x'.1.pmm.allocFailures →
      CloneBooked pool own kernel roots a b m₀ (D' ∪ throughSlots (i :: p) (pageSlots (i :: p).length)) x'
        (cloneLoop n (i :: p).length s' t' (t :: above) x'))
    (hfail : (cloneTurn (cloneLoop n (p.length + 1)) p.length s t above x i).1.pmm.allocFailures
      = x.1.pmm.allocFailures) :
    CloneBooked pool own kernel roots a b m₀ (D ∪ through (i :: p)) x
      (cloneTurn (cloneLoop n (p.length + 1)) p.length s t above x i) := by
  have hka := hacc.spaces.ne_kernel ha
  have hkb := hacc.spaces.ne_kernel hb
  have hslots : ∀ r, userSlots ⊆ (spaceForest kernel roots).slots r := by
    intro r j hj
    unfold spaceForest
    by_cases hr : r = kernel
    · simp [hr]
    · simpa [hr] using hj
  have hse : x.1.entry s i = m₀.entry s i := h.kept a hab p s i hs fun _ => hD _ List.suffix_rfl
  have hz : x.1.entry t i = 0 := h.fresh p t i ht hi (hD _ List.suffix_rfl)
  have hsx : x.1.TableOf (spaceForest kernel roots) a p s := (h.tables a hab p s).mpr hs
  have hi0 : p = [] → i ≠ 0 := fun hp => Cloning.slot_user hi hp
  by_cases hp : Present (m₀.entry s i)
  · cases hm : pageMask p.length (m₀.entry s i) with
    | some mask =>
      have hw := cloneTurn_page_spec (n := n) h hab hs ht hi hD h0 hp hm
      -- a space has 4 KiB pages only
      obtain ⟨hlen, rfl⟩ : p.length = 3 ∧ mask = flagMask := by
        unfold pageMask at hm
        split at hm
        · rename_i hd
          cases hm
          exact ⟨hd, rfl⟩
        · split at hm
          · rename_i hd hh
            rw [← hse] at hh
            exact absurd hh.2 (hacc.spaces.not_huge ha hsx (by omega) hi0)
          · cases hm
      suffices hpart : _ ∧ _ from ⟨hw.cloning, hw.kept, hpart.1, hpart.2⟩
      rw [← hse] at hp hm
      rw [cloneTurn_page hp hm]
      obtain ⟨vp, rfl, rfl⟩ := VPage.exists_ptPath hlen i
      have hvp : vp.pml4 ≠ 0 := fun h0 => (spaceForest_path_iff hacc.spaces.kernel_notMem ha).mp hs.1
        (congrArg some h0)
      obtain ⟨-, htab, -⟩ := h.trees.share hab hsx ht hp hm (pageChild_of_zero hz)
      exact ⟨hacc.share ha hb hvp hsx ht hp hz, fun w hw => hw.share hsx ht fun r q u => (htab r q u).mp⟩
    | none =>
      obtain ⟨hlen, hchild, hleaf⟩ := pageChild_of_mask hp hm (by omega)
      have hpath : (spaceForest kernel roots).Path a (i :: p) := hs.1.cons fun hp => hslots a (hi0 hp)
      have hpathb : (spaceForest kernel roots).Path b (i :: p) := ht.1.cons fun hp => hslots b (hi0 hp)
      have hs' : m₀.TableOf (spaceForest kernel roots) a (i :: p) (m₀.entry s i &&& ~~~flagMask) :=
        ⟨hpath, (tableAt_cons hs.2).trans hchild⟩
      rw [← hse] at hp hm
      rw [cloneTurn_table hp hm, hse] at hfail ⊢
      have hle := cloneLoop_failures_le n (p.length + 1) (m₀.entry s i &&& ~~~flagMask)
        (ensureNextTable x.1 t i).1 (t :: above) ((ensureNextTable x.1 t i).2, x.2)
      have hle' := ensureNextTable_failures_le x.1 t i
      dsimp only at hle
      cases hst : x.1.pmm.freeStack with
      | nil =>
        -- a failed allocation is counted
        have hmore : (ensureNextTable x.1 t i).2.pmm.allocFailures = x.1.pmm.allocFailures + 1 := by
          rw [ensureNextTable_fails hz hst, Machine.allocFrame, pmmAllocFrame_nil hst]
        omega
      | cons n₁ rest =>
        obtain ⟨hens, hnew, hfirst⟩ := cloneTurn_attach_spec h hab (hslots b) hs ht hi hD hlen
          (by rw [hchild]; exact Option.some_ne_none _) hst
        have hacc' : (x.1.attachTable t i n₁).Accounts pool own kernel roots noExtra :=
          hacc.attach hb ht hlen hpathb hz hst
        rw [hens] at hfail hle hle' ⊢
        have hrest := hbelow _ n₁ _ (x.1.attachTable t i n₁, x.2) hfirst.cloning hacc' hs' hnew ?_ ?_
        · rw [← through_eq]
          refine ⟨hrest.cloning, fun q u hu => hrest.kept q u (hfirst.kept q u hu), hrest.accounts, fun w hw => ?_⟩
          obtain ⟨hmem, hq⟩ := hw.attachTable hacc.spaces.wf ht hlen hpathb hz hst
          exact ⟨(hrest.quiet w hq).1.trans hmem, (hrest.quiet w hq).2⟩
        · intro j _ y hy hc
          rcases hc with rfl | hc
          · have hle : (j :: i :: p).length ≤ (i :: p).length := hy.length_le
            rw [List.length_cons] at hle
            omega
          · exact hD y ((List.suffix_cons j (i :: p)).trans hy) hc
        · rw [List.length_cons]
          dsimp only at hfail hle hle' ⊢
          omega
  · have hw : CloneWalked _ a b m₀ _ _ _ x (cloneTurn (cloneLoop n (p.length + 1)) p.length s t above x i) :=
      cloneTurn_absent_spec h hab hs ht hi hD hp
    suffices hpart : _ ∧ _ from ⟨hw.cloning, hw.kept, hpart.1, hpart.2⟩
    rw [cloneTurn_absent (by rw [hse]; exact hp)]
    exact ⟨hacc, fun w hq => ⟨rfl, hq⟩⟩

/-- **The walk of a table.** -/
theorem cloneLoop_booked {y : CloneState} (hy : cloneLoop n p.length s t above x = y)
    (h : Cloning (spaceForest kernel roots) a b m₀ D x.1)
    (hacc : x.1.Accounts pool own kernel roots noExtra) (hab : a ≠ b) (ha : a ∈ roots) (hb : b ∈ roots)
    (hs : m₀.TableOf (spaceForest kernel roots) a p s)
    (ht : x.1.TableOf (spaceForest kernel roots) b p t)
    (hD : ∀ i ∈ pageSlots p.length, ∀ y ∈ through (i :: p), y ∉ D) (hn : n + p.length = 4) (h0 : 0 ∉ above)
    (hfail : y.1.pmm.allocFailures = x.1.pmm.allocFailures) :
    CloneBooked pool own kernel roots a b m₀ (D ∪ throughSlots p (pageSlots p.length)) x y := by
  induction n generalizing D p s t above x y with
  | zero =>
    have hlt := tableAt_length hs.2
    omega
  | succ n ih =>
    rw [cloneLoop] at hy
    subst hy
    have hinv := foldl_invariant (f := cloneTurn (cloneLoop n (p.length + 1)) p.length s t above)
      (l := pageSlots p.length) (s := x) (fun done x' => x.1.pmm.allocFailures ≤ x'.1.pmm.allocFailures ∧
        (x'.1.pmm.allocFailures = x.1.pmm.allocFailures →
          CloneBooked pool own kernel roots a b m₀ (D ∪ throughSlots p done) x x')) ?_ ?_
    · exact hinv.2 hfail
    · have hnil : D ∪ throughSlots p [] = D := by
        ext y
        simp [throughSlots]
      rw [hnil]
      exact ⟨Nat.le_refl _, fun _ => ⟨h, fun _ _ hu => hu, hacc, fun _ hq => ⟨rfl, hq⟩⟩⟩
    · intro done i rest x' hl hx'
      obtain ⟨hle, hbooked⟩ := hx'
      have hstep : x'.1.pmm.allocFailures ≤
          (cloneTurn (cloneLoop n (p.length + 1)) p.length s t above x' i).1.pmm.allocFailures :=
        cloneTurn_failures_le (fun s t l x => cloneLoop_failures_le n (p.length + 1) s t l x) x' i
      refine ⟨hle.trans hstep, fun heq => ?_⟩
      have hw := hbooked (by omega)
      have hi : i ∈ pageSlots p.length := by
        rw [hl]
        simp
      have hset : D ∪ throughSlots p (done ++ [i]) = D ∪ throughSlots p done ∪ through (i :: p) := by
        ext y
        simp [throughSlots, through, or_and_right, exists_or, or_assoc]
      -- the slots already done are others
      have hfree : ∀ y ∈ through (i :: p), y ∉ D ∪ throughSlots p done := by
        intro y hy hc
        rcases hc with hc | ⟨j, hj, hjy⟩
        · exact hD i hi y hy hc
        · have hcons : i :: p = j :: p :=
            (List.suffix_of_suffix_length_le hy hjy (by simp)).eq_of_length (by simp)
          have hnd := nodup_pageSlots p.length
          rw [hl] at hnd
          rw [(List.cons.inj hcons).1] at hnd
          exact (List.nodup_append.mp hnd).2.2 j hj j List.mem_cons_self rfl
      have hturn := @cloneTurn_booked _ _ _ _ _ _ _ _ _ _ _ _ _ n above hw.cloning hw.accounts hab ha hb hs
        (hw.kept p t ht) hi hfree (by omega) h0 ?_ (by omega)
      · rw [hset]
        refine ⟨hturn.cloning, fun q u hu => hturn.kept q u (hw.kept q u hu), hturn.accounts, fun w hq => ?_⟩
        obtain ⟨hmem, hq'⟩ := hw.quiet w hq
        exact ⟨(hturn.quiet w hq').1.trans hmem, (hturn.quiet w hq').2⟩
      · intro s' t' D' x'' hc hacc' hs' ht' hD' hfail'
        have ht0 : (0 : Word) ∉ t :: above := fun hmem =>
          (List.mem_cons.mp hmem).elim (fun he => h.trees.nonzero ht he.symm) h0
        exact ih rfl hc hacc' hs' ht' hD' (by rw [List.length_cons]; omega) ht0 hfail'

end Walk

/-! ## §4. From the new root on. -/

namespace Machine.Accounts

variable {pool : Finset Nat} {own : Set Nat} {kernel r n : Word} {roots : Finset Word} {m m' : Machine}
  {rest : List Word}

theorem cloneRun_failures_le {m : Machine} {src : Word} {y : CloneState} (hy : cloneRun m src = y) :
    (vmmCreateAddressSpace m).2.pmm.allocFailures ≤ y.1.pmm.allocFailures := by
  rw [← hy]
  unfold cloneRun
  exact cloneLoop_failures_le 4 0 src (vmmCreateAddressSpace m).1 [] ((vmmCreateAddressSpace m).2, [])

/-- The walk from a new root. -/
theorem cloneRun_booked (h : m.Accounts pool own kernel roots noExtra) (hr : r ∈ roots)
    (hst : m.pmm.freeStack = n :: rest) {y : CloneState} (hy : cloneRun m r = y)
    (hfail : y.1.pmm.allocFailures = m.pmm.allocFailures) :
    r ≠ n ∧ CloneBooked pool own kernel (insert n roots) r n (m.createdSpace n (m.entry kernel 0))
      (∅ ∪ throughSlots [] (pageSlots 0)) (m.createdSpace n (m.entry kernel 0), []) y := by
  obtain ⟨hcreate, hn, hacc⟩ := h.create hst
  obtain ⟨hne, hstart⟩ := cloning_start (.of_wf h.spaces.wf) (Set.mem_insert_of_mem kernel hr) hst
    (m.entry kernel 0)
  have hnk : n ≠ kernel := fun he => hacc.spaces.kernel_notMem (he ▸ Finset.mem_insert_self n roots)
  have hrn : r ∈ insert n roots := Finset.mem_insert_of_mem hr
  have hpmm : (m.createdSpace n (m.entry kernel 0)).pmm.allocFailures = m.pmm.allocFailures := by
    rw [pmm_createdSpace, pmmAllocFrame_cons hst]
  rw [spaceForest_addRoot hnk] at hstart
  rw [cloneRun, hcreate] at hy
  exact ⟨hne, cloneLoop_booked (p := []) (x := (m.createdSpace n (m.entry kernel 0), [])) hy hstart hacc hne
    hrn (Finset.mem_insert_self n roots)
    ⟨spaceForest_path_nil hrn, rfl⟩ ⟨spaceForest_path_nil (Finset.mem_insert_self n roots), rfl⟩
    (fun _ _ _ _ hy => absurd hy (Set.notMem_empty _)) rfl List.not_mem_nil (hfail.trans hpmm.symm)⟩

/-- **Cloning a space**, from the walk. -/
theorem cloned (h : m.Accounts pool own kernel roots noExtra) (hr : r ∈ roots) {y : CloneState}
    (hy : cloneRun m r = y) (hfail : y.1.pmm.allocFailures = m.pmm.allocFailures) :
    (vmmCreateAddressSpace m).1 ∉ roots ∧
      y.1.Accounts pool own kernel (insert (vmmCreateAddressSpace m).1 roots) noExtra ∧
      (∀ vp : VPage, vp.pml4 ≠ 0 → pageLookup y.1 (vmmCreateAddressSpace m).1 vp
        = (pageLookup m r vp).map Mapping.share) ∧
      (∀ r' ∈ roots, ∀ vp : VPage, vp.pml4 ≠ 0 → pageLookup y.1 r' vp
        = if r' = r then (pageLookup m r vp).map Mapping.share else pageLookup m r' vp) ∧
      ∀ w, m.QuietIn (spaceForest kernel roots) w → y.1.mem w = m.mem w := by
  cases hst : m.pmm.freeStack with
  | nil =>
    -- without a frame for the new P4 the creation fails
    have hle := cloneRun_failures_le hy
    have hmore : (vmmCreateAddressSpace m).2.pmm.allocFailures = m.pmm.allocFailures + 1 := by
      rw [vmmCreateAddressSpace_nil hst, Machine.allocFrame, pmmAllocFrame_nil hst]
    omega
  | cons n rest =>
    obtain ⟨hcreate, hn, hacc⟩ := h.create hst
    obtain ⟨hne, hw⟩ := h.cloneRun_booked hr hst hy hfail
    have hrn : r ∈ insert n roots := Finset.mem_insert_of_mem hr
    have hsame : ∀ r', SameTree (spaceForest kernel roots) r' m (m.createdSpace n (m.entry kernel 0)) :=
      fun r' => sameTree_createdSpace r' (.of_wf h.spaces.wf) hst _
    have hdone : ∀ vp : VPage, vp.pml4 ≠ 0 →
        through [vp.pml4] ⊆ ∅ ∪ throughSlots [] (pageSlots 0) := by
      intro vp hvp y hy
      refine .inr ⟨vp.pml4, mem_pageSlots.mpr fun _ => ?_, hy⟩
      have hv : vp.pml4.val ≠ 0 := fun hz => hvp (Fin.ext hz)
      omega
    have htrees : (m.createdSpace n (m.entry kernel 0)).Trees (spaceForest kernel (insert n roots)) :=
      .of_wf hacc.spaces.wf
    rw [hcreate]
    -- creating the space changes no lookup; the rest is what the clone's walk does
    refine ⟨hn, hw.accounts, fun vp hvp => ?_, fun r' hr' vp hvp => ?_, fun w hq => ?_⟩
    · rw [hw.cloning.lookup_clone htrees (spaceForest_path hrn hvp)
        (spaceForest_path (Finset.mem_insert_self n roots) hvp) (hdone vp hvp),
        (hsame r).lookup_eq (spaceForest_path hr hvp)]
    · by_cases hrr : r' = r
      · subst hrr
        rw [if_pos rfl, hw.cloning.lookup_source htrees hne (spaceForest_path hrn hvp) (hdone vp hvp),
          (hsame r').lookup_eq (spaceForest_path hr hvp)]
      · -- a space that is neither the source nor the clone
        have hr'n : r' ≠ n := fun he => hn (he ▸ hr')
        have hother : SameTree (spaceForest kernel (insert n roots)) r'
            (m.createdSpace n (m.entry kernel 0)) y.1 := fun q u hu j =>
          hw.cloning.kept r' hr'n q u j hu fun he => absurd he hrr
        rw [if_neg hrr, hother.lookup_eq (spaceForest_path (Finset.mem_insert_of_mem hr') hvp),
          (hsame r').lookup_eq (spaceForest_path hr' hvp)]
    · have hnk : n ≠ kernel := fun he => hacc.spaces.kernel_notMem (he ▸ Finset.mem_insert_self n roots)
      obtain ⟨hmem, hq'⟩ := hq.createdSpace h.spaces.wf hst (m.entry kernel 0)
      rw [spaceForest_addRoot hnk] at hq'
      exact (hw.quiet w hq').1.trans hmem

/-- **Cloning a space.** -/
theorem clone (h : m.Accounts pool own kernel roots noExtra) (hr : r ∈ roots)
    (hrun : vmmCloneAddressSpace m r = (n, m')) (hfail : m'.pmm.allocFailures = m.pmm.allocFailures) :
    n ∉ roots ∧ m'.Accounts pool own kernel (insert n roots) noExtra ∧
      (∀ vp : VPage, vp.pml4 ≠ 0 → pageLookup m' n vp = (pageLookup m r vp).map Mapping.share) ∧
      (∀ r' ∈ roots, ∀ vp : VPage, vp.pml4 ≠ 0 → pageLookup m' r' vp
        = if r' = r then (pageLookup m r vp).map Mapping.share else pageLookup m r' vp) ∧
      ∀ w, m.QuietIn (spaceForest kernel roots) w → m'.mem w = m.mem w := by
  rw [vmmCloneAddressSpace_run] at hrun
  obtain ⟨hn, hm'⟩ := Prod.mk.inj hrun
  rw [← hm'] at hfail
  have hclone := h.cloned hr rfl hfail
  rwa [hm', hn] at hclone

end Machine.Accounts

end ZohoOs
