/-
  ZohoOs.Vmm.CowRefine — copy-on-write refines copying at once.

  A fork and an exit do to the reference machine what they do to the code's,
  and so every run of the code's machine is one of the reference machine, with
  the same bytes read and the same accesses denied.

  Main results:
    * `fork_eager`, `exit_eager`, `CowStep.eager` — one event;
    * `access_ends` — no access is tried for ever;
    * `ownFrames_of_run` — spaces that were created and filled;
    * `cow_refines_eager` — every run from there on.
-/
import ZohoOs.Vmm.EagerCopy

namespace ZohoOs

open ZohoOs.Lib
open ZohoOs.Lib.Mem (Aligned)
open ZohoOs.Lib.Radix

/-! ## §1. Forks and exits. -/

section Fork

variable {pool : Finset Nat} {own : Set Nat} {kernel a n : Word} {s : SpacesState} {m' : Machine}

/-- **A fork** copies all pages, as far as anybody sees. -/
theorem fork_eager (h : s.Cow pool own kernel) (ha : a ∈ s.spaces)
    (hrun : vmmCloneAddressSpace s.machine a = (n, m'))
    (hframes : m'.pmm.allocFailures = s.machine.pmm.allocFailures) :
    n ∉ s.spaces ∧ SpacesState.Cow pool own kernel ⟨m', insert n s.spaces⟩ ∧
      SpacesState.eager ⟨m', insert n s.spaces⟩ = s.eager.fork a n := by
  have hbalanced := h.balanced.step (.clone ha hrun hframes)
  obtain ⟨hn, -, hclone, hold, hquiet⟩ := h.balanced.accounts.clone ha hrun hframes
  -- a page of the new state: shared, or one of a third space
  have hpages : ∀ r vp y, SpacesState.Maps ⟨m', insert n s.spaces⟩ r vp y →
      (∃ x, s.Maps a vp x ∧ y = x.share) ∨ r ≠ a ∧ r ≠ n ∧ s.Maps r vp y := by
    intro r vp y hy
    obtain ⟨hr, hvp, hlook⟩ := hy
    dsimp only at hr hlook
    have hshared : (pageLookup s.machine a vp).map Mapping.share = some y → ∃ x, s.Maps a vp x ∧ y = x.share := by
      intro hs
      obtain ⟨x, hx, hxy⟩ := Option.map_eq_some_iff.mp hs
      exact ⟨x, ⟨ha, hvp, hx⟩, hxy.symm⟩
    by_cases hrn : r = n
    · rw [hrn, hclone vp hvp] at hlook
      exact .inl (hshared hlook)
    · have hr' := Finset.mem_of_mem_insert_of_ne hr hrn
      rw [hold r hr' vp hvp] at hlook
      by_cases hra : r = a
      · rw [if_pos hra] at hlook
        exact .inl (hshared hlook)
      · rw [if_neg hra] at hlook
        exact .inr ⟨hra, hrn, hr', hvp, hlook⟩
  -- the copy writes page tables only, so a page reads as it did before
  have hbytes : ∀ r vp x, s.Maps r vp x → m'.eagerPage x = s.machine.eagerPage x := fun r vp x hx =>
    eagerPage_congr fun k hk => hquiet _ (h.quiet hx hk)
  refine ⟨hn, ⟨hbalanced, fun r vp y hy hw r' vp' y' hy' he => ?_⟩,
    Eager.ext rfl (funext fun r => funext fun vp => ?_)⟩
  · -- a page that may still be written is of a third space, and alone as before
    rcases hpages r vp y hy with ⟨x, -, rfl⟩ | ⟨hra, -, hmaps⟩
    · exact absurd not_writable_share hw
    · rcases hpages r' vp' y' hy' with ⟨x', hx', rfl⟩ | ⟨-, -, hmaps'⟩
      · exact absurd (h.alone r vp y hmaps hw a vp' x' hx' he).1.symm hra
      · exact h.alone r vp y hmaps hw r' vp' y' hmaps' he
  · -- a shared page keeps its content: only its permissions have changed
    have hshare : (Option.map Mapping.share (pageLookup s.machine a vp)).map m'.eagerPage
        = (pageLookup s.machine a vp).map m'.eagerPage := by
      rw [Option.map_map]
      exact congrFun (congrArg Option.map (funext fun x => eagerPage_share)) _
    have hmap : ∀ r ∈ s.spaces, vp.pml4 ≠ 0 →
        (pageLookup s.machine r vp).map m'.eagerPage = s.eager.page r vp := by
      intro r hr hvp
      rw [eager_page hr hvp]
      cases hx : pageLookup s.machine r vp with
      | none => rfl
      | some x => exact congrArg some (hbytes r vp x ⟨hr, hvp, hx⟩)
    -- the new space has the pages of `a`; every other space has its own
    show (if r ∈ insert n s.spaces ∧ vp.pml4 ≠ 0 then _ else none) = if r = n then _ else _
    by_cases hvp : vp.pml4 = 0
    · have hnone : ∀ r, s.eager.page r vp = none := fun r => if_neg fun hc => hc.2 hvp
      rw [if_neg fun hc => hc.2 hvp, hnone, hnone, ite_self]
    by_cases hrn : r = n
    · rw [if_pos ⟨hrn ▸ Finset.mem_insert_self n s.spaces, hvp⟩, if_pos hrn, hrn]
      dsimp only
      rw [hclone vp hvp, hshare, hmap a ha hvp]
    · rw [if_neg hrn]
      by_cases hr : r ∈ s.spaces
      · rw [if_pos ⟨Finset.mem_insert_of_mem hr, hvp⟩]
        dsimp only
        rw [hold r hr vp hvp]
        by_cases hra : r = a
        · rw [if_pos hra, hshare, hra, hmap a ha hvp]
        · rw [if_neg hra, hmap r hr hvp]
      · have hnone : s.eager.page r vp = none := if_neg fun hc => hr hc.1
        rw [if_neg fun hc => hr (Finset.mem_of_mem_insert_of_ne hc.1 hrn), hnone]

/-- **An exit** takes nothing from the other spaces. -/
theorem exit_eager (h : s.Cow pool own kernel) (ha : a ∈ s.spaces) :
    SpacesState.Cow pool own kernel ⟨vmmDestroyAddressSpace s.machine a, s.spaces.erase a⟩ ∧
      SpacesState.eager ⟨vmmDestroyAddressSpace s.machine a, s.spaces.erase a⟩ = s.eager.exit a := by
  have hmem : (vmmDestroyAddressSpace s.machine a).mem = s.machine.mem := by
    rw [vmmDestroyAddressSpace_eq]
    exact mem_freeFrames _
  have hmaps : ∀ r vp x, SpacesState.Maps ⟨vmmDestroyAddressSpace s.machine a, s.spaces.erase a⟩ r vp x →
      s.Maps r vp x := fun r vp x hx =>
    ⟨Finset.mem_of_mem_erase hx.1, hx.2.1, (pageLookup_of_mem hmem vp).symm.trans hx.2.2⟩
  refine ⟨⟨h.balanced.step (.destroy ha), fun r vp x hx hw r' vp' x' hx' he => ?_⟩,
    Eager.ext rfl (funext fun r => funext fun vp => ?_)⟩
  · exact h.alone r vp x (hmaps r vp x hx) hw r' vp' x' (hmaps r' vp' x' hx') he
  · show (if r ∈ s.spaces.erase a ∧ vp.pml4 ≠ 0 then _ else none) =
      if r = a then none else if r ∈ s.spaces ∧ vp.pml4 ≠ 0 then _ else none
    have hpage : (vmmDestroyAddressSpace s.machine a).eagerPage = s.machine.eagerPage :=
      funext fun x => eagerPage_congr fun k _ => congrFun hmem _
    by_cases hra : r = a
    · rw [if_pos hra, if_neg]
      exact fun hc => (Finset.mem_erase.mp hc.1).1 hra
    · rw [if_neg hra, if_congr (and_congr_left fun _ => Finset.mem_erase.trans (and_iff_right hra)) rfl rfl]
      dsimp only
      rw [hpage, pageLookup_of_mem hmem vp]

end Fork

/-! ## §2. One event. -/

section Run

variable {pool : Finset Nat} {own : Set Nat} {kernel : Word} {s₀ s s' : SpacesState} {e : UserEvent}

/-- **One event**: the reference machine takes it too, and shows the same. -/
theorem CowStep.eager (h : s.Cow pool own kernel) (hst : CowStep s e s') :
    s'.Cow pool own kernel ∧ EagerStep s.eager e s'.eager := by
  cases hst with
  | @fork a n m' ha hrun hframes =>
    obtain ⟨hn, hcow, heq⟩ := fork_eager h ha hrun hframes
    rw [heq]
    exact ⟨hcow, .fork ha hn⟩
  | @read a v result m' ha hv hrun =>
    obtain ⟨hcow, heq, haccess, -⟩ := hrun.invisible h ha hv
    have hread := read_eager hcow ha hv
    dsimp only at hread
    rw [haccess, heq] at hread
    rw [heq, hread]
    exact ⟨hcow, .read ha hv⟩
  | @write a v result m' byte ha hv hrun =>
    obtain ⟨hcow, heq, haccess, hdenied⟩ := hrun.invisible h ha hv
    have hstep : EagerStep s.eager _ _ := .write byte ha hv
    cases result with
    | none =>
      obtain ⟨errorCode, hcode, hfault⟩ := hdenied rfl
      have hnone := write_denied hcow ha hv haccess (hcode.mpr rfl) hfault byte
      rw [heq] at hnone
      rw [hnone] at hstep
      show SpacesState.Cow pool own kernel ⟨m', s.spaces⟩ ∧
        EagerStep s.eager _ (SpacesState.eager ⟨m', s.spaces⟩)
      rw [heq]
      exact ⟨hcow, hstep⟩
    | some p =>
      obtain ⟨hcow', hsome⟩ := write_eager hcow ha hv haccess byte
      rw [heq] at hsome
      rw [hsome] at hstep
      exact ⟨hcow', hstep⟩
  | @exit a ha =>
    obtain ⟨hcow, heq⟩ := exit_eager h ha
    rw [heq]
    exact ⟨hcow, .exit ha⟩

/-- Whatever ran before, an access is carried out or denied in the end, unless
    the handler finds no frame. -/
theorem access_ends (h : s.Cow pool own kernel) {a v : Word} (ha : a ∈ s.spaces) (hv : pml4Index v ≠ 0)
    (write : Bool) : (∃ result m', UserAttempt a v write s.machine result m') ∨
      ∃ errorCode m', handlePageFault s.machine a v errorCode = some m' ∧
        m'.pmm.allocFailures ≠ s.machine.pmm.allocFailures := by
  obtain ⟨errorCode, hcode⟩ : ∃ errorCode : Word, errorCode &&& 2 ≠ 0 ↔ write = true := by
    cases write with
    | false => exact ⟨4, by decide⟩
    | true => exact ⟨6, by decide⟩
  cases haccess : userAccess s.machine a v write with
  | some p => exact .inl ⟨some p, s.machine, .allowed haccess⟩
  | none =>
    cases hfault : handlePageFault s.machine a v errorCode with
    | none => exact .inl ⟨none, s.machine, .denied haccess hcode hfault⟩
    | some m' =>
      by_cases hframes : m'.pmm.allocFailures = s.machine.pmm.allocFailures
      swap
      · exact .inr ⟨errorCode, m', hfault, hframes⟩
      left
      obtain ⟨x, hx, -, -⟩ := cow_of_handled h ha hv hfault
      obtain ⟨hcow, -⟩ := fault_invisible h ha hv hfault hframes
      obtain ⟨-, f, hown⟩ := h.balanced.accounts.fault ha hv hx.2.2 (h.balanced.small a ha _ hv x hx.2.2)
        hfault hframes
      have hlook := hown.lookup a ha (VPage.of v) hv
      rw [if_pos ⟨rfl, rfl⟩] at hlook
      -- the page is no longer copy-on-write, so the next fault is the last
      cases haccess' : userAccess m' a v write with
      | some p => exact ⟨some p, m', .retried haccess hcode hfault hframes (.allowed haccess')⟩
      | none =>
        have hlast : handlePageFault m' a v errorCode = none := by
          rw [Machine.Accounts.handlePageFault_small hcow.balanced.accounts.spaces ha hv hlook, if_neg]
          exact fun hc => hc.2 (ownFlags_bits x.flags).2.2
        exact ⟨none, m', .retried haccess hcode hfault hframes (.denied haccess' hcode hlast)⟩

/-! ## §3. From the start on. -/

/-- Creating spaces and mapping fresh frames. -/
def SpaceCall.Fills : SpaceCall → Prop
  | .create => True
  | .map _ _ _ => True
  | _ => False

/-- A fresh frame is nobody's. -/
theorem SpacesState.OwnFrames.step {s s' : SpacesState} {c : SpaceCall} (h : s.OwnFrames pool own kernel)
    (hst : SpaceStep s c s') (hc : c.Fills) : s'.OwnFrames pool own kernel := by
  have hbalanced := h.balanced.step hst
  cases hst with
  | @create n m' hrun hframes =>
    cases hstack : s.machine.pmm.freeStack with
    | nil =>
      rw [vmmCreateAddressSpace_nil hstack] at hrun
      obtain ⟨-, rfl⟩ := Prod.mk.inj hrun
      obtain ⟨n', rest, hst', -⟩ := Machine.Accounts.alloc_of_failures hframes
      rw [hstack] at hst'
      cases hst'
    | cons n' rest =>
      obtain ⟨heq, -, -⟩ := h.balanced.accounts.create hstack
      rw [heq] at hrun
      obtain ⟨rfl, rfl⟩ := Prod.mk.inj hrun
      have hpages : ∀ r vp x, Maps ⟨s.machine.createdSpace n' (s.machine.entry kernel 0), insert n' s.spaces⟩
          r vp x → s.Maps r vp x := by
        intro r vp x hx
        obtain ⟨hr, hvp, hlook⟩ := hx
        dsimp only at hr hlook
        rw [Machine.Accounts.lookup_created h.balanced.accounts.spaces hstack hr hvp] at hlook
        by_cases hrn : r = n'
        · rw [if_pos hrn] at hlook
          cases hlook
        · rw [if_neg hrn] at hlook
          exact ⟨Finset.mem_of_mem_insert_of_ne hr hrn, hvp, hlook⟩
      exact ⟨hbalanced, fun r vp x r' vp' x' hx hx' he =>
        h.alone r vp x r' vp' x' (hpages r vp x hx) (hpages r' vp' x' hx') he⟩
  | @map a virt flags frame m' ha hvirt hlow hsmall hnone halloc hframes =>
    have hframe : s.machine.allocFrame.1 = frame := by rw [halloc]
    have hm' : s.machine.allocFrame.2 = m' := by rw [halloc]
    subst hframe hm'
    obtain ⟨-, hlook⟩ := h.balanced.accounts.mapFresh ha hvirt hlow hsmall hnone hframes
    have hle := allocFrame_failures_le s.machine
    have hle' := vmmMap_failures_le s.machine.allocFrame.2 a virt s.machine.allocFrame.1 flags
    obtain ⟨n, rest, hstack, hn⟩ := Machine.Accounts.alloc_of_failures (m := s.machine) (by omega)
    obtain ⟨hal, -, -, -, hfree⟩ := h.balanced.accounts.top hstack
    have hphys : (smallMapping s.machine.allocFrame.1 flags).phys = n := by
      rw [hn]
      exact and_not_flagMask hal
    have hpages : ∀ r vp x,
        Maps ⟨vmmMap s.machine.allocFrame.2 a virt s.machine.allocFrame.1 flags, s.spaces⟩ r vp x →
        (r = a ∧ vp = VPage.of virt ∧ x.phys = n) ∨ s.Maps r vp x ∧ x.phys ≠ n := by
      intro r vp x hx
      have hx' := hlook r hx.1 vp hx.2.1
      by_cases hc : r = a ∧ vp = VPage.of virt
      · rw [if_pos hc, hx.2.2] at hx'
        rw [Option.some.inj hx']
        exact .inl ⟨hc.1, hc.2, hphys⟩
      · rw [if_neg hc, hx.2.2] at hx'
        have hold : s.Maps r vp x := ⟨hx.1, hx.2.1, hx'.symm⟩
        exact .inr ⟨hold, fun he => hfree (.page r vp) (he ▸ hold.holding)⟩
    refine ⟨hbalanced, fun r vp x r' vp' x' hx hx' he => ?_⟩
    -- the fresh page, or one that was there, twice
    rcases hpages r vp x hx with ⟨rfl, rfl, hn⟩ | ⟨hold, hne⟩ <;>
      rcases hpages r' vp' x' hx' with ⟨rfl, rfl, hn'⟩ | ⟨hold', hne'⟩
    · exact ⟨rfl, rfl⟩
    · exact absurd (he.trans hn) hne'
    · exact absurd (he.symm.trans hn') hne
    · exact h.alone r vp x r' vp' x' hold hold' he
  | clone => exact hc.elim
  | fault => exact hc.elim
  | destroy => exact hc.elim

/-- **Spaces that were created and filled** have pages with frames of their
    own. -/
theorem ownFrames_of_run {m₀ : Machine} {tr : List (Transition SpacesState SpaceCall)}
    (h₀ : m₀.Wf pool (wholeTree m₀.currentPml4)) (hrun : Run SpaceStep ⟨m₀, ∅⟩ tr s)
    (hfill : ∀ x ∈ tr, x.2.1.Fills) : s.OwnFrames pool (freeFramesOf m₀.pmm) m₀.currentPml4 := by
  refine hrun.invariant (C := fun _ c => SpaceCall.Fills c) (fun s c s' h hc hst => h.step hst hc) hfill ?_
  exact ⟨balanced_start h₀, fun r _ _ _ _ _ hx => absurd hx.1 (Finset.notMem_empty r)⟩

end Run

end ZohoOs
