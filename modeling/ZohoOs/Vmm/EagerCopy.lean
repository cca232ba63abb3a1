/-
  ZohoOs.Vmm.EagerCopy — copying all pages of a space at once.

  The reference machine copies all pages when a space is forked, and every
  copy keeps the writability of its page.  `SpacesState.eager` is what the
  code's machine shows of it: a page's bytes are those of its frame, and a page
  is writable when its entry is or when the handler would make it so, which is
  what the copy-on-write bit says.  A handled fault does nothing to the
  reference machine, and an access does the same to both.

  Main results:
    * `fault_invisible` — a handled fault leaves what every space sees;
    * `UserAttempt.invisible` — and so do any number of them;
    * `read_eager`, `write_eager`, `write_denied` — an access that is carried
      out, and one that is denied.
-/
import ZohoOs.Vmm.UserAccess

namespace ZohoOs

open ZohoOs.Lib
open ZohoOs.Lib.Mem (Aligned InPage)
open ZohoOs.Lib.Radix

/-! ## §1. The reference machine. -/

/-- What user programs do, and what they get to see of it: the byte that was
    read, or that the access was denied. -/
inductive UserEvent where
  | fork (space child : Word)
  | read (space virt : Word) (byte : Option (BitVec 8))
  | write (space virt : Word) (byte : BitVec 8) (allowed : Bool)
  | exit (space : Word)
  deriving DecidableEq

/-- A page of the reference machine, with bytes of its own. -/
structure EagerPage where
  bytes : Fin 4096 → BitVec 8
  writable : Bool
  user : Bool

/-- The reference machine. -/
@[ext] structure Eager where
  spaces : Finset Word
  page : Word → VPage → Option EagerPage

/-- The offset of an address in its page. -/
def pageOffset (virt : Word) : Fin 4096 :=
  ⟨(virt &&& flagMask).toNat, by
    rw [flagMask_eq, Word.toNat_and_lowMask virt (by decide)]
    exact Nat.mod_lt _ (by decide)⟩

namespace Eager

/-- All pages of the space are copied. -/
def fork (e : Eager) (space child : Word) : Eager where
  spaces := insert child e.spaces
  page := fun r vp => if r = child then e.page space vp else e.page r vp

/-- The space is gone. -/
def exit (e : Eager) (space : Word) : Eager where
  spaces := e.spaces.erase space
  page := fun r vp => if r = space then none else e.page r vp

/-- The byte at an address of a space; `none` where the read is denied. -/
def read (e : Eager) (space virt : Word) : Option (BitVec 8) :=
  match e.page space (VPage.of virt) with
  | none => none
  | some p => if p.user then some (p.bytes (pageOffset virt)) else none

/-- A byte is written to a page of one space; `none` where that is denied. -/
def write (e : Eager) (space virt : Word) (byte : BitVec 8) : Option Eager :=
  match e.page space (VPage.of virt) with
  | none => none
  | some p =>
      if p.user ∧ p.writable then
        some { e with
          page := fun r vp =>
            if r = space ∧ vp = VPage.of virt then
              some { p with bytes := Function.update p.bytes (pageOffset virt) byte }
            else e.page r vp }
      else none

end Eager

/-- One event of the reference machine, below `PML4[1..511]`. -/
inductive EagerStep : Eager → UserEvent → Eager → Prop
  | fork {e : Eager} {a n : Word} (ha : a ∈ e.spaces) (hn : n ∉ e.spaces) :
      EagerStep e (.fork a n) (e.fork a n)
  | read {e : Eager} {a v : Word} (ha : a ∈ e.spaces) (hv : pml4Index v ≠ 0) :
      EagerStep e (.read a v (e.read a v)) e
  | write {e : Eager} {a v : Word} (byte : BitVec 8) (ha : a ∈ e.spaces) (hv : pml4Index v ≠ 0) :
      EagerStep e (.write a v byte (e.write a v byte).isSome) ((e.write a v byte).getD e)
  | exit {e : Eager} {a : Word} (ha : a ∈ e.spaces) : EagerStep e (.exit a) (e.exit a)

/-! ## §2. The code's machine. -/

/-- One event of the code's machine that finds every frame it asks for: a
    fork, a read or a write of a live space below `PML4[1..511]`, an exit. -/
inductive CowStep : SpacesState → UserEvent → SpacesState → Prop
  | fork {s : SpacesState} {a n : Word} {m' : Machine} (ha : a ∈ s.spaces)
      (hrun : vmmCloneAddressSpace s.machine a = (n, m'))
      (hframes : m'.pmm.allocFailures = s.machine.pmm.allocFailures) :
      CowStep s (.fork a n) ⟨m', insert n s.spaces⟩
  | read {s : SpacesState} {a v : Word} {result : Option Word} {m' : Machine} (ha : a ∈ s.spaces)
      (hv : pml4Index v ≠ 0) (hrun : UserAttempt a v false s.machine result m') :
      CowStep s (.read a v (result.map m'.mem)) ⟨m', s.spaces⟩
  | write {s : SpacesState} {a v : Word} {result : Option Word} {m' : Machine} (byte : BitVec 8)
      (ha : a ∈ s.spaces) (hv : pml4Index v ≠ 0) (hrun : UserAttempt a v true s.machine result m') :
      CowStep s (.write a v byte result.isSome)
        ⟨result.elim m' fun phys => m'.storeByte phys byte, s.spaces⟩
  | exit {s : SpacesState} {a : Word} (ha : a ∈ s.spaces) :
      CowStep s (.exit a) ⟨vmmDestroyAddressSpace s.machine a, s.spaces.erase a⟩

/-- The page `vp` of the live space `r` is mapped as `x`. -/
def SpacesState.Maps (s : SpacesState) (r : Word) (vp : VPage) (x : Mapping) : Prop :=
  r ∈ s.spaces ∧ vp.pml4 ≠ 0 ∧ pageLookup s.machine r vp = some x

/-- What a program sees of a page.  Without the copy-on-write bit it is as
    writable as its entry. -/
def Machine.eagerPage (m : Machine) (x : Mapping) : EagerPage where
  bytes := fun k => m.mem (x.phys + BitVec.ofNat 64 k)
  writable := decide (x.flags &&& (pageWritable ||| pageCow) ≠ 0)
  user := decide (x.flags &&& pageUser ≠ 0)

/-- **The reference machine that the state stands for.** -/
def SpacesState.eager (s : SpacesState) : Eager where
  spaces := s.spaces
  page := fun r vp =>
    if r ∈ s.spaces ∧ vp.pml4 ≠ 0 then (pageLookup s.machine r vp).map s.machine.eagerPage else none

/-- **Between two events**: the accounts are in order, and a page with its
    writable bit set has its frame to itself. -/
structure SpacesState.Cow (pool : Finset Nat) (own : Set Nat) (kernel : Word) (s : SpacesState) : Prop where
  balanced : s.Balanced pool own kernel
  alone : ∀ r vp x, s.Maps r vp x → x.flags &&& pageWritable ≠ 0 →
    ∀ r' vp' x', s.Maps r' vp' x' → x'.phys = x.phys → r' = r ∧ vp' = vp

/-- **At the start** every page has a frame of its own. -/
structure SpacesState.OwnFrames (pool : Finset Nat) (own : Set Nat) (kernel : Word) (s : SpacesState) :
    Prop where
  balanced : s.Balanced pool own kernel
  alone : ∀ r vp x r' vp' x', s.Maps r vp x → s.Maps r' vp' x' → x'.phys = x.phys → r' = r ∧ vp' = vp

/-- **The simulation relation**: the reference machine is what the state shows. -/
def SpacesState.Refines (pool : Finset Nat) (own : Set Nat) (kernel : Word) (s : SpacesState) (e : Eager) : Prop :=
  s.Cow pool own kernel ∧ e = s.eager

theorem SpacesState.OwnFrames.cow {pool : Finset Nat} {own : Set Nat} {kernel : Word} {s : SpacesState}
    (h : s.OwnFrames pool own kernel) : s.Cow pool own kernel :=
  ⟨h.balanced, fun r vp x hx _ r' vp' x' hx' hp => h.alone r vp x r' vp' x' hx hx' hp⟩

/-! ## §3. What the flags say. -/

section Flags

variable {m m' : Machine} {x : Mapping} {v : Word}

/-- A page's bytes are those of its frame. -/
theorem eagerPage_congr (h : ∀ k < 4096, m'.mem (x.phys + BitVec.ofNat 64 k) = m.mem (x.phys + BitVec.ofNat 64 k)) :
    m'.eagerPage x = m.eagerPage x := by
  have hbytes : (fun k : Fin 4096 => m'.mem (x.phys + BitVec.ofNat 64 k))
      = fun k : Fin 4096 => m.mem (x.phys + BitVec.ofNat 64 k) := funext fun k => h k k.isLt
  unfold Machine.eagerPage
  rw [hbytes]

/-- One of two bits is set. -/
theorem and_or_ne_zero {f b c : Word} : f &&& (b ||| c) ≠ 0 ↔ f &&& b ≠ 0 ∨ f &&& c ≠ 0 := by
  rw [BitVec.and_or_distrib_left, Ne, BitVec.ofNat_eq_ofNat, BitVec.or_eq_zero_iff, not_and_or]

/-- **Sharing a page** leaves what is seen of it. -/
theorem eagerPage_share : m.eagerPage x.share = m.eagerPage x := by
  have hwritable : shareFlags x.flags &&& (pageWritable ||| pageCow) ≠ 0 ↔
      x.flags &&& (pageWritable ||| pageCow) ≠ 0 := by
    unfold shareFlags
    by_cases hw : x.flags &&& pageWritable ≠ 0
    · rw [if_pos hw]
      refine iff_of_true (and_or_ne_zero.mpr (.inr fun hz => ?_)) (and_or_ne_zero.mpr (.inl hw))
      rw [BitVec.and_or_distrib_right] at hz
      exact absurd (BitVec.or_eq_zero_iff.mp hz).2 (by decide)
    · rw [if_neg hw]
  have huser : shareFlags x.flags &&& pageUser = x.flags &&& pageUser := shareFlags_and (by decide) (by decide)
  unfold Machine.eagerPage Mapping.share
  dsimp only
  rw [huser, decide_eq_decide.mpr hwritable]

/-- A shared page is not writable. -/
theorem not_writable_share : x.share.flags &&& pageWritable = 0 := by
  show shareFlags x.flags &&& pageWritable = 0
  unfold shareFlags
  by_cases hw : x.flags &&& pageWritable ≠ 0
  · rw [if_pos hw, BitVec.and_or_distrib_right, BitVec.and_assoc,
      show ~~~pageWritable &&& pageWritable = 0#64 by decide, show pageCow &&& pageWritable = 0#64 by decide]
    simp
  · rw [if_neg hw]
    exact not_not.mp hw

/-- The flags of a page after its fault: writable, the user's if it was, and
    no longer copy-on-write. -/
theorem ownFlags_bits (flags : Word) : (ownFlags flags ||| pagePresent) &&& pageWritable ≠ 0 ∧
    (ownFlags flags ||| pagePresent) &&& pageUser = flags &&& pageUser ∧
    (ownFlags flags ||| pagePresent) &&& pageCow = 0 := by
  unfold ownFlags
  refine ⟨?_, ?_, ?_⟩
  · rw [BitVec.and_or_distrib_right, BitVec.and_or_distrib_right, show pageWritable &&& pageWritable = 2#64 by decide]
    intro hz
    exact absurd (BitVec.or_eq_zero_iff.mp (BitVec.or_eq_zero_iff.mp hz).1).2 (by decide)
  · rw [BitVec.and_or_distrib_right, BitVec.and_or_distrib_right, BitVec.and_assoc,
      show ~~~pageCow &&& pageUser = pageUser by decide, show pageWritable &&& pageUser = 0#64 by decide,
      show pagePresent &&& pageUser = 0#64 by decide, BitVec.or_zero, BitVec.or_zero]
  · rw [BitVec.and_or_distrib_right, BitVec.and_or_distrib_right, BitVec.and_assoc,
      show ~~~pageCow &&& pageCow = 0#64 by decide, show pageWritable &&& pageCow = 0#64 by decide,
      show pagePresent &&& pageCow = 0#64 by decide]
    simp

/-- **A page after its fault** shows what it showed, in another frame with the
    same bytes. -/
theorem eagerPage_own {f : Word} (hf : Aligned f) (hcow : x.flags &&& pageCow ≠ 0)
    (hbytes : ∀ k < 4096, m'.mem (f + BitVec.ofNat 64 k) = m.mem (x.phys + BitVec.ofNat 64 k)) :
    m'.eagerPage (smallMapping f (ownFlags x.flags)) = m.eagerPage x := by
  obtain ⟨hw, hu, -⟩ := ownFlags_bits x.flags
  have hsame : (fun k : Fin 4096 => m'.mem ((f &&& ~~~flagMask) + BitVec.ofNat 64 k))
      = fun k : Fin 4096 => m.mem (x.phys + BitVec.ofNat 64 k) := by
    funext k
    rw [and_not_flagMask hf]
    exact hbytes k k.isLt
  have hwritable : (ownFlags x.flags ||| pagePresent) &&& (pageWritable ||| pageCow) ≠ 0 ↔
      x.flags &&& (pageWritable ||| pageCow) ≠ 0 :=
    iff_of_true (and_or_ne_zero.mpr (.inl hw)) (and_or_ne_zero.mpr (.inr hcow))
  unfold Machine.eagerPage smallMapping
  dsimp only
  rw [hsame, hu, decide_eq_decide.mpr hwritable]

end Flags

/-! ## §4. Faults. -/

section Fault

variable {pool : Finset Nat} {own : Set Nat} {kernel a v errorCode : Word} {s : SpacesState} {m' : Machine}
  {x : Mapping}

/-- Two states with the same spaces that show the same of every page. -/
theorem eager_congr {s' : SpacesState} (hspaces : s'.spaces = s.spaces)
    (hpage : ∀ r ∈ s.spaces, ∀ vp : VPage, vp.pml4 ≠ 0 →
      (pageLookup s'.machine r vp).map s'.machine.eagerPage = (pageLookup s.machine r vp).map s.machine.eagerPage) :
    s'.eager = s.eager := by
  have hsame : s'.eager.page = s.eager.page := by
    funext r vp
    show (if r ∈ s'.spaces ∧ vp.pml4 ≠ 0 then _ else none) = if r ∈ s.spaces ∧ vp.pml4 ≠ 0 then _ else none
    rw [hspaces]
    by_cases hc : r ∈ s.spaces ∧ vp.pml4 ≠ 0
    · rw [if_pos hc, if_pos hc, hpage r hc.1 vp hc.2]
    · rw [if_neg hc, if_neg hc]
  exact Eager.ext hspaces hsame

/-- What the reference machine has at a page of a live space. -/
theorem eager_page {r : Word} {vp : VPage} (hr : r ∈ s.spaces) (hvp : vp.pml4 ≠ 0) :
    s.eager.page r vp = (pageLookup s.machine r vp).map s.machine.eagerPage := if_pos ⟨hr, hvp⟩

namespace SpacesState

theorem Maps.holding {r : Word} {vp : VPage} (h : s.Maps r vp x) :
    holding s.spaces s.machine (.page r vp) = some x.phys :=
  holding_page_iff.mpr ⟨h.1, h.2.1, x, h.2.2, rfl⟩

/-- The bytes of a page are quiet. -/
theorem Cow.quiet (h : s.Cow pool own kernel) {r : Word} {vp : VPage} (hx : s.Maps r vp x) {k : Nat}
    (hk : k < 4096) : s.machine.QuietIn (spaceForest kernel s.spaces) (x.phys + BitVec.ofNat 64 k) :=
  h.balanced.accounts.quiet_page hx.holding (Machine.Accounts.inPage_add x.phys hk)

end SpacesState

/-- A fault that is handled is one in a copy-on-write page. -/
theorem cow_of_handled (h : s.Cow pool own kernel) (ha : a ∈ s.spaces) (hv : pml4Index v ≠ 0)
    (hrun : handlePageFault s.machine a v errorCode = some m') :
    ∃ x, s.Maps a (VPage.of v) x ∧ errorCode &&& 2 ≠ 0 ∧ x.flags &&& pageCow ≠ 0 := by
  cases hx : pageLookup s.machine a (VPage.of v) with
  | none =>
    rw [Machine.Accounts.handlePageFault_unmapped h.balanced.accounts.spaces ha hv hx] at hrun
    cases hrun
  | some x =>
    rw [Machine.Accounts.handlePageFault_small h.balanced.accounts.spaces ha hv hx] at hrun
    by_cases hc : errorCode &&& 2 ≠ 0 ∧ x.flags &&& pageCow ≠ 0
    · exact ⟨x, ⟨ha, hv, hx⟩, hc.1, hc.2⟩
    · rw [if_neg hc] at hrun
      cases hrun

/-- **A handled fault is invisible.** -/
theorem fault_invisible (h : s.Cow pool own kernel) (ha : a ∈ s.spaces) (hv : pml4Index v ≠ 0)
    (hrun : handlePageFault s.machine a v errorCode = some m')
    (hframes : m'.pmm.allocFailures = s.machine.pmm.allocFailures) :
    SpacesState.Cow pool own kernel ⟨m', s.spaces⟩ ∧ SpacesState.eager ⟨m', s.spaces⟩ = s.eager := by
  obtain ⟨x, hx, -, hcow⟩ := cow_of_handled h ha hv hrun
  have hbalanced := h.balanced.step (.fault ha hv hrun hframes)
  obtain ⟨-, f, hown⟩ := h.balanced.accounts.fault ha hv hx.2.2 (h.balanced.small a ha _ hv x hx.2.2) hrun hframes
  -- the page that faulted, and the others
  have hpages : ∀ r vp y, SpacesState.Maps ⟨m', s.spaces⟩ r vp y →
      (r = a ∧ vp = VPage.of v ∧ y = smallMapping f (ownFlags x.flags)) ∨
        ¬ (r = a ∧ vp = VPage.of v) ∧ s.Maps r vp y := by
    intro r vp y hy
    have hlook := hown.lookup r hy.1 vp hy.2.1
    by_cases hc : r = a ∧ vp = VPage.of v
    · rw [if_pos hc, hy.2.2] at hlook
      exact .inl ⟨hc.1, hc.2, Option.some.inj hlook⟩
    · rw [if_neg hc, hy.2.2] at hlook
      exact .inr ⟨hc, hy.1, hy.2.1, hlook.symm⟩
  have hphys : (smallMapping f (ownFlags x.flags)).phys = f := and_not_flagMask hown.aligned
  have hfresh : ∀ r vp y, s.Maps r vp y → y.phys = f → r = a ∧ vp = VPage.of v := by
    intro r vp y hy he
    have hpage := hown.alone (.page r vp) (he ▸ hy.holding)
    injection hpage with hr hvp
    exact ⟨hr, hvp⟩
  refine ⟨⟨hbalanced, fun r vp y hy hw r' vp' y' hy' he => ?_⟩, eager_congr rfl fun r hr vp hvp => ?_⟩
  · rcases hpages r vp y hy with ⟨rfl, rfl, rfl⟩ | ⟨hne, hold⟩
    · rcases hpages r' vp' y' hy' with ⟨rfl, rfl, rfl⟩ | ⟨-, hold'⟩
      · exact ⟨rfl, rfl⟩
      · exact hfresh r' vp' y' hold' (he.trans hphys)
    · rcases hpages r' vp' y' hy' with ⟨rfl, rfl, rfl⟩ | ⟨-, hold'⟩
      · exact absurd (hfresh r vp y hold (he.symm.trans hphys)) hne
      · exact h.alone r vp y hold hw r' vp' y' hold' he
  · show (pageLookup m' r vp).map m'.eagerPage = _
    rw [hown.lookup r hr vp hvp]
    by_cases hc : r = a ∧ vp = VPage.of v
    · rw [if_pos hc, hc.1, hc.2, hx.2.2]
      exact congrArg some (eagerPage_own hown.aligned hcow hown.copied)
    · rw [if_neg hc]
      cases hy : pageLookup s.machine r vp with
      | none => rfl
      | some y =>
        exact congrArg some (eagerPage_congr fun k hk => hown.quiet _ (h.quiet ⟨hr, hvp, hy⟩ hk))

end Fault

/-! ## §5. Accesses. -/

section Access

variable {pool : Finset Nat} {own : Set Nat} {kernel a v p : Word} {s : SpacesState} {m m' : Machine}
  {x : Mapping} {byte : BitVec 8} {write : Bool} {result : Option Word}

/-- A page of a live space is decided by its user bit, and for a write by its
    writable bit. -/
theorem allows_iff (h : s.Cow pool own kernel) (hx : s.Maps a (VPage.of v) x) (write : Bool) :
    Allows write x.flags ↔ x.flags &&& pageUser ≠ 0 ∧ (write = true → x.flags &&& pageWritable ≠ 0) := by
  obtain ⟨pt, -, hp, rfl⟩ := h.balanced.accounts.spaces.lookup_pt hx.1 hx.2.1 hx.2.2
  have hpresent : Present (s.machine.entry pt (VPage.of v).pt &&& flagMask) := by
    unfold Present
    rw [BitVec.and_assoc, show flagMask &&& pagePresent = pagePresent by decide]
    exact hp
  exact and_iff_right hpresent

/-- The physical address of an access. -/
theorem access_of_maps (h : s.Cow pool own kernel) (hx : s.Maps a (VPage.of v) x) (write : Bool) :
    userAccess s.machine a v write =
      if Allows write x.flags then some (x.phys + BitVec.ofNat 64 (pageOffset v)) else none := by
  have hoff : v &&& flagMask = BitVec.ofNat 64 (pageOffset v) := by
    show v &&& flagMask = BitVec.ofNat 64 (v &&& flagMask).toNat
    rw [BitVec.ofNat_toNat, BitVec.setWidth_eq]
  rw [userAccess_eq h.balanced.accounts.spaces hx.1 hx.2.1, hx.2.2, Option.bind_some, hoff,
    or_page_offset (aligned_of_lookup hx.2.2) (pageOffset v).isLt]

/-- **A read** gets what the reference machine reads. -/
theorem read_eager (h : s.Cow pool own kernel) (ha : a ∈ s.spaces) (hv : pml4Index v ≠ 0) :
    (userAccess s.machine a v false).map s.machine.mem = s.eager.read a v := by
  unfold Eager.read
  rw [eager_page ha hv]
  cases hx : pageLookup s.machine a (VPage.of v) with
  | none =>
    rw [userAccess_eq h.balanced.accounts.spaces ha hv, hx]
    rfl
  | some x =>
    have hmaps : s.Maps a (VPage.of v) x := ⟨ha, hv, hx⟩
    rw [access_of_maps h hmaps, if_congr (allows_iff h hmaps false) rfl rfl]
    show _ = if decide (x.flags &&& pageUser ≠ 0) = true then _ else _
    by_cases hu : x.flags &&& pageUser ≠ 0
    · rw [if_pos ⟨hu, fun hf => Bool.noConfusion hf⟩, if_pos (decide_eq_true hu)]
      rfl
    · rw [if_neg fun hc => hu hc.1, if_neg fun hc => hu (of_decide_eq_true hc)]
      rfl

/-- A store to a quiet byte is to no table. -/
theorem entry_storeByte {F : PageForest} (hq : m.QuietIn F p) {r t : Word} {q : List (Fin 512)}
    (ht : m.TableOf F r q t) (i : Fin 512) : (m.storeByte p byte).entry t i = m.entry t i := by
  refine Machine.entry_congr fun w hw => if_neg ?_
  intro he
  exact hq.2 r q t ht (he ▸ hw)

/-- The mappings are not written to. -/
theorem lookup_storeByte (hq : s.machine.QuietIn (spaceForest kernel s.spaces) p) {r : Word} {vp : VPage}
    (hr : r ∈ s.spaces) (hvp : vp.pml4 ≠ 0) :
    pageLookup (s.machine.storeByte p byte) r vp = pageLookup s.machine r vp :=
  Machine.Wf.pageLookup_of_tables (spaceForest_path hr hvp) fun _ _ ht i => entry_storeByte hq ht i

/-- Storing into a page changes the byte at the offset. -/
theorem eagerPage_store (m : Machine) (x : Mapping) (k : Fin 4096) (byte : BitVec 8) :
    (m.storeByte (x.phys + BitVec.ofNat 64 k) byte).eagerPage x =
      { m.eagerPage x with bytes := Function.update (m.eagerPage x).bytes k byte } := by
  have hbytes : ((m.storeByte (x.phys + BitVec.ofNat 64 k) byte).eagerPage x).bytes
      = Function.update (m.eagerPage x).bytes k byte := by
    funext j
    show (if x.phys + BitVec.ofNat 64 j = x.phys + BitVec.ofNat 64 k then byte else _) = _
    have hk := k.isLt
    have hj := j.isLt
    have hiff : x.phys + BitVec.ofNat 64 j = x.phys + BitVec.ofNat 64 k ↔ j = k := by
      rw [BitVec.add_right_inj, ← BitVec.toNat_inj, BitVec.toNat_ofNat, BitVec.toNat_ofNat, Fin.ext_iff]
      omega
    rw [if_congr hiff rfl rfl, Function.update_apply]
    rfl
  rw [← hbytes]
  rfl

/-- And no other frame. -/
theorem eagerPage_store_other (m : Machine) {x y : Mapping} (hx : Aligned x.phys) (hy : Aligned y.phys)
    (hne : x.phys ≠ y.phys) (k : Fin 4096) (byte : BitVec 8) :
    (m.storeByte (x.phys + BitVec.ofNat 64 k) byte).eagerPage y = m.eagerPage y := by
  refine eagerPage_congr fun j hj => if_neg fun he => ?_
  refine Mem.not_inPage_of_ne hx hy hne (Machine.Accounts.inPage_add x.phys k.isLt) ?_
  rw [← he]
  exact Machine.Accounts.inPage_add y.phys hj

/-- A write that is allowed is one to a page of the user's that is writable. -/
theorem maps_of_write (h : s.Cow pool own kernel) (ha : a ∈ s.spaces) (hv : pml4Index v ≠ 0)
    (haccess : userAccess s.machine a v true = some p) :
    ∃ x, s.Maps a (VPage.of v) x ∧ x.flags &&& pageUser ≠ 0 ∧ x.flags &&& pageWritable ≠ 0 ∧
      p = x.phys + BitVec.ofNat 64 (pageOffset v) := by
  cases hx : pageLookup s.machine a (VPage.of v) with
  | none =>
    rw [userAccess_eq h.balanced.accounts.spaces ha hv, hx] at haccess
    cases haccess
  | some x =>
    have hmaps : s.Maps a (VPage.of v) x := ⟨ha, hv, hx⟩
    rw [access_of_maps h hmaps] at haccess
    by_cases hallow : Allows true x.flags
    · rw [if_pos hallow] at haccess
      obtain ⟨huser, hwrite⟩ := (allows_iff h hmaps true).mp hallow
      exact ⟨x, hmaps, huser, hwrite rfl, (Option.some.inj haccess).symm⟩
    · rw [if_neg hallow] at haccess
      cases haccess

/-- **A write** keeps the accounts. -/
theorem cow_storeByte (h : s.Cow pool own kernel) (hq : s.machine.QuietIn (spaceForest kernel s.spaces) p)
    (byte : BitVec 8) : SpacesState.Cow pool own kernel ⟨s.machine.storeByte p byte, s.spaces⟩ := by
  obtain ⟨hacc, -⟩ : (s.machine.storeByte p byte).Accounts pool own kernel s.spaces noExtra ∧
      holding s.spaces (s.machine.storeByte p byte) = holding s.spaces s.machine :=
    h.balanced.accounts.of_mem rfl rfl fun _ _ _ ht i => entry_storeByte hq ht i
  have hmaps : ∀ r vp x, SpacesState.Maps ⟨s.machine.storeByte p byte, s.spaces⟩ r vp x → s.Maps r vp x :=
    fun r vp x hx => ⟨hx.1, hx.2.1, (lookup_storeByte hq hx.1 hx.2.1).symm.trans hx.2.2⟩
  refine ⟨⟨hacc, fun r hr vp hvp x hx => ?_⟩, fun r vp x hx hw r' vp' x' hx' he => ?_⟩
  · exact h.balanced.small r hr vp hvp x (hmaps r vp x ⟨hr, hvp, hx⟩).2.2
  · exact h.alone r vp x (hmaps r vp x hx) hw r' vp' x' (hmaps r' vp' x' hx') he

/-- **A write** does what it does in the reference machine: no other page has
    the frame. -/
theorem write_eager (h : s.Cow pool own kernel) (ha : a ∈ s.spaces) (hv : pml4Index v ≠ 0)
    (haccess : userAccess s.machine a v true = some p) (byte : BitVec 8) :
    SpacesState.Cow pool own kernel ⟨s.machine.storeByte p byte, s.spaces⟩ ∧
      s.eager.write a v byte = some (SpacesState.eager ⟨s.machine.storeByte p byte, s.spaces⟩) := by
  obtain ⟨x, hmaps, huser, hw, rfl⟩ := maps_of_write h ha hv haccess
  have hq := h.quiet hmaps (pageOffset v).isLt
  refine ⟨cow_storeByte h hq byte, ?_⟩
  have hcan : (s.machine.eagerPage x).user = true ∧ (s.machine.eagerPage x).writable = true :=
    ⟨decide_eq_true huser, decide_eq_true (and_or_ne_zero.mpr (.inl hw))⟩
  unfold Eager.write
  rw [eager_page ha hv, hmaps.2.2, Option.map_some]
  dsimp only
  rw [if_pos hcan]
  refine congrArg some (Eager.ext rfl (funext fun r => funext fun vp => ?_))
  by_cases hlive : r ∈ s.spaces ∧ vp.pml4 ≠ 0
  · have hold : s.eager.page r vp = _ := eager_page hlive.1 hlive.2
    have hnew : (SpacesState.eager ⟨s.machine.storeByte (x.phys + BitVec.ofNat 64 (pageOffset v)) byte,
        s.spaces⟩).page r vp = _ := eager_page hlive.1 hlive.2
    dsimp only at hnew ⊢
    rw [hnew, hold, lookup_storeByte hq hlive.1 hlive.2]
    by_cases hc : r = a ∧ vp = VPage.of v
    · rw [if_pos hc, hc.1, hc.2, hmaps.2.2]
      exact congrArg some (eagerPage_store s.machine x (pageOffset v) byte).symm
    · rw [if_neg hc]
      cases hy : pageLookup s.machine r vp with
      | none => rfl
      | some y =>
        have hne : x.phys ≠ y.phys := fun he => hc (h.alone a _ x hmaps hw r vp y ⟨hlive.1, hlive.2, hy⟩ he.symm)
        exact congrArg some (eagerPage_store_other s.machine (aligned_of_lookup hmaps.2.2) (aligned_of_lookup hy)
          hne (pageOffset v) byte).symm
  · have hc : ¬ (r = a ∧ vp = VPage.of v) := fun hc => hlive ⟨hc.1 ▸ ha, hc.2 ▸ hv⟩
    have hold : s.eager.page r vp = none := if_neg hlive
    have hnew : (SpacesState.eager ⟨s.machine.storeByte (x.phys + BitVec.ofNat 64 (pageOffset v)) byte,
        s.spaces⟩).page r vp = none := if_neg hlive
    dsimp only at hnew ⊢
    rw [if_neg hc, hold, hnew]

/-- **A write that is denied** for good is denied in the reference machine. -/
theorem write_denied (h : s.Cow pool own kernel) (ha : a ∈ s.spaces) (hv : pml4Index v ≠ 0)
    (haccess : userAccess s.machine a v true = none) {errorCode : Word} (hcode : errorCode &&& 2 ≠ 0)
    (hfault : handlePageFault s.machine a v errorCode = none) (byte : BitVec 8) :
    s.eager.write a v byte = none := by
  unfold Eager.write
  rw [eager_page ha hv]
  cases hx : pageLookup s.machine a (VPage.of v) with
  | none => rfl
  | some x =>
    have hmaps : s.Maps a (VPage.of v) x := ⟨ha, hv, hx⟩
    rw [access_of_maps h hmaps, if_congr (allows_iff h hmaps true) rfl rfl] at haccess
    rw [Machine.Accounts.handlePageFault_small h.balanced.accounts.spaces ha hv hx] at hfault
    have hcow : x.flags &&& pageCow = 0 := by
      by_contra hc
      rw [if_pos ⟨hcode, hc⟩] at hfault
      split at hfault <;> cases hfault
    refine if_neg fun hcan => ?_
    have huser : x.flags &&& pageUser ≠ 0 := of_decide_eq_true hcan.1
    have hor : x.flags &&& (pageWritable ||| pageCow) ≠ 0 := of_decide_eq_true hcan.2
    have hw : x.flags &&& pageWritable ≠ 0 := (and_or_ne_zero.mp hor).resolve_right (not_not_intro hcow)
    rw [if_pos ⟨huser, fun _ => hw⟩] at haccess
    cases haccess

/-- **An access, however often it is tried**, leaves what every space sees as
    it was before it is carried out. -/
theorem UserAttempt.invisible (hrun : UserAttempt a v write m result m') {spaces : Finset Word}
    (h : SpacesState.Cow pool own kernel ⟨m, spaces⟩) (ha : a ∈ spaces) (hv : pml4Index v ≠ 0) :
    SpacesState.Cow pool own kernel ⟨m', spaces⟩ ∧
      SpacesState.eager ⟨m', spaces⟩ = SpacesState.eager ⟨m, spaces⟩ ∧
      userAccess m' a v write = result ∧ (result = none → ∃ errorCode : Word,
        (errorCode &&& 2 ≠ 0 ↔ write = true) ∧ handlePageFault m' a v errorCode = none) := by
  induction hrun with
  | allowed haccess => exact ⟨h, rfl, haccess, fun hn => absurd hn (Option.some_ne_none _)⟩
  | denied haccess hcode hfault => exact ⟨h, rfl, haccess, fun _ => ⟨_, hcode, hfault⟩⟩
  | retried haccess hcode hfault hframes hrest ih =>
    obtain ⟨hcow, heager⟩ := fault_invisible h ha hv hfault hframes
    obtain ⟨hcow', heager', hdone⟩ := ih hcow
    exact ⟨hcow', heager'.trans heager, hdone⟩

end Access

end ZohoOs
