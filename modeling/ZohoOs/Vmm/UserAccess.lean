/-
  ZohoOs.Vmm.UserAccess — reads and writes of user programs.

  For each access of a user program the processor walks the four tables of
  the loaded space.  Every entry on the way has to be present and the user's,
  and writable for a write; otherwise there is a page fault.  Where
  `handle_page_fault` returns, the access is tried again.  Where it does not
  handle the fault, the access is denied: the task is terminated.

  The processor's check that the address is canonical comes before the walk
  and looks at no table, so it is left out.

  Main results:
    * `userAccess_eq` — in a live space the walk is decided by
      the flags of the page.
-/
import ZohoOs.Vmm.FrameBalance

namespace ZohoOs

open ZohoOs.Lib
open ZohoOs.Lib.Mem (Aligned InPage)
open ZohoOs.Lib.Radix

/-! ## §1. The processor's walk. -/

/-- What the processor wants of an entry on the way of a user access. -/
def Allows (write : Bool) (e : Word) : Prop :=
  Present e ∧ e &&& pageUser ≠ 0 ∧ (write = true → e &&& pageWritable ≠ 0)

instance (write : Bool) (e : Word) : Decidable (Allows write e) := inferInstanceAs (Decidable (_ ∧ _))

/-- The physical address of a user access in the space `pml4`; `none` is a
    page fault.  The code maps no 1 GiB pages. -/
def userAccess (m : Machine) (pml4 virt : Word) (write : Bool) : Option Word :=
  let pml4e := m.entry pml4 (pml4Index virt)
  if ¬ Allows write pml4e then none
  else
    let pdpte := m.entry (pml4e &&& ~~~flagMask) (pdptIndex virt)
    if ¬ Allows write pdpte then none
    else
      let pde := m.entry (pdpte &&& ~~~flagMask) (pdIndex virt)
      if ¬ Allows write pde then none
      else if Huge pde then some ((pde &&& ~~~hugeMask) ||| (virt &&& hugeMask))
      else
        let pte := m.entry (pde &&& ~~~flagMask) (ptIndex virt)
        if ¬ Allows write pte then none else some ((pte &&& ~~~flagMask) ||| (virt &&& flagMask))

/-- An access of a user program until it is carried out, at a physical
    address, or denied.  Of the error code the handler looks at the bit that
    says whether it was a write. -/
inductive UserAttempt (pml4 virt : Word) (write : Bool) : Machine → Option Word → Machine → Prop
  | allowed {m : Machine} {phys : Word} (haccess : userAccess m pml4 virt write = some phys) :
      UserAttempt pml4 virt write m (some phys) m
  | denied {m : Machine} {errorCode : Word} (haccess : userAccess m pml4 virt write = none)
      (hcode : errorCode &&& 2 ≠ 0 ↔ write = true)
      (hfault : handlePageFault m pml4 virt errorCode = none) : UserAttempt pml4 virt write m none m
  | retried {m m' m'' : Machine} {errorCode : Word} {result : Option Word}
      (haccess : userAccess m pml4 virt write = none) (hcode : errorCode &&& 2 ≠ 0 ↔ write = true)
      (hfault : handlePageFault m pml4 virt errorCode = some m')
      (hframes : m'.pmm.allocFailures = m.pmm.allocFailures)
      (hrest : UserAttempt pml4 virt write m' result m'') : UserAttempt pml4 virt write m result m''

/-- The store of a byte. -/
def Machine.storeByte (m : Machine) (phys : Word) (byte : BitVec 8) : Machine :=
  { m with mem := m.mem.store8 phys byte }

/-! ## §2. The walk in a live space. -/

section Walk

variable {pool : Finset Nat} {kernel r t v : Word} {roots : Finset Word} {m : Machine}
  {p : List (Fin 512)} {i : Fin 512}

/-- The flags decide. -/
theorem allows_flags (write : Bool) (e : Word) : Allows write (e &&& flagMask) ↔ Allows write e := by
  have hbit : ∀ b : Word, flagMask &&& b = b → e &&& flagMask &&& b = e &&& b := by
    intro b hb
    rw [BitVec.and_assoc, hb]
  unfold Allows Present
  rw [hbit pagePresent (by decide), hbit pageUser (by decide), hbit pageWritable (by decide)]

/-- An entry for a table allows every access. -/
theorem allows_tableEntry (write : Bool) {n : Word} (hn : Aligned n) : Allows write (tableEntry n) := by
  have hbit : ∀ b : Word, b &&& ~~~flagMask = 0 → tableEntry n &&& b = 7 &&& b := by
    intro b hb
    rw [tableEntry_eq]
    exact Word.or_and_bit (and_not_flagMask hn) hb
  unfold Allows Present
  rw [hbit pagePresent (by decide), hbit pageUser (by decide), hbit pageWritable (by decide)]
  exact ⟨by decide, by decide, fun _ => by decide⟩

theorem not_allows_zero (write : Bool) : ¬ Allows write 0 := fun h => not_present_zero h.1

/-- **One level of the walk**: the slot is empty, or the walk goes on in the
    table below it. -/
theorem walk_down (h : m.Spaces pool kernel roots) (hr : r ∈ roots)
    (ht : m.TableOf (spaceForest kernel roots) r p t) (hlen : p.length < 3) (hi : p = [] → i ≠ 0)
    (write : Bool) :
    (¬ Allows write (m.entry t i) ∧ tableAt pageChild m.entry r (i :: p) = none) ∨
      Allows write (m.entry t i) ∧ ¬ Huge (m.entry t i) ∧
        m.TableOf (spaceForest kernel roots) r (i :: p) (m.entry t i &&& ~~~flagMask) := by
  have hbelow : tableAt pageChild m.entry r (i :: p) = pageChild p.length (m.entry t i) := tableAt_cons ht.2
  rcases h.slots r hr p t i ht hlen hi with hz | ⟨n, hn, he⟩
  · left
    rw [hz, pageChild_zero] at hbelow
    rw [hz]
    exact ⟨not_allows_zero write, hbelow⟩
  · right
    rw [he, pageChild_tableEntry hn hlen] at hbelow
    rw [he, tableEntry_addr hn]
    refine ⟨allows_tableEntry write hn, not_huge_tableEntry hn, ht.1.cons fun hp => ?_, hbelow⟩
    simpa [spaceForest, h.ne_kernel hr, userSlots] using hi hp

/-- **The walk in a live space** finds the page, and its flags decide. -/
theorem userAccess_eq (h : m.Spaces pool kernel roots) (hr : r ∈ roots)
    (hv : pml4Index v ≠ 0) (write : Bool) :
    userAccess m r v write = (pageLookup m r (VPage.of v)).bind fun x =>
      if Allows write x.flags then some (x.phys ||| (v &&& flagMask)) else none := by
  have hnone : tableAt pageChild m.entry r (VPage.of v).ptPath = none →
      pageLookup m r (VPage.of v) = none := fun hpt => by
    cases hx : pageLookup m r (VPage.of v) with
    | none => rfl
    | some x =>
      obtain ⟨pt, ⟨-, hpt'⟩, -⟩ := h.lookup_pt hr hv hx
      rw [hpt] at hpt'
      cases hpt'
  have habove : ∀ {q}, tableAt pageChild m.entry r q = none → q <:+ (VPage.of v).ptPath →
      pageLookup m r (VPage.of v) = none := fun hq hsuf => hnone (tableAt_none_of_suffix hq hsuf)
  unfold userAccess
  dsimp only
  -- level by level: an empty slot ends the walk, and there is no page
  rcases walk_down (i := pml4Index v) h hr (Machine.Spaces.root_table hr) (by decide) (fun _ => hv) write with
    ⟨hno, hend⟩ | ⟨hyes, -, hpdpt⟩
  · rw [if_pos hno, habove hend (List.suffix_append [pdIndex v, pdptIndex v] [pml4Index v])]
    rfl
  rw [if_neg (not_not_intro hyes)]
  rcases walk_down (i := pdptIndex v) h hr hpdpt (by simp) (by simp) write with
    ⟨hno, hend⟩ | ⟨hyes, -, hpd⟩
  · rw [if_pos hno, habove hend (List.suffix_cons (pdIndex v) [pdptIndex v, pml4Index v])]
    rfl
  rw [if_neg (not_not_intro hyes)]
  rcases walk_down (i := pdIndex v) h hr hpd (by simp) (by simp) write with
    ⟨hno, hend⟩ | ⟨hyes, hsmall, hpt⟩
  · rw [if_pos hno, hnone hend]
    rfl
  rw [if_neg (not_not_intro hyes), if_neg hsmall]
  have hlook : pageLookup m r (VPage.of v) = _ :=
    pageLookup_of_pt (show tableAt pageChild m.entry r (VPage.of v).ptPath = some _ from hpt.2)
  rw [hlook, VPage.pt_of]
  -- the page itself
  by_cases hp : Present (m.entry (m.entry (m.entry (m.entry r (pml4Index v) &&& ~~~flagMask) (pdptIndex v)
      &&& ~~~flagMask) (pdIndex v) &&& ~~~flagMask) (ptIndex v))
  · rw [if_pos hp, Option.bind_some]
    dsimp only
    rw [if_congr (allows_flags write _) rfl rfl, ite_not]
  · rw [if_neg hp, if_pos fun hc => hp hc.1]
    rfl

end Walk

end ZohoOs
