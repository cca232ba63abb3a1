/-
  ZohoOs.Vmm.Bootstrap — the machine right after `vmm_init` (boot/main.asm).

  `setup_page_tables` leaves one tree: slot 0 of `p4_table` points to
  `p3_table`, whose first four slots point to the four pages of `p2_table`,
  whose 2048 slots identity-map the memory below 4 GiB with 2 MiB pages.  The
  tables lie in the kernel image, which the allocator never manages.
-/
import ZohoOs.Vmm.Space
import ZohoOs.Pmm.Boot

namespace ZohoOs

open ZohoOs.Lib
open ZohoOs.Lib.Mem (Aligned)
open ZohoOs.Lib.Radix

/-! ## §1. The tables of `setup_page_tables`. -/

def p4Table : Word := 0x110000
def p3Table : Word := 0x111000

/-- Page `k` of `p2_table`. -/
def p2Table (k : Fin 4) : Word := 0x112000 + BitVec.ofNat 64 (4096 * k)

/-- The entry at slot `i` of the table at `t`. -/
def bootEntry (t : Word) (i : Fin 512) : Word :=
  if t = p4Table then if i = 0 then p3Table ||| 0b11 else 0
  else if t = p3Table then
    if h : i.val < 4 then p2Table ⟨i, h⟩ ||| 0b11 else 0
  else if t = p2Table 0 then BitVec.ofNat 64 (0x200000 * i) ||| 0b10000011
  else if t = p2Table 1 then BitVec.ofNat 64 (0x200000 * (512 + i)) ||| 0b10000011
  else if t = p2Table 2 then BitVec.ofNat 64 (0x200000 * (1024 + i)) ||| 0b10000011
  else if t = p2Table 3 then BitVec.ofNat 64 (0x200000 * (1536 + i)) ||| 0b10000011
  else 0

/-- The machine after `vmm_init`, with the allocator `p`. -/
def bootMachine (p : Pmm) : Machine :=
  { pmm := p, mem := Mem.ofTables bootEntry, currentPml4 := p4Table, stores := [] }

theorem entry_bootMachine (p : Pmm) {t : Word} (ht : Aligned t) (i : Fin 512) :
    (bootMachine p).entry t i = bootEntry t i :=
  Mem.load64_ofTables bootEntry ht i

theorem aligned_p2Table (k : Fin 4) : Aligned (p2Table k) := by
  revert k; decide

theorem bootEntry_p4 (i : Fin 512) : bootEntry p4Table i = if i = 0 then p3Table ||| 0b11 else 0 :=
  if_pos rfl

theorem bootEntry_p3 (i : Fin 512) :
    bootEntry p3Table i = if h : i.val < 4 then p2Table ⟨i, h⟩ ||| 0b11 else 0 := by
  rw [bootEntry, if_neg (by decide), if_pos rfl]

/-- Every slot of a page of `p2_table` holds a huge page. -/
theorem bootEntry_p2 (k : Fin 4) (i : Fin 512) :
    ∃ a : Word, bootEntry (p2Table k) i = a ||| 0b10000011 := by
  unfold bootEntry
  rw [if_neg (by revert k; decide), if_neg (by revert k; decide)]
  obtain rfl | rfl | rfl | rfl : k = 0 ∨ k = 1 ∨ k = 2 ∨ k = 3 := by revert k; decide
  · exact ⟨_, if_pos rfl⟩
  · exact ⟨_, by rw [if_neg (by decide), if_pos rfl]⟩
  · exact ⟨_, by rw [if_neg (by decide), if_neg (by decide), if_pos rfl]⟩
  · exact ⟨_, by rw [if_neg (by decide), if_neg (by decide), if_neg (by decide), if_pos rfl]⟩

theorem huge_or (a : Word) : Huge (a ||| 0b10000011) := by
  intro hz
  rw [BitVec.and_or_distrib_right] at hz
  have := (BitVec.or_eq_zero_iff.mp hz).2
  revert this
  decide

/-! ## §2. The bootstrap tree is well formed. -/

/-- The tables of the bootstrap tree. -/
theorem boot_tableAt {p : Pmm} {q : List (Fin 512)} {s : Word}
    (h : tableAt pageChild (bootMachine p).entry p4Table q = some s) :
    (q = [] ∧ s = p4Table) ∨ (q = [0] ∧ s = p3Table) ∨
      ∃ k : Fin 4, q = [⟨k, by omega⟩, 0] ∧ s = p2Table k := by
  induction q generalizing s with
  | nil => cases h; exact .inl ⟨rfl, rfl⟩
  | cons i q ih =>
    obtain ⟨t, ht, hc⟩ := tableAt_cons_eq_some.mp h
    rcases ih ht with ⟨rfl, rfl⟩ | ⟨rfl, rfl⟩ | ⟨k, rfl, rfl⟩
    · rw [entry_bootMachine p (by decide), bootEntry_p4] at hc
      by_cases hi : i = 0
      · subst hi
        rw [if_pos rfl, show pageChild ([] : List (Fin 512)).length (p3Table ||| 0b11) = some p3Table
          by decide] at hc
        cases hc
        exact .inr (.inl ⟨rfl, rfl⟩)
      · rw [if_neg hi, pageChild_zero] at hc
        cases hc
    · rw [entry_bootMachine p (by decide), bootEntry_p3] at hc
      by_cases hi : i.val < 4
      · rw [dif_pos hi] at hc
        have hchild : ∀ k : Fin 4, pageChild 1 (p2Table k ||| 0b11) = some (p2Table k) := by decide
        rw [show ([0] : List (Fin 512)).length = 1 from rfl, hchild] at hc
        cases hc
        exact .inr (.inr ⟨⟨i, hi⟩, rfl, rfl⟩)
      · rw [dif_neg hi, pageChild_zero] at hc
        cases hc
    · rw [entry_bootMachine p (aligned_p2Table k)] at hc
      obtain ⟨a, ha⟩ := bootEntry_p2 k i
      rw [ha, show ([⟨k, by omega⟩, 0] : List (Fin 512)).length = 2 from rfl,
        pageChild_of_huge (huge_or a)] at hc
      cases hc

theorem bootMachine_wf {pool : Finset Nat} {p : Pmm} (hp : p.Inv pool) (hlow : ∀ f ∈ pool, 512 ≤ f) :
    (bootMachine p).Wf pool (wholeTree p4Table) := by
  have hp2 : ∀ k : Fin 4, Aligned (p2Table k) ∧ p2Table k ≠ 0 ∧ frameOf (p2Table k) < 512 := by
    decide
  have hp2ne : ∀ k : Fin 4, p2Table k ≠ p4Table ∧ p2Table k ≠ p3Table := by decide
  have hp2inj : ∀ k k' : Fin 4, p2Table k = p2Table k' → k = k' := by decide
  refine ⟨hp, fun h0 => by have := hlow 0 h0; omega, ?_, ?_, ?_, ?_, ?_⟩
  · intro r hr
    cases Set.mem_singleton_iff.mp hr
    decide
  · intro r₁ q₁ r₂ q₂ s h₁ h₂
    obtain ⟨rfl, hw₁⟩ := wholeTree_tableOf.mp h₁
    obtain ⟨rfl, hw₂⟩ := wholeTree_tableOf.mp h₂
    refine ⟨rfl, ?_⟩
    -- P4, P3 and the four P2 tables are six addresses
    rcases boot_tableAt hw₁ with ⟨rfl, hs₁⟩ | ⟨rfl, hs₁⟩ | ⟨k₁, rfl, hs₁⟩ <;>
      rcases boot_tableAt hw₂ with ⟨rfl, hs₂⟩ | ⟨rfl, hs₂⟩ | ⟨k₂, rfl, hs₂⟩
    · rfl
    · exact absurd (hs₁.symm.trans hs₂) (by decide)
    · exact absurd (hs₂.symm.trans hs₁) (hp2ne k₂).1
    · exact absurd (hs₁.symm.trans hs₂) (by decide)
    · rfl
    · exact absurd (hs₂.symm.trans hs₁) (hp2ne k₂).2
    · exact absurd (hs₁.symm.trans hs₂) (hp2ne k₁).1
    · exact absurd (hs₁.symm.trans hs₂) (hp2ne k₁).2
    · rw [hp2inj k₁ k₂ (hs₁.symm.trans hs₂)]
  · intro r q s hs
    obtain ⟨rfl, hw⟩ := wholeTree_tableOf.mp hs
    rcases boot_tableAt hw with ⟨-, rfl⟩ | ⟨-, rfl⟩ | ⟨k, -, rfl⟩
    · decide
    · decide
    · exact (hp2 k).2.1
  · intro r q s hs hmem
    obtain ⟨rfl, hw⟩ := wholeTree_tableOf.mp hs
    -- the boot tables lie in the first two megabytes, which the pool does not have
    have hfree := hlow _ (hp.free_mem _ (hp.inRange s hmem) (hp.bitmap_of_mem hmem))
    rcases boot_tableAt hw with ⟨-, rfl⟩ | ⟨-, rfl⟩ | ⟨k, -, rfl⟩
    · exact absurd hfree (by decide)
    · exact absurd hfree (by decide)
    · have := (hp2 k).2.2
      omega
  · intro r q s i hs _
    obtain ⟨rfl, hw⟩ := wholeTree_tableOf.mp hs
    rcases boot_tableAt hw with ⟨-, rfl⟩ | ⟨-, rfl⟩ | ⟨k, -, rfl⟩
    · rw [entry_bootMachine p (by decide), bootEntry_p4]
      split
      · exact .inl (by decide)
      · exact .inr rfl
    · rw [entry_bootMachine p (by decide), bootEntry_p3]
      split
      · exact .inl (present_or (by decide))
      · exact .inr rfl
    · rw [entry_bootMachine p (aligned_p2Table k)]
      obtain ⟨a, ha⟩ := bootEntry_p2 k i
      rw [ha]
      exact .inl (present_or (by decide))

/-! ## §3. A small allocator. -/

/-- The allocator of a machine whose only free frames are the `n` frames from
    2 MiB on. -/
def smallPmm (n : Nat) : Pmm := buildFreeStack (fun f => !decide (512 ≤ f ∧ f < 512 + n)) (512 + n)

theorem smallPmm_inv {n : Nat} (hn : n ≤ 1024) : (smallPmm n).Inv (bootPool (smallPmm n)) :=
  buildFreeStack_inv (by unfold maxFrames; omega) fun f _ hf => by simp at hf; omega

theorem smallPmm_frames {n : Nat} : ∀ f ∈ bootPool (smallPmm n), 512 ≤ f ∧ f < 512 + n := by
  intro f hf
  have hbit := (Finset.mem_filter.mp hf).2
  rw [smallPmm, buildFreeStack_eq] at hbit
  simp at hbit
  exact hbit

theorem smallPmm_low {n : Nat} : ∀ f ∈ bootPool (smallPmm n), 512 ≤ f := fun f hf =>
  (smallPmm_frames f hf).1

theorem freeStack_smallPmm (n : Nat) :
    (smallPmm n).freeStack = (((List.range n).map (512 + ·)).reverse).map frameAddr := by
  rw [smallPmm, buildFreeStack_eq]
  have hlow : (List.range 512).filter (fun f => !!decide (512 ≤ f ∧ f < 512 + n)) = [] :=
    List.filter_eq_nil_iff.mpr fun f hf => by
      have := List.mem_range.mp hf
      simp
      omega
  have hhigh : ((List.range n).map (512 + ·)).filter (fun f => !!decide (512 ≤ f ∧ f < 512 + n))
      = (List.range n).map (512 + ·) :=
    List.filter_eq_self.mpr fun f hf => by
      obtain ⟨k, hk, rfl⟩ := List.mem_map.mp hf
      have := List.mem_range.mp hk
      simp
      omega
  show ((((List.range (512 + n)).filter _).reverse).map frameAddr) = _
  rw [List.range_add, List.filter_append, hlow, hhigh, List.nil_append]

theorem bootMachine_small_wf {n : Nat} (hn : n ≤ 1024) :
    (bootMachine (smallPmm n)).Wf (bootPool (smallPmm n)) (wholeTree p4Table) :=
  bootMachine_wf (smallPmm_inv hn) smallPmm_low

end ZohoOs
