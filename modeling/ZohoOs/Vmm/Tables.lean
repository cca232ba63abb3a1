/-
  ZohoOs.Vmm.Tables — page-table trees as a separated forest.

  `pageChild` reads an entry the way the code does: down to the page
  directory, a present entry points to the next table; in a page directory a
  present entry without the page-size bit does.  `Machine.Wf` is what the
  functions of vmm.c keep for the trees they work on: no table is reached
  twice, none of them is free, and a slot is either zero or present.

  `ensureNextTable_cases` says once what `ensure_next_table` can do.
-/
import ZohoOs.Vmm.Basic
import ZohoOs.Lib.Radix
import ZohoOs.Lib.Loop

namespace ZohoOs

open ZohoOs.Lib
open ZohoOs.Lib.Mem (Aligned slotAddr InPage)
open ZohoOs.Lib.Radix

/-! ## §1. Entries. -/

theorem flagMask_eq : flagMask = Word.lowMask 12 := rfl

theorem hugeMask_eq : hugeMask = Word.lowMask 21 := rfl

theorem aligned_and_not_flagMask (e : Word) : Aligned (e &&& ~~~flagMask) := by
  rw [Aligned, flagMask_eq, Word.toNat_and_not_lowMask e (by decide)]
  exact Nat.mul_mod_left _ _

/-- A page-aligned address has no flag bits. -/
theorem and_not_flagMask {a : Word} (h : Aligned a) : a &&& ~~~flagMask = a :=
  Word.and_not_lowMask_of_dvd (k := 12) (by decide) h

@[simp] theorem not_present_zero : ¬ Present 0 := by decide

@[simp] theorem not_huge_zero : ¬ Huge 0 := by decide

/-- Where an entry at depth `d` of a tree points. -/
def pageChild (d : Nat) (e : Word) : Option Word :=
  if Present e ∧ (d < 2 ∨ d = 2 ∧ ¬ Huge e) then some (e &&& ~~~flagMask) else none

theorem pageChild_aligned {d : Nat} {e t : Word} (h : pageChild d e = some t) : Aligned t := by
  unfold pageChild at h
  split at h
  · injection h with h; rw [← h]; exact aligned_and_not_flagMask e
  · cases h

theorem pageChild_of_not_present {d : Nat} {e : Word} (h : ¬ Present e) : pageChild d e = none := by
  rw [pageChild, if_neg (fun hc => h hc.1)]

@[simp] theorem pageChild_zero (d : Nat) : pageChild d 0 = none :=
  pageChild_of_not_present not_present_zero

theorem pageChild_of_zero {d : Nat} {e : Word} (h : e = 0) : pageChild d e = none := by
  rw [h, pageChild_zero]

theorem pageChild_of_huge {e : Word} (h : Huge e) : pageChild 2 e = none := by
  rw [pageChild, if_neg (by simp [h])]

theorem pageChild_leaf {d : Nat} (hd : 3 ≤ d) (e : Word) : pageChild d e = none := by
  rw [pageChild, if_neg (by omega)]

/-- Above the last level a present entry that is no huge page points to its
    address. -/
theorem pageChild_of_present {d : Nat} {e : Word} (h : Present e) (hd : d < 3)
    (hh : d = 2 → ¬ Huge e) : pageChild d e = some (e &&& ~~~flagMask) := by
  rw [pageChild, if_pos ⟨h, by by_cases h2 : d = 2 <;> [exact .inr ⟨h2, hh h2⟩; exact .inl (by omega)]⟩]

/-- The entry `ensure_next_table` writes. -/
def tableEntry (n : Word) : Word := n ||| pagePresent ||| pageWritable ||| pageUser

theorem tableEntry_eq (n : Word) : tableEntry n = n ||| 7 := by
  rw [tableEntry, BitVec.or_assoc, BitVec.or_assoc]
  rfl

theorem present_or {a f : Word} (h : Present f) : Present (a ||| f) := by
  intro hz
  rw [BitVec.and_or_distrib_right] at hz
  exact h (BitVec.or_eq_zero_iff.mp hz).2

theorem present_tableEntry (n : Word) : Present (tableEntry n) := by
  rw [tableEntry_eq]; exact present_or (by decide)

theorem not_huge_tableEntry {n : Word} (hn : Aligned n) : ¬ Huge (tableEntry n) := by
  have hbit := Word.or_and_bit (f := 7) (and_not_flagMask hn)
    (by decide : pageHuge &&& ~~~flagMask = 0)
  rw [tableEntry_eq, Huge, hbit]
  decide

theorem tableEntry_addr {n : Word} (hn : Aligned n) : tableEntry n &&& ~~~flagMask = n := by
  rw [tableEntry_eq]
  exact Word.or_and_not (and_not_flagMask hn) (by decide)

theorem pageChild_tableEntry {d : Nat} {n : Word} (hn : Aligned n) (hd : d < 3) :
    pageChild d (tableEntry n) = some n := by
  rw [pageChild_of_present (present_tableEntry n) hd fun _ => not_huge_tableEntry hn,
    tableEntry_addr hn]

/-! ## §2. What the machine operations do to entries. -/

namespace Machine

variable {m : Machine} {t s n : Word} {i j : Fin 512} {v : Word}

theorem entry_setEntry (ht : Aligned t) (hs : Aligned s) :
    (m.setEntry t i v).entry s j = write m.entry t i v s j := by
  by_cases h : s = t ∧ j = i
  · obtain ⟨rfl, rfl⟩ := h
    rw [write_self]
    exact Mem.load64_store64_same _ _ _
  · rw [write_other _ _ h]
    exact Mem.load64_store64_slot _ v ht hs h

theorem entry_congr {m' : Machine} (h : ∀ x, InPage t x → m'.mem x = m.mem x) :
    m'.entry t i = m.entry t i :=
  Mem.load64_slot_congr i h

@[simp] theorem entry_allocFrame : m.allocFrame.2.entry t i = m.entry t i := rfl

@[simp] theorem entry_freeFrame (a : Word) : (m.freeFrame a).entry t i = m.entry t i := rfl

@[simp] theorem entry_refInc (a : Word) : (m.refInc a).entry t i = m.entry t i := rfl

@[simp] theorem pmm_setEntry : (m.setEntry t i v).pmm = m.pmm := rfl

@[simp] theorem currentPml4_setEntry : (m.setEntry t i v).currentPml4 = m.currentPml4 := rfl

/-- A slot store changes no byte outside the table's page. -/
theorem mem_setEntry_of_not_inPage {x : Word} (h : ¬ InPage t x) :
    (m.setEntry t i v).mem x = m.mem x :=
  Mem.store64_slot_of_not_inPage _ _ h

end Machine

section ZeroTable

variable {m : Machine} {n : Word}

theorem mem_drop_finRange {n k : Nat} {i : Fin n} : i ∈ (List.finRange n).drop k ↔ k ≤ i.val := by
  rw [List.mem_drop_iff_getElem]
  constructor
  · rintro ⟨j, hj, rfl⟩
    simp
  · intro h
    have hi := i.isLt
    exact ⟨i.val - k, by simp; omega, by simp [Nat.add_sub_cancel' h]⟩

theorem mem_slotsFrom {k : Nat} {i : Fin 512} : i ∈ slotsFrom k ↔ k ≤ i.val :=
  mem_drop_finRange

/-- What storing zeros into slots of a table changes: its own page. -/
theorem zeroSlots_frame (l : List (Fin 512)) (m : Machine) (n : Word) :
    (l.foldl (fun m i => m.setEntry n i 0) m).pmm = m.pmm ∧
      (l.foldl (fun m i => m.setEntry n i 0) m).currentPml4 = m.currentPml4 ∧
      ∀ x, ¬ InPage n x → (l.foldl (fun m i => m.setEntry n i 0) m).mem x = m.mem x := by
  refine foldl_preserves (fun m' : Machine => m'.pmm = m.pmm ∧ m'.currentPml4 = m.currentPml4 ∧
    ∀ x, ¬ InPage n x → m'.mem x = m.mem x) ⟨rfl, rfl, fun _ _ => rfl⟩ ?_
  intro i _ m' ⟨hp, hc, hx⟩
  refine ⟨hp, hc, fun x hn => ?_⟩
  rw [Machine.mem_setEntry_of_not_inPage hn, hx x hn]

theorem entry_zeroSlots (l : List (Fin 512)) (m : Machine) {n : Word} (hn : Aligned n) :
    ∀ j ∈ l, (l.foldl (fun m i => m.setEntry n i 0) m).entry n j = 0 := by
  refine foldl_invariant (fun done (m' : Machine) => ∀ j ∈ done, m'.entry n j = 0) (by simp) ?_
  intro done a rest m' _ hI j hj
  rw [Machine.entry_setEntry hn hn]
  by_cases ha : j = a
  · subst ha; simp
  · rw [write_other _ _ fun h => ha h.2]
    rcases List.mem_append.mp hj with hj | hj
    · exact hI j hj
    · exact absurd (List.mem_singleton.mp hj) ha

@[simp] theorem pmm_zeroTable : (zeroTable m n).pmm = m.pmm := (zeroSlots_frame _ m n).1

@[simp] theorem currentPml4_zeroTable : (zeroTable m n).currentPml4 = m.currentPml4 :=
  (zeroSlots_frame _ m n).2.1

theorem mem_zeroTable_of_not_inPage {x : Word} (h : ¬ InPage n x) :
    (zeroTable m n).mem x = m.mem x := by
  unfold zeroTable
  exact (zeroSlots_frame _ m n).2.2 x h

/-- Every slot of a zeroed table is zero. -/
theorem entry_zeroTable (hn : Aligned n) (i : Fin 512) : (zeroTable m n).entry n i = 0 :=
  entry_zeroSlots _ m hn i (mem_slotsFrom.mpr (Nat.zero_le _))

theorem entry_zeroTable_of_ne {t : Word} (hn : Aligned n) (ht : Aligned t) (hne : t ≠ n)
    (i : Fin 512) : (zeroTable m n).entry t i = m.entry t i :=
  Machine.entry_congr fun _ hx =>
    mem_zeroTable_of_not_inPage (Mem.not_inPage_of_ne ht hn hne hx)

end ZeroTable

/-! ## §3. Well-formed trees. -/

abbrev PageForest := Forest Word (Fin 512)

/-- Page tables have nothing below them. -/
theorem tableAt_length {m : Machine} {r t : Word} {q : List (Fin 512)}
    (h : tableAt pageChild m.entry r q = some t) : q.length ≤ 3 := by
  cases q with
  | nil => exact Nat.zero_le _
  | cons i q =>
    obtain ⟨s, -, hc⟩ := tableAt_cons_eq_some.mp h
    by_contra hlen
    rw [List.length_cons] at hlen
    rw [pageChild_leaf (by omega)] at hc
    cases hc

/-- `t` is the table of the forest at path `p` under root `r`. -/
abbrev Machine.TableOf (m : Machine) (F : PageForest) (r : Word) (p : List (Fin 512)) (t : Word) :
    Prop :=
  F.TableOf pageChild m.entry r p t

/-- **Well-formed trees**: the allocator is consistent and does not manage
    frame 0, no table is reached twice, no table is free, and every slot of a
    table is zero or present. -/
structure Machine.Wf (pool : Finset Nat) (F : PageForest) (m : Machine) : Prop where
  pmm : m.pmm.Inv pool
  zero : 0 ∉ pool
  root : ∀ r ∈ F.roots, Aligned r
  sep : Separated pageChild m.entry F
  nonzero : ∀ r p t, m.TableOf F r p t → t ≠ 0
  notFree : ∀ r p t, m.TableOf F r p t → t ∉ m.pmm.freeStack
  clean : ∀ r p t i, m.TableOf F r p t → F.Path r (i :: p) →
    Present (m.entry t i) ∨ m.entry t i = 0

namespace Machine.Wf

variable {pool : Finset Nat} {F : PageForest} {m : Machine} {r t : Word} {p : List (Fin 512)}
  {i : Fin 512}

theorem aligned (h : m.Wf pool F) (ht : m.TableOf F r p t) : Aligned t :=
  tableAt_all (P := Aligned) (fun _ _ _ hc => pageChild_aligned hc) (h.root r ht.1.1) ht.2

/-- The frame on top of the stack. -/
theorem top (h : m.Wf pool F) {n : Word} {rest : List Word} (hst : m.pmm.freeStack = n :: rest) :
    Aligned n ∧ n ≠ 0 ∧ n ∉ rest ∧ frameOf n < maxFrames ∧ ∀ r p, ¬ m.TableOf F r p n := by
  have hmem : n ∈ m.pmm.freeStack := by rw [hst]; exact List.mem_cons_self
  have hnd := h.pmm.nodup
  rw [hst] at hnd
  have hal := h.pmm.aligned n hmem
  refine ⟨hal, ?_, (List.nodup_cons.mp hnd).1, h.pmm.inRange n hmem, fun r p ht => ?_⟩
  · rintro rfl
    exact h.zero (h.pmm.free_mem 0 (by decide) (h.pmm.bitmap_of_mem hmem))
  · exact h.notFree r p n ht hmem

/-- Storing to a slot of a table, as a write of the table memory. -/
theorem tableOf_setEntry (hroot : ∀ r ∈ F.roots, Aligned r) (ht : Aligned t) {v : Word}
    {r' s : Word} {q : List (Fin 512)} :
    (m.setEntry t i v).TableOf F r' q s ↔ F.TableOf pageChild (write m.entry t i v) r' q s := by
  refine Forest.tableOf_congr fun r q s hs j => ?_
  have hal : Aligned s :=
    tableAt_all (P := Aligned) (fun _ _ _ hc => pageChild_aligned hc) (hroot r hs.1.1) hs.2
  exact Machine.entry_setEntry ht hal

/-- A change of the allocator alone that frees no table. -/
theorem of_pmm (h : m.Wf pool F) {p' : Pmm} (hp : p'.Inv pool)
    (hfree : ∀ r p t, m.TableOf F r p t → t ∉ p'.freeStack) :
    ({ m with pmm := p' } : Machine).Wf pool F :=
  ⟨hp, h.zero, h.root, h.sep, h.nonzero, hfree, h.clean⟩

/-- An allocation, used or not, keeps the trees. -/
theorem allocFrame (h : m.Wf pool F) : m.allocFrame.2.Wf pool F := by
  refine h.of_pmm h.pmm.alloc fun r p t ht hmem => h.notFree r p t ht ?_
  cases hst : m.pmm.freeStack with
  | nil => rw [pmmAllocFrame_nil hst] at hmem; simp [hst] at hmem
  | cons a rest =>
    rw [pmmAllocFrame_cons hst] at hmem
    exact List.mem_cons_of_mem _ hmem

/-- A change of the memory outside every table. -/
theorem of_mem (h : m.Wf pool F) {m' : Machine} (hp : m'.pmm = m.pmm)
    (hmem : ∀ r q s, m.TableOf F r q s → ∀ j, m'.entry s j = m.entry s j) :
    m'.Wf pool F ∧ ∀ r q s, m'.TableOf F r q s ↔ m.TableOf F r q s := by
  have hiff : ∀ r q s, m'.TableOf F r q s ↔ m.TableOf F r q s := fun r q s =>
    Forest.tableOf_congr hmem
  refine ⟨⟨hp ▸ h.pmm, h.zero, h.root, ?_, ?_, ?_, ?_⟩, hiff⟩
  · intro r₁ p₁ r₂ p₂ s h₁ h₂
    exact h.sep r₁ p₁ r₂ p₂ s ((hiff _ _ _).mp h₁) ((hiff _ _ _).mp h₂)
  · exact fun r p t ht => h.nonzero r p t ((hiff _ _ _).mp ht)
  · rw [hp]; exact fun r p t ht => h.notFree r p t ((hiff _ _ _).mp ht)
  · intro r p t i ht hpath
    have ht' := (hiff _ _ _).mp ht
    rw [hmem r p t ht']
    exact h.clean r p t i ht' hpath

/-- **Storing a value that points to no table**: an entry of the last level, a
    huge page, or zero. -/
theorem setLeaf (h : m.Wf pool F) (ht : m.TableOf F r p t) {v : Word}
    (hv : pageChild p.length v = none) (hclean : Present v ∨ v = 0) :
    (m.setEntry t i v).Wf pool F := by
  have hal := h.aligned ht
  have hold : ∀ {r' q s}, (m.setEntry t i v).TableOf F r' q s → m.TableOf F r' q s := fun hs =>
    (tableOf_of_write_none h.sep ht hv ((tableOf_setEntry h.root hal).mp hs)).1
  refine ⟨h.pmm, h.zero, h.root, ?_, fun r p t hs => h.nonzero r p t (hold hs),
    fun r p t hs => h.notFree r p t (hold hs), ?_⟩
  · intro r₁ p₁ r₂ p₂ s h₁ h₂
    exact h.sep r₁ p₁ r₂ p₂ s (hold h₁) (hold h₂)
  · intro r' q s j hs hpath
    rw [Machine.entry_setEntry hal (h.aligned (hold hs))]
    by_cases hsj : s = t ∧ j = i
    · obtain ⟨rfl, rfl⟩ := hsj
      rw [write_self]; exact hclean
    · rw [write_other _ _ hsj]
      exact h.clean r' q s j (hold hs) hpath

/-- The tables after storing such a value into a slot that pointed nowhere. -/
theorem tableOf_setLeaf (h : m.Wf pool F) (ht : m.TableOf F r p t) {v : Word}
    (hold : pageChild p.length (m.entry t i) = none) (hv : pageChild p.length v = none)
    {r' s : Word} {q : List (Fin 512)} :
    (m.setEntry t i v).TableOf F r' q s ↔ m.TableOf F r' q s :=
  (tableOf_setEntry h.root (h.aligned ht)).trans (tableOf_write_leaf h.sep ht hold hv)

end Machine.Wf

/-! ## §4. `ensure_next_table`. -/

/-- Allocate the frame `n`, zero it, and hang it into slot `i` of `t`. -/
def Machine.attachTable (m : Machine) (t : Word) (i : Fin 512) (n : Word) : Machine :=
  (zeroTable m.allocFrame.2 n).setEntry t i (tableEntry n)

section Ensure

variable {m : Machine} {t n : Word} {i : Fin 512} {rest : List Word}

theorem getExistingTable_zero (hz : m.entry t i = 0) : getExistingTable m t i = 0 := by
  rw [getExistingTable, if_neg (by rw [hz]; exact not_present_zero)]

/-- At an empty slot the frame on top of the stack is attached. -/
theorem ensureNextTable_attach (hn : Aligned n) (hn0 : n ≠ 0) (ht : Aligned t) (hne : n ≠ t)
    (hz : m.entry t i = 0) (hst : m.pmm.freeStack = n :: rest) :
    ensureNextTable m t i = (n, m.attachTable t i n) := by
  have hret : m.allocFrame.1 = n := by rw [Machine.allocFrame, pmmAllocFrame_cons hst]
  have hagain : getExistingTable (zeroTable m.allocFrame.2 n) t i = 0 := by
    rw [getExistingTable, entry_zeroTable_of_ne hn ht (Ne.symm hne), Machine.entry_allocFrame, hz,
      if_neg not_present_zero]
  rw [ensureNextTable, getExistingTable_zero hz, if_neg (by simp)]
  simp only [allocZeroedTable, hret, hn0, if_false, hagain, if_true]
  rfl

/-- Without a frame nothing is. -/
theorem ensureNextTable_fails (hz : m.entry t i = 0) (hst : m.pmm.freeStack = []) :
    ensureNextTable m t i = (0, m.allocFrame.2) := by
  have hret : m.allocFrame.1 = 0 := by rw [Machine.allocFrame, pmmAllocFrame_nil hst]
  rw [ensureNextTable, getExistingTable_zero hz, if_neg (by simp)]
  simp only [allocZeroedTable, hret, if_true]

end Ensure

namespace Machine.Wf

variable {pool : Finset Nat} {F : PageForest} {m : Machine} {r t n : Word} {p : List (Fin 512)}
  {i : Fin 512} {rest : List Word}

theorem entry_attachTable (hn : Aligned n) (ht : Aligned t) {s : Word} (hs : Aligned s)
    (hne : n ≠ t) (j : Fin 512) :
    (m.attachTable t i n).entry s j
      = if s = n then 0 else write m.entry t i (tableEntry n) s j := by
  rw [Machine.attachTable, Machine.entry_setEntry ht hs]
  by_cases hsn : s = n
  · subst hsn
    rw [if_pos rfl, write_other _ _ fun h => hne h.1, entry_zeroTable hs]
  · rw [if_neg hsn]
    by_cases hst : s = t ∧ j = i
    · obtain ⟨rfl, rfl⟩ := hst; simp
    · rw [write_other _ _ hst, write_other _ _ hst, entry_zeroTable_of_ne hn hs hsn]
      rfl

/-- **A table attached**: the new table is the only change to the tables. -/
theorem tableOf_attachTable (h : m.Wf pool F) (ht : m.TableOf F r p t) (hlen : p.length < 3)
    (hpath : F.Path r (i :: p)) (hnone : pageChild p.length (m.entry t i) = none)
    (hst : m.pmm.freeStack = n :: rest) {r' s : Word} {q : List (Fin 512)} :
    (m.attachTable t i n).TableOf F r' q s ↔
      m.TableOf F r' q s ∨ (r' = r ∧ q = i :: p ∧ s = n) := by
  obtain ⟨hn, -, -, -, hfresh⟩ := h.top hst
  have hal := h.aligned ht
  have hne : n ≠ t := fun he => hfresh r p (he ▸ ht)
  -- first the zeroed frame, which is no table, then the slot
  set m₀ := zeroTable m.allocFrame.2 n
  have hzero : ∀ r q s, m.TableOf F r q s → ∀ j, m₀.entry s j = m.entry s j := fun r q s hs j =>
    entry_zeroTable_of_ne hn (h.aligned hs) (fun he => hfresh r q (he ▸ hs)) j
  have hiff : ∀ r q s, m₀.TableOf F r q s ↔ m.TableOf F r q s := fun r q s =>
    Forest.tableOf_congr hzero
  have hsep : Separated pageChild m₀.entry F := fun r₁ p₁ r₂ p₂ s h₁ h₂ =>
    h.sep r₁ p₁ r₂ p₂ s ((hiff _ _ _).mp h₁) ((hiff _ _ _).mp h₂)
  rw [Machine.attachTable, tableOf_setEntry h.root hal,
    tableOf_attach hsep ((hiff _ _ _).mpr ht) hpath
      (by rw [hzero r p t ht]; exact hnone) (pageChild_tableEntry hn hlen)
      (fun r' q hq => hfresh r' q ((hiff _ _ _).mp hq))
      (fun d j => by rw [entry_zeroTable hn, pageChild_zero])]
  exact or_congr_left (hiff r' q s)

theorem pmm_attachTable (m : Machine) (t n : Word) (i : Fin 512) :
    (m.attachTable t i n).pmm = (pmmAllocFrame m.pmm).2 := by
  rw [Machine.attachTable, Machine.pmm_setEntry, pmm_zeroTable]
  rfl

theorem attachTable (h : m.Wf pool F) (ht : m.TableOf F r p t) (hlen : p.length < 3)
    (hpath : F.Path r (i :: p)) (hnone : pageChild p.length (m.entry t i) = none)
    (hst : m.pmm.freeStack = n :: rest) :
    (m.attachTable t i n).Wf pool F := by
  obtain ⟨hn, hn0, hnrest, -, hfresh⟩ := h.top hst
  have hal := h.aligned ht
  have hne : n ≠ t := fun he => hfresh r p (he ▸ ht)
  have htab : ∀ r' q s, (m.attachTable t i n).TableOf F r' q s ↔
      m.TableOf F r' q s ∨ (r' = r ∧ q = i :: p ∧ s = n) := fun r' q s =>
    h.tableOf_attachTable ht hlen hpath hnone hst
  have hpmm := pmm_attachTable m t n i
  have hstack : (pmmAllocFrame m.pmm).2.freeStack = rest := by rw [pmmAllocFrame_cons hst]
  refine ⟨hpmm ▸ h.pmm.alloc, h.zero, h.root, ?_, ?_, ?_, ?_⟩
  · intro r₁ p₁ r₂ p₂ s h₁ h₂
    rcases (htab _ _ _).mp h₁ with h₁ | ⟨hr₁, hp₁, hs₁⟩ <;>
      rcases (htab _ _ _).mp h₂ with h₂ | ⟨hr₂, hp₂, hs₂⟩
    · exact h.sep r₁ p₁ r₂ p₂ s h₁ h₂
    · exact absurd (hs₂ ▸ h₁) (hfresh _ _)
    · exact absurd (hs₁ ▸ h₂) (hfresh _ _)
    · exact ⟨hr₁.trans hr₂.symm, hp₁.trans hp₂.symm⟩
  · intro r' q s hs
    rcases (htab _ _ _).mp hs with hs | ⟨-, -, rfl⟩
    · exact h.nonzero r' q s hs
    · exact hn0
  · intro r' q s hs
    rw [hpmm, hstack]
    rcases (htab _ _ _).mp hs with hs | ⟨-, -, rfl⟩
    · have := h.notFree r' q s hs
      rw [hst] at this
      exact fun hm => this (List.mem_cons_of_mem _ hm)
    · exact hnrest
  · intro r' q s j hs hp
    rcases (htab _ _ _).mp hs with hs | ⟨-, -, rfl⟩
    · rw [entry_attachTable hn hal (h.aligned hs) hne, if_neg (show s ≠ n from fun he => hfresh r' q (he ▸ hs))]
      by_cases hst' : s = t ∧ j = i
      · obtain ⟨rfl, rfl⟩ := hst'
        rw [write_self]; exact .inl (present_tableEntry n)
      · rw [write_other _ _ hst']; exact h.clean r' q s j hs hp
    · rw [entry_attachTable hn hal hn hne, if_pos rfl]; exact .inr rfl

/-- **What `ensure_next_table` can do** at a slot of a tree that does not hold
    a huge page: find the next table, attach a fresh one, or run out of
    frames. -/
theorem ensureNextTable_cases (h : m.Wf pool F) (ht : m.TableOf F r p t) (hlen : p.length < 3)
    (hpath : F.Path r (i :: p)) (hh : p.length = 2 → ¬ Huge (m.entry t i)) :
    (∃ n, m.TableOf F r (i :: p) n ∧ ensureNextTable m t i = (n, m)) ∨
    (∃ n rest, m.entry t i = 0 ∧ m.pmm.freeStack = n :: rest ∧
      ensureNextTable m t i = (n, m.attachTable t i n)) ∨
    (m.entry t i = 0 ∧ m.pmm.freeStack = [] ∧ ensureNextTable m t i = (0, m.allocFrame.2)) := by
  rcases h.clean r p t i ht hpath with hpres | hz
  · left
    have hchild := pageChild_of_present hpres hlen hh
    have hn : m.TableOf F r (i :: p) (m.entry t i &&& ~~~flagMask) :=
      ⟨hpath, (tableAt_cons ht.2).trans hchild⟩
    refine ⟨_, hn, ?_⟩
    have hget : getExistingTable m t i = m.entry t i &&& ~~~flagMask := by
      rw [getExistingTable, if_pos hpres]
    rw [ensureNextTable, hget, if_pos (h.nonzero _ _ _ hn)]
  · right
    cases hst : m.pmm.freeStack with
    | nil => exact .inr ⟨hz, rfl, ensureNextTable_fails hz hst⟩
    | cons n rest =>
      obtain ⟨hn, hn0, -, -, hfresh⟩ := h.top hst
      exact .inl ⟨n, rest, hz, rfl,
        ensureNextTable_attach hn hn0 (h.aligned ht) (fun he => hfresh r p (he ▸ ht)) hz hst⟩

end Machine.Wf

end ZohoOs
