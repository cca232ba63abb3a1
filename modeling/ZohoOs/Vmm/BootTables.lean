/-
  ZohoOs.Vmm.BootTables — `setup_page_tables` (boot/main.asm).

  The 32-bit code fills the tables of the bootstrap tree, which start as zeros
  in `.bss`, with stores of four bytes: the upper halves of the entries are
  never written.  Its result is the memory that `bootMachine` starts with, and
  an identity map of the first 4 GiB.

  The six pages of tables follow each other in the image, so the proofs count
  their 3072 slots from `p4_table` on.
-/
import ZohoOs.Vmm.Bootstrap

namespace ZohoOs

open ZohoOs.Lib
open ZohoOs.Lib.Mem (slotAddr byte_load32 byte_load64 load64_store64_same load64_store64_other
  store64_of_le)

/-! ## §1. The code. -/

/-- `mov [a], eax`. -/
def store32 (m : Mem) (a : Word) (eax : BitVec 32) : Mem := fun x =>
  if (x - a).toNat < 4 then eax.extractLsb' (8 * (x - a).toNat) 8 else m x

/-- The body of `.map_p3_table`. -/
def mapP3Table (m : Mem) (ecx : BitVec 32) : Mem :=
  let eax : BitVec 32 := (4096 * ecx + 0x112000) ||| 0b11
  store32 m ((0x111000 + ecx * 8 : BitVec 32).setWidth 64) eax

/-- The body of `.map_p2_table`. -/
def mapP2Table (m : Mem) (ecx : BitVec 32) : Mem :=
  let eax : BitVec 32 := (0x200000 * ecx) ||| 0b10000011
  store32 m ((0x112000 + ecx * 8 : BitVec 32).setWidth 64) eax

def setupPageTables (m : Mem) : Mem :=
  -- `p4_table` points to `p3_table`
  let m := store32 m p4Table (0x111000 ||| 0b11)
  let m := (List.range 4).foldl (fun m i => mapP3Table m (BitVec.ofNat 32 i)) m
  (List.range 2048).foldl (fun m i => mapP2Table m (BitVec.ofNat 32 i)) m

/-! ## §2. The slots of the tables. -/

/-- `x` lies in the tables. -/
def InBootTables (x : Word) : Prop := 0x110000 ≤ x.toNat ∧ x.toNat < 0x116000

/-- `.bss` starts as zeros. -/
def BssZero (m : Mem) : Prop := ∀ x, InBootTables x → m x = 0

/-- The address of slot `s`, counted from `p4_table` on. -/
def bootSlot (s : Nat) : Word := p4Table + BitVec.ofNat 64 (8 * s)

theorem toNat_bootSlot {s : Nat} (hs : s < 3072) : (bootSlot s).toNat = 0x110000 + 8 * s := by
  have hp4 : p4Table.toNat = 0x110000 := rfl
  rw [bootSlot, BitVec.toNat_add, BitVec.toNat_ofNat, hp4]
  omega

theorem slotAddr_p4 (i : Fin 512) : slotAddr p4Table i = bootSlot i := by
  have := i.isLt
  apply BitVec.eq_of_toNat_eq
  have ht : p4Table.toNat = 0x110000 := rfl
  rw [toNat_bootSlot (by omega), slotAddr, BitVec.toNat_add, Mem.toNat_slotOffset, ht]
  omega

theorem slotAddr_p3 (i : Fin 512) : slotAddr p3Table i = bootSlot (512 + i) := by
  have := i.isLt
  apply BitVec.eq_of_toNat_eq
  have ht : p3Table.toNat = 0x111000 := rfl
  rw [toNat_bootSlot (by omega), slotAddr, BitVec.toNat_add, Mem.toNat_slotOffset, ht]
  omega

theorem slotAddr_p2 (k : Fin 4) (i : Fin 512) :
    slotAddr (p2Table k) i = bootSlot (1024 + (512 * k + i)) := by
  have := i.isLt
  have := k.isLt
  apply BitVec.eq_of_toNat_eq
  have ht : (0x112000 : Word).toNat = 0x112000 := rfl
  rw [toNat_bootSlot (by omega), slotAddr, BitVec.toNat_add, Mem.toNat_slotOffset, p2Table,
    BitVec.toNat_add, BitVec.toNat_ofNat, ht]
  omega

/-- A store of four bytes below four zeros is one of eight bytes. -/
theorem store32_eq_store64 {m : Mem} {a : Word} (v : BitVec 32) (hz : m.load64 a = 0) :
    store32 m a v = m.store64 a (v.setWidth 64) := by
  funext x
  by_cases hx : (x - a).toNat < 8
  · have hbyte := byte_load64 m a hx
    have hxa : a + BitVec.ofNat 64 (x - a).toNat = x := by
      rw [BitVec.ofNat_toNat, BitVec.setWidth_eq]
      bv_omega
    rw [hz, hxa] at hbyte
    simp only [store32, Mem.store64, if_pos hx]
    generalize (x - a).toNat = n at hx hbyte ⊢
    by_cases h4 : n < 4
    · -- a byte of `v`
      rw [if_pos h4]
      ext i hi
      have hlt : 8 * n + i < 64 := by omega
      simp [BitVec.getElem_extractLsb', hlt]
    · -- a zero, which the longer store writes again
      rw [if_neg h4, ← hbyte]
      ext i hi
      have hge : v.getLsbD (8 * n + i) = false := BitVec.getLsbD_of_ge _ _ (by omega)
      simp [BitVec.getElem_extractLsb', BitVec.getLsbD_setWidth, hge]
  · rw [store64_of_le m (by omega), store32, if_neg (by omega)]

/-! ## §3. What has been written so far. -/

/-- The slots hold `E`, and the memory around the tables is that of `m₀`. -/
structure Wrote (m₀ m : Mem) (E : Nat → Word) : Prop where
  slots : ∀ s < 3072, m.load64 (bootSlot s) = E s
  outside : ∀ x, ¬ InBootTables x → m x = m₀ x

variable {m₀ m : Mem} {E : Nat → Word}

/-- An entry is written where there was none. -/
theorem Wrote.store (h : Wrote m₀ m E) {s : Nat} (hs : s < 3072) (hz : E s = 0) (v : BitVec 32) :
    Wrote m₀ (store32 m (bootSlot s) v) fun s' => if s' = s then v.setWidth 64 else E s' := by
  rw [store32_eq_store64 v ((h.slots s hs).trans hz)]
  have hslot := toNat_bootSlot hs
  constructor
  · intro s' hs'
    by_cases heq : s' = s
    · subst heq
      rw [load64_store64_same, if_pos rfl]
    · have hslot' := toNat_bootSlot hs'
      rw [if_neg heq, ← h.slots s' hs']
      apply load64_store64_other <;> bv_omega
  · intro x hx
    rw [← h.outside x hx]
    apply store64_of_le
    unfold InBootTables at hx
    bv_omega

/-- A loop that writes slot `b + i` in its turn `i`. -/
theorem Wrote.loop (h : Wrote m₀ m E) {body : Mem → BitVec 32 → Mem} {b : Nat} {v : Nat → BitVec 32}
    (n : Nat)
    (hbody : ∀ m, ∀ i < n, body m (BitVec.ofNat 32 i) = store32 m (bootSlot (b + i)) (v i))
    (hn : b + n ≤ 3072) (hz : ∀ i < n, E (b + i) = 0) :
    Wrote m₀ ((List.range n).foldl (fun m i => body m (BitVec.ofNat 32 i)) m) fun s =>
      if b ≤ s ∧ s < b + n then (v (s - b)).setWidth 64 else E s := by
  -- `n` turns are done
  induction n with
  | zero =>
    have hE : (fun s => if b ≤ s ∧ s < b + 0 then (v (s - b)).setWidth 64 else E s) = E := by
      funext s
      exact if_neg (by omega)
    rw [hE]
    exact h
  | succ n ih =>
    have hprev := ih (fun m i hi => hbody m i (by omega)) (by omega) fun i hi => hz i (by omega)
    rw [List.range_succ, List.foldl_append, List.foldl_cons, List.foldl_nil,
      hbody _ n (Nat.lt_succ_self n)]
    have hnext := hprev.store (s := b + n) (by omega)
      (by rw [if_neg (by omega), hz n (Nat.lt_succ_self n)]) (v n)
    convert hnext using 1
    funext s
    by_cases hs : s = b + n
    · subst hs
      rw [if_pos rfl, if_pos (by omega), Nat.add_sub_cancel_left]
    · rw [if_neg hs]
      by_cases hb : b ≤ s ∧ s < b + n
      · rw [if_pos hb, if_pos (by omega)]
      · rw [if_neg hb, if_neg (by omega)]

/-! ## §4. The tables when it returns. -/

theorem setWidth_slot {base : BitVec 32} {i : Nat} (h : base.toNat + 8 * i < 2 ^ 32) :
    (base + BitVec.ofNat 32 i * 8).setWidth 64 = BitVec.ofNat 64 (base.toNat + 8 * i) := by
  have h8 : (8 : BitVec 32).toNat = 8 := rfl
  apply BitVec.eq_of_toNat_eq
  simp only [BitVec.toNat_setWidth, BitVec.toNat_add, BitVec.toNat_mul, BitVec.toNat_ofNat, h8]
  omega

/-- What turn `i` of `.map_p3_table` stores. -/
def p3Entry (i : Nat) : BitVec 32 := (4096 * BitVec.ofNat 32 i + 0x112000) ||| 0b11

/-- What turn `i` of `.map_p2_table` stores. -/
def p2Entry (i : Nat) : BitVec 32 := (0x200000 * BitVec.ofNat 32 i) ||| 0b10000011

theorem mapP3Table_eq (m : Mem) {i : Nat} (hi : i < 4) :
    mapP3Table m (BitVec.ofNat 32 i) = store32 m (bootSlot (512 + i)) (p3Entry i) := by
  have hbase : (0x111000 : BitVec 32).toNat = 0x111000 := rfl
  have haddr : (0x111000 + BitVec.ofNat 32 i * 8 : BitVec 32).setWidth 64 = bootSlot (512 + i) := by
    apply BitVec.eq_of_toNat_eq
    rw [setWidth_slot (by omega), toNat_bootSlot (by omega), BitVec.toNat_ofNat]
    omega
  rw [mapP3Table, haddr]
  rfl

theorem mapP2Table_eq (m : Mem) {i : Nat} (hi : i < 2048) :
    mapP2Table m (BitVec.ofNat 32 i) = store32 m (bootSlot (1024 + i)) (p2Entry i) := by
  have hbase : (0x112000 : BitVec 32).toNat = 0x112000 := rfl
  have haddr : (0x112000 + BitVec.ofNat 32 i * 8 : BitVec 32).setWidth 64 =
      bootSlot (1024 + i) := by
    apply BitVec.eq_of_toNat_eq
    rw [setWidth_slot (by omega), toNat_bootSlot (by omega), BitVec.toNat_ofNat]
    omega
  rw [mapP2Table, haddr]
  rfl

/-- The slots when `setup_page_tables` returns. -/
def bootWord (s : Nat) : Word :=
  if 1024 ≤ s ∧ s < 1024 + 2048 then (p2Entry (s - 1024)).setWidth 64
  else if 512 ≤ s ∧ s < 512 + 4 then (p3Entry (s - 512)).setWidth 64
  else if s = 0 then (0x111000 ||| 0b11 : BitVec 32).setWidth 64
  else 0

theorem setupPageTables_wrote (hzero : BssZero m) :
    Wrote m (setupPageTables m) bootWord := by
  have h₀ : Wrote m m fun _ => 0 := by
    refine ⟨fun s hs => ?_, fun _ _ => rfl⟩
    have hslot := toNat_bootSlot hs
    have hempty : m.load64 (bootSlot s) = Mem.load64 (fun _ => 0) 0 := by
      apply Mem.load64_congr'
      intro k hk
      apply hzero
      unfold InBootTables
      bv_omega
    exact hempty
  have h₁ := h₀.store (s := 0) (by omega) rfl (0x111000 ||| 0b11)
  have h₂ := h₁.loop 4 (fun m i hi => mapP3Table_eq m hi) (by omega) fun i _ => if_neg (by omega)
  have h₃ := h₂.loop 2048 (fun m i hi => mapP2Table_eq m hi) (by omega) fun i _ => by
    rw [if_neg (by omega), if_neg (by omega)]
  have hbase : bootSlot 0 = p4Table := by simp [bootSlot]
  rw [hbase] at h₃
  exact h₃

/-- The entries of the page `k` of `p2_table` map the `k`-th GiB. -/
theorem bootEntry_p2_eq (k : Fin 4) (i : Fin 512) :
    bootEntry (p2Table k) i = BitVec.ofNat 64 (0x200000 * (512 * k + i)) ||| 0b10000011 := by
  unfold bootEntry
  rw [if_neg (by revert k; decide), if_neg (by revert k; decide)]
  obtain rfl | rfl | rfl | rfl : k = 0 ∨ k = 1 ∨ k = 2 ∨ k = 3 := by revert k; decide
  · rw [if_pos rfl]
    simp
  · rw [if_neg (by decide), if_pos rfl]
    simp
  · rw [if_neg (by decide), if_neg (by decide), if_pos rfl]
    simp
  · rw [if_neg (by decide), if_neg (by decide), if_neg (by decide), if_pos rfl]
    simp

/-- **`setup_page_tables` builds the bootstrap tree.** -/
theorem setupPageTables_entry (hzero : BssZero m) {t : Word} (i : Fin 512)
    (ht : t = p4Table ∨ t = p3Table ∨ ∃ k, t = p2Table k) :
    (setupPageTables m).load64 (slotAddr t i) = bootEntry t i := by
  have h := (setupPageTables_wrote hzero).slots
  have hi := i.isLt
  rcases ht with rfl | rfl | ⟨k, rfl⟩
  · rw [slotAddr_p4, h i (by omega), bootEntry_p4, bootWord, if_neg (by omega), if_neg (by omega)]
    by_cases hi0 : i = 0
    · rw [if_pos hi0, hi0]
      rfl
    · have hne : i.val ≠ 0 := fun h => hi0 (Fin.ext h)
      rw [if_neg hi0, if_neg hne]
  · rw [slotAddr_p3, h _ (by omega), bootEntry_p3, bootWord, if_neg (by omega)]
    by_cases hi4 : i.val < 4
    · rw [if_pos (by omega), dif_pos hi4, Nat.add_sub_cancel_left]
      have hfour : ∀ k : Fin 4, (p3Entry k).setWidth 64 = p2Table k ||| 0b11 := by decide
      exact hfour ⟨i, hi4⟩
    · rw [if_neg (by omega), dif_neg hi4, if_neg (by omega)]
  · have hk := k.isLt
    rw [slotAddr_p2, h _ (by omega), bootEntry_p2_eq, bootWord, if_pos (by omega),
      Nat.add_sub_cancel_left, p2Entry, BitVec.setWidth_or]
    congr 1
    apply BitVec.eq_of_toNat_eq
    have hpage : (0x200000 : BitVec 32).toNat = 0x200000 := rfl
    simp only [BitVec.toNat_setWidth, BitVec.toNat_mul, BitVec.toNat_ofNat, hpage]
    omega

/-! ## §5. The identity map. -/

/-- The machine when paging is on, with the allocator `p`. -/
def startMachine (p : Pmm) (mem : Mem) : Machine :=
  { pmm := p, mem := mem, currentPml4 := p4Table, stores := [] }

theorem startMachine_mem (p : Pmm) (mem : Mem) : (startMachine p mem).mem = mem := rfl

section Start

variable {p : Pmm} {v : Word}

theorem startMachine_entry (hzero : BssZero m) {t : Word} (i : Fin 512)
    (ht : t = p4Table ∨ t = p3Table ∨ ∃ k, t = p2Table k) :
    (startMachine p (setupPageTables m)).entry t i = bootEntry t i := by
  rw [Machine.entry, startMachine_mem]
  exact setupPageTables_entry hzero i ht

/-- Slot 0 of `p4_table` is the only one in use. -/
theorem start_pdpt (hzero : BssZero m) :
    getExistingTable (startMachine p (setupPageTables m)) p4Table (pml4Index v) =
      if v.toNat / 2 ^ 39 % 512 = 0 then p3Table else 0 := by
  have hval : (pml4Index v).val = v.toNat / 2 ^ 39 % 512 := pageIndex_val 39 v
  rw [getExistingTable, startMachine_entry hzero _ (.inl rfl), bootEntry_p4]
  by_cases h0 : pml4Index v = 0
  · have hz : v.toNat / 2 ^ 39 % 512 = 0 := by rw [← hval, h0]; rfl
    rw [if_pos h0, if_pos hz]
    decide
  · have hnz : v.toNat / 2 ^ 39 % 512 ≠ 0 := by
      rw [← hval]
      exact fun h => h0 (Fin.ext h)
    rw [if_neg h0, if_neg hnz]
    decide

/-- The first four slots of `p3_table` are the ones in use. -/
theorem start_pd (hzero : BssZero m) (k : Fin 4)
    (hk : v.toNat / 2 ^ 30 % 512 = k) :
    getExistingTable (startMachine p (setupPageTables m)) p3Table (pdptIndex v) = p2Table k := by
  have hval : (pdptIndex v).val = k := (pageIndex_val 30 v).trans hk
  have hlt : (pdptIndex v).val < 4 := by omega
  have hfour : ∀ k : Fin 4, Present (p2Table k ||| 0b11) ∧
      (p2Table k ||| 0b11) &&& ~~~flagMask = p2Table k := by decide
  have hk' : (⟨(pdptIndex v).val, hlt⟩ : Fin 4) = k := Fin.ext hval
  rw [getExistingTable, startMachine_entry hzero _ (.inr (.inl rfl)), bootEntry_p3, dif_pos hlt,
    hk', if_pos (hfour k).1, (hfour k).2]

theorem start_pd_none (hzero : BssZero m) (hk : 4 ≤ v.toNat / 2 ^ 30 % 512) :
    getExistingTable (startMachine p (setupPageTables m)) p3Table (pdptIndex v) = 0 := by
  have hval : (pdptIndex v).val = v.toNat / 2 ^ 30 % 512 := pageIndex_val 30 v
  rw [getExistingTable, startMachine_entry hzero _ (.inr (.inl rfl)), bootEntry_p3,
    dif_neg (by omega)]
  decide

/-- The 2 MiB page of an address below 4 GiB. -/
theorem start_page (hzero : BssZero m) (k : Fin 4)
    (hk : v.toNat / 2 ^ 30 = k) :
    (startMachine p (setupPageTables m)).entry (p2Table k) (pdIndex v) =
      (v &&& ~~~hugeMask) ||| 0b10000011 := by
  have hval : (pdIndex v).val = v.toNat / 2 ^ 21 % 512 := pageIndex_val 21 v
  have hmask : hugeMask = Word.lowMask 21 := rfl
  rw [startMachine_entry hzero _ (.inr (.inr ⟨k, rfl⟩)), bootEntry_p2_eq]
  congr 1
  apply BitVec.eq_of_toNat_eq
  rw [hmask, Word.toNat_and_not_lowMask v (by decide), BitVec.toNat_ofNat, hval]
  have := k.isLt
  omega

end Start

/-- **The identity map of the bootstrap**: `setup_page_tables`, on a zeroed
    `.bss`, leaves the tables the machine starts with and the memory around them
    as it was; an address below 4 GiB is its own physical address, on a present,
    writable 2 MiB page of the kernel, and no other address is mapped. -/
theorem boot_identity_map (p : Pmm) {m : Mem} (hzero : BssZero m) :
    (∀ t i, (t = p4Table ∨ t = p3Table ∨ ∃ k, t = p2Table k) →
      (startMachine p (setupPageTables m)).entry t i = (bootMachine p).entry t i) ∧
    (∀ x, ¬ InBootTables x → (startMachine p (setupPageTables m)).mem x = m x) ∧
    (∀ v : Word, v.toNat < 2 ^ 32 →
      vmmGetPhys (startMachine p (setupPageTables m)) p4Table v = v ∧
        vmmGetFlags (startMachine p (setupPageTables m)) p4Table v =
          pagePresent ||| pageWritable ||| pageHuge) ∧
    ∀ v : Word, 2 ^ 32 ≤ v.toNat → v.toNat < 2 ^ 48 →
      vmmGetPhys (startMachine p (setupPageTables m)) p4Table v = 0 := by
  refine ⟨?_, ?_, ?_, ?_⟩
  · intro t i ht
    have haligned : Mem.Aligned t := by
      rcases ht with rfl | rfl | ⟨k, rfl⟩
      · decide
      · decide
      · exact aligned_p2Table k
    rw [startMachine_entry hzero i ht, entry_bootMachine p haligned]
  · intro x hx
    rw [startMachine_mem]
    exact (setupPageTables_wrote hzero).outside x hx
  · intro v hv
    have hk : v.toNat / 2 ^ 30 < 4 := by omega
    have hp3 : p3Table ≠ 0 := by decide
    have hp2 : ∀ k, p2Table k ≠ 0 := by decide
    have habove : (v &&& ~~~hugeMask) &&& ~~~hugeMask = v &&& ~~~hugeMask := by
      rw [BitVec.and_assoc, BitVec.and_self]
    have habove' : (v &&& ~~~hugeMask) &&& ~~~flagMask = v &&& ~~~hugeMask := by
      rw [BitVec.and_assoc]
      rfl
    have h0 : v.toNat / 2 ^ 39 % 512 = 0 := by omega
    have hpd := start_pd (p := p) (v := v) hzero ⟨_, hk⟩ (Nat.mod_eq_of_lt (by omega))
    have hpage := start_page (p := p) (v := v) hzero ⟨_, hk⟩ rfl
    constructor
    · rw [vmmGetPhys, start_pdpt hzero, if_pos h0, if_neg hp3, hpd, if_neg (hp2 _), hpage,
        if_pos (huge_or _), Word.or_and_not habove (by decide), Word.split_or]
    · rw [vmmGetFlags, start_pdpt hzero, if_pos h0, if_neg hp3, hpd, if_neg (hp2 _), hpage,
        if_pos (huge_or _), Word.or_and_mask habove' (by decide)]
      decide
  · intro v hlow hhigh
    rw [vmmGetPhys, start_pdpt hzero]
    by_cases h0 : v.toNat / 2 ^ 39 % 512 = 0
    · have hp3 : p3Table ≠ 0 := by decide
      rw [if_pos h0, if_neg hp3, start_pd_none hzero (by omega), if_pos rfl]
    · rw [if_neg h0, if_pos rfl]

/-- `boot_identity_map` with memory that is all zeros: the screen's buffer at
    0xb8000 is where the code writes it. -/
theorem boot_identity_map_screen :
    vmmGetPhys (startMachine (smallPmm 4) (setupPageTables fun _ => 0)) p4Table 0xb8000 = 0xb8000 :=
  ((boot_identity_map (smallPmm 4) fun _ _ => rfl).2.2.1 0xb8000 (by decide)).1

end ZohoOs
