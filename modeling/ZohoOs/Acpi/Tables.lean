/-
  ZohoOs.Acpi.Tables — the walk over the ACPI tables (acpi.c).

  `acpi_init` follows the pointers of the RSDT and, in each MADT, goes from
  entry to entry by the length byte of the entry.  Nothing of this is checked:
  an entry of length 0 is visited for ever, one that starts at the end of the
  table is read beyond it, and the ids go into an array of 64 places.

  Main results:
    * `walkMadt_iff` — a MADT is walked through within its bounds exactly if
      it is cut into entries that fit;
    * `visitTables_iff` — the same for all tables of the RSDT;
    * `acpi_init_iff` — when `acpi_init` does what it should.
-/
import ZohoOs.Lib.Logged
import ZohoOs.Lib.Memory

namespace ZohoOs

open ZohoOs.Lib

/-! ## §1. `acpi_init`. -/

/-- A read of a table: `size` bytes from `offset` on. -/
structure TableRead where
  table : BitVec 32
  offset : Nat
  size : Nat

/-- The static variables of acpi.c: `cpuIds` are the ids that were stored, in
    their order.  The array has room for 64; those behind them lie behind it. -/
structure Acpi where
  lapicAddr : BitVec 32
  cpuIds : List (BitVec 8)

def acpiStart : Acpi := ⟨0, []⟩

/-- The length of `cpu_ids`. -/
def maxCpuIds : Nat := 64

/-- A byte, and a field of four bytes, of the table at `t`.  Tables lie below
    4 GiB, so the sum does not wrap around. -/
def tableByte (mem : Mem) (t : BitVec 32) (offset : Nat) : BitVec 8 :=
  mem.load8 (t.setWidth 64 + BitVec.ofNat 64 offset)

def tableWord (mem : Mem) (t : BitVec 32) (offset : Nat) : BitVec 32 :=
  mem.load32 (t.setWidth 64 + BitVec.ofNat 64 offset)

/-- `header.length`. -/
def tableLength (mem : Mem) (t : BitVec 32) : Nat := (tableWord mem t 4).toNat

def apicSignature : List (BitVec 8) := [0x41, 0x50, 0x49, 0x43]
def rsdpSignature : List (BitVec 8) := [0x52, 0x53, 0x44, 0x20, 0x50, 0x54, 0x52, 0x20]

/-- `find_rsdp`. -/
def findRsdp (mem : Mem) : Option Word :=
  ((List.range 8192).map fun i => BitVec.ofNat 64 (0xE0000 + 16 * i)).find? fun addr =>
    (List.range 8).map (fun k => mem.load8 (addr + BitVec.ofNat 64 k)) = rsdpSignature

/-- `memcmp` of the table from `offset` on with `s`, for equality. -/
def memcmpTable (mem : Mem) (t : BitVec 32) : Nat → List (BitVec 8) → Logged TableRead Bool
  | _, [] => pure true
  | offset, c :: s => do
    Logged.tell ⟨t, offset, 1⟩
    if tableByte mem t offset = c then memcmpTable mem t (offset + 1) s else pure false

/-- The entry at `offset` is an enabled local APIC. -/
def entryEnabled (mem : Mem) (t : BitVec 32) (offset : Nat) : Bool :=
  tableByte mem t offset = 0 ∧ tableWord mem t (offset + 4) &&& 1 ≠ 0

/-- The body of the loop over the entries: `ids` with the one of this entry. -/
def readEntry (mem : Mem) (t : BitVec 32) (offset : Nat) (ids : List (BitVec 8)) :
    Logged TableRead (List (BitVec 8)) := do
  Logged.tell ⟨t, offset, 1⟩
  if tableByte mem t offset = 0 then do
    Logged.tell ⟨t, offset + 4, 4⟩
    if tableWord mem t (offset + 4) &&& 1 ≠ 0 then do
      Logged.tell ⟨t, offset + 3, 1⟩
      pure (ids ++ [tableByte mem t (offset + 3)])
    else pure ids
  else pure ids

/-- `while (entry_ptr < end_ptr)`, for at most `fuel` entries; `offset` is
    `entry_ptr`, seen from the table. -/
def walkMadt (mem : Mem) (t : BitVec 32) :
    Nat → Nat → List (BitVec 8) → Logged TableRead (Option (List (BitVec 8)))
  | 0, _, _ => pure none
  | fuel + 1, offset, ids =>
    if offset < tableLength mem t then do
      let ids ← readEntry mem t offset ids
      Logged.tell ⟨t, offset + 1, 1⟩
      walkMadt mem t fuel (offset + (tableByte mem t (offset + 1)).toNat) ids
    else pure (some ids)

/-- The body of the loop over the tables. -/
def visitTable (mem : Mem) (fuel : Nat) (t : BitVec 32) (s : Acpi) : Logged TableRead (Option Acpi) := do
  let apic ← memcmpTable mem t 0 apicSignature
  if apic then do
    Logged.tell ⟨t, 36, 4⟩
    Logged.tell ⟨t, 4, 4⟩
    let ids ← walkMadt mem t fuel 44 s.cpuIds
    pure (ids.map fun ids => ⟨tableWord mem t 36, ids⟩)
  else pure (some s)

/-- `for (int i = 0; i < entries; i++)`, over the given `i`. -/
def visitTables (mem : Mem) (fuel : Nat) (rsdt : BitVec 32) :
    List Nat → Acpi → Logged TableRead (Option Acpi)
  | [], s => pure (some s)
  | i :: is, s => do
    Logged.tell ⟨rsdt, 36 + 4 * i, 4⟩
    let s ← visitTable mem fuel (tableWord mem rsdt (36 + 4 * i)) s
    s.elim (pure none) fun s => visitTables mem fuel rsdt is s

/-- `entries`: `sizeof` makes the difference one of 64 bits. -/
def sdtEntries (length : BitVec 32) : BitVec 32 := ((length.setWidth 64 - 36) / 4).setWidth 32

/-- `acpi_init`, where no MADT has more than `fuel` entries. -/
def acpiInit (mem : Mem) (fuel : Nat) : Logged TableRead (Option Acpi) :=
  (findRsdp mem).elim (pure (some acpiStart)) fun rsdp =>
    let rsdt := mem.load32 (rsdp + 16)
    do
      Logged.tell ⟨rsdt, 4, 4⟩
      visitTables mem fuel rsdt (List.range (sdtEntries (tableWord mem rsdt 4)).toInt.toNat) acpiStart

/-! ## §2. Well-formed tables. -/

/-- An entry of a MADT. -/
inductive MadtEntry
  | localApic (processor id : BitVec 8) (flags : BitVec 32)
  | other (type : BitVec 8) (length : Nat)

namespace MadtEntry

def length : MadtEntry → Nat
  | localApic _ _ _ => 8
  | other _ length => length

/-- The id of an enabled local APIC. -/
def enabledId : MadtEntry → Option (BitVec 8)
  | localApic _ id flags => if flags &&& 1 ≠ 0 then some id else none
  | other _ _ => none

/-- The entry stands at `offset`. -/
def At (mem : Mem) (t : BitVec 32) (offset : Nat) : MadtEntry → Prop
  | localApic processor id flags =>
    tableByte mem t offset = 0 ∧ (tableByte mem t (offset + 1)).toNat = 8 ∧
      tableByte mem t (offset + 2) = processor ∧ tableByte mem t (offset + 3) = id ∧
        tableWord mem t (offset + 4) = flags
  | other type length =>
    tableByte mem t offset = type ∧ type ≠ 0 ∧ (tableByte mem t (offset + 1)).toNat = length ∧ 2 ≤ length

end MadtEntry

/-- The entries stand one behind the other, from `offset` to the end of the
    table. -/
def EntriesFrom (mem : Mem) (t : BitVec 32) : Nat → List MadtEntry → Prop
  | offset, [] => offset = tableLength mem t
  | offset, e :: es => e.At mem t offset ∧ EntriesFrom mem t (offset + e.length) es

/-- The table is a MADT. -/
def IsApic (mem : Mem) (t : BitVec 32) : Prop :=
  (List.range 4).map (tableByte mem t) = apicSignature

/-- What a table holds: the entries of a MADT, or something else. -/
inductive SdtTable
  | madt (entries : List MadtEntry)
  | other

namespace SdtTable

/-- The ids of the enabled local APICs, in their order. -/
def enabledIds : SdtTable → List (BitVec 8)
  | madt entries => entries.filterMap MadtEntry.enabledId
  | other => []

def At (mem : Mem) (t : BitVec 32) : SdtTable → Prop
  | madt entries => IsApic mem t ∧ EntriesFrom mem t 44 entries
  | other => ¬ IsApic mem t ∧ 36 ≤ tableLength mem t

end SdtTable

/-- The tables that an RSDT points to. -/
def sdtPointer (mem : Mem) (rsdt : BitVec 32) (i : Nat) : BitVec 32 := tableWord mem rsdt (36 + 4 * i)

/-- **A well-formed RSDT** with well-formed tables. -/
structure RsdtAt (mem : Mem) (rsdt : BitVec 32) (tables : List SdtTable) : Prop where
  length : tableLength mem rsdt = 36 + 4 * tables.length
  tables : ∀ i (h : i < tables.length), (tables.get ⟨i, h⟩).At mem (sdtPointer mem rsdt i)

/-! ## §3. What `acpi_init` should do. -/

/-- The read ends with the table or before. -/
def TableRead.Inside (mem : Mem) (r : TableRead) : Prop := r.offset + r.size ≤ tableLength mem r.table

/-- **`acpi_init` is right**: it returns, reads inside the tables, stores at
    most as many ids as there is room for, and of well-formed tables exactly
    the ids of the enabled local APICs, in their order. -/
def AcpiRight (mem : Mem) : Prop :=
  ∃ fuel s, (acpiInit mem fuel).val = some s ∧ (acpiInit mem fuel).All (TableRead.Inside mem) ∧
    s.cpuIds.length ≤ maxCpuIds ∧
      ∀ rsdp tables, findRsdp mem = some rsdp → RsdtAt mem (mem.load32 (rsdp + 16)) tables →
        s.cpuIds = tables.flatMap SdtTable.enabledIds

/-! ## §4. Tables that fit. -/

/-- An entry that can be read, and left. -/
structure EntryFits (mem : Mem) (t : BitVec 32) (offset : Nat) : Prop where
  header : offset + 2 ≤ tableLength mem t
  localApic : tableByte mem t offset = 0 → offset + 8 ≤ tableLength mem t
  advances : tableByte mem t (offset + 1) ≠ 0

/-- The table is cut into entries that fit, from the first of these offsets to
    the end; the last entry may end behind it. -/
inductive MadtCut (mem : Mem) (t : BitVec 32) : Nat → List Nat → Prop
  | done {offset : Nat} : tableLength mem t ≤ offset → MadtCut mem t offset []
  | entry {offset : Nat} {cut : List Nat} : offset < tableLength mem t → EntryFits mem t offset →
      MadtCut mem t (offset + (tableByte mem t (offset + 1)).toNat) cut → MadtCut mem t offset (offset :: cut)

/-- The table ends behind the part of the signature that is compared. -/
def SignatureFits (mem : Mem) (t : BitVec 32) : Prop :=
  ∀ k < 4, (List.range k).map (tableByte mem t) = apicSignature.take k → k < tableLength mem t

/-- A table, with the entries that it is cut into: none if it is no MADT. -/
structure TableFits (mem : Mem) (t : BitVec 32) (cut : List Nat) : Prop where
  signature : SignatureFits mem t
  madt : IsApic mem t → 40 ≤ tableLength mem t ∧ MadtCut mem t 44 cut
  other : ¬ IsApic mem t → cut = []

/-- The enabled local APICs among the entries, and their ids. -/
def cutIds (mem : Mem) (t : BitVec 32) (cut : List Nat) : List (BitVec 8) :=
  (cut.filter fun offset => entryEnabled mem t offset).map fun offset => tableByte mem t (offset + 3)

/-- **Tables that fit**: the RSDT has a length, every MADT is cut into entries
    that fit, and not too many of them are enabled local APICs. -/
structure RsdtFits (mem : Mem) (rsdt : BitVec 32) (cuts : List (BitVec 32 × List Nat)) : Prop where
  length : 8 ≤ tableLength mem rsdt
  pointers : cuts.map Prod.fst =
    (List.range ((tableLength mem rsdt - 36) / 4)).map (sdtPointer mem rsdt)
  fits : ∀ c ∈ cuts, TableFits mem c.1 c.2
  room : (cuts.flatMap fun c => cutIds mem c.1 c.2).length ≤ maxCpuIds

/-! ## §5. One table. -/

section Table

variable {mem : Mem} {t : BitVec 32}

/-- What `memcmp` finds. -/
theorem memcmpTable_val (offset : Nat) (s : List (BitVec 8)) :
    (memcmpTable mem t offset s).val =
      decide ((List.range s.length).map (fun k => tableByte mem t (offset + k)) = s) := by
  induction s generalizing offset with
  | nil => rfl
  | cons c s ih =>
    have hshift : (fun k => tableByte mem t (offset + (k + 1))) =
        fun k => tableByte mem t (offset + 1 + k) := by
      funext k
      rw [Nat.add_right_comm, Nat.add_assoc]
    rw [List.length_cons, List.range_succ_eq_map, List.map_cons, List.map_map]
    -- the first byte decides, or the comparison goes on behind it
    show (if tableByte mem t offset = c then memcmpTable mem t (offset + 1) s else pure false).val =
      decide (tableByte mem t offset :: (List.range s.length).map _ = c :: s)
    by_cases hc : tableByte mem t offset = c
    · rw [if_pos hc, ih]
      refine decide_eq_decide.mpr ?_
      rw [List.cons.injEq, ← hshift]
      exact (and_iff_right hc).symm
    · rw [if_neg hc]
      exact (decide_eq_false fun h => hc (List.cons.inj h).1).symm

/-- What `memcmp` reads: one byte more than agree. -/
theorem memcmpTable_inside (offset : Nat) (s : List (BitVec 8)) :
    (memcmpTable mem t offset s).All (TableRead.Inside mem) ↔
      ∀ k < s.length, (List.range k).map (fun j => tableByte mem t (offset + j)) = s.take k →
        offset + k < tableLength mem t := by
  induction s generalizing offset with
  | nil => exact iff_of_true (Logged.all_pure true) fun k hk => absurd hk (Nat.not_lt_zero k)
  | cons c s ih =>
    have hhead : TableRead.Inside mem ⟨t, offset, 1⟩ ↔ offset < tableLength mem t := Iff.rfl
    have hrange : ∀ k, (List.range (k + 1)).map (fun j => tableByte mem t (offset + j)) =
        tableByte mem t offset :: (List.range k).map fun j => tableByte mem t (offset + 1 + j) := by
      intro k
      rw [List.range_succ_eq_map, List.map_cons, List.map_map]
      congr 2
      funext j
      show tableByte mem t (offset + (j + 1)) = _
      rw [Nat.add_right_comm, Nat.add_assoc]
    unfold memcmpTable
    rw [Logged.all_tell_bind, hhead]
    constructor
    · intro h k hk hagree
      cases k with
      | zero => exact h.1
      | succ k =>
        rw [hrange, List.take_succ_cons] at hagree
        obtain ⟨hc, hrest⟩ := List.cons.inj hagree
        have hall := h.2
        rw [if_pos hc, ih] at hall
        have hlt := hall k (Nat.lt_of_succ_lt_succ hk) hrest
        omega
    · intro h
      refine ⟨h 0 (Nat.zero_lt_succ _) rfl, ?_⟩
      by_cases hc : tableByte mem t offset = c
      · rw [if_pos hc, ih]
        intro k hk hrest
        have hlt := h (k + 1) (Nat.succ_lt_succ hk) (by rw [hrange, hrest, hc, List.take_succ_cons])
        omega
      · rw [if_neg hc]
        exact Logged.all_pure false

theorem memcmpTable_apic :
    (memcmpTable mem t 0 apicSignature).val = true ↔ IsApic mem t := by
  rw [memcmpTable_val, decide_eq_true_eq]
  unfold IsApic
  simp only [Nat.zero_add]
  exact Iff.rfl

theorem memcmpTable_apic_inside :
    (memcmpTable mem t 0 apicSignature).All (TableRead.Inside mem) ↔ SignatureFits mem t := by
  rw [memcmpTable_inside]
  unfold SignatureFits
  simp only [Nat.zero_add]
  exact Iff.rfl

theorem cutIds_cons (offset : Nat) (cut : List Nat) :
    cutIds mem t (offset :: cut) = cutIds mem t [offset] ++ cutIds mem t cut := by
  unfold cutIds
  rw [← List.map_append, ← List.filter_append]
  rfl

/-- One entry: what is stored. -/
theorem readEntry_val (offset : Nat) (ids : List (BitVec 8)) :
    (readEntry mem t offset ids).val = ids ++ cutIds mem t [offset] := by
  unfold readEntry cutIds entryEnabled
  rw [Logged.val_bind, List.filter_singleton]
  by_cases htype : tableByte mem t offset = 0
  · rw [if_pos htype, Logged.val_bind]
    by_cases hflags : tableWord mem t (offset + 4) &&& 1 ≠ 0
    · rw [if_pos hflags, decide_eq_true ⟨htype, hflags⟩]
      rfl
    · rw [if_neg hflags, decide_eq_false fun h => hflags h.2]
      exact (List.append_nil ids).symm
  · rw [if_neg htype, decide_eq_false fun h => htype h.1]
    exact (List.append_nil ids).symm

/-- One entry: what is read, but for the length. -/
theorem readEntry_inside (offset : Nat) (ids : List (BitVec 8)) :
    (readEntry mem t offset ids).All (TableRead.Inside mem) ↔
      offset < tableLength mem t ∧ (tableByte mem t offset = 0 → offset + 8 ≤ tableLength mem t) := by
  have htype : TableRead.Inside mem ⟨t, offset, 1⟩ ↔ offset < tableLength mem t := Iff.rfl
  have hflags : TableRead.Inside mem ⟨t, offset + 4, 4⟩ ↔ offset + 8 ≤ tableLength mem t := Iff.rfl
  have hid : TableRead.Inside mem ⟨t, offset + 3, 1⟩ ↔ offset + 4 ≤ tableLength mem t := Iff.rfl
  unfold readEntry
  rw [Logged.all_tell_bind, htype, Logged.all_ite, Logged.all_tell_bind, hflags, Logged.all_ite,
    Logged.all_tell_bind, hid]
  simp only [Logged.all_pure, and_true, implies_true]
  refine and_congr_right fun _ => imp_congr_right fun _ => ?_
  constructor
  · intro h
    exact h.1
  · intro h
    exact ⟨h, fun _ => by omega⟩

/-- **The entries of a MADT** are walked through within the table exactly if it
    is cut into entries that fit. -/
theorem walkMadt_iff {fuel offset : Nat} {ids r : List (BitVec 8)} :
    ((walkMadt mem t fuel offset ids).val = some r ∧
        (walkMadt mem t fuel offset ids).All (TableRead.Inside mem)) ↔
      ∃ cut, cut.length < fuel ∧ MadtCut mem t offset cut ∧ r = ids ++ cutIds mem t cut := by
  induction fuel generalizing offset ids with
  | zero =>
    constructor
    · intro h
      cases h.1
    · intro h
      obtain ⟨cut, hlen, -⟩ := h
      exact absurd hlen (Nat.not_lt_zero _)
  | succ fuel ih =>
    unfold walkMadt
    by_cases hlt : offset < tableLength mem t
    · have hlength : TableRead.Inside mem ⟨t, offset + 1, 1⟩ ↔ offset + 2 ≤ tableLength mem t := Iff.rfl
      rw [if_pos hlt, Logged.val_bind, Logged.val_bind, Logged.all_bind, Logged.all_tell_bind, hlength,
        readEntry_inside, readEntry_val]
      constructor
      · intro h
        obtain ⟨hval, ⟨-, hlocal⟩, hheader, hall⟩ := h
        obtain ⟨cut, hlen, hcut, hr⟩ := ih.mp ⟨hval, hall⟩
        have hadvances : tableByte mem t (offset + 1) ≠ 0 := by
          intro hzero
          rw [hzero] at hcut
          -- the walk is where it was
          cases hcut with
          | done hend => exact absurd hlt (Nat.not_lt.mpr hend)
          | entry _ hfits _ => exact hfits.advances hzero
        refine ⟨offset :: cut, Nat.succ_lt_succ hlen, .entry hlt ⟨hheader, hlocal, hadvances⟩ hcut, ?_⟩
        rw [hr, cutIds_cons offset cut, List.append_assoc]
      · intro h
        obtain ⟨cut, hlen, hcut, hr⟩ := h
        cases hcut with
        | done hend => exact absurd hlt (Nat.not_lt.mpr hend)
        | entry hin hfits hrest =>
          rename_i cut
          rw [cutIds_cons, ← List.append_assoc] at hr
          obtain ⟨hval, hall⟩ := ih.mpr ⟨cut, Nat.lt_of_succ_lt_succ hlen, hrest, hr⟩
          exact ⟨hval, ⟨hlt, hfits.localApic⟩, hfits.header, hall⟩
    · rw [if_neg hlt]
      constructor
      · intro h
        have hr : ids = r := Option.some.inj h.1
        exact ⟨[], Nat.zero_lt_succ _, .done (Nat.not_lt.mp hlt), by rw [← hr]; exact (List.append_nil ids).symm⟩
      · intro h
        obtain ⟨cut, -, hcut, hr⟩ := h
        cases hcut with
        | done _ =>
          refine ⟨?_, Logged.all_pure _⟩
          rw [hr]
          exact congrArg some (List.append_nil ids).symm
        | entry hin _ _ => exact absurd hin hlt

/-- What a table leaves. -/
def acpiAfter (mem : Mem) (s : Acpi) (c : BitVec 32 × List Nat) : Acpi :=
  if (List.range 4).map (tableByte mem c.1) = apicSignature then
    ⟨tableWord mem c.1 36, s.cpuIds ++ cutIds mem c.1 c.2⟩
  else s

/-- **One table.** -/
theorem visitTable_iff {fuel : Nat} {s s' : Acpi} :
    ((visitTable mem fuel t s).val = some s' ∧ (visitTable mem fuel t s).All (TableRead.Inside mem)) ↔
      ∃ cut, TableFits mem t cut ∧ (IsApic mem t → cut.length < fuel) ∧ s' = acpiAfter mem s (t, cut) := by
  unfold visitTable
  rw [Logged.val_bind, Logged.all_bind, memcmpTable_apic_inside]
  by_cases hapic : IsApic mem t
  · have hlapic : TableRead.Inside mem ⟨t, 36, 4⟩ ↔ 40 ≤ tableLength mem t := Iff.rfl
    have hlength : TableRead.Inside mem ⟨t, 4, 4⟩ ↔ 8 ≤ tableLength mem t := Iff.rfl
    have hafter : ∀ cut, acpiAfter mem s (t, cut) =
        ⟨tableWord mem t 36, s.cpuIds ++ cutIds mem t cut⟩ := fun _ => if_pos hapic
    rw [if_pos (memcmpTable_apic.mpr hapic), Logged.all_tell_bind, Logged.all_tell_bind, hlapic, hlength,
      Logged.all_bind]
    constructor
    · intro h
      obtain ⟨hval, hsig, hl, -, hall, -⟩ := h
      obtain ⟨ids, hids, hs⟩ := Option.map_eq_some_iff.mp hval
      obtain ⟨cut, hlen, hcut, hr⟩ := walkMadt_iff.mp ⟨hids, hall⟩
      refine ⟨cut, ⟨hsig, fun _ => ⟨hl, hcut⟩, fun hn => absurd hapic hn⟩, fun _ => hlen, ?_⟩
      rw [hafter, ← hs, hr]
    · intro h
      obtain ⟨cut, hfits, hlen, hs⟩ := h
      obtain ⟨hl, hcut⟩ := hfits.madt hapic
      obtain ⟨hids, hall⟩ := walkMadt_iff.mpr ⟨cut, hlen hapic, hcut, rfl⟩
      refine ⟨?_, hfits.signature, hl, by omega, hall, Logged.all_pure _⟩
      rw [hs, hafter]
      exact Option.map_eq_some_iff.mpr ⟨_, hids, rfl⟩
  · have hafter : acpiAfter mem s (t, []) = s := if_neg hapic
    rw [if_neg (mt memcmpTable_apic.mp hapic)]
    constructor
    · intro h
      obtain ⟨hval, hsig, -⟩ := h
      refine ⟨[], ⟨hsig, fun h => absurd h hapic, fun _ => rfl⟩, fun h => absurd h hapic, ?_⟩
      rw [hafter]
      exact (Option.some.inj hval).symm
    · intro h
      obtain ⟨cut, hfits, -, hs⟩ := h
      rw [hfits.other hapic, hafter] at hs
      rw [hs]
      exact ⟨rfl, hfits.signature, Logged.all_pure _⟩

end Table

/-! ## §6. All tables. -/

section Tables

variable {mem : Mem} {rsdt : BitVec 32}

/-- **The tables**, one after the other. -/
theorem visitTables_iff {fuel : Nat} {is : List Nat} {s s' : Acpi} :
    ((visitTables mem fuel rsdt is s).val = some s' ∧
        (visitTables mem fuel rsdt is s).All (TableRead.Inside mem)) ↔
      ∃ cuts : List (BitVec 32 × List Nat), cuts.map Prod.fst = is.map (sdtPointer mem rsdt) ∧
        (∀ c ∈ cuts, TableFits mem c.1 c.2 ∧ (IsApic mem c.1 → c.2.length < fuel)) ∧
          (∀ i ∈ is, 36 + 4 * i + 4 ≤ tableLength mem rsdt) ∧ s' = cuts.foldl (acpiAfter mem) s := by
  induction is generalizing s with
  | nil =>
    constructor
    · intro h
      refine ⟨[], rfl, fun c hc => absurd hc List.not_mem_nil, fun i hi => absurd hi List.not_mem_nil, ?_⟩
      exact (Option.some.inj h.1).symm
    · intro h
      obtain ⟨cuts, hmap, -, -, hs⟩ := h
      rw [List.map_eq_nil_iff.mp hmap] at hs
      rw [hs]
      exact ⟨rfl, Logged.all_pure _⟩
  | cons i is ih =>
    have hptr : TableRead.Inside mem ⟨rsdt, 36 + 4 * i, 4⟩ ↔ 36 + 4 * i + 4 ≤ tableLength mem rsdt := Iff.rfl
    unfold visitTables
    rw [Logged.all_tell_bind, hptr, Logged.all_bind, Logged.val_bind, Logged.val_bind]
    constructor
    · intro h
      -- the tables are visited in order: one is read to its end before the next
      obtain ⟨hval, hin, htable, hrest⟩ := h
      cases hnext : (visitTable mem fuel (tableWord mem rsdt (36 + 4 * i)) s).val with
      | none =>
        rw [hnext] at hval
        cases hval
      | some s₁ =>
        rw [hnext] at hval hrest
        obtain ⟨cut, hfits, hlen, hs₁⟩ := visitTable_iff.mp ⟨hnext, htable⟩
        obtain ⟨cuts, hmap, hall, his, hs'⟩ := ih.mp ⟨hval, hrest⟩
        refine ⟨(sdtPointer mem rsdt i, cut) :: cuts, ?_, ?_, ?_, ?_⟩
        · rw [List.map_cons, List.map_cons, hmap]
        · exact List.forall_mem_cons.mpr ⟨⟨hfits, hlen⟩, hall⟩
        · exact List.forall_mem_cons.mpr ⟨hin, his⟩
        · rw [hs', hs₁]
          rfl
    · intro h
      obtain ⟨cuts, hmap, hall, his, hs'⟩ := h
      obtain ⟨c, rest, rfl, hc, hrest⟩ := List.map_eq_cons_iff.mp hmap
      obtain ⟨⟨hfits, hlen⟩, hall⟩ := List.forall_mem_cons.mp hall
      obtain ⟨hin, his⟩ := List.forall_mem_cons.mp his
      rw [hc] at hfits hlen
      obtain ⟨hnext, htable⟩ := visitTable_iff.mpr ⟨c.2, hfits, hlen, rfl⟩
      have hs₁ : acpiAfter mem s c = acpiAfter mem s (sdtPointer mem rsdt i, c.2) := by rw [← hc]
      obtain ⟨hval, hall'⟩ := ih.mpr ⟨rest, hrest, hall, his, hs'⟩
      have hstep : (visitTable mem fuel (tableWord mem rsdt (36 + 4 * i)) s).val = some (acpiAfter mem s c) :=
        hnext.trans (congrArg some hs₁.symm)
      refine ⟨?_, hin, htable, ?_⟩
      · rw [hstep]
        exact hval
      · rw [hstep]
        exact hall'

theorem acpiAfter_cpuIds (s : Acpi) {c : BitVec 32 × List Nat} (hfits : TableFits mem c.1 c.2) :
    (acpiAfter mem s c).cpuIds = s.cpuIds ++ cutIds mem c.1 c.2 := by
  unfold acpiAfter
  by_cases hapic : IsApic mem c.1
  · unfold IsApic at hapic
    rw [if_pos hapic]
  · rw [hfits.other hapic]
    unfold IsApic at hapic
    rw [if_neg hapic]
    exact (List.append_nil _).symm

/-- The ids that are stored. -/
theorem foldl_acpiAfter_cpuIds {cuts : List (BitVec 32 × List Nat)}
    (hfits : ∀ c ∈ cuts, TableFits mem c.1 c.2) (s : Acpi) :
    (cuts.foldl (acpiAfter mem) s).cpuIds = s.cpuIds ++ cuts.flatMap fun c => cutIds mem c.1 c.2 := by
  induction cuts generalizing s with
  | nil => exact (List.append_nil _).symm
  | cons c cuts ih =>
    obtain ⟨hc, hcuts⟩ := List.forall_mem_cons.mp hfits
    rw [List.foldl_cons, ih hcuts, acpiAfter_cpuIds s hc, List.flatMap_cons, List.append_assoc]

end Tables

/-! ## §7. The ids of well-formed tables. -/

section WellFormed

variable {mem : Mem} {t rsdt : BitVec 32}

theorem EntriesFrom.le {offset : Nat} {es : List MadtEntry} (h : EntriesFrom mem t offset es) :
    offset ≤ tableLength mem t := by
  induction es generalizing offset with
  | nil => exact Nat.le_of_eq h
  | cons e es ih => exact (Nat.le_add_right _ _).trans (ih h.2)

theorem MadtEntry.At.length {offset : Nat} {e : MadtEntry} (h : e.At mem t offset) :
    (tableByte mem t (offset + 1)).toNat = e.length ∧ 2 ≤ e.length := by
  cases e with
  | localApic processor id flags => exact ⟨h.2.1, show 2 ≤ 8 by decide⟩
  | other type length => exact ⟨h.2.2.1, h.2.2.2⟩

/-- The id of an entry as the driver finds it. -/
theorem MadtEntry.At.cutIds {offset : Nat} {e : MadtEntry} (h : e.At mem t offset) :
    ZohoOs.cutIds mem t [offset] = [e].filterMap enabledId := by
  unfold ZohoOs.cutIds entryEnabled
  rw [List.filter_singleton]
  cases e with
  | localApic processor id flags =>
    obtain ⟨htype, -, -, hid, hflags⟩ := h
    by_cases henabled : flags &&& 1 ≠ 0
    · have hsome : enabledId (localApic processor id flags) = some id := if_pos henabled
      rw [decide_eq_true ⟨htype, by rw [hflags]; exact henabled⟩, List.filterMap_cons_some hsome, ← hid]
      rfl
    · have hnone : enabledId (localApic processor id flags) = none := if_neg henabled
      rw [decide_eq_false fun hand => henabled (hflags ▸ hand.2), List.filterMap_cons_none hnone]
      rfl
  | other type length =>
    obtain ⟨htype, hne, -⟩ := h
    rw [decide_eq_false fun hand => hne (htype.symm.trans hand.1)]
    rfl

/-- The entries of a well-formed MADT are those it is cut into. -/
theorem EntriesFrom.cutIds {offset : Nat} {es : List MadtEntry} {cut : List Nat}
    (h : EntriesFrom mem t offset es) (hcut : MadtCut mem t offset cut) :
    ZohoOs.cutIds mem t cut = es.filterMap MadtEntry.enabledId := by
  induction es generalizing offset cut with
  | nil =>
    have hend : offset = tableLength mem t := h
    cases hcut with
    | done _ => rfl
    | entry hlt _ _ => omega
  | cons e es ih =>
    obtain ⟨he, hes⟩ := h
    obtain ⟨hlength, htwo⟩ := he.length
    have hle := hes.le
    cases hcut with
    | done hend => omega
    | entry hlt hfits hrest =>
      rename_i cut
      rw [hlength] at hrest
      rw [cutIds_cons, he.cutIds, ih hes hrest, ← List.filterMap_append]
      rfl

/-- **The ids of well-formed tables.** -/
theorem RsdtAt.cutIds {tables : List SdtTable} {cuts : List (BitVec 32 × List Nat)}
    (h : RsdtAt mem rsdt tables) (hfits : RsdtFits mem rsdt cuts) :
    (cuts.flatMap fun c => ZohoOs.cutIds mem c.1 c.2) = tables.flatMap SdtTable.enabledIds := by
  have hcount : (tableLength mem rsdt - 36) / 4 = tables.length := by
    have hlength := h.length
    omega
  have hpointers := hfits.pointers
  rw [hcount] at hpointers
  have hlen : cuts.length = tables.length := by
    have hcongr := congrArg List.length hpointers
    rwa [List.length_map, List.length_map, List.length_range] at hcongr
  rw [List.flatMap_def, List.flatMap_def]
  congr 1
  apply List.ext_getElem
  · rw [List.length_map, List.length_map, hlen]
  · intro i hi hi'
    rw [List.length_map] at hi hi'
    rw [List.getElem_map, List.getElem_map]
    have hptr : cuts[i].1 = sdtPointer mem rsdt i := by
      have hget := congrArg (fun l => l[i]?) hpointers
      simpa [hi, hi'] using hget
    have htable : tables[i].At mem cuts[i].1 := by
      rw [hptr]
      exact h.tables i hi'
    have hcut := hfits.fits cuts[i] (List.getElem_mem hi)
    cases htab : tables[i] with
    | madt entries =>
      rw [htab] at htable
      exact EntriesFrom.cutIds htable.2 (hcut.madt htable.1).2
    | other =>
      rw [htab] at htable
      rw [hcut.other htable.1]
      rfl

end WellFormed

/-! ## §8. All of `acpi_init`. -/

/-- The number of pointers: a length below 36 makes it negative. -/
theorem sdtEntries_eq (length : BitVec 32) :
    (sdtEntries length).toInt.toNat = (length.toNat - 36) / 4 := by
  have hlt := length.isLt
  have h36 : (36 : BitVec 64).toNat = 36 := rfl
  have h4 : (4 : BitVec 64).toNat = 4 := rfl
  have hnat : (sdtEntries length).toNat =
      (2 ^ 64 - 36 + length.toNat) % 2 ^ 64 / 4 % 2 ^ 32 := by
    unfold sdtEntries
    rw [BitVec.toNat_setWidth, BitVec.toNat_udiv, BitVec.toNat_sub, BitVec.toNat_setWidth, h36, h4,
      Nat.mod_eq_of_lt (show length.toNat < 2 ^ 64 by omega)]
  -- a length below the header's wraps around to a count that is negative as an `int`
  rw [BitVec.toInt_eq_toNat_cond, hnat]
  by_cases hbig : 36 ≤ length.toNat
  · have hmod : (2 ^ 64 - 36 + length.toNat) % 2 ^ 64 = length.toNat - 36 := by omega
    rw [hmod, Nat.mod_eq_of_lt (show (length.toNat - 36) / 4 < 2 ^ 32 by omega), if_pos (by omega)]
    exact Int.toNat_natCast _
  · have hmod : (2 ^ 64 - 36 + length.toNat) % 2 ^ 64 = 2 ^ 64 - 36 + length.toNat :=
      Nat.mod_eq_of_lt (by omega)
    rw [hmod, if_neg (by omega)]
    omega

section Init

variable {mem : Mem}

theorem exists_fuel (cuts : List (BitVec 32 × List Nat)) : ∃ fuel, ∀ c ∈ cuts, c.2.length < fuel := by
  induction cuts with
  | nil => exact ⟨0, fun c hc => absurd hc List.not_mem_nil⟩
  | cons c cuts ih =>
    obtain ⟨fuel, hfuel⟩ := ih
    refine ⟨max fuel (c.2.length + 1), List.forall_mem_cons.mpr ⟨by omega, fun d hd => ?_⟩⟩
    have hlt := hfuel d hd
    omega

/-- **The RSDT** is walked through within the tables exactly if they fit, but
    for the number of the ids. -/
theorem visitTables_rsdt_iff {fuel : Nat} {rsdt : BitVec 32} {s : Acpi} :
    ((visitTables mem fuel rsdt (List.range (sdtEntries (tableWord mem rsdt 4)).toInt.toNat)
          acpiStart).val = some s ∧
        (visitTables mem fuel rsdt (List.range (sdtEntries (tableWord mem rsdt 4)).toInt.toNat)
          acpiStart).All (TableRead.Inside mem)) ↔
      ∃ cuts : List (BitVec 32 × List Nat),
        cuts.map Prod.fst = (List.range ((tableLength mem rsdt - 36) / 4)).map (sdtPointer mem rsdt) ∧
          (∀ c ∈ cuts, TableFits mem c.1 c.2 ∧ (IsApic mem c.1 → c.2.length < fuel)) ∧
            s = cuts.foldl (acpiAfter mem) acpiStart := by
  have hcount : (sdtEntries (tableWord mem rsdt 4)).toInt.toNat = (tableLength mem rsdt - 36) / 4 :=
    sdtEntries_eq _
  rw [hcount, visitTables_iff]
  refine exists_congr fun cuts => and_congr_right fun _ => and_congr_right fun _ => ?_
  refine and_iff_right fun i hi => ?_
  have hlt := List.mem_range.mp hi
  omega

/-- Where `acpi_init` is right, the tables fit. -/
theorem AcpiRight.fits {rsdp : Word} (h : AcpiRight mem) (hrsdp : findRsdp mem = some rsdp) :
    ∃ cuts, RsdtFits mem (mem.load32 (rsdp + 16)) cuts := by
  obtain ⟨fuel, s, hval, hall, hroom, -⟩ := h
  have hlength : TableRead.Inside mem ⟨mem.load32 (rsdp + 16), 4, 4⟩ ↔
      8 ≤ tableLength mem (mem.load32 (rsdp + 16)) := Iff.rfl
  unfold acpiInit at hval hall
  rw [hrsdp] at hval hall
  dsimp only [Option.elim] at hval hall
  rw [Logged.all_tell_bind, hlength] at hall
  obtain ⟨cuts, hmap, hfits, hs⟩ := visitTables_rsdt_iff.mp ⟨hval, hall.2⟩
  have hids := foldl_acpiAfter_cpuIds (fun c hc => (hfits c hc).1) acpiStart
  refine ⟨cuts, hall.1, hmap, fun c hc => (hfits c hc).1, ?_⟩
  rw [hs, hids] at hroom
  exact hroom

/-- **The ACPI tables.**  Take any memory.  `acpi_init` is right exactly if it
    finds no RSDP, or one whose RSDT has tables that fit. -/
theorem acpi_init_iff (mem : Mem) :
    AcpiRight mem ↔
      ∀ rsdp, findRsdp mem = some rsdp → ∃ cuts, RsdtFits mem (mem.load32 (rsdp + 16)) cuts := by
  constructor
  · intro h rsdp hrsdp
    exact h.fits hrsdp
  · intro h
    unfold AcpiRight acpiInit
    cases hfind : findRsdp mem with
    | none =>
      -- without an RSDP nothing is read at all
      refine ⟨0, acpiStart, rfl, Logged.all_pure _, Nat.zero_le _, ?_⟩
      intro rsdp tables hrsdp
      cases hrsdp
    | some rsdp =>
      obtain ⟨cuts, hfits⟩ := h rsdp hfind
      -- enough fuel for the longest of the tables
      obtain ⟨fuel, hfuel⟩ := exists_fuel cuts
      have hids := foldl_acpiAfter_cpuIds hfits.fits acpiStart
      obtain ⟨hval, hall⟩ := visitTables_rsdt_iff.mpr ⟨cuts, hfits.pointers,
        fun c hc => ⟨hfits.fits c hc, fun _ => hfuel c hc⟩, rfl⟩
      refine ⟨fuel, cuts.foldl (acpiAfter mem) acpiStart, hval, ?_, ?_, ?_⟩
      · exact (Logged.all_tell_bind _ _).mpr ⟨hfits.length, hall⟩
      · rw [hids]
        exact hfits.room
      · intro rsdp' tables hrsdp htables
        obtain rfl := Option.some.inj hrsdp
        rw [hids]
        exact htables.cutIds hfits

end Init

/-! ## §9. An example. -/

/-- An RSDP, an RSDT with one pointer, and a MADT with one entry, which has the
    length 0. -/
def endlessTables : List (BitVec 8) :=
  rsdpSignature ++ List.replicate 8 0 ++ [0x20, 0, 0x0E, 0] ++ List.replicate 12 0 ++
    [0x52, 0x53, 0x44, 0x54, 40, 0, 0, 0] ++ List.replicate 28 0 ++ [0x50, 0, 0x0E, 0] ++
    List.replicate 8 0 ++ (apicSignature ++ [46, 0, 0, 0] ++ List.replicate 36 0 ++ [1, 0])

def endlessMem : Mem := fun a =>
  if 0xE0000 ≤ a.toNat then endlessTables.getD (a.toNat - 0xE0000) 0 else 0

/-- **An entry of length 0** is visited for ever. -/
theorem endless_madt : ¬ AcpiRight endlessMem := by
  intro h
  have hrsdp : findRsdp endlessMem = some 0xE0000 := by
    unfold findRsdp
    rw [show List.range 8192 = 0 :: (List.range 8191).map Nat.succ from List.range_succ_eq_map, List.map_cons]
    exact List.find?_cons_of_pos (by decide)
  obtain ⟨cuts, hfits⟩ := h.fits hrsdp
  have hrsdt : endlessMem.load32 (0xE0000 + 16) = 0xE0020 := by decide
  rw [hrsdt] at hfits
  have hmap : cuts.map Prod.fst = [0xE0050] := hfits.pointers.trans (by decide)
  obtain ⟨⟨t, cut⟩, rest, rfl, rfl, -⟩ := List.map_eq_cons_iff.mp hmap
  have htable := hfits.fits _ List.mem_cons_self
  have hapic : IsApic endlessMem 0xE0050 := by
    unfold IsApic
    decide
  have hzero : tableByte endlessMem 0xE0050 (44 + 1) = 0 := by decide
  cases (htable.madt hapic).2 with
  | done hend => exact absurd hend (by decide)
  | entry _ hentry _ => exact hentry.advances hzero

end ZohoOs
