/-
  ZohoOs.Vmm.CloneWalk — the loops of `vmm_clone_address_space`.

  The four nested loops do the same at four depths: for each present entry of
  a source table, either share the page it maps, or make sure that the clone
  has a table there and go on below it.  `cloneLoop` is that loop, with a
  record of the pages it writes and of the clone's tables on the way to each.

  The source never looks at what `ensure_next_table` returned.  When no frame
  is left, the loops go on below `NULL`: they do nothing as long as there is
  no page (`cloneLoop_empty`), and else they write one through `NULL`
  (`cloneLoop_null`).
-/
import ZohoOs.Vmm.Destroy

namespace ZohoOs

open ZohoOs.Lib
open ZohoOs.Lib.Mem (Aligned)
open ZohoOs.Lib.Radix

/-! ## §1. The loop. -/

/-- A page written into the clone: the tables on the way to it, nearest first,
    and its frame. -/
structure PageWrite where
  tables : List Word
  phys : Word

/-- The machine, and the pages written so far. -/
abbrev CloneState := Machine × List PageWrite

/-- The attribute bits of an entry that maps a page. -/
def pageMask (d : Nat) (e : Word) : Option Word :=
  if d = 3 then some flagMask else if d = 2 ∧ Huge e then some hugeMask else none

/-- One turn of the loop at depth `d`. -/
def cloneTurn (below : Word → Word → List Word → CloneState → CloneState) (d : Nat) (src dst : Word)
    (above : List Word) (x : CloneState) (i : Fin 512) : CloneState :=
  let e := x.1.entry src i
  if Present e then
    match pageMask d e with
    | some mask => (shareEntry mask src dst x.1 i, x.2 ++ [⟨dst :: above, e &&& ~~~mask⟩])
    | none =>
        let next := ensureNextTable x.1 dst i
        below (e &&& ~~~flagMask) next.1 (dst :: above) (next.2, x.2)
  else x

/-- The loop over the table `src` at depth `d`, with `n` loops nested, this one
    counted; `dst` is the clone's table, below `above`. -/
def cloneLoop : Nat → Nat → Word → Word → List Word → CloneState → CloneState
  | 0, _, _, _, _, x => x
  | n + 1, d, src, dst, above, x =>
      (pageSlots d).foldl (cloneTurn (cloneLoop n (d + 1)) d src dst above) x

section Code

variable {x : CloneState} {src dst : Word} {above : List Word}

theorem cloneTurn_absent {below : Word → Word → List Word → CloneState → CloneState} {d : Nat}
    {i : Fin 512} (h : ¬ Present (x.1.entry src i)) : cloneTurn below d src dst above x i = x :=
  if_neg h

theorem cloneTurn_page {below : Word → Word → List Word → CloneState → CloneState} {d : Nat}
    {i : Fin 512} {mask : Word} (h : Present (x.1.entry src i))
    (hm : pageMask d (x.1.entry src i) = some mask) :
    cloneTurn below d src dst above x i = (shareEntry mask src dst x.1 i,
      x.2 ++ [⟨dst :: above, x.1.entry src i &&& ~~~mask⟩]) := by
  rw [cloneTurn, if_pos h, hm]

theorem cloneTurn_table {below : Word → Word → List Word → CloneState → CloneState} {d : Nat}
    {i : Fin 512} (h : Present (x.1.entry src i)) (hm : pageMask d (x.1.entry src i) = none) :
    cloneTurn below d src dst above x i = below (x.1.entry src i &&& ~~~flagMask)
      (ensureNextTable x.1 dst i).1 (dst :: above) ((ensureNextTable x.1 dst i).2, x.2) := by
  rw [cloneTurn, if_pos h, hm]

/-- A loop of the source and the loop with a record. -/
theorem foldl_fst {f : Machine → Fin 512 → Machine} {g : CloneState → Fin 512 → CloneState}
    (h : ∀ x i, (g x i).1 = f x.1 i) (l : List (Fin 512)) (x : CloneState) :
    (l.foldl g x).1 = l.foldl f x.1 :=
  (List.foldl_hom Prod.fst fun x i => (h x i).symm).symm

theorem clonePt_eq : (cloneLoop 1 3 src dst above x).1
    = (slotsFrom 0).foldl (clonePtEntry src dst) x.1 := by
  rw [cloneLoop, pageSlots_succ]
  refine foldl_fst (fun x i => ?_) _ x
  rw [clonePtEntry]
  by_cases hp : Present (x.1.entry src i)
  · rw [cloneTurn_page hp rfl, if_pos hp]
  · rw [cloneTurn_absent hp, if_neg hp]

theorem clonePd_eq : (cloneLoop 2 2 src dst above x).1
    = (slotsFrom 0).foldl (clonePdEntry src dst) x.1 := by
  rw [cloneLoop, pageSlots_succ]
  refine foldl_fst (fun x i => ?_) _ x
  rw [clonePdEntry]
  by_cases hp : Present (x.1.entry src i)
  · by_cases hh : Huge (x.1.entry src i)
    · have hm : pageMask 2 (x.1.entry src i) = some hugeMask := by simp [pageMask, hh]
      rw [cloneTurn_page hp hm, if_pos hp, if_pos hh]
    · rw [cloneTurn_table hp (by simp [pageMask, hh]), if_pos hp, if_neg hh, clonePt_eq]
  · rw [cloneTurn_absent hp, if_neg hp]

theorem clonePdpt_eq : (cloneLoop 3 1 src dst above x).1
    = (slotsFrom 0).foldl (clonePdptEntry src dst) x.1 := by
  rw [cloneLoop, pageSlots_succ]
  refine foldl_fst (fun x i => ?_) _ x
  rw [clonePdptEntry]
  by_cases hp : Present (x.1.entry src i)
  · rw [cloneTurn_table hp (by simp [pageMask]), if_pos hp, clonePd_eq]
  · rw [cloneTurn_absent hp, if_neg hp]

theorem clonePml4_eq : (cloneLoop 4 0 src dst above x).1
    = (slotsFrom 1).foldl (clonePml4Entry src dst) x.1 := by
  rw [cloneLoop, pageSlots_zero]
  refine foldl_fst (fun x i => ?_) _ x
  rw [clonePml4Entry]
  by_cases hp : Present (x.1.entry src i)
  · rw [cloneTurn_table hp (by simp [pageMask]), if_pos hp, clonePdpt_eq]
  · rw [cloneTurn_absent hp, if_neg hp]

/-- **`vmm_clone_address_space`**, with the pages it writes. -/
theorem vmmCloneAddressSpace_eq (m : Machine) (srcPml4 : Word) :
    vmmCloneAddressSpace m srcPml4 = ((vmmCreateAddressSpace m).1,
      (cloneLoop 4 0 srcPml4 (vmmCreateAddressSpace m).1 [] ((vmmCreateAddressSpace m).2, [])).1) := by
  rw [clonePml4_eq, vmmCloneAddressSpace]

end Code

/-! ## §2. The record only grows. -/

theorem cloneTurn_grows {below : Word → Word → List Word → CloneState → CloneState}
    (hbelow : ∀ s t l x, x.2 <+: (below s t l x).2) {d : Nat} {src dst : Word} {above : List Word}
    (x : CloneState) (i : Fin 512) : x.2 <+: (cloneTurn below d src dst above x i).2 := by
  by_cases hp : Present (x.1.entry src i)
  · cases hm : pageMask d (x.1.entry src i) with
    | some mask =>
      rw [cloneTurn_page hp hm]
      exact List.prefix_append _ _
    | none =>
      rw [cloneTurn_table hp hm]
      exact hbelow _ _ _ ((ensureNextTable x.1 dst i).2, x.2)
  · rw [cloneTurn_absent hp]

/-- The loop appends to the record. -/
theorem cloneLoop_grows (n d : Nat) (src dst : Word) (above : List Word) (x : CloneState) :
    x.2 <+: (cloneLoop n d src dst above x).2 := by
  induction n generalizing d src dst above x with
  | zero => exact List.prefix_rfl
  | succ n ih =>
    rw [cloneLoop]
    refine foldl_preserves (fun y : CloneState => x.2 <+: y.2) List.prefix_rfl fun i _ y hy => ?_
    exact hy.trans (cloneTurn_grows (fun s t l x => ih (d + 1) s t l x) y i)

/-- Some page was written through a `NULL` table. -/
def ThroughNull (writes : List PageWrite) : Prop := ∃ w ∈ writes, 0 ∈ w.tables

theorem ThroughNull.mono {ws ws' : List PageWrite} (h : ThroughNull ws) (hp : ws <+: ws') :
    ThroughNull ws' := by
  obtain ⟨w, hw, h0⟩ := h
  exact ⟨w, hp.subset hw, h0⟩

/-! ## §3. Out of frames. -/

/-- The machine after `k` failed allocations. -/
def Machine.failed (m : Machine) (k : Nat) : Machine :=
  { m with pmm := { m.pmm with allocFailures := m.pmm.allocFailures + k } }

section Empty

variable {m : Machine} {root src dst : Word} {above : List Word} {p q : List (Fin 512)} {n : Nat}
  {ws : List PageWrite}

@[simp] theorem failed_zero (m : Machine) : m.failed 0 = m := rfl

@[simp] theorem failed_failed (m : Machine) (j k : Nat) : (m.failed j).failed k = m.failed (j + k) := by
  simp [Machine.failed, Nat.add_assoc]

/-- Without free frames `ensure_next_table` finds a table or changes nothing. -/
theorem ensureNextTable_empty (hst : m.pmm.freeStack = []) (t : Word) (i : Fin 512) :
    ∃ k, (ensureNextTable m t i).2 = m.failed k := by
  have halloc : m.allocFrame = (0, m.failed 1) := by
    rw [Machine.allocFrame, pmmAllocFrame_nil hst]
    rfl
  by_cases hnext : getExistingTable m t i = 0
  · refine ⟨1, ?_⟩
    rw [ensureNextTable, if_neg (by simp [hnext])]
    simp [allocZeroedTable, halloc]
  · refine ⟨0, ?_⟩
    rw [ensureNextTable, if_pos hnext]
    rfl

/-- The table at the end of the path maps a page. -/
def HoldsPage (m : Machine) (root : Word) (q : List (Fin 512)) : Prop :=
  ∃ t i, tableAt pageChild m.entry root q = some t ∧ pageLeaf q.length (m.entry t i) ≠ none

/-- A present entry maps a page or points to a table. -/
theorem pageLeaf_of_mask {d : Nat} {e mask : Word} (hp : Present e) (hm : pageMask d e = some mask) :
    pageLeaf d e = some (e &&& ~~~mask) ∧ pageChild d e = none := by
  unfold pageMask at hm
  unfold pageLeaf pageChild
  split at hm
  · rename_i hd
    cases hm
    exact ⟨if_pos ⟨hp, hd⟩, if_neg (by omega)⟩
  · split at hm
    · rename_i hd hh
      cases hm
      rw [if_neg (fun h => hd h.2), if_pos ⟨hp, hh⟩]
      exact ⟨rfl, if_neg (by rintro ⟨-, hlt | ⟨-, hn⟩⟩ <;> [omega; exact hn hh.2])⟩
    · cases hm

theorem pageChild_of_mask {d : Nat} {e : Word} (hp : Present e) (hm : pageMask d e = none)
    (hd : d ≤ 3) : d < 3 ∧ pageChild d e = some (e &&& ~~~flagMask) ∧ pageLeaf d e = none := by
  unfold pageMask at hm
  split at hm
  · cases hm
  · split at hm
    · cases hm
    · rename_i h3 hh
      have hchild : pageChild d e = some (e &&& ~~~flagMask) :=
        pageChild_of_present hp (by omega) fun h2 hc => hh ⟨h2, hc⟩
      exact ⟨by omega, hchild, pageLeaf_of_child (by simp [hchild])⟩

theorem pageLeaf_depth {d : Nat} {e : Word} (h : pageLeaf d e ≠ none) : d = 2 ∨ d = 3 := by
  unfold pageLeaf at h
  split at h
  · rename_i hd
    exact .inr hd.2
  · split at h
    · rename_i hd
      exact .inl hd.2.1
    · exact absurd rfl h

/-- A page in the slots the loops look at, at the path or below it. -/
def HasPage (m : Machine) (root : Word) (n : Nat) (p : List (Fin 512)) : Prop :=
  ∃ q ∈ p :: pathsBelow pageSlots n p, HoldsPage m root q

theorem not_holdsPage {i : Fin 512} (h : ¬ HasPage m root n (i :: p))
    (hn : n + (i :: p).length = 4) : ∀ q, i :: p <:+ q → ¬ HoldsPage m root q := by
  intro q hsuf hpage
  refine h ⟨q, ?_, hpage⟩
  obtain ⟨t, l, -, hleaf⟩ := hpage
  have hlen := pageLeaf_depth hleaf
  have hslots : ∀ d, (i :: p).length ≤ d → ∀ j : Fin 512, j ∈ pageSlots d := fun d hd j =>
    mem_pageSlots.mpr fun h0 => by rw [List.length_cons] at hd; omega
  rcases mem_pathsBelow (n := n) hslots hsuf (by omega) with rfl | hq
  · exact List.mem_cons_self
  · exact List.mem_cons_of_mem _ hq

/-- An entry that points to no table has no page below. -/
theorem not_hasPage_of_none {i : Fin 512} (h : tableAt pageChild m.entry root (i :: p) = none) :
    ¬ HasPage m root n (i :: p) := by
  intro hpage
  obtain ⟨q, hq, t, l, ht, -⟩ := hpage
  have hsuf : i :: p <:+ q := by
    rcases List.mem_cons.mp hq with rfl | hq
    · exact List.suffix_rfl
    · exact suffix_of_mem_pathsBelow hq
  rw [tableAt_none_of_suffix h hsuf] at ht
  cases ht

/-- What a loop has to do, slot by slot. -/
theorem hasPage_succ (hs : tableAt pageChild m.entry root p = some src) :
    HasPage m root (n + 1) p ↔ ∃ i ∈ pageSlots p.length,
      pageLeaf p.length (m.entry src i) ≠ none ∨ HasPage m root n (i :: p) := by
  constructor
  · intro h
    obtain ⟨q, hq, hpage⟩ := h
    rcases List.mem_cons.mp hq with rfl | hq
    · obtain ⟨t, i, ht, hleaf⟩ := hpage
      obtain rfl : src = t := Option.some.inj (hs.symm.trans ht)
      refine ⟨i, mem_pageSlots.mpr fun h0 => ?_, .inl hleaf⟩
      have hd := pageLeaf_depth hleaf
      omega
    · obtain ⟨i, hi, hq⟩ := List.mem_flatMap.mp hq
      exact ⟨i, hi, .inr ⟨q, hq, hpage⟩⟩
  · intro h
    obtain ⟨i, hi, hleaf | ⟨q, hq, hpage⟩⟩ := h
    · exact ⟨p, List.mem_cons_self, src, i, hs, hleaf⟩
    · exact ⟨q, List.mem_cons_of_mem _ (List.mem_flatMap.mpr ⟨i, hi, hq⟩), hpage⟩

variable (dst above ws) in
/-- **Below `NULL`, nothing happens where there is no page.** -/
theorem cloneLoop_empty (hst : m.pmm.freeStack = []) (hno : ¬ HasPage m root n p)
    (hs : tableAt pageChild m.entry root p = some src) (hn : n + p.length = 4) :
    ∃ k, cloneLoop n p.length src dst above (m, ws) = (m.failed k, ws) := by
  induction n generalizing m p src dst above with
  | zero => exact ⟨0, rfl⟩
  | succ n ih =>
    rw [cloneLoop]
    refine foldl_preserves (fun y : CloneState => ∃ k, y = (m.failed k, ws)) ⟨0, rfl⟩
      fun i hi y hy => ?_
    obtain ⟨k, rfl⟩ := hy
    -- neither the slot nor what is below it is a page
    have hslot : pageLeaf p.length (m.entry src i) = none ∧ ¬ HasPage m root n (i :: p) := by
      refine ⟨?_, fun hbelow => hno ((hasPage_succ hs).mpr ⟨i, hi, .inr hbelow⟩)⟩
      by_contra hleaf
      exact hno ((hasPage_succ hs).mpr ⟨i, hi, .inl hleaf⟩)
    by_cases hp : Present (m.entry src i)
    · cases hm : pageMask p.length (m.entry src i) with
      | some mask =>
        have hleaf := hslot.1
        rw [(pageLeaf_of_mask hp hm).1] at hleaf
        cases hleaf
      | none =>
        obtain ⟨-, hchild, -⟩ := pageChild_of_mask hp hm (by omega)
        have hst' : (m.failed k).pmm.freeStack = [] := hst
        obtain ⟨j, hj⟩ := ensureNextTable_empty hst' dst i
        obtain ⟨l, hl⟩ := ih (m := m.failed (k + j)) (p := i :: p)
          (ensureNextTable (m.failed k) dst i).1 (dst :: above) hst hslot.2 ((tableAt_cons hs).trans hchild)
          (by rw [List.length_cons]; omega)
        rw [List.length_cons, failed_failed] at hl
        refine ⟨k + j + l, ?_⟩
        rw [cloneTurn_table (x := (m.failed k, ws)) hp hm]
        show cloneLoop n (p.length + 1) (m.entry src i &&& ~~~flagMask) _ _
          ((ensureNextTable (m.failed k) dst i).2, ws) = _
        rw [hj, failed_failed]
        exact hl
    · exact ⟨k, cloneTurn_absent hp⟩

/-- **Below `NULL`, a page is written through `NULL`.** -/
theorem cloneLoop_null (hst : m.pmm.freeStack = []) (h0 : 0 ∈ dst :: above)
    (hpage : HasPage m root n p) (hs : tableAt pageChild m.entry root p = some src)
    (hn : n + p.length = 4) : ThroughNull (cloneLoop n p.length src dst above (m, ws)).2 := by
  induction n generalizing m p src dst above with
  | zero =>
    obtain ⟨q, hq, t, i, ht, hleaf⟩ := hpage
    obtain rfl : q = p := by simpa [pathsBelow] using hq
    have hd := pageLeaf_depth hleaf
    omega
  | succ n ih =>
    obtain ⟨i₀, hi₀, hpage⟩ := (hasPage_succ hs).mp hpage
    -- over the slots: something was written through a null table, or all so far had no page below
    have hinv := foldl_invariant (f := cloneTurn (cloneLoop n (p.length + 1)) p.length src dst above)
      (l := pageSlots p.length) (s := (m, ws))
      (fun done (y : CloneState) => ThroughNull y.2 ∨ ((∃ k, y = (m.failed k, ws)) ∧
        ∀ i ∈ done, pageLeaf p.length (m.entry src i) = none ∧ ¬ HasPage m root n (i :: p)))
      (.inr ⟨⟨0, rfl⟩, fun i hi => absurd hi List.not_mem_nil⟩) ?_
    · rcases hinv with hnull | ⟨-, hnone⟩
      · exact hnull
      · rcases hpage with hleaf | hbelow
        · exact absurd (hnone i₀ hi₀).1 hleaf
        · exact absurd hbelow (hnone i₀ hi₀).2
    · intro done i rest y _ hy
      rcases hy with hnull | ⟨⟨k, rfl⟩, hdone⟩
      · exact .inl (hnull.mono (cloneTurn_grows (fun s t l x => cloneLoop_grows n _ s t l x) y i))
      · have hadd : pageLeaf p.length (m.entry src i) = none ∧ ¬ HasPage m root n (i :: p) →
            ∀ j ∈ done ++ [i], pageLeaf p.length (m.entry src j) = none ∧
              ¬ HasPage m root n (j :: p) := by
          intro hi j hj
          rcases List.mem_append.mp hj with hj | hj
          · exact hdone j hj
          · rw [List.mem_singleton.mp hj]
            exact hi
        by_cases hp : Present (m.entry src i)
        · cases hm : pageMask p.length (m.entry src i) with
          | some mask =>
            -- a page: it is entered in a table that is null
            left
            rw [cloneTurn_page (x := (m.failed k, ws)) hp hm]
            exact ⟨_, List.mem_append_right _ (List.mem_singleton_self _), h0⟩
          | none =>
            obtain ⟨-, hchild, hleaf⟩ := pageChild_of_mask hp hm (by omega)
            have htab : tableAt pageChild m.entry root (i :: p) = some (m.entry src i &&& ~~~flagMask) :=
              (tableAt_cons hs).trans hchild
            -- a table: the copy of it cannot be allocated, and the walk below goes on with null
            obtain ⟨j, hj⟩ := ensureNextTable_empty (m := m.failed k) hst dst i
            have hturn : cloneTurn (cloneLoop n (p.length + 1)) p.length src dst above
                (m.failed k, ws) i = cloneLoop n (i :: p).length (m.entry src i &&& ~~~flagMask)
                  (ensureNextTable (m.failed k) dst i).1 (dst :: above) (m.failed (k + j), ws) := by
              rw [cloneTurn_table (x := (m.failed k, ws)) hp hm, hj, failed_failed]
              rfl
            rw [hturn]
            by_cases hbelow : HasPage m root n (i :: p)
            · left
              exact ih (m := m.failed (k + j)) hst (List.mem_cons_of_mem _ h0) hbelow htab
                (by rw [List.length_cons]; omega)
            · right
              have hlen : n + (i :: p).length = 4 := by rw [List.length_cons]; omega
              have hsame : ∃ l, cloneLoop n (i :: p).length (m.entry src i &&& ~~~flagMask)
                  (ensureNextTable (m.failed k) dst i).1 (dst :: above) (m.failed (k + j), ws)
                    = ((m.failed (k + j)).failed l, ws) :=
                cloneLoop_empty _ _ _ hst hbelow htab hlen
              obtain ⟨l, hl⟩ := hsame
              exact ⟨⟨k + j + l, by rw [hl, failed_failed]⟩, hadd ⟨hleaf, hbelow⟩⟩
        · right
          have habsent : tableAt pageChild m.entry root (i :: p) = none :=
            (tableAt_cons hs).trans (pageChild_of_not_present hp)
          exact ⟨⟨k, cloneTurn_absent hp⟩,
            hadd ⟨pageLeaf_of_not_present hp, not_hasPage_of_none habsent⟩⟩

end Empty

end ZohoOs
