/-
  ZohoOs.Vmm.Accounts — the frames of the address spaces are accounted for.

  A live address space holds frames in two ways: each of its tables is a
  frame, and each of its pages is mapped to one.  `holding` lists these
  holders, and `Machine.Accounts` says that the allocator's reference counts
  are exactly their numbers, plus `extra`: the references the running code
  keeps in its own variables.  A table is held once, so no page is mapped to
  it.

  Each thing the code does to frames and tables keeps the accounts: taking
  and giving back a frame, attaching a table, storing a page.
-/
import ZohoOs.Lib.Holders
import ZohoOs.Pmm.Counts
import ZohoOs.Vmm.Spaces
import Mathlib.Data.Set.Finite.List

namespace ZohoOs

open ZohoOs.Lib
open ZohoOs.Lib.Mem (Aligned InPage)
open ZohoOs.Lib.Radix

/-! ## §1. Holders. -/

/-- What holds a frame: the table at a path of a space, or a page of it. -/
inductive Holder where
  | table (root : Word) (path : List (Fin 512))
  | page (root : Word) (vp : VPage)
  deriving DecidableEq

/-- The frame each holder of the spaces `roots` holds. -/
def holding (roots : Finset Word) (m : Machine) : Holder → Option Word
  | .table r q =>
      if r ∈ roots ∧ q.getLast? ≠ some 0 then tableAt pageChild m.entry r q else none
  | .page r vp =>
      if r ∈ roots ∧ vp.pml4 ≠ 0 then (pageLookup m r vp).map Mapping.phys else none

theorem holding_table (roots : Finset Word) (m : Machine) (r : Word) (q : List (Fin 512)) :
    holding roots m (.table r q) =
      if r ∈ roots ∧ q.getLast? ≠ some 0 then tableAt pageChild m.entry r q else none := rfl

theorem holding_page (roots : Finset Word) (m : Machine) (r : Word) (vp : VPage) :
    holding roots m (.page r vp) =
      if r ∈ roots ∧ vp.pml4 ≠ 0 then (pageLookup m r vp).map Mapping.phys else none := rfl

section Holding

variable {pool : Finset Nat} {kernel r t a : Word} {roots : Finset Word} {m m' : Machine}
  {q : List (Fin 512)} {vp : VPage}

/-- The user part of a space's paths. -/
theorem spaceForest_path_iff (hk : kernel ∉ roots) (hr : r ∈ roots) :
    (spaceForest kernel roots).Path r q ↔ q.getLast? ≠ some 0 := by
  have hrk : r ≠ kernel := fun he => hk (he ▸ hr)
  constructor
  · intro hp hz
    have hmem : (0 : Fin 512) ∈ (spaceForest kernel roots).slots r := hp.2 0 hz
    simp [spaceForest, hrk, userSlots] at hmem
  · intro hz
    refine ⟨Set.mem_insert_of_mem _ hr, fun i hi => ?_⟩
    simp only [spaceForest, if_neg hrk, userSlots]
    rintro rfl
    exact hz hi

theorem holding_table_iff (hk : kernel ∉ roots) :
    holding roots m (.table r q) = some t ↔
      r ∈ roots ∧ m.TableOf (spaceForest kernel roots) r q t := by
  rw [holding_table]
  constructor
  · intro h
    split at h
    · rename_i hc
      exact ⟨hc.1, (spaceForest_path_iff hk hc.1).mpr hc.2, h⟩
    · cases h
  · rintro ⟨hr, hp, ht⟩
    rw [if_pos ⟨hr, (spaceForest_path_iff hk hr).mp hp⟩, ht]

theorem holding_page_iff :
    holding roots m (.page r vp) = some a ↔
      r ∈ roots ∧ vp.pml4 ≠ 0 ∧ ∃ x, pageLookup m r vp = some x ∧ x.phys = a := by
  rw [holding_page]
  constructor
  · intro h
    split at h
    · rename_i hc
      obtain ⟨x, hx, ha⟩ := Option.map_eq_some_iff.mp h
      exact ⟨hc.1, hc.2, x, hx, ha⟩
    · cases h
  · rintro ⟨hr, hvp, x, hx, rfl⟩
    rw [if_pos ⟨hr, hvp⟩, hx]
    rfl

/-- A space has finitely many holders. -/
theorem finitelyHeld_holding (roots : Finset Word) (m : Machine) :
    FinitelyHeld (holding roots m) := by
  have htables : (((fun x : Word × List (Fin 512) => Holder.table x.1 x.2) ''
      ((roots : Set Word) ×ˢ {q | q.length ≤ 3}))).Finite :=
    (roots.finite_toSet.prod (List.finite_length_le _ 3)).image _
  have hpages : (((fun x : Word × VPage => Holder.page x.1 x.2) ''
      ((roots : Set Word) ×ˢ Set.univ))).Finite :=
    (roots.finite_toSet.prod Set.finite_univ).image _
  refine (htables.union hpages).subset fun x hx => ?_
  obtain ⟨b, hb⟩ := Option.ne_none_iff_exists'.mp hx
  cases x with
  | table r q =>
    rw [holding_table] at hb
    split at hb
    · rename_i hc
      exact .inl ⟨(r, q), ⟨hc.1, tableAt_length hb⟩, rfl⟩
    · cases hb
  | page r vp =>
    obtain ⟨hr, -⟩ := holding_page_iff.mp hb
    exact .inr ⟨(r, vp), ⟨hr, Set.mem_univ _⟩, rfl⟩

/-- The holders are what the tables and the mappings of the spaces say. -/
theorem holding_congr
    (htab : ∀ r ∈ roots, ∀ q, q.getLast? ≠ some 0 →
      tableAt pageChild m'.entry r q = tableAt pageChild m.entry r q)
    (hpage : ∀ r ∈ roots, ∀ vp : VPage, vp.pml4 ≠ 0 → pageLookup m' r vp = pageLookup m r vp) :
    holding roots m' = holding roots m := by
  funext x
  cases x with
  | table r q =>
    rw [holding_table, holding_table]
    by_cases hc : r ∈ roots ∧ q.getLast? ≠ some 0
    · rw [if_pos hc, if_pos hc, htab r hc.1 q hc.2]
    · rw [if_neg hc, if_neg hc]
  | page r vp =>
    rw [holding_page, holding_page]
    by_cases hc : r ∈ roots ∧ vp.pml4 ≠ 0
    · rw [if_pos hc, if_pos hc, hpage r hc.1 vp hc.2]
    · rw [if_neg hc, if_neg hc]

theorem holding_aligned (h : m.Spaces pool kernel roots) {x : Holder}
    (hx : holding roots m x = some a) : Aligned a := by
  cases x with
  | table r q =>
    obtain ⟨-, ht⟩ := (holding_table_iff h.kernel_notMem).mp hx
    exact h.wf.aligned ht
  | page r vp =>
    obtain ⟨hr, hvp, y, hy, rfl⟩ := holding_page_iff.mp hx
    exact (pageLookup_small hy (h.lookup_small hr hvp hy)).1

end Holding

/-! ## §2. The accounts. -/

/-- **The accounts of the spaces `roots`**, over the frames `own`: the
    allocator counts every frame as often as it is held, by the spaces or
    (`extra`) by the running code; a table is held once. -/
structure Machine.Accounts (pool : Finset Nat) (own : Set Nat) (kernel : Word)
    (roots : Finset Word) (extra : Word → Nat) (m : Machine) : Prop where
  spaces : m.Spaces pool kernel roots
  counts : m.pmm.Counts pool own (fun a => uses (holding roots m) a + extra a)
  held_own : ∀ x a, holding roots m x = some a → frameOf a ∈ own
  once : ∀ r q t, holding roots m (.table r q) = some t → uses (holding roots m) t + extra t = 1
  kernel_not_own : ∀ q t, m.TableOf (spaceForest kernel roots) kernel q t → frameOf t ∉ own

/-- The code keeps no frame to itself. -/
def noExtra : Word → Nat := fun _ => 0

/-- One more reference to `n`. -/
def plusOne (u : Word → Nat) (n : Word) : Word → Nat := fun a => u a + if a = n then 1 else 0

namespace Machine.Accounts

variable {pool : Finset Nat} {own : Set Nat} {kernel r t n a : Word} {roots : Finset Word}
  {extra extra' : Word → Nat} {m m' : Machine} {p q : List (Fin 512)} {i : Fin 512}
  {rest : List Word} {vp : VPage}

theorem held {x : Holder} (hx : holding roots m x = some a) : 0 < uses (holding roots m) a :=
  uses_pos (finitelyHeld_holding _ _) hx

/-- A frame a page is mapped to is no table. -/
theorem page_not_table (h : m.Accounts pool own kernel roots extra)
    (hp : holding roots m (.page r vp) = some a) {r' : Word} :
    holding roots m (.table r' q) ≠ some a := by
  intro ht
  have hone : uses (holding roots m) a = 1 := by
    have := h.once r' q a ht
    have := held ht
    omega
  cases eq_of_uses_eq_one hone hp ht

/-- The top of the free stack is held by nobody. -/
theorem top (h : m.Accounts pool own kernel roots extra) (hst : m.pmm.freeStack = n :: rest) :
    Aligned n ∧ frameOf n ∈ own ∧ uses (holding roots m) n = 0 ∧ extra n = 0 ∧
      ∀ x, holding roots m x ≠ some n := by
  obtain ⟨hn, ho, hz⟩ := h.counts.of_mem_freeStack (a := n) (by rw [hst]; exact List.mem_cons_self)
  have hu : uses (holding roots m) n = 0 := by omega
  refine ⟨hn, ho, hu, by omega, fun x hx => ?_⟩
  have := held hx
  omega

/-- A held frame is not free. -/
theorem not_free (h : m.Accounts pool own kernel roots extra) {x : Holder}
    (hx : holding roots m x = some a) : a ∉ m.pmm.freeStack := by
  intro hmem
  obtain ⟨-, -, hz⟩ := h.counts.of_mem_freeStack hmem
  have := held hx
  omega

/-- No frame has as many pages as a reference count can hold: there is one
    page-table slot for each. -/
theorem uses_bound (h : m.Accounts pool own kernel roots extra)
    (hp : holding roots m (.page r vp) = some a) : uses (holding roots m) a ≤ 2 ^ 29 := by
  set slot : Holder → Nat × Fin 512 := fun x =>
    match x with
    | .table _ _ => (0, 0)
    | .page r vp => (frameOf ((tableAt pageChild m.entry r vp.ptPath).getD 0), vp.pt) with hslot
  have hpage : ∀ x, holding roots m x = some a → ∃ r vp pt, x = .page r vp ∧
      m.TableOf (spaceForest kernel roots) r vp.ptPath pt ∧ slot x = (frameOf pt, vp.pt) ∧
      frameOf pt ∈ own := by
    intro x hx
    cases x with
    | table r q => exact absurd hx (h.page_not_table hp)
    | page r vp =>
      obtain ⟨hr, hvp, y, hy, -⟩ := holding_page_iff.mp hx
      obtain ⟨pt, hpt, -, -⟩ := h.spaces.lookup_pt hr hvp hy
      refine ⟨r, vp, pt, rfl, hpt, ?_, h.held_own _ _
        ((holding_table_iff h.spaces.kernel_notMem).mpr ⟨hr, hpt⟩)⟩
      simp only [hslot, hpt.2, Option.getD_some]
  have hcard : (((Finset.range maxFrames : Finset Nat) : Set Nat) ×ˢ
      (Set.univ : Set (Fin 512))).ncard = 2 ^ 29 := by
    rw [Set.ncard_prod, Set.ncard_univ, Nat.card_fin, Set.ncard_coe_finset, Finset.card_range]
    rfl
  rw [← hcard]
  refine uses_le ((Finset.finite_toSet _).prod Set.finite_univ) slot (fun x hx => ?_)
    (fun x y hx hy hxy => ?_)
  · obtain ⟨r, vp, pt, -, -, hs, ho⟩ := hpage x hx
    rw [hs]
    exact ⟨Finset.mem_coe.mpr (Finset.mem_range.mpr (h.counts.own_lt _ ho)), Set.mem_univ _⟩
  · obtain ⟨r, vp, pt, rfl, hpt, hs, -⟩ := hpage x hx
    obtain ⟨r', vp', pt', rfl, hpt', hs', -⟩ := hpage y hy
    rw [hs, hs', Prod.mk.injEq] at hxy
    have heq := frameOf_inj (h.spaces.wf.aligned hpt) (h.spaces.wf.aligned hpt') hxy.1
    obtain ⟨rfl, hpath⟩ := h.spaces.wf.sep _ _ _ _ _ hpt (heq ▸ hpt')
    rw [VPage.eq_iff.mpr ⟨hpath, hxy.2⟩]

/-! ## §3. Taking and giving back frames. -/

/-- Taking a frame. -/
theorem alloc (h : m.Accounts pool own kernel roots extra) (hst : m.pmm.freeStack = n :: rest) :
    m.allocFrame.2.Accounts pool own kernel roots (plusOne extra n) := by
  obtain ⟨-, -, -, -, hfresh⟩ := h.top hst
  have hsame : holding roots m.allocFrame.2 = holding roots m := holding_congr (fun _ _ _ _ => rfl)
    fun _ _ _ _ => rfl
  refine ⟨h.spaces.allocFrame, ?_, ?_, ?_, h.kernel_not_own⟩
  · rw [hsame]
    exact h.counts.alloc hst fun a => by rw [plusOne, Nat.add_assoc]
  · rw [hsame]
    exact h.held_own
  · rw [hsame]
    intro r q t ht
    have htn : t ≠ n := fun he => hfresh _ (he ▸ ht)
    rw [plusOne, if_neg htn]
    exact h.once r q t ht

/-- Giving back a frame the code kept. -/
theorem free (h : m.Accounts pool own kernel roots (plusOne extra n)) (hn : Aligned n)
    (ho : frameOf n ∈ own) : (m.freeFrame n).Accounts pool own kernel roots extra := by
  have hsame : holding roots (m.freeFrame n) = holding roots m := holding_congr (fun _ _ _ _ => rfl)
    fun _ _ _ _ => rfl
  have hcounts : (pmmFreeFrame m.pmm n).Counts pool own
      (fun a => uses (holding roots m) a + extra a) :=
    h.counts.free hn ho fun a => by rw [plusOne, Nat.add_assoc]
  have honce : ∀ r q t, holding roots m (.table r q) = some t →
      t ≠ n ∧ uses (holding roots m) t + extra t = 1 := by
    intro r q t ht
    have hone := h.once r q t ht
    have hpos := held ht
    by_cases htn : t = n
    · subst htn; simp only [plusOne, if_true] at hone; omega
    · simp only [plusOne, if_neg htn] at hone
      exact ⟨htn, by omega⟩
  refine ⟨h.spaces.of_pmm hcounts.inv ?_, ?_, ?_, ?_, h.kernel_not_own⟩
  · intro r q t ht hmem
    obtain ⟨-, hot, hz⟩ := hcounts.of_mem_freeStack hmem
    by_cases hrk : r = kernel
    · subst hrk
      exact h.kernel_not_own q t ht hot
    · have htab := (holding_table_iff h.spaces.kernel_notMem).mpr ⟨spaceForest_mem hrk ht.1, ht⟩
      have := held htab
      omega
  · rw [hsame]
    exact hcounts
  · rw [hsame]
    exact h.held_own
  · rw [hsame]
    exact fun r q t ht => (honce r q t ht).2

/-- A further reference to the frame of a page. -/
theorem refInc (h : m.Accounts pool own kernel roots extra)
    (hp : holding roots m (.page r vp) = some n) (hextra : extra n < 2 ^ 31) :
    (m.refInc n).Accounts pool own kernel roots (plusOne extra n) := by
  have hsame : holding roots (m.refInc n) = holding roots m := holding_congr (fun _ _ _ _ => rfl)
    fun _ _ _ _ => rfl
  have hbound := h.uses_bound hp
  have hpos := held hp
  have hn := holding_aligned h.spaces hp
  have hcounts : (pmmRefInc m.pmm n).Counts pool own
      (fun a => uses (holding roots m) a + plusOne extra n a) :=
    h.counts.refInc hn (h.held_own _ _ hp) (by omega) (by omega)
      fun a => by rw [plusOne, Nat.add_assoc]
  refine ⟨h.spaces.of_pmm hcounts.inv ?_, ?_, ?_, ?_, h.kernel_not_own⟩
  · intro r q t ht
    have hstack : (pmmRefInc m.pmm n).freeStack = m.pmm.freeStack := by
      simp only [pmmRefInc]
      split <;> rfl
    rw [hstack]
    exact h.spaces.wf.notFree r q t ht
  · rw [hsame]
    exact hcounts
  · rw [hsame]
    exact h.held_own
  · rw [hsame]
    intro r' q t ht
    have htn : t ≠ n := fun he => h.page_not_table hp (he ▸ ht)
    rw [plusOne, if_neg htn]
    exact h.once r' q t ht

/-! ## §4. Tables and pages. -/

/-- Attaching a fresh table: one more holder, of the frame taken. -/
theorem holding_attachTable (h : m.Spaces pool kernel roots) (hr : r ∈ roots)
    (ht : m.TableOf (spaceForest kernel roots) r p t) (hlen : p.length < 3)
    (hpath : (spaceForest kernel roots).Path r (i :: p)) (hz : m.entry t i = 0)
    (hst : m.pmm.freeStack = n :: rest) :
    holding roots m (.table r (i :: p)) = none ∧
      holding roots (m.attachTable t i n) (.table r (i :: p)) = some n ∧
      ∀ x, x ≠ .table r (i :: p) → holding roots (m.attachTable t i n) x = holding roots m x := by
  have hiff : ∀ r' q s, (m.attachTable t i n).TableOf (spaceForest kernel roots) r' q s ↔
      m.TableOf (spaceForest kernel roots) r' q s ∨ (r' = r ∧ q = i :: p ∧ s = n) := fun r' q s =>
    h.wf.tableOf_attachTable ht hlen hpath (pageChild_of_zero hz) hst
  refine ⟨?_, ?_, fun x hx => ?_⟩
  · rw [holding_table, tableAt_cons ht.2, pageChild_of_zero hz]
    split <;> rfl
  · exact (holding_table_iff h.kernel_notMem).mpr ⟨hr, (hiff _ _ _).mpr (.inr ⟨rfl, rfl, rfl⟩)⟩
  · cases x with
    | table r' q =>
      ext s
      rw [holding_table_iff h.kernel_notMem, holding_table_iff h.kernel_notMem, hiff]
      refine and_congr_right fun _ => ⟨fun hs => hs.resolve_right fun hs => ?_, .inl⟩
      exact hx (by rw [hs.1, hs.2.1])
    | page r' vp =>
      rw [holding_page, holding_page]
      by_cases hc : r' ∈ roots ∧ vp.pml4 ≠ 0
      · rw [if_pos hc, if_pos hc,
          h.wf.pageLookup_attachTable ht hlen hpath hz hst (spaceForest_path hc.1 hc.2)]
      · rw [if_neg hc, if_neg hc]

theorem attach (h : m.Accounts pool own kernel roots extra) (hr : r ∈ roots)
    (ht : m.TableOf (spaceForest kernel roots) r p t) (hlen : p.length < 3)
    (hpath : (spaceForest kernel roots).Path r (i :: p)) (hz : m.entry t i = 0)
    (hst : m.pmm.freeStack = n :: rest) :
    (m.attachTable t i n).Accounts pool own kernel roots extra := by
  obtain ⟨-, hno, hn0, hne, hfresh⟩ := h.top hst
  obtain ⟨hold, hnew, hrest⟩ := holding_attachTable h.spaces hr ht hlen hpath hz hst
  have huses := uses_take (finitelyHeld_holding roots m) hold hnew hrest
  refine ⟨h.spaces.attach hr ht hlen hpath hz hst, ?_, ?_, ?_, ?_⟩
  · rw [Machine.Wf.pmm_attachTable]
    exact h.counts.alloc hst fun a => by rw [huses a]; omega
  · intro x a hx
    by_cases hx0 : x = .table r (i :: p)
    · rw [hx0, hnew] at hx
      rw [← Option.some.inj hx]
      exact hno
    · rw [hrest x hx0] at hx
      exact h.held_own x a hx
  · intro r' q s hs
    rw [huses s]
    by_cases hx0 : Holder.table r' q = .table r (i :: p)
    · rw [hx0, hnew] at hs
      rw [← Option.some.inj hs, if_pos rfl]
      omega
    · rw [hrest _ hx0] at hs
      rw [if_neg (show s ≠ n from fun he => hfresh _ (he ▸ hs))]
      exact h.once r' q s hs
  · intro q s hs
    rcases (h.spaces.wf.tableOf_attachTable ht hlen hpath (pageChild_of_zero hz) hst).mp hs with
      hs | ⟨hk, -, -⟩
    · exact h.kernel_not_own q s hs
    · exact absurd hk.symm (h.spaces.ne_kernel hr)

theorem grows (h : m.Accounts pool own kernel roots extra) (hr : r ∈ roots)
    (hg : m.Grows (spaceForest kernel roots) r m') : m'.Accounts pool own kernel roots extra := by
  induction hg with
  | refl => exact h
  | attach _ ht hlen hpath hz hst ih => exact ih.attach hr ht hlen hpath hz hst

/-- Storing an entry of a page table: the page holds another frame. -/
theorem holding_setPte (h : m.Spaces pool kernel roots) (hr : r ∈ roots) (hvp : vp.pml4 ≠ 0)
    (ht : m.TableOf (spaceForest kernel roots) r vp.ptPath t) {v : Word} (hv : Present v) :
    holding roots (m.setEntry t vp.pt v) (.page r vp) = some (v &&& ~~~flagMask) ∧
      ∀ x, x ≠ .page r vp → holding roots (m.setEntry t vp.pt v) x = holding roots m x := by
  obtain ⟨-, hiff⟩ := h.setPte (i := vp.pt) ht (by simp [VPage.ptPath]) (.inl hv)
  have hlook : ∀ (r' : Word) (vp' : VPage), r' ∈ roots → vp'.pml4 ≠ 0 →
      pageLookup (m.setEntry t vp.pt v) r' vp' =
        if r' = r ∧ vp' = vp then
          if Present v then some ⟨v &&& ~~~flagMask, v &&& flagMask, false⟩ else none
        else pageLookup m r' vp' := fun r' vp' hr' hvp' =>
    h.wf.pageLookup_setPte ht (spaceForest_path hr' hvp')
  refine ⟨?_, fun x hx => ?_⟩
  · refine holding_page_iff.mpr ⟨hr, hvp, ⟨v &&& ~~~flagMask, v &&& flagMask, false⟩, ?_, rfl⟩
    rw [hlook r vp hr hvp, if_pos ⟨rfl, rfl⟩, if_pos hv]
  · cases x with
    | table r' q =>
      ext s
      rw [holding_table_iff h.kernel_notMem, holding_table_iff h.kernel_notMem, hiff]
    | page r' vp' =>
      rw [holding_page, holding_page]
      by_cases hc : r' ∈ roots ∧ vp'.pml4 ≠ 0
      · rw [if_pos hc, if_pos hc, hlook r' vp' hc.1 hc.2, if_neg]
        rintro ⟨rfl, rfl⟩
        exact hx rfl
      · rw [if_neg hc, if_neg hc]

/-- Storing an entry keeps the accounts when the references it adds and drops
    are the running code's own. -/
theorem setPte (h : m.Accounts pool own kernel roots extra) (hr : r ∈ roots) (hvp : vp.pml4 ≠ 0)
    (ht : m.TableOf (spaceForest kernel roots) r vp.ptPath t) {v : Word} (hv : Present v)
    (ho : frameOf (v &&& ~~~flagMask) ∈ own)
    (hextra : ∀ a, uses (holding roots (m.setEntry t vp.pt v)) a + extra' a
      = uses (holding roots m) a + extra a) :
    (m.setEntry t vp.pt v).Accounts pool own kernel roots extra' := by
  obtain ⟨hnew, hrest⟩ := holding_setPte h.spaces hr hvp ht hv
  obtain ⟨hspaces, hiff⟩ := h.spaces.setPte (i := vp.pt) ht (by simp [VPage.ptPath]) (.inl hv)
  refine ⟨hspaces, h.counts.congr fun a _ _ => hextra a, fun x a hx => ?_, fun r' q s hs => ?_,
    fun q s hs => h.kernel_not_own q s ((hiff _ _ _).mp hs)⟩
  · by_cases hx0 : x = .page r vp
    · rw [hx0, hnew] at hx
      rw [← Option.some.inj hx]
      exact ho
    · rw [hrest x hx0] at hx
      exact h.held_own x a hx
  · rw [hextra s]
    rw [hrest _ (by simp)] at hs
    exact h.once r' q s hs

/-- Writing to memory that is no table. -/
theorem of_mem (h : m.Accounts pool own kernel roots extra) (hp : m'.pmm = m.pmm)
    (hc : m'.currentPml4 = m.currentPml4)
    (hmem : ∀ r q s, m.TableOf (spaceForest kernel roots) r q s → ∀ j, m'.entry s j = m.entry s j) :
    m'.Accounts pool own kernel roots extra ∧ holding roots m' = holding roots m := by
  obtain ⟨hspaces, hiff⟩ := h.spaces.of_mem hp hc hmem
  have hsame : holding roots m' = holding roots m := by
    refine holding_congr (fun r hr q hq => ?_) fun r hr vp hvp => ?_
    · exact Forest.tableAt_congr_path (hmem r)
        ((spaceForest_path_iff h.spaces.kernel_notMem hr).mpr hq)
    · exact Machine.Wf.pageLookup_of_tables (spaceForest_path hr hvp) (hmem r)
  refine ⟨⟨hspaces, ?_, ?_, ?_, fun q s hs => h.kernel_not_own q s ((hiff _ _ _).mp hs)⟩, hsame⟩
  · rw [hp, hsame]
    exact h.counts
  · rw [hsame]
    exact h.held_own
  · rw [hsame]
    exact h.once

end Machine.Accounts

end ZohoOs
