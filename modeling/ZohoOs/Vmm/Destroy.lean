/-
  ZohoOs.Vmm.Destroy — what `vmm_destroy_address_space` frees.

  The function writes no table, so that what it does is a list of events: the
  slots it reads, each as a slot of the table at the path its loop counters
  stand for, and the frames it frees.  It takes every present entry of a page
  directory for a page table.  On a space without huge pages the events are
  what the tree calls for, and a huge page makes it read the page's data.
-/
import ZohoOs.Lib.Sweep
import ZohoOs.Vmm.PageMap
import ZohoOs.Vmm.UnmapRange

namespace ZohoOs

open ZohoOs.Lib
open ZohoOs.Lib.Mem (Aligned)
open ZohoOs.Lib.Radix

/-! ## §1. The events. -/

/-- What the function does next: read a slot of the table it takes to be at a
    path of the tree, or free a frame. -/
inductive DestroyEvent where
  | read (path : List (Fin 512)) (table : Word) (slot : Fin 512)
  | free (frame : Word)
  deriving DecidableEq

/-- The frames freed, in order. -/
def freed (events : List DestroyEvent) : List Word :=
  events.filterMap fun e => match e with
    | .read _ _ _ => none
    | .free frame => some frame

/-- The slots a table is looked at: `PML4[0]` is the kernel's. -/
def pageSlots (d : Nat) : List (Fin 512) := slotsFrom (if d = 0 then 1 else 0)

@[simp] theorem pageSlots_zero : pageSlots 0 = slotsFrom 1 := by
  rw [pageSlots, if_pos rfl]

@[simp] theorem pageSlots_succ (d : Nat) : pageSlots (d + 1) = slotsFrom 0 := by
  rw [pageSlots, if_neg (Nat.succ_ne_zero d)]

/-- The events of the loop over a table, with `n` loops nested, this one
    counted.  The four loops of the source are the same loop. -/
def loopTrace (m : Machine) : Nat → List (Fin 512) → Word → List DestroyEvent
  | 0, _, _ => []
  | n + 1, path, t => (pageSlots path.length).flatMap fun i => .read path t i ::
      if Present (m.entry t i) then
        loopTrace m n (i :: path) (m.entry t i &&& ~~~flagMask) ++
          [.free (m.entry t i &&& ~~~flagMask)]
      else []

/-- The events of `vmm_destroy_address_space`. -/
def destroyTrace (m : Machine) (pml4 : Word) : List DestroyEvent :=
  loopTrace m 4 [] pml4 ++ [.free pml4]

section Freed

variable {es es' : List DestroyEvent}

@[simp] theorem freed_nil : freed [] = [] := rfl

@[simp] theorem freed_read (path : List (Fin 512)) (table : Word) (slot : Fin 512) :
    freed (.read path table slot :: es) = freed es := rfl

@[simp] theorem freed_free (frame : Word) : freed (.free frame :: es) = frame :: freed es := rfl

@[simp] theorem freed_append : freed (es ++ es') = freed es ++ freed es' :=
  List.filterMap_append

/-- A loop frees what its turns free. -/
theorem freed_flatMap (l : List (Fin 512)) (f : Fin 512 → List DestroyEvent) :
    freed (l.flatMap f) = l.flatMap fun i => freed (f i) := by
  induction l with
  | nil => rfl
  | cons i l ih => rw [List.flatMap_cons, List.flatMap_cons, freed_append, ih]

end Freed

/-! ## §2. The function and its events. -/

/-- Give back the frames, one after the other. -/
def Machine.freeFrames (m : Machine) (frames : List Word) : Machine :=
  frames.foldl Machine.freeFrame m

section Frames

variable {m m₀ : Machine}

@[simp] theorem freeFrames_append (as bs : List Word) :
    m.freeFrames (as ++ bs) = (m.freeFrames as).freeFrames bs :=
  List.foldl_append

@[simp] theorem freeFrames_nil : m.freeFrames [] = m := rfl

@[simp] theorem freeFrames_singleton (a : Word) : m.freeFrames [a] = m.freeFrame a := rfl

/-- Freeing writes no memory. -/
theorem mem_freeFrames (as : List Word) : (m.freeFrames as).mem = m.mem := by
  induction as generalizing m with
  | nil => rfl
  | cons a as ih => exact ih (m := m.freeFrame a)

theorem entry_of_mem {t : Word} {i : Fin 512} (h : m.mem = m₀.mem) : m.entry t i = m₀.entry t i := by
  unfold Machine.entry
  rw [h]

/-- A loop whose turns free the frames `g i`, by the entries in memory. -/
theorem foldl_freeFrames {f : Machine → Fin 512 → Machine} {g : Fin 512 → List Word}
    (hf : ∀ m i, m.mem = m₀.mem → f m i = m.freeFrames (g i)) (l : List (Fin 512))
    (hm : m.mem = m₀.mem) : l.foldl f m = m.freeFrames (l.flatMap g) := by
  induction l generalizing m with
  | nil => rfl
  | cons i l ih =>
    rw [List.foldl_cons, List.flatMap_cons, freeFrames_append, hf m i hm]
    exact ih ((mem_freeFrames _).trans hm)

/-- A loop over the slots of a table frees what its events say, when the loop
    below it does.  A turn does nothing for an absent entry, else it runs the
    loop below and frees the table. -/
theorem foldl_loopTrace (f : Machine → Fin 512 → Machine) (below : Word → Machine → Machine)
    {n : Nat} {slots : List (Fin 512)} {path : List (Fin 512)} {t : Word}
    (hslots : slots = pageSlots path.length)
    (hf : ∀ m i, f m i = if Present (m.entry t i) then
      (below (m.entry t i &&& ~~~flagMask) m).freeFrame (m.entry t i &&& ~~~flagMask) else m)
    (hbelow : ∀ m i s, m.mem = m₀.mem →
      below s m = m.freeFrames (freed (loopTrace m₀ n (i :: path) s)))
    (hm : m.mem = m₀.mem) :
    slots.foldl f m = m.freeFrames (freed (loopTrace m₀ (n + 1) path t)) := by
  rw [hslots, loopTrace, freed_flatMap]
  refine foldl_freeFrames (fun m i hm => ?_) _ hm
  rw [hf, freed_read, entry_of_mem hm]
  by_cases hp : Present (m₀.entry t i)
  · rw [if_pos hp, if_pos hp, freed_append, freeFrames_append, hbelow m i _ hm]
    rfl
  · rw [if_neg hp, if_neg hp]
    rfl

theorem destroyPt_eq (i : Fin 512) (path : List (Fin 512)) (pt : Word) (hm : m.mem = m₀.mem) :
    (slotsFrom 0).foldl (destroyPtEntry pt) m
      = m.freeFrames (freed (loopTrace m₀ 1 (i :: path) pt)) := by
  refine foldl_loopTrace (destroyPtEntry pt) (fun _ m => m) (pageSlots_succ _).symm (fun m l => ?_)
    (fun _ _ _ _ => rfl) hm
  rw [destroyPtEntry]

theorem destroyPd_eq (i : Fin 512) (path : List (Fin 512)) (pd : Word) (hm : m.mem = m₀.mem) :
    (slotsFrom 0).foldl (destroyPdEntry pd) m
      = m.freeFrames (freed (loopTrace m₀ 2 (i :: path) pd)) := by
  refine foldl_loopTrace (destroyPdEntry pd) (fun pt m => (slotsFrom 0).foldl (destroyPtEntry pt) m)
    (pageSlots_succ _).symm (fun m k => ?_) (fun _ k s hm => destroyPt_eq k (i :: path) s hm) hm
  rw [destroyPdEntry]

theorem destroyPdpt_eq (i : Fin 512) (path : List (Fin 512)) (pdpt : Word) (hm : m.mem = m₀.mem) :
    (slotsFrom 0).foldl (destroyPdptEntry pdpt) m
      = m.freeFrames (freed (loopTrace m₀ 3 (i :: path) pdpt)) := by
  refine foldl_loopTrace (destroyPdptEntry pdpt)
    (fun pd m => (slotsFrom 0).foldl (destroyPdEntry pd) m) (pageSlots_succ _).symm
    (fun m j => ?_) (fun _ j s hm => destroyPd_eq j (i :: path) s hm) hm
  rw [destroyPdptEntry]

/-- **`vmm_destroy_address_space` frees the frames of its events**, in that
    order. -/
theorem vmmDestroyAddressSpace_eq (m : Machine) (pml4 : Word) :
    vmmDestroyAddressSpace m pml4 = m.freeFrames (freed (destroyTrace m pml4)) := by
  have hloop : (slotsFrom 1).foldl (destroyPml4Entry pml4) m
      = m.freeFrames (freed (loopTrace m 4 [] pml4)) := by
    refine foldl_loopTrace (destroyPml4Entry pml4)
      (fun pdpt m => (slotsFrom 0).foldl (destroyPdptEntry pdpt) m) pageSlots_zero.symm
      (fun m i => ?_) (fun _ i s hm => destroyPdpt_eq i [] s hm) rfl
    rw [destroyPml4Entry]
  rw [vmmDestroyAddressSpace, hloop, destroyTrace, freed_append, freeFrames_append]
  rfl

end Frames

/-! ## §3. What the tree calls for. -/

/-- The page an entry at depth `d` of a tree maps. -/
def pageLeaf (d : Nat) (e : Word) : Option Word :=
  if Present e ∧ d = 3 then some (e &&& ~~~flagMask)
  else if Present e ∧ d = 2 ∧ Huge e then some (e &&& ~~~hugeMask)
  else none

/-- The frames below `PML4[1..511]`, path by path: every table and the base
    frame of every page. -/
def spaceFrames (m : Machine) (root : Word) : List Word :=
  root :: (pathsBelow pageSlots 4 []).flatMap (nodeAt pageChild pageLeaf m.entry root)

/-- Each frame of the space is freed once, and what is read are the tables of
    the space, each as what it is. -/
structure DestroysCleanly (m : Machine) (root : Word) : Prop where
  frees : (freed (destroyTrace m root)).Perm (spaceFrames m root)
  reads : ∀ q t i, .read q t i ∈ destroyTrace m root → tableAt pageChild m.entry root q = some t

/-- No page directory below `PML4[1..511]` has a present huge page. -/
def NoHuge (m : Machine) (root : Word) : Prop :=
  ∀ (i j k : Fin 512) (pd : Word), 1 ≤ i.val → tableAt pageChild m.entry root [j, i] = some pd →
    Present (m.entry pd k) → ¬ Huge (m.entry pd k)

section Tree

variable {m : Machine} {root t : Word} {path : List (Fin 512)} {n : Nat} {i : Fin 512}

theorem pageLeaf_of_not_present {d : Nat} {e : Word} (h : ¬ Present e) : pageLeaf d e = none := by
  simp [pageLeaf, h]

/-- A table is no page. -/
theorem pageLeaf_of_child {d : Nat} {e : Word} (h : pageChild d e ≠ none) : pageLeaf d e = none := by
  unfold pageChild at h
  split at h
  · rename_i hc
    unfold pageLeaf
    rw [if_neg (by omega), if_neg (by rintro ⟨-, hd, hh⟩; exact (hc.2.resolve_left (by omega)).2 hh)]
  · exact absurd rfl h

/-- The slots the loops look at are those of `PML4[1..511]` and all below. -/
theorem mem_pageSlots {d : Nat} : i ∈ pageSlots d ↔ (d = 0 → 1 ≤ i.val) := by
  rw [pageSlots, mem_slotsFrom]
  split <;> simp [*]

/-- A path the loops take. -/
def Swept : List (Fin 512) → Prop
  | [] => True
  | i :: p => i ∈ pageSlots p.length ∧ Swept p

/-- Without huge pages a present entry that the loops meet is a table, or the
    page of the last level. -/
theorem NoHuge.entry (h : NoHuge m root) (ht : tableAt pageChild m.entry root path = some t)
    (hs : Swept path) (hp : Present (m.entry t i)) (hd : path.length < 3) :
    pageChild path.length (m.entry t i) = some (m.entry t i &&& ~~~flagMask) := by
  refine pageChild_of_present hp hd fun h2 => ?_
  match path, h2 with
  | [j, k], _ => exact h k j i t (mem_pageSlots.mp hs.2.1 rfl) ht hp

/-- Without huge pages a loop frees what the walk of the tree finds. -/
theorem freed_loopTrace (h : NoHuge m root) (ht : tableAt pageChild m.entry root path = some t)
    (hs : Swept path) (hn : n + path.length = 4) :
    freed (loopTrace m n path t) = sweep pageChild pageLeaf m.entry pageSlots n path.length t := by
  induction n generalizing path t with
  | zero => rfl
  | succ n ih =>
    rw [loopTrace, sweep, freed_flatMap]
    refine List.flatMap_congr fun i hi => ?_
    rw [freed_read]
    by_cases hp : Present (m.entry t i)
    · rw [if_pos hp, freed_append]
      by_cases hd : path.length = 3
      · obtain rfl : n = 0 := by omega
        rw [pageChild_leaf (by omega), pageLeaf, if_pos ⟨hp, hd⟩]
        rfl
      · have hc := h.entry ht hs hp (by omega)
        rw [hc, ih ((tableAt_cons ht).trans hc) ⟨hi, hs⟩ (by rw [List.length_cons]; omega)]
        rfl
    · rw [if_neg hp, pageChild_of_not_present hp, pageLeaf_of_not_present hp]
      rfl

/-- Without huge pages a loop reads tables. -/
theorem reads_loopTrace (h : NoHuge m root) (ht : tableAt pageChild m.entry root path = some t)
    (hs : Swept path) (hn : n + path.length = 4) {q : List (Fin 512)} {s : Word} {l : Fin 512}
    (hread : .read q s l ∈ loopTrace m n path t) : tableAt pageChild m.entry root q = some s := by
  induction n generalizing path t with
  | zero => cases hread
  | succ n ih =>
    rw [loopTrace] at hread
    obtain ⟨i, hi, hread⟩ := List.mem_flatMap.mp hread
    rcases List.mem_cons.mp hread with heq | hread
    · cases heq
      exact ht
    · by_cases hp : Present (m.entry t i)
      · rw [if_pos hp] at hread
        rcases List.mem_append.mp hread with hread | hread
        · by_cases hd : path.length = 3
          · obtain rfl : n = 0 := by omega
            cases hread
          · exact ih ((tableAt_cons ht).trans (h.entry ht hs hp (by omega))) ⟨hi, hs⟩
              (by rw [List.length_cons]; omega) hread
        · simp at hread
      · rw [if_neg hp] at hread
        cases hread

/-- The loop over a table reads its slots. -/
theorem read_mem_loopTrace (hi : i ∈ pageSlots path.length) :
    .read path t i ∈ loopTrace m (n + 1) path t := by
  rw [loopTrace]
  exact List.mem_flatMap.mpr ⟨i, hi, List.mem_cons_self⟩

/-- The loop over a table runs the loop over what its present entries point
    to. -/
theorem loopTrace_subset (hi : i ∈ pageSlots path.length) (hp : Present (m.entry t i)) :
    loopTrace m n (i :: path) (m.entry t i &&& ~~~flagMask) ⊆ loopTrace m (n + 1) path t := by
  intro e he
  rw [loopTrace]
  refine List.mem_flatMap.mpr ⟨i, hi, List.mem_cons_of_mem _ ?_⟩
  rw [if_pos hp]
  exact List.mem_append_left _ he

/-- The slots the loop reads decide what it does. -/
theorem loopTrace_congr {m' : Machine}
    (h : ∀ q s l, .read q s l ∈ loopTrace m n path t → m'.entry s l = m.entry s l) :
    loopTrace m' n path t = loopTrace m n path t := by
  induction n generalizing path t with
  | zero => rfl
  | succ n ih =>
    rw [loopTrace, loopTrace]
    refine List.flatMap_congr fun i hi => ?_
    rw [h path t i (read_mem_loopTrace hi)]
    by_cases hp : Present (m.entry t i)
    · rw [if_pos hp, if_pos hp, ih fun q s l hq => h q s l (loopTrace_subset hi hp hq)]
    · rw [if_neg hp, if_neg hp]

/-- So what `vmm_destroy_address_space` frees is decided by what its events
    read. -/
theorem destroyTrace_congr {m' : Machine}
    (h : ∀ q s l, .read q s l ∈ destroyTrace m root → m'.entry s l = m.entry s l) :
    destroyTrace m' root = destroyTrace m root := by
  rw [destroyTrace, destroyTrace,
    loopTrace_congr fun q s l hq => h q s l (List.mem_append_left _ hq)]

/-- The loops reach every table below `PML4[1..511]`. -/
theorem loopTrace_subset_destroyTrace (ht : tableAt pageChild m.entry root path = some t)
    (hs : Swept path) (hn : n + path.length = 4) : loopTrace m n path t ⊆ destroyTrace m root := by
  induction path generalizing n t with
  | nil =>
    obtain rfl : root = t := by simpa using ht
    obtain rfl : n = 4 := by simpa using hn
    exact List.subset_append_left _ _
  | cons i p ih =>
    obtain ⟨s, hps, hc⟩ := tableAt_cons_eq_some.mp ht
    unfold pageChild at hc
    split at hc
    · rename_i hcond
      obtain rfl := Option.some.inj hc
      exact List.Subset.trans (loopTrace_subset hs.1 hcond.1)
        (ih hps hs.2 (by rw [← hn, List.length_cons]; omega))
    · cases hc

/-- A huge page is read as a page table: its slots are read at a path without
    a table. -/
theorem reads_hugePage {i j k : Fin 512} {pd : Word} (hi : 1 ≤ i.val)
    (hpd : tableAt pageChild m.entry root [j, i] = some pd) (hp : Present (m.entry pd k))
    (hh : Huge (m.entry pd k)) (l : Fin 512) :
    .read [k, j, i] (m.entry pd k &&& ~~~flagMask) l ∈ destroyTrace m root ∧
      tableAt pageChild m.entry root [k, j, i] = none := by
  have hmem : ∀ (d : Nat) (s : Fin 512), s ∈ pageSlots (d + 1) := fun d s =>
    mem_pageSlots.mpr fun h => absurd h (Nat.succ_ne_zero d)
  have hswept : Swept [j, i] := ⟨hmem 0 j, mem_pageSlots.mpr fun _ => hi, trivial⟩
  constructor
  · have hsub := loopTrace_subset_destroyTrace (n := 2) hpd hswept (by simp)
    have hread : .read [k, j, i] (m.entry pd k &&& ~~~flagMask) l ∈
        loopTrace m 1 [k, j, i] (m.entry pd k &&& ~~~flagMask) := read_mem_loopTrace (hmem 2 l)
    have hrun : loopTrace m 1 [k, j, i] (m.entry pd k &&& ~~~flagMask) ⊆ loopTrace m 2 [j, i] pd :=
      loopTrace_subset (hmem 1 k) hp
    exact hsub (hrun hread)
  · rw [tableAt_cons hpd]
    exact pageChild_of_huge hh

end Tree

/-! ## §4. Spaces with huge pages. -/

/-- A huge page is not destroyed cleanly. -/
theorem DestroysCleanly.noHuge {m : Machine} {root : Word} (h : DestroysCleanly m root) :
    NoHuge m root := by
  intro i j k pd hi hpd hp hh
  obtain ⟨hread, hnone⟩ := reads_hugePage hi hpd hp hh 0
  have hsome := h.reads _ _ _ hread
  rw [hnone] at hsome
  cases hsome

/-- Without huge pages the frames freed are those of the tree. -/
theorem NoHuge.frees {m : Machine} {root : Word} (h : NoHuge m root) :
    (freed (destroyTrace m root)).Perm (spaceFrames m root) := by
  have hroot : tableAt pageChild m.entry root [] = some root := rfl
  have hloop : freed (loopTrace m 4 [] root)
      = sweep pageChild pageLeaf m.entry pageSlots 4 [].length root :=
    freed_loopTrace h hroot trivial (by simp)
  rw [destroyTrace, freed_append, hloop, spaceFrames]
  have hperm : (sweep pageChild pageLeaf m.entry pageSlots 4 [].length root).Perm
      ((pathsBelow pageSlots 4 []).flatMap (nodeAt pageChild pageLeaf m.entry root)) :=
    sweep_perm (fun _ _ => pageLeaf_of_child) hroot
  exact (List.perm_append_singleton root _).trans (hperm.cons root)

/-- **`vmm_destroy_address_space` frees a space cleanly exactly when it has no
    huge page.** -/
theorem destroysCleanly_iff (m : Machine) (root : Word) :
    vmmDestroyAddressSpace m root = m.freeFrames (freed (destroyTrace m root)) ∧
      (DestroysCleanly m root ↔ NoHuge m root) := by
  refine ⟨vmmDestroyAddressSpace_eq m root, ?_⟩
  constructor
  · exact DestroysCleanly.noHuge
  · intro h
    refine ⟨h.frees, fun q t i hread => ?_⟩
    have hroot : tableAt pageChild m.entry root [] = some root := rfl
    rw [destroyTrace] at hread
    rcases List.mem_append.mp hread with hread | hread
    · exact reads_loopTrace h hroot trivial (by simp) hread
    · simp at hread

/-- A user page of 2 MiB at 0x8000000000 is read as a page table. -/
theorem destroy_reads_huge_page :
    ∃ m₁, vmmCreateAddressSpace (bootMachine (smallPmm 8)) = (0x207000, m₁) ∧
      ¬ DestroysCleanly (vmmMap m₁ 0x207000 0x8000000000 0x40000000 0x86) 0x207000 := by
  obtain ⟨m₁, hcreate, hwf₁, hframes, hempty⟩ := boot_first_space
  refine ⟨m₁, hcreate, ?_⟩
  set virt : Word := 0x8000000000
  have hfail := vmmMap_allocFailures (m := m₁) (by omega) 0x207000 virt 0x40000000 0x86
  have hflags : (0x86 : Word) &&& pageHuge ≠ 0 := by decide
  obtain ⟨-, ⟨-, hlook⟩ | ⟨hbad, -⟩⟩ := hwf₁.vmmMap_lookup 0x40000000 (Eq.refl (VPage.of virt))
    wholeTree_path (by decide) (fun hz => absurd hz hflags)
  swap
  · omega
  set m₂ := vmmMap m₁ 0x207000 virt 0x40000000 0x86
  have hmapped := hlook 0x207000 (VPage.of virt) wholeTree_path
  rw [if_pos hflags, if_pos ⟨rfl, rfl⟩] at hmapped
  -- the entry of its page directory
  have hat : HugeAt m₂ 0x207000 virt := by
    unfold HugeAt
    rw [hmapped]
    rfl
  obtain ⟨pd, hpd, hh⟩ := hugeAt_iff.mp hat
  have hflag : m₂.entry pd (VPage.of virt).pd &&& flagMask
      = (hugeMapping 0x40000000 0x86 (VPage.of virt)).flags := by
    rw [pageLookup_of_huge hpd hh] at hmapped
    exact congrArg Mapping.flags (Option.some.inj hmapped)
  have hp : Present (m₂.entry pd (VPage.of virt).pd) := by
    have hbit : (m₂.entry pd (VPage.of virt).pd &&& flagMask) &&& pagePresent ≠ 0 := by
      rw [hflag]
      decide
    rwa [BitVec.and_assoc, show flagMask &&& pagePresent = pagePresent by decide] at hbit
  intro hclean
  exact hclean.noHuge (VPage.of virt).pml4 (VPage.of virt).pdpt
    (VPage.of virt).pd pd (by decide) hpd hp hh

end ZohoOs
