/-
  ZohoOs.Vmm.DestroyBalance — destroying a space keeps the accounts.

  `vmm_destroy_address_space` frees every frame of the space once.  These are
  the frames the holders of the space hold, path by path, so that giving the
  space up leaves just these references to the running code.
-/
import ZohoOs.Vmm.CloneBalance

namespace ZohoOs

open ZohoOs.Lib
open ZohoOs.Lib.Mem (Aligned)
open ZohoOs.Lib.Radix

/-! ## §1. The holders of a space, path by path. -/

/-- What holds the frame at the end of a path of a space. -/
def pathHolder (r : Word) : List (Fin 512) → Holder
  | [l, k, j, i] => .page r ⟨i, j, k, l⟩
  | q => .table r q

/-- The path of a holder. -/
def Holder.path : Holder → List (Fin 512)
  | .table _ q => q
  | .page _ vp => vp.path

/-- The space of a holder. -/
def Holder.root : Holder → Word
  | .table r _ => r
  | .page r _ => r

/-- A holder of some spaces is one of its own space. -/
theorem holding_iff_root {roots : Finset Word} {m : Machine} {x : Holder} {a : Word} :
    holding roots m x = some a ↔ x.root ∈ roots ∧ holding {x.root} m x = some a := by
  cases x with
  | table r q =>
    rw [holding_table, holding_table, Holder.root]
    by_cases hr : r ∈ roots <;> simp [hr]
  | page r vp =>
    rw [holding_page, holding_page, Holder.root]
    by_cases hr : r ∈ roots <;> simp [hr]

theorem path_pathHolder (r : Word) (q : List (Fin 512)) : (pathHolder r q).path = q := by
  unfold pathHolder
  split <;> rfl

theorem pathHolder_table (r : Word) {q : List (Fin 512)} (h : q.length ≠ 4) : pathHolder r q = .table r q := by
  unfold pathHolder
  split
  · exact absurd rfl h
  · rfl

section Space

variable {pool : Finset Nat} {own : Set Nat} {kernel r a : Word} {roots : Finset Word} {m : Machine}
  {q : List (Fin 512)}

/-- The frame at the end of a path is the one its holder holds. -/
theorem nodeAt_eq (h : m.Spaces pool kernel roots) (hr : r ∈ roots) (hq : (spaceForest kernel roots).Path r q)
    (hne : q ≠ []) : nodeAt pageChild pageLeaf m.entry r q = (holding {r} m (pathHolder r q)).toList := by
  have hrr : r ∈ ({r} : Finset Word) := Finset.mem_singleton_self r
  have hlast := (spaceForest_path_iff h.kernel_notMem hr).mp hq
  obtain ⟨i, p, rfl⟩ := List.exists_cons_of_ne_nil hne
  have hleaf : leafAt pageChild pageLeaf m.entry r (i :: p) =
      (tableAt pageChild m.entry r p).bind fun t => pageLeaf p.length (m.entry t i) := rfl
  by_cases hlen : p.length = 3
  · -- a page
    obtain ⟨vp, rfl, rfl⟩ := VPage.exists_ptPath hlen i
    have hvp : vp.pml4 ≠ 0 := fun h0 => hlast (congrArg some h0)
    have hnone : tableAt pageChild m.entry r (vp.pt :: vp.ptPath) = none := by
      cases ht : tableAt pageChild m.entry r (vp.pt :: vp.ptPath) with
      | none => rfl
      | some t => exact absurd (tableAt_length ht) (by simp [VPage.ptPath])
    rw [nodeAt, hnone, hleaf, show pathHolder r (vp.pt :: vp.ptPath) = .page r vp from rfl, holding_page,
      if_pos ⟨hrr, hvp⟩]
    cases hpt : tableAt pageChild m.entry r vp.ptPath with
    | none =>
      have hlook : pageLookup m r vp = none := by
        cases hx : pageLookup m r vp with
        | none => rfl
        | some x =>
          obtain ⟨pt, ⟨-, hpt'⟩, -⟩ := h.lookup_pt hr hvp hx
          rw [hpt] at hpt'
          cases hpt'
      rw [hlook]
      rfl
    | some pt =>
      rw [pageLookup_of_pt hpt, Option.bind_some, hlen]
      by_cases hp : Present (m.entry pt vp.pt)
      · rw [if_pos hp, (pageLeaf_of_mask hp rfl).1]
        rfl
      · rw [if_neg hp, pageLeaf_of_not_present hp]
        rfl
  · -- a table: no entry above it is a page
    have hnoleaf : leafAt pageChild pageLeaf m.entry r (i :: p) = none := by
      rw [hleaf]
      cases ht : tableAt pageChild m.entry r p with
      | none => rfl
      | some t =>
        have hle := tableAt_length ht
        have hnh := h.not_huge (i := i) hr ⟨hq.tail, ht⟩ (by omega) fun hp => by
          subst hp
          exact fun h0 => hlast (congrArg some h0)
        rw [Option.bind_some, pageLeaf, if_neg (fun hc => hlen hc.2), if_neg (fun hc => hnh hc.2.2)]
    rw [nodeAt, hnoleaf, pathHolder_table r (by rw [List.length_cons]; omega), holding_table,
      if_pos ⟨hrr, hlast⟩]
    exact List.append_nil _

/-- The paths of a space. -/
theorem spaceFrames_eq (h : m.Spaces pool kernel roots) (hr : r ∈ roots) : spaceFrames m r =
    (([] :: pathsBelow pageSlots 4 []).map (pathHolder r)).filterMap (holding {r} m) := by
  have hroot : holding {r} m (pathHolder r []) = some r := by
    rw [pathHolder_table r (by simp), holding_table, if_pos ⟨Finset.mem_singleton_self r, by simp⟩]
    rfl
  rw [spaceFrames, List.map_cons, List.filterMap_cons, hroot, List.filterMap_map, List.filterMap_eq_flatMap_toList]
  refine congrArg (r :: ·) (List.flatMap_congr fun q hq => ?_)
  have hslots : userSlots ⊆ (spaceForest kernel roots).slots r := by
    intro j hj
    simpa [spaceForest, h.ne_kernel hr] using hj
  refine nodeAt_eq h hr (path_of_mem_pathsBelow (Set.mem_insert_of_mem _ hr) hslots hq) fun hnil => ?_
  have hlen := length_lt_of_mem_pathsBelow hq
  rw [hnil] at hlen
  exact Nat.lt_irrefl _ hlen

/-- **The frames of a space**, each as often as the space holds it. -/
theorem uses_space (h : m.Spaces pool kernel roots) (hr : r ∈ roots) (a : Word) :
    uses (holding {r} m) a = (spaceFrames m r).count a := by
  rw [spaceFrames_eq h hr]
  refine uses_eq_count ?_ fun x hx => ?_
  · refine List.Nodup.map (Function.LeftInverse.injective (path_pathHolder r)) ?_
    refine List.nodup_cons.mpr ⟨fun hmem => ?_, nodup_pathsBelow nodup_pageSlots⟩
    exact absurd (length_lt_of_mem_pathsBelow hmem) (Nat.lt_irrefl _)
  · cases x with
    | table r' q =>
      rw [holding_table] at hx
      split at hx
      · rename_i hc
        obtain rfl := Finset.mem_singleton.mp hc.1
        have hle := tableAt_length hx
        rw [← pathHolder_table r' (by omega)]
        refine List.mem_map_of_mem ?_
        rcases path_cases q with rfl | ⟨front, i, rfl⟩
        · exact List.mem_cons_self
        · refine List.mem_cons_of_mem _ (mem_walkedPaths (i := i) (fun h0 => hc.2 ?_) (List.suffix_append _ _)
            (by omega))
          rw [List.getLast?_concat, h0]
      · cases hx
    | page r' vp =>
      obtain ⟨hr', hvp, -⟩ := holding_page_iff.mp hx
      obtain rfl := Finset.mem_singleton.mp hr'
      refine List.mem_map.mpr ⟨vp.path, List.mem_cons_of_mem _
        (mem_walkedPaths hvp ?_ (by simp [VPage.path, VPage.ptPath])), rfl⟩
      exact List.suffix_append [vp.pt, vp.pd, vp.pdpt] [vp.pml4]

/-! ## §2. Giving up a space. -/

/-- **A space that is given up** leaves its frames to the running code. -/
theorem Machine.Spaces.drop (h : m.Spaces pool kernel roots) :
    m.Spaces pool kernel (roots.erase r) := by
  have hsub : ∀ {r' p}, (spaceForest kernel (roots.erase r)).Path r' p → (spaceForest kernel roots).Path r' p :=
    fun hp => ⟨Set.insert_subset_insert (Finset.coe_subset.mpr (Finset.erase_subset r roots)) hp.1, hp.2⟩
  refine ⟨h.wf.mono (Set.insert_subset_insert (Finset.coe_subset.mpr (Finset.erase_subset r roots)))
    fun _ _ => subset_rfl, h.current, fun hk => h.kernel_notMem (Finset.mem_of_mem_erase hk),
    fun r' hr' => h.shared r' (Finset.mem_of_mem_erase hr'), fun r' hr' p t i ht => ?_⟩
  exact h.slots r' (Finset.mem_of_mem_erase hr') p t i ⟨hsub ht.1, ht.2⟩

/-- The holders of a set of spaces, one of them set apart. -/
theorem uses_erase (h : m.Spaces pool kernel roots) (hr : r ∈ roots) (a : Word) :
    uses (holding roots m) a = uses (holding (roots.erase r) m) a + (spaceFrames m r).count a := by
  rw [← uses_space h hr]
  refine uses_split (finitelyHeld_holding _ m) (finitelyHeld_holding _ m) (fun x => ?_) fun x hx hx' => ?_
  · rw [holding_iff_root, @holding_iff_root (roots.erase r), @holding_iff_root {r},
      ← or_and_right, Finset.mem_erase, Finset.mem_singleton]
    refine and_congr_left fun _ => ⟨fun hx => ?_, fun hx => hx.elim And.right fun he => he ▸ hr⟩
    by_cases he : x.root = r
    · exact .inr he
    · exact .inl ⟨he, hx⟩
  · have hmem := (holding_iff_root.mp hx).1
    exact (Finset.mem_erase.mp hmem).1 (Finset.mem_singleton.mp (holding_iff_root.mp hx').1)

end Space

namespace Machine.Accounts

variable {pool : Finset Nat} {own : Set Nat} {kernel r a : Word} {roots : Finset Word} {m : Machine}

/-- Giving up a space. -/
theorem drop (h : m.Accounts pool own kernel roots noExtra) (hr : r ∈ roots) :
    m.Accounts pool own kernel (roots.erase r) fun a => (spaceFrames m r).count a := by
  have huses := uses_erase h.spaces hr
  have hless : ∀ x a, holding (roots.erase r) m x = some a → holding roots m x = some a := fun x a hx =>
    holding_iff_root.mpr ((holding_iff_root.mp hx).imp_left Finset.mem_of_mem_erase)
  refine ⟨h.spaces.drop, h.counts.congr fun a _ _ => ?_, fun x a hx => h.held_own x a (hless x a hx),
    fun r' q t ht => ?_, fun q t ht => h.kernel_not_own q t ⟨spaceForest_path_kernel, ht.2⟩⟩
  · exact (huses a).symm
  · rw [← huses]
    exact h.once r' q t (hless _ _ ht)

/-- Giving back what the running code kept, frame by frame. -/
theorem freeFrames {frames : List Word} (h : m.Accounts pool own kernel roots fun a => frames.count a)
    (hown : ∀ a ∈ frames, Aligned a ∧ frameOf a ∈ own) :
    (m.freeFrames frames).Accounts pool own kernel roots noExtra := by
  induction frames generalizing m with
  | nil => exact h
  | cons n frames ih =>
    have hextra : (fun a => (n :: frames).count a) = plusOne (fun a => frames.count a) n := by
      funext a
      rw [List.count_cons, plusOne]
      by_cases han : a = n
      · simp [han]
      · simp [han, Ne.symm han]
    rw [hextra] at h
    obtain ⟨hn, hno⟩ := hown n List.mem_cons_self
    exact ih (m := m.freeFrame n) (h.free hn hno) fun a ha => hown a (List.mem_cons_of_mem n ha)

/-- **Destroying a space.** -/
theorem destroy (h : m.Accounts pool own kernel roots noExtra) (hr : r ∈ roots) :
    (vmmDestroyAddressSpace m r).Accounts pool own kernel (roots.erase r) noExtra := by
  have hno : NoHuge m r := by
    intro i j k pd hi hpd _
    have hi0 : i ≠ 0 := fun hz => by
      rw [hz] at hi
      exact absurd hi (by decide)
    exact h.spaces.not_huge hr ⟨path_of_suffix (spaceForest_path hr hi0) (List.suffix_cons j [i]), hpd⟩
      (by simp) (by simp)
  have hperm := hno.frees
  rw [vmmDestroyAddressSpace_eq]
  have hdrop := h.drop hr
  have hcount : (fun a => (spaceFrames m r).count a) = fun a => (freed (destroyTrace m r)).count a :=
    funext fun a => (hperm.count_eq a).symm
  rw [hcount] at hdrop
  refine hdrop.freeFrames fun a ha => ?_
  have hpos : 0 < uses (holding {r} m) a := by
    rw [uses_space h.spaces hr]
    exact List.count_pos_iff.mpr (hperm.mem_iff.mp ha)
  obtain ⟨x, hx⟩ := exists_of_uses_pos hpos
  have hx' : holding roots m x = some a :=
    holding_iff_root.mpr ((holding_iff_root.mp hx).imp_left fun hx => by
      rw [Finset.mem_singleton.mp hx]
      exact hr)
  exact ⟨holding_aligned h.spaces hx', h.held_own x a hx'⟩

end Machine.Accounts

end ZohoOs
