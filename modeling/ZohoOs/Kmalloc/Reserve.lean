/-
  ZohoOs.Kmalloc.Reserve — which frames `kmalloc_init` takes from the pool.

  The reservation loop runs once per page of the heap range but allocates
  whatever is on top of the free stack: after `pmm_init`, the highest free
  frames.  So the frames behind the heap leave the pool exactly when each of
  them has fewer than 4096 free frames above it, and otherwise some sequence
  of allocations hands one out.
-/
import ZohoOs.Lib.Transition
import ZohoOs.Kmalloc.Basic
import ZohoOs.Pmm.Ledger
import Mathlib.Order.Interval.Finset.Nat

namespace ZohoOs

open ZohoOs.Lib

/-! ## §1. Dropping from a decreasing list. -/

/-- What survives dropping `k` items of a decreasing list: the items with at
    least `k` larger ones. -/
theorem mem_drop_of_decreasing {l : List Nat} (h : l.Pairwise (· > ·)) {k x : Nat} :
    x ∈ l.drop k ↔ x ∈ l ∧ k ≤ (l.filter (x < ·)).length := by
  induction l generalizing k with
  | nil => simp
  | cons y l ih =>
    obtain ⟨hy, hl⟩ := List.pairwise_cons.mp h
    cases k with
    | zero => simp
    | succ k =>
      rw [List.drop_succ_cons, ih hl, List.mem_cons]
      by_cases hx : x ∈ l
      · have hlt : x < y := hy x hx
        simp [hx, hlt]
      · have hnot : ∀ z ∈ l, x = y → ¬ x < z := fun z hz he => by have := hy z hz; omega
        simp only [hx, false_and, or_false, false_iff, not_and]
        rintro rfl
        rw [List.filter_cons_of_neg (by simp),
          List.filter_eq_nil_iff.mpr fun z hz => by simpa using hnot z hz rfl]
        simp

/-- The same for the numbers below `n` that satisfy `P`, the largest first. -/
theorem mem_drop_filter_range {P : Nat → Prop} [DecidablePred P] {n k x : Nat} :
    x ∈ ((List.range n).filter fun y => P y).reverse.drop k ↔
      (x < n ∧ P x) ∧ k ≤ ((Finset.range n).filter fun y => x < y ∧ P y).card := by
  set l := ((List.range n).filter fun y => P y).reverse with hl
  have hdec : l.Pairwise (· > ·) := by
    rw [hl, List.pairwise_reverse]
    exact List.Pairwise.filter _ List.pairwise_lt_range
  have hmem : ∀ y, y ∈ l ↔ y < n ∧ P y := by
    intro y
    rw [hl, List.mem_reverse, List.mem_filter, List.mem_range, decide_eq_true_eq]
  have hcount : (l.filter (x < ·)).length
      = ((Finset.range n).filter fun y => x < y ∧ P y).card := by
    have hnd : (l.filter (x < ·)).Nodup := (hdec.imp fun hab => Nat.ne_of_gt hab).filter _
    rw [← List.toFinset_card_of_nodup hnd]
    congr 1
    ext y
    rw [List.mem_toFinset, List.mem_filter, hmem, decide_eq_true_eq, Finset.mem_filter,
      Finset.mem_range]
    exact ⟨fun hy => ⟨hy.1.1, hy.2, hy.1.2⟩, fun hy => ⟨⟨hy.1, hy.2.2⟩, hy.2.1⟩⟩
  rw [mem_drop_of_decreasing hdec, hmem, hcount]

/-! ## §2. The frames left after the reservation. -/

theorem freeStack_reserve (n : Nat) (p : Pmm) :
    ((List.range n).foldl (fun p _ => (pmmAllocFrame p).2) p).freeStack = p.freeStack.drop n := by
  induction n with
  | zero => simp
  | succ n ih =>
    rw [List.range_succ, List.foldl_append, List.foldl_cons, List.foldl_nil, ← List.drop_drop (i := 1)]
    rw [← ih]
    set q := (List.range n).foldl (fun p _ => (pmmAllocFrame p).2) p
    cases hst : q.freeStack with
    | nil => rw [pmmAllocFrame_nil hst]; simp [hst]
    | cons a rest => rw [pmmAllocFrame_cons hst]; simp

/-- How many free frames lie above frame `f` after `pmm_init`. -/
def freeAbove (regions : List (Word × Word)) (kernelEnd mbInfo mbiEnd : Word) (f : Nat) : Nat :=
  ((Finset.range maxFrames).filter fun g =>
    f < g ∧ FrameFree regions kernelEnd mbInfo mbiEnd g).card

/-- Frame `f` still on the free stack after `kmalloc_init`. -/
theorem mem_freeStack_kmallocInit {fuel : Nat} {mem : Mem} {mbInfo kernelEnd : Word}
    {tags : List MbTag} {p : Pmm} (hmbi : MbiAt mem mbInfo tags)
    (h : pmmInit fuel mem mbInfo kernelEnd = some p) (header : Word → KmallocHeader) (a : Word) :
    a ∈ (kmallocInit p header).1.freeStack ↔ ∃ f, frameAddr f = a ∧
      FrameFree (availableRegions tags) kernelEnd mbInfo (mbiEndOf mbInfo tags) f ∧
      heapSize / pageSize ≤
        freeAbove (availableRegions tags) kernelEnd mbInfo (mbiEndOf mbInfo tags) f := by
  obtain ⟨hst, -⟩ := pmmInit_freeStack hmbi h
  show a ∈ (reserveHeapFrames p).freeStack ↔ _
  rw [reserveHeapFrames, freeStack_reserve, hst, ← List.map_drop, List.mem_map]
  constructor
  · rintro ⟨f, hf, rfl⟩
    obtain ⟨⟨-, hfree⟩, hk⟩ := mem_drop_filter_range.mp hf
    exact ⟨f, rfl, hfree, hk⟩
  · rintro ⟨f, rfl, hfree, hk⟩
    exact ⟨f, mem_drop_filter_range.mpr ⟨⟨hfree.1.1, hfree⟩, hk⟩, rfl⟩

/-! ## §3. Runs of the allocator's clients. -/

/-- One call after `kmalloc_init`: frames are freed and referenced only while
    a client holds them. -/
inductive ClientStep : PmmSystem → PmmCall → PmmSystem → Prop
  | alloc (s : PmmSystem) :
      ClientStep s .alloc ⟨(pmmAllocFrame s.pmm).2, ledgerAlloc s.held (pmmAllocFrame s.pmm).1⟩
  | free (s : PmmSystem) {a : Word} (hheld : 0 < s.held (frameOf a)) :
      ClientStep s (.free a) ⟨pmmFreeFrame s.pmm a, ledgerFree s.held a⟩
  | refInc (s : PmmSystem) {a : Word} (hheld : 0 < s.held (frameOf a)) :
      ClientStep s (.refInc a) ⟨pmmRefInc s.pmm a, ledgerRefInc s.held a⟩

/-- The address lies in `[HEAP_START, HEAP_START + HEAP_SIZE)`. -/
def InHeap (a : Word) : Prop :=
  heapStart.toNat ≤ a.toNat ∧ a.toNat < heapStart.toNat + heapSize

/-- The frame backs a page of the heap. -/
def HeapFrame (f : Nat) : Prop := 4096 ≤ f ∧ f < 8192

theorem inHeap_iff (a : Word) : InHeap a ↔ HeapFrame (frameOf a) := by
  have hs : heapStart.toNat = 0x1000000 := rfl
  unfold InHeap HeapFrame frameOf heapSize pageSize
  omega

/-- No sequence of calls makes `pmm_alloc_frame` return a heap address. -/
def HeapNeverHandedOut (p : Pmm) : Prop :=
  ∀ tr s, Run ClientStep (bootSystem p) tr s → ¬ InHeap (pmmAllocFrame s.pmm).1

/-- No heap frame is free, and no client holds one. -/
structure HeapApart (s : PmmSystem) : Prop where
  stack : ∀ a ∈ s.pmm.freeStack, ¬ InHeap a
  held : ∀ f, HeapFrame f → s.held f = 0

namespace HeapApart

variable {s s' : PmmSystem} {c : PmmCall}

theorem allocated (h : HeapApart s) : ¬ InHeap (pmmAllocFrame s.pmm).1 := by
  cases hst : s.pmm.freeStack with
  | nil =>
    rw [pmmAllocFrame_nil hst]
    exact fun hin => absurd hin.1 (by show ¬ heapStart.toNat ≤ (0 : Word).toNat; decide)
  | cons a rest =>
    rw [pmmAllocFrame_cons hst]
    exact h.stack a (by rw [hst]; exact List.mem_cons_self)

/-- Only the address itself is ever pushed. -/
theorem mem_freeStack_free {p : Pmm} {a b : Word} (h : b ∈ (pmmFreeFrame p a).freeStack) :
    b = a ∨ b ∈ p.freeStack := by
  simp only [pmmFreeFrame] at h
  split at h
  · exact .inr h
  · split at h
    · split at h
      · split at h
        · exact List.mem_cons.mp h
        · exact .inr h
      · exact .inr h
    · exact .inr h

theorem step (h : HeapApart s) (hst : ClientStep s c s') : HeapApart s' := by
  cases hst with
  | alloc =>
    have hout := h.allocated
    refine ⟨fun a ha => h.stack a ?_, fun f hf => ?_⟩
    · cases hfs : s.pmm.freeStack with
      | nil => rw [pmmAllocFrame_nil hfs] at ha; simp [hfs] at ha
      | cons b rest =>
        rw [pmmAllocFrame_cons hfs] at ha
        exact List.mem_cons_of_mem _ ha
    · show ledgerAlloc s.held _ f = 0
      unfold ledgerAlloc
      split
      · exact h.held f hf
      · have hne : f ≠ frameOf (pmmAllocFrame s.pmm).1 := fun he => hout ((inHeap_iff _).mpr (he ▸ hf))
        rw [Function.update_of_ne hne]
        exact h.held f hf
  | @free a hheld =>
    have hna : ¬ HeapFrame (frameOf a) := fun hf => by have := h.held _ hf; omega
    refine ⟨fun b hb => ?_, fun f hf => ?_⟩
    · rcases mem_freeStack_free hb with rfl | hb
      · exact fun hin => hna ((inHeap_iff _).mp hin)
      · exact h.stack b hb
    · show ledgerFree s.held a f = 0
      have hne : f ≠ frameOf a := fun he => hna (he ▸ hf)
      rw [ledgerFree, Function.update_of_ne hne]
      exact h.held f hf
  | @refInc a hheld =>
    have hna : ¬ HeapFrame (frameOf a) := fun hf => by have := h.held _ hf; omega
    refine ⟨fun b hb => h.stack b ?_, fun f hf => ?_⟩
    · have hsame : (pmmRefInc s.pmm a).freeStack = s.pmm.freeStack := by
        simp only [pmmRefInc]; split <;> rfl
      exact hsame ▸ hb
    · show ledgerRefInc s.held a f = 0
      have hne : f ≠ frameOf a := fun he => hna (he ▸ hf)
      rw [ledgerRefInc, Function.update_of_ne hne]
      exact h.held f hf

end HeapApart

/-- `n` allocations in a row. -/
def allocTimes (n : Nat) (s : PmmSystem) : PmmSystem :=
  (fun s => ⟨(pmmAllocFrame s.pmm).2, ledgerAlloc s.held (pmmAllocFrame s.pmm).1⟩)^[n] s

theorem allocTimes_succ (n : Nat) (s : PmmSystem) :
    allocTimes (n + 1) s = ⟨(pmmAllocFrame (allocTimes n s).pmm).2,
      ledgerAlloc (allocTimes n s).held (pmmAllocFrame (allocTimes n s).pmm).1⟩ :=
  Function.iterate_succ_apply' _ n s

theorem freeStack_allocTimes (n : Nat) (s : PmmSystem) :
    (allocTimes n s).pmm.freeStack = s.pmm.freeStack.drop n := by
  induction n with
  | zero => rfl
  | succ n ih =>
    rw [allocTimes_succ, ← List.drop_drop (i := 1), ← ih]
    cases hst : (allocTimes n s).pmm.freeStack with
    | nil => simp [pmmAllocFrame_nil hst, hst]
    | cons a rest => simp [pmmAllocFrame_cons hst]

theorem run_allocTimes (n : Nat) (s : PmmSystem) : ∃ tr, Run ClientStep s tr (allocTimes n s) := by
  induction n with
  | zero => exact ⟨[], .nil s⟩
  | succ n ih =>
    obtain ⟨tr, hrun⟩ := ih
    have hstep : ClientStep (allocTimes n s) .alloc (allocTimes (n + 1) s) := by
      rw [allocTimes_succ]
      exact ClientStep.alloc _
    exact ⟨_, hrun.snoc hstep⟩

/-- Every frame on the stack is handed out by some sequence of allocations. -/
theorem exists_run_returning {s : PmmSystem} {a : Word} (ha : a ∈ s.pmm.freeStack) :
    ∃ tr s', Run ClientStep s tr s' ∧ (pmmAllocFrame s'.pmm).1 = a := by
  obtain ⟨pre, post, hsplit⟩ := List.append_of_mem ha
  obtain ⟨tr, hrun⟩ := run_allocTimes pre.length s
  refine ⟨tr, _, hrun, ?_⟩
  have hst : (allocTimes pre.length s).pmm.freeStack = a :: post := by
    rw [freeStack_allocTimes, hsplit, List.drop_left]
  rw [pmmAllocFrame_cons hst]

theorem heapNeverHandedOut_iff (p : Pmm) :
    HeapNeverHandedOut p ↔ ∀ a ∈ p.freeStack, ¬ InHeap a := by
  constructor
  · intro h a ha
    obtain ⟨tr, s, hrun, hret⟩ := exists_run_returning (s := bootSystem p) ha
    rw [← hret]
    exact h tr s hrun
  · intro h tr s hrun
    have hs : HeapApart s :=
      hrun.invariant' (fun _ _ _ hI hst => hI.step hst) ⟨h, fun _ _ => rfl⟩
    exact hs.allocated

/-! ## §4. When the heap is reserved. -/

/-- Every free frame behind the heap is among the highest free frames. -/
def HeapOnTop (regions : List (Word × Word)) (kernelEnd mbInfo mbiEnd : Word) : Prop :=
  ∀ f, HeapFrame f → FrameFree regions kernelEnd mbInfo mbiEnd f →
    freeAbove regions kernelEnd mbInfo mbiEnd f < heapSize / pageSize

/-- **The heap reservation, exactly.**  For every well-formed block on which
    `pmm_init` returns: no sequence of allocations, and of frees and further
    references of frames it holds, made after `kmalloc_init` is handed a heap
    frame, if and only if the free frames behind the heap are among the 4096
    highest free frames. -/
theorem kmallocInit_reserves_iff {fuel : Nat} {mem : Mem} {mbInfo kernelEnd : Word}
    {tags : List MbTag} {p : Pmm} (hmbi : MbiAt mem mbInfo tags)
    (h : pmmInit fuel mem mbInfo kernelEnd = some p) (header : Word → KmallocHeader) :
    HeapNeverHandedOut (kmallocInit p header).1 ↔
      HeapOnTop (availableRegions tags) kernelEnd mbInfo (mbiEndOf mbInfo tags) := by
  rw [heapNeverHandedOut_iff]
  constructor
  · intro hall f hf hfree
    by_contra hge
    have hmem := (mem_freeStack_kmallocInit hmbi h header (frameAddr f)).mpr
      ⟨f, rfl, hfree, by omega⟩
    refine hall _ hmem ((inHeap_iff _).mpr ?_)
    rw [frameOf_frameAddr hfree.1.1]
    exact hf
  · intro htop a ha hin
    obtain ⟨f, rfl, hfree, hk⟩ := (mem_freeStack_kmallocInit hmbi h header a).mp ha
    rw [inHeap_iff, frameOf_frameAddr hfree.1.1] at hin
    have := htop f hin hfree
    omega

/-- A machine whose memory ends below the heap. -/
theorem kmallocInit_reserves_iff_small :
    ∃ fuel p, pmmInit fuel (oneRegionBlock 0x10000 0x200000 0x4000) 0x10000 0x180000 = some p ∧
      (HeapNeverHandedOut (kmallocInit p fun _ => ⟨0, false, 0⟩).1 ↔
        HeapOnTop (availableRegions (oneRegionTags 0x200000 0x4000)) 0x180000 0x10000
          (mbiEndOf 0x10000 (oneRegionTags 0x200000 0x4000))) := by
  have hmbi := oneRegionBlock_at 0x10000 0x200000 0x4000 (by decide) (by decide)
  obtain ⟨N, hN⟩ := pmmInit_returns 0x180000 hmbi (by decide)
    (oneRegionTags_below (by decide))
  obtain ⟨p, hp⟩ := hN N (Nat.le_refl N)
  exact ⟨N, p, hp, kmallocInit_reserves_iff hmbi hp _⟩

/-- A machine with memory from 1 MiB to 128 MiB and a kernel that ends at
    2 MiB: the reservation takes the top 16 MiB, and the heap's first frame
    stays in the pool. -/
theorem kmallocInit_leaves_heap_free :
    MbiAt (oneRegionBlock 0x10000 0x100000 0x7F00000) 0x10000 (oneRegionTags 0x100000 0x7F00000) ∧
    (∃ fuel p, pmmInit fuel (oneRegionBlock 0x10000 0x100000 0x7F00000) 0x10000 0x200000
        = some p) ∧
    ¬ ∀ fuel p header, pmmInit fuel (oneRegionBlock 0x10000 0x100000 0x7F00000) 0x10000 0x200000
        = some p → HeapNeverHandedOut (kmallocInit p header).1 := by
  have hmbi := oneRegionBlock_at 0x10000 0x100000 0x7F00000 (by decide) (by decide)
  obtain ⟨N, hN⟩ := pmmInit_returns 0x200000 hmbi (by decide)
    (oneRegionTags_below (by decide))
  obtain ⟨p, hp⟩ := hN N (Nat.le_refl N)
  have hend : mbiEndOf 0x10000 (oneRegionTags 0x100000 0x7F00000) = 0x10038 := by
    rw [mbiEndOf, tagsLength_oneRegionTags]
    rfl
  have hfree : ∀ f, 4096 ≤ f → f < 12289 →
      FrameFree [(0x100000, 0x7F00000)] 0x200000 0x10000 0x10038 f := by
    intro f hlo hhi
    refine ⟨⟨by unfold maxFrames; omega, _, List.mem_singleton_self _, ?_⟩, ?_, ?_⟩
    all_goals unfold PageWalk; simp; omega
  refine ⟨hmbi, ⟨N, p, hp⟩, fun hall => ?_⟩
  have hnever := (heapNeverHandedOut_iff _).mp (hall N p (fun _ => ⟨0, false, 0⟩) hp)
  refine hnever (frameAddr 4096) ?_ (by unfold InHeap; decide)
  rw [mem_freeStack_kmallocInit hmbi hp, availableRegions_oneRegionTags, hend]
  refine ⟨4096, rfl, hfree 4096 (by decide) (by decide), ?_⟩
  calc heapSize / pageSize = (Finset.Ico 4097 8193).card := by rw [Nat.card_Ico]; rfl
    _ ≤ freeAbove [(0x100000, 0x7F00000)] 0x200000 0x10000 0x10038 4096 := by
        refine Finset.card_le_card fun g hg => ?_
        rw [Finset.mem_Ico] at hg
        rw [Finset.mem_filter, Finset.mem_range]
        exact ⟨by unfold maxFrames; omega, by omega, hfree g (by omega) (by omega)⟩

end ZohoOs
