/-
  ZohoOs.Kmalloc.Coalesce — free blocks never lie next to each other.

  A free marks one block and merges along the whole list, and a request cuts
  one free block, so no two neighbours are both free after any call.  Such a
  list has nothing in it but its allocated blocks: the free ones are the gaps
  between them.  What the live pointers are therefore decides the whole list,
  and the order in which they were freed leaves no trace.

  Main results:
    * `noFreePair_mergeBlocks` — the merge pass leaves no free pair;
    * `eq_of_allocated` — two lists without free pairs that have the same
      allocated blocks are equal;
    * `heap_fully_coalesced` — the property over all runs.
-/
import Mathlib.Data.List.Chain
import ZohoOs.Kmalloc.Safety

namespace ZohoOs

open ZohoOs.Lib

/-! ## §1. Lists without free neighbours. -/

/-- No two neighbours are both free. -/
def NoFreePair (bs : List Block) : Prop :=
  bs.IsChain fun b c => ¬ (b.free = true ∧ c.free = true)

/-- The block `b` at address `x` is allocated. -/
def Allocated (a : Nat) (bs : List Block) (x : Nat) (b : Block) : Prop :=
  (x, b) ∈ place Block.len a bs ∧ b.free = false

theorem mergeBlocks_head (b : Block) (bs : List Block) :
    ∃ c rest, mergeBlocks b bs = c :: rest ∧ c.free = b.free := by
  induction bs generalizing b with
  | nil => exact ⟨b, [], rfl, rfl⟩
  | cons c bs ih =>
    unfold mergeBlocks
    split
    · rename_i hfree
      obtain ⟨d, rest, heq, hd⟩ := ih ⟨b.size + (c.size + 24), true⟩
      exact ⟨d, rest, heq, hd.trans hfree.1.symm⟩
    · exact ⟨b, _, rfl, rfl⟩

/-- **The merge pass leaves no free pair**, whatever the list was. -/
theorem noFreePair_mergeBlocks (b : Block) (bs : List Block) : NoFreePair (mergeBlocks b bs) := by
  induction bs generalizing b with
  | nil => exact .singleton b
  | cons c bs ih =>
    unfold mergeBlocks
    split
    · exact ih _
    · rename_i hnot
      obtain ⟨d, rest, heq, hd⟩ := mergeBlocks_head c bs
      have hrest := ih c
      rw [heq] at hrest ⊢
      refine List.isChain_cons_cons.mpr ⟨?_, hrest⟩
      rw [hd]
      exact hnot

theorem noFreePair_mergeAll (bs : List Block) : NoFreePair (mergeAll bs) := by
  cases bs with
  | nil => exact .nil
  | cons b bs => exact noFreePair_mergeBlocks b bs

/-- **First fit makes no free pair**: what it cuts off lies between the block
    it hands out and the follower of a free block. -/
theorem noFreePair_firstFit {n a x : Nat} {bs bs' : List Block} (h : firstFit n a bs = some (x, bs'))
    (hbs : NoFreePair bs) : NoFreePair bs' := by
  obtain ⟨pre, b, post, rfl, hfit, -, -, rfl⟩ := firstFit_eq_some h
  obtain ⟨hpre, hcons, -⟩ := List.isChain_append.mp hbs
  obtain ⟨hnext, hpost⟩ := List.isChain_cons.mp hcons
  have hafter : ∀ c ∈ post.head?, ¬ ((⟨b.size - n - 24, true⟩ : Block).free = true ∧ c.free = true) := by
    intro c hc hboth
    exact hnext c hc ⟨hfit.1, hboth.2⟩
  have hsplit : NoFreePair (splitItem n b ++ post) := by
    unfold splitItem
    split
    · refine List.isChain_cons_cons.mpr ⟨fun hboth => ?_, List.isChain_cons.mpr ⟨hafter, hpost⟩⟩
      exact absurd hboth.1 (by simp)
    · refine List.isChain_cons.mpr ⟨fun c _ hboth => ?_, hpost⟩
      exact absurd hboth.1 (by simp)
  refine List.isChain_append.mpr ⟨hpre, hsplit, fun c _ d hd hboth => ?_⟩
  -- the first block of the new part is allocated
  have hfirst : d.free = false := by
    unfold splitItem at hd
    split at hd
    · cases hd
      rfl
    · cases hd
      rfl
  rw [hfirst] at hboth
  exact absurd hboth.2 (by simp)

/-! ## §2. The allocated blocks decide the list. -/

section Unique

variable {a : Nat} {b c : Block} {bs cs : List Block}

theorem eq_nil_of_extent (h : extent Block.len bs = 0) : bs = [] := by
  cases bs with
  | nil => rfl
  | cons b bs =>
    have hpos := b.len_pos
    rw [extent_cons] at h
    omega

/-- A free block ends where the next allocated block of the other list starts,
    or later. -/
theorem len_le_of_allocated (hbs : NoFreePair (b :: bs)) (hb : b.free = true) (hc : c.free = true)
    (hext : extent Block.len (b :: bs) = extent Block.len (c :: cs))
    (hall : ∀ x d, Allocated a (b :: bs) x d → Allocated a (c :: cs) x d) : c.len ≤ b.len := by
  cases bs with
  | nil =>
    rw [extent_cons, extent_cons, extent_nil] at hext
    omega
  | cons d bs =>
    have hd : d.free = false := by
      cases hf : d.free with
      | false => rfl
      | true => exact absurd ⟨hb, hf⟩ (List.isChain_cons_cons.mp hbs).1
    have hmem : (a + b.len, d) ∈ place Block.len a (b :: d :: bs) := by simp
    obtain ⟨hin, -⟩ := hall _ d ⟨hmem, hd⟩
    rw [place_cons] at hin
    rcases List.mem_cons.mp hin with heq | hin
    · injection heq with _ hdc
      rw [hdc, hc] at hd
      cases hd
    · have hle := (place_bounds hin).1
      omega

/-- The allocated blocks after the first one. -/
theorem allocated_tail {x : Nat} {d : Block} :
    Allocated (a + b.len) bs x d ↔ Allocated a (b :: bs) x d ∧ a < x := by
  have hpos := b.len_pos
  constructor
  · intro h
    have hle := (place_bounds h.1).1
    exact ⟨⟨List.mem_cons_of_mem _ h.1, h.2⟩, by omega⟩
  · intro h
    obtain ⟨⟨hmem, hd⟩, hlt⟩ := h
    rcases List.mem_cons.mp hmem with heq | hmem
    · injection heq with hx
      omega
    · exact ⟨hmem, hd⟩

/-- Lists with the same allocated blocks start with the same block. -/
theorem head_eq_of_allocated (hbs : NoFreePair (b :: bs)) (hcs : NoFreePair (c :: cs))
    (hext : extent Block.len (b :: bs) = extent Block.len (c :: cs))
    (hall : ∀ x d, Allocated a (b :: bs) x d ↔ Allocated a (c :: cs) x d) : b = c := by
  have hmemb : (a, b) ∈ place Block.len a (b :: bs) := List.mem_cons_self
  have hmemc : (a, c) ∈ place Block.len a (c :: cs) := List.mem_cons_self
  cases hb : b.free with
  | false => exact place_inj Block.len_pos ((hall a b).mp ⟨hmemb, hb⟩).1 hmemc
  | true =>
    cases hc : c.free with
    | false => exact place_inj Block.len_pos hmemb ((hall a c).mpr ⟨hmemc, hc⟩).1
    | true =>
      have hle := len_le_of_allocated hbs hb hc hext fun x d => (hall x d).mp
      have hge := len_le_of_allocated hcs hc hb hext.symm fun x d => (hall x d).mpr
      have hsize : b.size = c.size := by
        unfold Block.len at hle hge
        omega
      cases b
      cases c
      simp_all

/-- **The allocated blocks decide the list.** -/
theorem eq_of_allocated (hbs : NoFreePair bs) (hcs : NoFreePair cs)
    (hext : extent Block.len bs = extent Block.len cs)
    (hall : ∀ x d, Allocated a bs x d ↔ Allocated a cs x d) : bs = cs := by
  induction bs generalizing a cs with
  | nil => exact (eq_nil_of_extent hext.symm).symm
  | cons b bs ih =>
    cases cs with
    | nil => exact eq_nil_of_extent hext
    | cons c cs =>
      obtain rfl : b = c := head_eq_of_allocated hbs hcs hext hall
      rw [extent_cons, extent_cons] at hext
      have htail : ∀ x d, Allocated (a + b.len) bs x d ↔ Allocated (a + b.len) cs x d := by
        intro x d
        rw [allocated_tail, allocated_tail, hall]
      have hrest : bs = cs := ih (List.isChain_cons.mp hbs).2 (List.isChain_cons.mp hcs).2
        (Nat.add_left_cancel hext) htail
      rw [hrest]

end Unique

/-! ## §3. What a call does to the allocated blocks. -/

section Calls

variable {a x y : Nat} {b c : Block} {bs bs' pre post : List Block}

/-- Merging makes no block allocated. -/
theorem allocated_of_mergeBlocks (h : Allocated a (mergeBlocks b bs) x c) :
    Allocated a (b :: bs) x c := by
  induction bs generalizing a b with
  | nil => exact h
  | cons d bs ih =>
    unfold mergeBlocks at h
    split at h
    · rename_i hfree
      obtain ⟨hmem, hc⟩ := ih h
      refine ⟨?_, hc⟩
      rcases List.mem_cons.mp hmem with heq | hmem
      · -- the merged block is free
        injection heq with _ hcb
        rw [hcb] at hc
        cases hc
      · have hlen : a + Block.len ⟨b.size + (d.size + 24), true⟩ = a + b.len + d.len := by
          simp only [Block.len]
          omega
        rw [hlen] at hmem
        rw [place_cons, place_cons]
        exact List.mem_cons_of_mem _ (List.mem_cons_of_mem _ hmem)
    · obtain ⟨hmem, hc⟩ := h
      rcases List.mem_cons.mp hmem with heq | hmem
      · exact ⟨heq ▸ List.mem_cons_self, hc⟩
      · exact ⟨List.mem_cons_of_mem _ (ih ⟨hmem, hc⟩).1, hc⟩

theorem allocated_mergeAll : Allocated a (mergeAll bs) x c ↔ Allocated a bs x c := by
  cases bs with
  | nil => rfl
  | cons b bs =>
    constructor
    · exact allocated_of_mergeBlocks
    · exact fun h => ⟨keepsAllocated_mergeBlocks b bs x c h.2 h.1, h.2⟩

/-- Marking a block free takes it out of the allocated ones, and no other. -/
theorem allocated_setFree (hb : b.free = false) :
    Allocated a (pre ++ ⟨b.size, true⟩ :: post) x c ↔
      Allocated a (pre ++ b :: post) x c ∧ x ≠ a + extent Block.len pre := by
  have hmark : (a + extent Block.len pre, (⟨b.size, true⟩ : Block)) ∈
      place Block.len a (pre ++ ⟨b.size, true⟩ :: post) := mem_place_iff.mpr ⟨pre, post, rfl, rfl⟩
  have hback : b = ⟨b.size, false⟩ := by
    cases b
    simp_all
  constructor
  · intro h
    obtain ⟨hmem, hc⟩ := h
    have hne : x ≠ a + extent Block.len pre := by
      intro he
      rw [he] at hmem
      rw [place_inj Block.len_pos hmem hmark] at hc
      cases hc
    refine ⟨⟨?_, hc⟩, hne⟩
    rw [place_append, List.mem_append, place_cons, List.mem_cons] at hmem ⊢
    rcases hmem with hmem | heq | hmem
    · exact .inl hmem
    · injection heq with hx
      exact absurd hx hne
    · exact .inr (.inr hmem)
  · exact fun h => ⟨place_setFree h.1.1 h.2, h.1.2⟩

/-- First fit allocates the block it hands out, and no other. -/
theorem allocated_of_firstFit {n : Nat} (h : firstFit n a bs = some (x, bs'))
    (hy : Allocated a bs' y c) : Allocated a bs y c ∨ y = x := by
  obtain ⟨pre, b, post, rfl, -, -, rfl, rfl⟩ := firstFit_eq_some h
  obtain ⟨hmem, hc⟩ := hy
  rw [place_append, place_append, extent_splitItem] at hmem
  rcases List.mem_append.mp hmem with hmem | hmem
  · left
    refine ⟨?_, hc⟩
    rw [place_append]
    exact List.mem_append_left _ hmem
  · rcases List.mem_append.mp hmem with hmem | hmem
    · right
      unfold splitItem at hmem
      split at hmem
      · rcases List.mem_cons.mp hmem with heq | hmem
        · injection heq
        · -- the remainder is free
          rw [place_cons] at hmem
          rcases List.mem_cons.mp hmem with heq | hmem
          · injection heq with _ hcb
            rw [hcb] at hc
            cases hc
          · cases hmem
      · rcases List.mem_cons.mp hmem with heq | hmem
        · injection heq
        · cases hmem
    · left
      refine ⟨?_, hc⟩
      rw [place_append, place_cons]
      exact List.mem_append_right _ (List.mem_cons_of_mem _ hmem)

end Calls

/-! ## §4. Runs. -/

/-- **The invariant**: on top of the tiling, no two free neighbours, and every
    allocated block is live. -/
structure Coalesced (s : HeapSystem) (bs : List Block) : Prop where
  inv : s.Inv bs
  noFreePair : NoFreePair bs
  live : ∀ x b, Allocated heapStart.toNat bs x b → (s.live (BitVec.ofNat 64 (x + 24))).isSome

namespace Coalesced

variable {s s' : HeapSystem} {bs : List Block}

theorem kmalloc (h : Coalesced s bs) {fuel : Nat} {n ret : Word} {h' : Heap}
    (hn : n.toNat ≤ 2 ^ 64 - 8) (hret : kmalloc fuel s.heap n = some (ret, h')) :
    ∃ bs', Coalesced ⟨h', liveKmalloc s.live ret n⟩ bs' := by
  rcases h.inv.kmalloc_cases hn hret with ⟨rfl, hI⟩ | ⟨x, bs', hfit, hx, h0, hI⟩
  · exact ⟨bs, hI, h.noFreePair, h.live⟩
  · refine ⟨bs', hI, noFreePair_firstFit hfit h.noFreePair, fun y c hy => ?_⟩
    show (liveKmalloc s.live ret n (BitVec.ofNat 64 (y + 24))).isSome
    unfold liveKmalloc
    rw [if_neg h0]
    by_cases he : BitVec.ofNat 64 (y + 24) = ret
    · rw [he, Function.update_self]
      rfl
    · rw [Function.update_of_ne he]
      rcases allocated_of_firstFit hfit hy with hold | rfl
      · exact h.live y c hold
      · exact absurd hx.symm he

/-- **A free** takes the block of its pointer out of the allocated ones. -/
theorem kfree (h : Coalesced s bs) {ptr : Word} (hs : HeapStep s (.kfree ptr) s') :
    ∃ bs', Coalesced s' bs' ∧ ∀ x c, Allocated heapStart.toNat bs' x c ↔
      Allocated heapStart.toNat bs x c ∧ BitVec.ofNat 64 (x + 24) ≠ ptr := by
  cases hs with
  | @kfree fuel _ h' hptr hret =>
    have hpay : ∀ x c, Allocated heapStart.toNat bs x c → (BitVec.ofNat 64 (x + 24)).toNat = x + 24 :=
      fun x c hx => h.inv.tiled.toNat_payload hx.1
    -- freeing null does nothing, and no block has its payload there
    by_cases h0 : ptr = 0
    · subst h0
      have hsame : s.heap = h' := by
        unfold ZohoOs.kfree at hret
        rw [if_pos rfl] at hret
        exact Option.some.inj hret
      have hne : ∀ x c, Allocated heapStart.toNat bs x c → BitVec.ofNat 64 (x + 24) ≠ 0 := by
        intro x c hx he
        have hnat := hpay x c hx
        rw [he] at hnat
        exact absurd hnat (by simp)
      refine ⟨bs, ⟨⟨hsame ▸ h.inv.tiled, fun p m hp => ?_⟩, h.noFreePair, fun x c hx => ?_⟩,
        fun x c => ⟨fun hx => ⟨hx, hne x c hx⟩, fun hx => hx.1⟩⟩
      · refine h.inv.owned p m ?_
        by_cases hp0 : p = 0
        · subst hp0
          exact absurd hp (by simp [liveKfree])
        · exact (Function.update_of_ne hp0 _ _).symm.trans hp
      · show (Function.update s.live 0 none _).isSome
        rw [Function.update_of_ne (hne x c hx)]
        exact h.live x c hx
    · obtain ⟨pre, b, post, rfl, hb, rfl⟩ := h.inv.exists_block (hptr.resolve_left h0)
      obtain ⟨h₁, hall, hI⟩ := h.inv.kfree_cases hb
      -- the call returned, so any fuel that is enough gives its heap
      have hmono : ZohoOs.kfree (fuel + ((pre ++ b :: post).length + 1)) s.heap _ = some h' :=
        kfree_mono hret (Nat.le_add_right _ _)
      rw [hall _ (by omega)] at hmono
      cases hmono
      have hself : Allocated heapStart.toNat (pre ++ b :: post)
          (heapStart.toNat + extent Block.len pre) b := ⟨mem_place_iff.mpr ⟨pre, post, rfl, rfl⟩, hb⟩
      -- merging leaves the allocated blocks, and only the one freed is gone
      have hiff : ∀ x c, Allocated heapStart.toNat (mergeAll (pre ++ ⟨b.size, true⟩ :: post)) x c ↔
          Allocated heapStart.toNat (pre ++ b :: post) x c ∧ BitVec.ofNat 64 (x + 24) ≠
            BitVec.ofNat 64 (heapStart.toNat + extent Block.len pre + 24) := by
        intro x c
        rw [allocated_mergeAll, allocated_setFree hb]
        refine and_congr_right fun hx => not_congr ⟨fun he => by rw [he], fun he => ?_⟩
        have hnat := congrArg BitVec.toNat he
        rw [hpay x c hx, hpay _ b hself] at hnat
        omega
      refine ⟨_, ⟨hI, noFreePair_mergeAll _, fun x c hx => ?_⟩, hiff⟩
      obtain ⟨hold, hne⟩ := (hiff x c).mp hx
      show (Function.update s.live _ none _).isSome
      rw [Function.update_of_ne hne]
      exact h.live x c hold

theorem step (h : Coalesced s bs) {c : HeapCall} (hs : HeapStep s c s') : ∃ bs', Coalesced s' bs' := by
  cases c with
  | kmalloc n =>
    cases hs with
    | kmalloc hn hret => exact h.kmalloc hn hret
  | kfree ptr =>
    obtain ⟨bs', h', -⟩ := h.kfree hs
    exact ⟨bs', h'⟩

/-- **A run of frees** leaves the blocks allocated that it did not free. -/
theorem frees {tr : List (Transition HeapSystem HeapCall)} (hrun : Run HeapStep s tr s')
    (hfree : ∀ c ∈ Run.labels tr, ∃ ptr, c = .kfree ptr) (h : Coalesced s bs) :
    ∃ bs', Coalesced s' bs' ∧ ∀ x b, Allocated heapStart.toNat bs' x b ↔
      Allocated heapStart.toNat bs x b ∧ HeapCall.kfree (BitVec.ofNat 64 (x + 24)) ∉ Run.labels tr := by
  induction hrun with
  | nil => exact ⟨bs, h, fun x b => by simp⟩
  | snoc hr hst ih =>
    rename_i t t' c tr
    obtain ⟨bs₁, h₁, hiff₁⟩ := ih fun c hc => hfree c (by simp [hc])
    obtain ⟨ptr, rfl⟩ := hfree c (by simp)
    obtain ⟨bs₂, h₂, hiff₂⟩ := h₁.kfree hst
    refine ⟨bs₂, h₂, fun x b => ?_⟩
    rw [hiff₂, hiff₁, Run.labels_append, Run.labels_singleton, List.mem_append, List.mem_singleton,
      HeapCall.kfree.injEq, and_assoc, not_or]

/-- With nothing live the list is one free block. -/
theorem eq_single (h : Coalesced s bs) (hnone : ∀ q, s.live q = none) :
    bs = [⟨heapSize - 24, true⟩] := by
  refine eq_of_allocated (a := heapStart.toNat) h.noFreePair (.singleton _) ?_ fun x b => ?_
  · rw [h.inv.tiled.covers]
    decide
  · constructor
    · intro hx
      have hlive := h.live x b hx
      rw [hnone] at hlive
      cases hlive
    · intro hx
      obtain ⟨hmem, hb⟩ := hx
      rcases List.mem_cons.mp hmem with heq | hmem
      · injection heq with _ hbb
        rw [hbb] at hb
        cases hb
      · cases hmem

end Coalesced

theorem bootHeap_coalesced (p : Pmm) (header : Word → KmallocHeader) :
    Coalesced (bootHeap p header) [⟨heapSize - 24, true⟩] := by
  refine ⟨bootHeap_inv p header, .singleton _, fun x b hx => ?_⟩
  obtain ⟨hmem, hb⟩ := hx
  rcases List.mem_cons.mp hmem with heq | hmem
  · injection heq with _ hbb
    rw [hbb] at hb
    cases hb
  · cases hmem

/-- **Free memory is always fully coalesced.**  In every state reached from
    `kmalloc_init` by requests of up to `2 ^ 64 - 8` bytes and frees of live
    pointers, no two neighbouring blocks are free; when nothing is live the
    list is the single free block of `HEAP_SIZE - 24` bytes; and two runs of
    frees that differ in their order only end in the same block list. -/
theorem heap_fully_coalesced {p : Pmm} {header : Word → KmallocHeader}
    {tr : List (Transition HeapSystem HeapCall)} {s : HeapSystem}
    (hrun : Run HeapStep (bootHeap p header) tr s) :
    ∃ bs, HeapTiled s.heap bs ∧ NoFreePair bs ∧
      ((∀ q, s.live q = none) → bs = [⟨heapSize - 24, true⟩]) ∧
      ∀ {tr₁ tr₂ : List (Transition HeapSystem HeapCall)} {s₁ s₂ : HeapSystem},
        Run HeapStep s tr₁ s₁ → Run HeapStep s tr₂ s₂ →
        (∀ c ∈ Run.labels tr₁, ∃ ptr, c = .kfree ptr) → (Run.labels tr₁).Perm (Run.labels tr₂) →
        ∃ bs', HeapTiled s₁.heap bs' ∧ HeapTiled s₂.heap bs' := by
  have hinv : ∃ bs, Coalesced s bs :=
    hrun.invariant' (I := fun s => ∃ bs, Coalesced s bs) (fun _ _ _ ⟨_, h⟩ hst => h.step hst)
      ⟨_, bootHeap_coalesced p header⟩
  obtain ⟨bs, h⟩ := hinv
  refine ⟨bs, h.inv.tiled, h.noFreePair, h.eq_single, fun {tr₁ tr₂ s₁ s₂} hr₁ hr₂ hfree hperm => ?_⟩
  obtain ⟨bs₁, h₁, hiff₁⟩ := Coalesced.frees hr₁ hfree h
  obtain ⟨bs₂, h₂, hiff₂⟩ := Coalesced.frees hr₂ (fun c hc => hfree c (hperm.mem_iff.mpr hc)) h
  have heq : bs₁ = bs₂ := by
    refine eq_of_allocated (a := heapStart.toNat) h₁.noFreePair h₂.noFreePair ?_ fun x b => ?_
    · rw [h₁.inv.tiled.covers, h₂.inv.tiled.covers]
    · rw [hiff₁, hiff₂, hperm.mem_iff]
  exact ⟨bs₁, h₁.inv.tiled, heq ▸ h₂.inv.tiled⟩

/-- One request of 10 bytes on the fresh heap, and its free. -/
theorem heap_fully_coalesced_once :
    ∃ h h', kmalloc 2 (heapInit fun _ => ⟨0, false, 0⟩) 10 = some (0x1000018, h) ∧
      kfree 3 h 0x1000018 = some h' ∧ HeapTiled h' [⟨heapSize - 24, true⟩] := by
  obtain ⟨h, hmalloc⟩ : ∃ h, kmalloc 2 (heapInit fun _ => ⟨0, false, 0⟩) 10 = some (0x1000018, h) :=
    ⟨_, rfl⟩
  obtain ⟨h', hfree⟩ : ∃ h', kfree 3 h 0x1000018 = some h' := by
    cases hmalloc
    exact ⟨_, rfl⟩
  let boot := bootHeap ⟨fun _ => true, [], fun _ => 0, 0, 0⟩ fun _ => ⟨0, false, 0⟩
  let one : HeapSystem := ⟨h, liveKmalloc (fun _ => none) 0x1000018 10⟩
  have hfirst : HeapStep boot (.kmalloc 10) one := .kmalloc boot (by decide) hmalloc
  have hsecond : HeapStep one (.kfree 0x1000018) ⟨h', liveKfree one.live 0x1000018⟩ :=
    .kfree one (.inr rfl) hfree
  obtain ⟨bs, ht, -, hsingle, -⟩ := heap_fully_coalesced (((Run.nil boot).snoc hfirst).snoc hsecond)
  have hnone : ∀ q, liveKfree (liveKmalloc (fun _ => none) 0x1000018 10) 0x1000018 q = none := by
    intro q
    unfold liveKfree liveKmalloc
    rw [if_neg (by decide), Function.update_idem]
    by_cases hq : q = 0x1000018
    · rw [hq, Function.update_self]
    · rw [Function.update_of_ne hq]
  exact ⟨h, h', hmalloc, hfree, hsingle hnone ▸ ht⟩

end ZohoOs
