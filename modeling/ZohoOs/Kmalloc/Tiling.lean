/-
  ZohoOs.Kmalloc.Tiling — the block list as a list of blocks.

  `Tiles header a bs` reads the linked list off the headers: the block at `a`
  has the size and flag of the first item, its `next` is the address right
  after its payload (or `NULL` for the last), and so on.  On such a list the
  two walks of the source do what two list functions do:

    * `kmallocLoop_tiles` — the first-fit walk is `firstFit`;
    * `mergeLoop_tiles` — the merge pass is `mergeBlocks`.

  Both return, with fuel for one more step than there are blocks.
-/
import ZohoOs.Kmalloc.Basic
import ZohoOs.Lib.Extents

namespace ZohoOs

open ZohoOs.Lib

/-! ## §1. Blocks and their headers. -/

/-- A block: payload size and free flag. -/
structure Block where
  size : Nat
  free : Bool
  deriving DecidableEq

/-- Header and payload. -/
def Block.len (b : Block) : Nat := 24 + b.size

theorem Block.len_pos (b : Block) : 0 < b.len := by
  unfold Block.len; omega

/-- The pointer to a list of blocks placed at `a`. -/
def blockPtr (a : Nat) : List Block → Word
  | [] => 0
  | _ :: _ => BitVec.ofNat 64 a

/-- The headers from `a` on describe the blocks `bs`. -/
def Tiles (header : Word → KmallocHeader) : Nat → List Block → Prop
  | _, [] => True
  | a, b :: bs =>
      header (BitVec.ofNat 64 a) = ⟨BitVec.ofNat 64 b.size, b.free, blockPtr (a + b.len) bs⟩ ∧
      b.size % 8 = 0 ∧ Tiles header (a + b.len) bs

/-- Two header maps that agree from `a` on describe the same blocks there. -/
theorem Tiles.congr {header header' : Word → KmallocHeader} {a : Nat} {bs : List Block}
    (h : Tiles header a bs) (hend : a + extent Block.len bs < 2 ^ 64)
    (heq : ∀ x : Word, a ≤ x.toNat → header' x = header x) : Tiles header' a bs := by
  induction bs generalizing a with
  | nil => trivial
  | cons b bs ih =>
    obtain ⟨hb, h8, hrest⟩ := h
    rw [extent_cons] at hend
    have ha : (BitVec.ofNat 64 a).toNat = a := by rw [BitVec.toNat_ofNat]; omega
    refine ⟨by rw [heq _ (by omega)]; exact hb, h8, ih hrest (by omega) ?_⟩
    intro x hx
    exact heq x (by omega)

/-- The header of a placed block. -/
theorem Tiles.header_of_mem {header : Word → KmallocHeader} {a x : Nat} {b : Block}
    {bs : List Block} (h : Tiles header a bs) (hmem : (x, b) ∈ place Block.len a bs) :
    (header (BitVec.ofNat 64 x)).size = BitVec.ofNat 64 b.size ∧
      (header (BitVec.ofNat 64 x)).isFree = b.free ∧ b.size % 8 = 0 := by
  induction bs generalizing a with
  | nil => cases hmem
  | cons c bs ih =>
    obtain ⟨hb, h8, hrest⟩ := h
    rw [place_cons] at hmem
    rcases List.mem_cons.mp hmem with hmem | hmem
    · injection hmem with hx hc
      subst hx; subst hc
      rw [hb]
      exact ⟨rfl, rfl, h8⟩
    · exact ih hrest hmem

/-- Blocks start at multiples of 8. -/
theorem Tiles.mod_eight {header : Word → KmallocHeader} {a x : Nat} {b : Block} {bs : List Block}
    (h : Tiles header a bs) (ha : a % 8 = 0) (hmem : (x, b) ∈ place Block.len a bs) : x % 8 = 0 := by
  induction bs generalizing a with
  | nil => cases hmem
  | cons c bs ih =>
    obtain ⟨-, h8, hrest⟩ := h
    rw [place_cons] at hmem
    rcases List.mem_cons.mp hmem with hmem | hmem
    · injection hmem with hx
      omega
    · exact ih hrest (by unfold Block.len; omega) hmem

/-! ## §2. What the two walks do to the list. -/

/-- The block fits the request. -/
def Block.fits (n : Nat) (b : Block) : Prop := b.free = true ∧ n ≤ b.size

instance (n : Nat) (b : Block) : Decidable (b.fits n) := inferInstanceAs (Decidable (_ ∧ _))

/-- The block handed out, and the remainder when there is room for one. -/
def splitItem (n : Nat) (b : Block) : List Block :=
  if n + 32 ≤ b.size then [⟨n, false⟩, ⟨b.size - n - 24, true⟩] else [⟨b.size, false⟩]

/-- First fit: the address of the block handed out, and the list after. -/
def firstFit (n : Nat) : Nat → List Block → Option (Nat × List Block)
  | _, [] => none
  | a, b :: bs =>
      if b.fits n then some (a, splitItem n b ++ bs)
      else (firstFit n (a + b.len) bs).map fun r => (r.1, b :: r.2)

/-- Merging from the block `b` on. -/
def mergeBlocks : Block → List Block → List Block
  | b, [] => [b]
  | b, c :: bs =>
      if b.free ∧ c.free then mergeBlocks ⟨b.size + (c.size + 24), true⟩ bs
      else b :: mergeBlocks c bs

/-- Merging a whole list. -/
def mergeAll : List Block → List Block
  | [] => []
  | b :: bs => mergeBlocks b bs

theorem extent_splitItem {n : Nat} {b : Block} :
    extent Block.len (splitItem n b) = b.len := by
  unfold splitItem
  split
  · simp [Block.len]; omega
  · simp [Block.len]

theorem splitItem_ne_nil (n : Nat) (b : Block) : splitItem n b ≠ [] := by
  unfold splitItem
  split <;> simp

theorem extent_mergeBlocks (b : Block) (bs : List Block) :
    extent Block.len (mergeBlocks b bs) = b.len + extent Block.len bs := by
  induction bs generalizing b with
  | nil => simp [mergeBlocks]
  | cons c bs ih =>
    unfold mergeBlocks
    split
    · rw [ih, extent_cons]; simp [Block.len]; omega
    · rw [extent_cons, ih, extent_cons]

theorem mergeBlocks_ne_nil (b : Block) (bs : List Block) : mergeBlocks b bs ≠ [] := by
  induction bs generalizing b with
  | nil => simp [mergeBlocks]
  | cons c bs ih =>
    unfold mergeBlocks
    split
    · exact ih _
    · simp

/-- What first fit found, and what it put in its place. -/
theorem firstFit_eq_some {n a x : Nat} {bs bs' : List Block} (h : firstFit n a bs = some (x, bs')) :
    ∃ pre b post, bs = pre ++ b :: post ∧ b.fits n ∧ (∀ c ∈ pre, ¬ c.fits n) ∧
      x = a + extent Block.len pre ∧ bs' = pre ++ (splitItem n b ++ post) := by
  induction bs generalizing a x bs' with
  | nil => cases h
  | cons c bs ih =>
    unfold firstFit at h
    split at h
    · rename_i hfit
      cases h
      exact ⟨[], c, bs, rfl, hfit, by simp, by simp, rfl⟩
    · rename_i hnot
      obtain ⟨⟨y, l⟩, hy, heq⟩ := Option.map_eq_some_iff.mp h
      cases heq
      obtain ⟨pre, b, post, rfl, hfit, hpre, rfl, rfl⟩ := ih hy
      refine ⟨c :: pre, b, post, rfl, hfit, ?_, by simp [Nat.add_assoc], rfl⟩
      intro d hd
      rcases List.mem_cons.mp hd with rfl | hd
      · exact hnot
      · exact hpre d hd

/-- First fit fails exactly when nothing fits. -/
theorem firstFit_eq_none {n a : Nat} {bs : List Block} :
    firstFit n a bs = none ↔ ∀ b ∈ bs, ¬ b.fits n := by
  induction bs generalizing a with
  | nil => simp [firstFit]
  | cons c bs ih =>
    unfold firstFit
    split
    · rename_i hfit; simp [hfit]
    · rename_i hnot; simp [hnot, ih]

theorem extent_firstFit {n a x : Nat} {bs bs' : List Block}
    (h : firstFit n a bs = some (x, bs')) : extent Block.len bs' = extent Block.len bs := by
  obtain ⟨pre, b, post, rfl, -, -, -, rfl⟩ := firstFit_eq_some h
  simp [extent_append, extent_splitItem]

theorem firstFit_ne_nil {n a x : Nat} {bs bs' : List Block}
    (h : firstFit n a bs = some (x, bs')) : bs ≠ [] ∧ bs' ≠ [] := by
  obtain ⟨pre, b, post, rfl, -, -, -, rfl⟩ := firstFit_eq_some h
  simp [splitItem_ne_nil]

theorem blockPtr_of_ne_nil {a : Nat} {bs bs' : List Block} (h : bs ≠ []) (h' : bs' ≠ []) :
    blockPtr a bs = blockPtr a bs' := by
  cases bs with
  | nil => exact absurd rfl h
  | cons b bs =>
    cases bs' with
    | nil => exact absurd rfl h'
    | cons c bs' => rfl

theorem blockPtr_append {a : Nat} {bs : List Block} (h : bs ≠ []) (bs' : List Block) :
    blockPtr a (bs ++ bs') = BitVec.ofNat 64 a := by
  cases bs with
  | nil => exact absurd rfl h
  | cons b bs => rfl

/-! ## §3. The first-fit walk. -/

section Walk

variable {h : Heap} {a : Nat}

theorem toNat_ofNat_of_lt {x : Nat} (hx : x < 2 ^ 64) : (BitVec.ofNat 64 x).toNat = x := by
  rw [BitVec.toNat_ofNat, Nat.mod_eq_of_lt hx]

theorem ofNat_ne_zero {x : Nat} (h0 : 0 < x) (hx : x < 2 ^ 64) : BitVec.ofNat 64 x ≠ 0 := by
  intro he
  have := congrArg BitVec.toNat he
  rw [toNat_ofNat_of_lt hx] at this
  simp at this
  omega

theorem ofNat_add_word (x : Nat) {k : Nat} : BitVec.ofNat 64 x + BitVec.ofNat 64 k
    = BitVec.ofNat 64 (x + k) := (BitVec.ofNat_add x k).symm

/-- The header before a payload. -/
theorem sub_headerSize (x : Nat) : BitVec.ofNat 64 (x + 24) - headerSize = BitVec.ofNat 64 x := by
  rw [← ofNat_add_word, show headerSize = BitVec.ofNat 64 24 from rfl, BitVec.add_sub_cancel]

/-- Handing out the block at `a`. -/
theorem takeBlock_tiles {b : Block} {bs : List Block} {size : Word}
    (ht : Tiles h.header a (b :: bs)) (hend : a + extent Block.len (b :: bs) < 2 ^ 63)
    (hle : size.toNat ≤ b.size) (h8 : size.toNat % 8 = 0) :
    (takeBlock h (BitVec.ofNat 64 a) size).1 = BitVec.ofNat 64 (a + 24) ∧
    (takeBlock h (BitVec.ofNat 64 a) size).2.freeListHead = h.freeListHead ∧
    Tiles (takeBlock h (BitVec.ofNat 64 a) size).2.header a (splitItem size.toNat b ++ bs) ∧
    ∀ x : Word, x.toNat < a →
      (takeBlock h (BitVec.ofNat 64 a) size).2.header x = h.header x := by
  obtain ⟨hb, hb8, hrest⟩ := ht
  rw [extent_cons] at hend
  have hlen : b.len = 24 + b.size := rfl
  have ha : (BitVec.ofNat 64 a).toNat = a := toNat_ofNat_of_lt (by omega)
  have hbs : (BitVec.ofNat 64 b.size).toNat = b.size := toNat_ofNat_of_lt (by omega)
  have hptr : BitVec.ofNat 64 a + headerSize = BitVec.ofNat 64 (a + 24) := ofNat_add_word a
  have hroom : BitVec.ofNat 64 b.size ≥ size + headerSize + 8 ↔ size.toNat + 32 ≤ b.size := by
    have hsum : (size + headerSize + 8).toNat = size.toNat + 32 := by
      unfold headerSize
      rw [BitVec.toNat_add, BitVec.toNat_add]
      simp
      omega
    rw [ge_iff_le, BitVec.le_def, hsum, hbs]
  refine ⟨by simp only [takeBlock]; exact hptr, by unfold takeBlock splitBlock Heap.setHeader; dsimp only; split <;> rfl, ?_⟩
  by_cases hsplit : size.toNat + 32 ≤ b.size
  · -- a remainder block starts after the header and the payload
    have hnew : BitVec.ofNat 64 a + headerSize + size = BitVec.ofNat 64 (a + (24 + size.toNat)) := by
      rw [hptr, show size = BitVec.ofNat 64 size.toNat by simp, ofNat_add_word, toNat_ofNat_of_lt
        (by omega), Nat.add_assoc]
    have hnewNat : (BitVec.ofNat 64 (a + (24 + size.toNat))).toNat = a + (24 + size.toNat) :=
      toNat_ofNat_of_lt (by omega)
    have hne : BitVec.ofNat 64 a ≠ BitVec.ofNat 64 (a + (24 + size.toNat)) := fun he => by
      have := congrArg BitVec.toNat he
      rw [ha, hnewNat] at this
      omega
    have hrem : BitVec.ofNat 64 b.size - size - headerSize
        = BitVec.ofNat 64 (b.size - size.toNat - 24) := by
      apply BitVec.eq_of_toNat_eq
      have : headerSize.toNat = 24 := rfl
      rw [toNat_ofNat_of_lt (x := b.size - size.toNat - 24) (by omega)]
      bv_omega
    have hheader : (takeBlock h (BitVec.ofNat 64 a) size).2.header
        = Function.update (Function.update h.header (BitVec.ofNat 64 (a + (24 + size.toNat)))
            ⟨BitVec.ofNat 64 (b.size - size.toNat - 24), true, blockPtr (a + b.len) bs⟩)
          (BitVec.ofNat 64 a) ⟨size, false, BitVec.ofNat 64 (a + (24 + size.toNat))⟩ := by
      unfold takeBlock
      rw [if_pos (by rw [hb]; exact hroom.mpr hsplit)]
      simp only [splitBlock, Heap.setHeader, hnew, Function.update_of_ne hne,
        Function.update_self, hb, hrem, Function.update_idem]
    rw [hheader]
    have hitem : splitItem size.toNat b = [⟨size.toNat, false⟩, ⟨b.size - size.toNat - 24, true⟩] := by
      rw [splitItem, if_pos hsplit]
    have hback : a + Block.len ⟨size.toNat, false⟩ + Block.len ⟨b.size - size.toNat - 24, true⟩
        = a + b.len := by
      simp only [Block.len]; omega
    rw [hitem]
    refine ⟨⟨?_, h8, ?_, by show (b.size - size.toNat - 24) % 8 = 0; omega, ?_⟩, ?_⟩
    · rw [Function.update_self]
      simp [blockPtr, Block.len]
    · show _ = (⟨_, _, blockPtr (a + Block.len _ + Block.len _) bs⟩ : KmallocHeader)
      rw [hback, show a + Block.len ⟨size.toNat, false⟩ = a + (24 + size.toNat) from rfl,
        Function.update_of_ne (Ne.symm hne), Function.update_self]
    · show Tiles _ (a + Block.len _ + Block.len _) bs
      rw [hback]
      -- what lies behind has neither of the two headers
      refine hrest.congr (by omega) fun x hx => ?_
      have hxa : x ≠ BitVec.ofNat 64 a := fun he => by rw [he, ha] at hx; omega
      have hxn : x ≠ BitVec.ofNat 64 (a + (24 + size.toNat)) := fun he => by
        rw [he, hnewNat] at hx; omega
      rw [Function.update_of_ne hxa, Function.update_of_ne hxn]
    · intro x hx
      have hxa : x ≠ BitVec.ofNat 64 a := fun he => by rw [he, ha] at hx; omega
      have hxn : x ≠ BitVec.ofNat 64 (a + (24 + size.toNat)) := fun he => by
        rw [he, hnewNat] at hx; omega
      rw [Function.update_of_ne hxa, Function.update_of_ne hxn]
  · -- the rest of the block is too small to be one, and is handed out with it
    have hheader : (takeBlock h (BitVec.ofNat 64 a) size).2.header
        = Function.update h.header (BitVec.ofNat 64 a)
            ⟨BitVec.ofNat 64 b.size, false, blockPtr (a + b.len) bs⟩ := by
      unfold takeBlock
      rw [if_neg (by rw [hb]; exact fun hc => hsplit (hroom.mp hc))]
      simp only [Heap.setHeader, hb]
    rw [hheader]
    have hitem : splitItem size.toNat b = [⟨b.size, false⟩] := by rw [splitItem, if_neg hsplit]
    rw [hitem]
    refine ⟨⟨by rw [Function.update_self]; rfl, hb8, ?_⟩, ?_⟩
    · refine hrest.congr (by omega) fun x hx => ?_
      have hxa : x ≠ BitVec.ofNat 64 a := fun he => by rw [he, ha] at hx; omega
      rw [Function.update_of_ne hxa]
    · intro x hx
      have hxa : x ≠ BitVec.ofNat 64 a := fun he => by rw [he, ha] at hx; omega
      rw [Function.update_of_ne hxa]

/-- More fuel does not change what a walk returns. -/
theorem kmallocLoop_mono {fuel fuel' : Nat} {size curr : Word} {r : Word × Heap}
    (hret : kmallocLoop fuel h size curr = some r) (hle : fuel ≤ fuel') :
    kmallocLoop fuel' h size curr = some r := by
  induction fuel generalizing curr fuel' with
  | zero => cases hret
  | succ fuel ih =>
    obtain ⟨fuel', rfl⟩ : ∃ k, fuel' = k + 1 := ⟨fuel' - 1, by omega⟩
    unfold kmallocLoop at hret ⊢
    split
    · rwa [if_pos (by assumption)] at hret
    · rw [if_neg (by assumption)] at hret
      split
      · rwa [if_pos (by assumption)] at hret
      · rw [if_neg (by assumption)] at hret
        exact ih hret (by omega)

/-- A walk that finds nothing leaves the headers alone. -/
theorem kmallocLoop_none (size : Word) {bs : List Block} {fuel : Nat} (ha0 : 0 < a)
    (ht : Tiles h.header a bs) (hend : a + extent Block.len bs < 2 ^ 63)
    (hfuel : bs.length < fuel) (hnone : firstFit size.toNat a bs = none) :
    kmallocLoop fuel h size (blockPtr a bs) = some (0, { h with stats := { h.stats with
      failedAllocations := h.stats.failedAllocations + 1 } }) := by
  induction bs generalizing a fuel with
  | nil =>
    obtain ⟨fuel, rfl⟩ : ∃ k, fuel = k + 1 := ⟨fuel - 1, by simp at hfuel; omega⟩
    simp [kmallocLoop, blockPtr]
  | cons b bs ih =>
    obtain ⟨fuel, rfl⟩ : ∃ k, fuel = k + 1 := ⟨fuel - 1, by omega⟩
    obtain ⟨hb, hb8, hrest⟩ := ht
    rw [extent_cons] at hend
    have hlen : b.len = 24 + b.size := rfl
    have hnofit : ¬ b.fits size.toNat := firstFit_eq_none.mp hnone b (by simp)
    have hcond : ¬ ((h.header (BitVec.ofNat 64 a)).isFree = true ∧
        (h.header (BitVec.ofNat 64 a)).size ≥ size) := by
      rw [hb, ge_iff_le, BitVec.le_def, toNat_ofNat_of_lt (by omega : b.size < 2 ^ 64)]
      exact hnofit
    rw [blockPtr, kmallocLoop, if_neg (ofNat_ne_zero ha0 (by omega)), if_neg hcond, hb]
    refine ih (by omega) hrest (by omega) (by simpa using hfuel) ?_
    refine firstFit_eq_none.mpr fun c hc => firstFit_eq_none.mp hnone c (by simp [hc])

/-- **The first-fit walk** returns the payload of the block `firstFit` finds
    and leaves the list `firstFit` leaves. -/
theorem kmallocLoop_tiles (size : Word) {bs bs' : List Block} {x fuel : Nat} (ha0 : 0 < a)
    (ht : Tiles h.header a bs) (hend : a + extent Block.len bs < 2 ^ 63)
    (hfuel : bs.length < fuel) (h8 : size.toNat % 8 = 0)
    (hfit : firstFit size.toNat a bs = some (x, bs')) :
    ∃ h', kmallocLoop fuel h size (blockPtr a bs) = some (BitVec.ofNat 64 (x + 24), h') ∧
      h'.freeListHead = h.freeListHead ∧ Tiles h'.header a bs' ∧
      ∀ y : Word, y.toNat < a → h'.header y = h.header y := by
  induction bs generalizing a fuel bs' with
  | nil => cases hfit
  | cons b bs ih =>
    obtain ⟨fuel, rfl⟩ : ∃ k, fuel = k + 1 := ⟨fuel - 1, by omega⟩
    have htb := ht
    obtain ⟨hb, hb8, hrest⟩ := ht
    have hend' := hend
    rw [extent_cons] at hend
    have hlen : b.len = 24 + b.size := rfl
    have hcond : ((h.header (BitVec.ofNat 64 a)).isFree = true ∧
        (h.header (BitVec.ofNat 64 a)).size ≥ size) ↔ b.fits size.toNat := by
      rw [hb, ge_iff_le, BitVec.le_def, toNat_ofNat_of_lt (by omega : b.size < 2 ^ 64)]
      exact Iff.rfl
    rw [blockPtr, kmallocLoop, if_neg (ofNat_ne_zero ha0 (by omega))]
    unfold firstFit at hfit
    by_cases hf : b.fits size.toNat
    · rw [if_pos hf] at hfit
      cases hfit
      obtain ⟨hptr, hhead, htiles, hframe⟩ := takeBlock_tiles htb hend' hf.2 h8
      rw [if_pos (hcond.mpr hf)]
      exact ⟨_, congrArg some (Prod.ext hptr rfl), hhead, htiles, hframe⟩
    · rw [if_neg hf] at hfit
      obtain ⟨⟨y, l⟩, hy, heq⟩ := Option.map_eq_some_iff.mp hfit
      cases heq
      rw [if_neg (fun hc => hf (hcond.mp hc)), hb]
      obtain ⟨h', hret, hhead, htiles, hframe⟩ :=
        ih (by omega) hrest (by omega) (by simpa using hfuel) hy
      refine ⟨h', hret, hhead, ⟨?_, hb8, htiles⟩, fun z hz => hframe z (by omega)⟩
      obtain ⟨hne, hne'⟩ := firstFit_ne_nil hy
      rw [hframe _ (by rw [toNat_ofNat_of_lt (by omega)]; omega), hb, blockPtr_of_ne_nil hne hne']

/-! ## §4. The merge pass. -/

theorem mergeLoop_mono {fuel fuel' : Nat} {curr : Word} {h' : Heap}
    (hret : mergeLoop fuel h curr = some h') (hle : fuel ≤ fuel') :
    mergeLoop fuel' h curr = some h' := by
  induction fuel generalizing h curr fuel' with
  | zero => cases hret
  | succ fuel ih =>
    obtain ⟨fuel', rfl⟩ : ∃ k, fuel' = k + 1 := ⟨fuel' - 1, by omega⟩
    unfold mergeLoop at hret ⊢
    split
    · rwa [if_pos (by assumption)] at hret
    · rw [if_neg (by assumption)] at hret
      split
      · rw [if_pos (by assumption)] at hret
        exact ih hret (by omega)
      · rw [if_neg (by assumption)] at hret
        exact ih hret (by omega)

theorem kfree_mono {fuel fuel' : Nat} {ptr : Word} {h' : Heap} (hret : kfree fuel h ptr = some h')
    (hle : fuel ≤ fuel') : kfree fuel' h ptr = some h' := by
  unfold kfree at hret ⊢
  split
  · rwa [if_pos (by assumption)] at hret
  · rw [if_neg (by assumption)] at hret
    split
    · rwa [if_pos (by assumption)] at hret
    · rw [if_neg (by assumption)] at hret
      exact mergeLoop_mono hret hle

/-- **The merge pass** leaves the list `mergeBlocks` leaves. -/
theorem mergeLoop_tiles {b : Block} {bs : List Block} {fuel : Nat} (ha0 : 0 < a)
    (ht : Tiles h.header a (b :: bs)) (hend : a + extent Block.len (b :: bs) < 2 ^ 63)
    (hfuel : bs.length < fuel) :
    ∃ h', mergeLoop fuel h (BitVec.ofNat 64 a) = some h' ∧
      h'.freeListHead = h.freeListHead ∧ Tiles h'.header a (mergeBlocks b bs) ∧
      ∀ y : Word, y.toNat < a → h'.header y = h.header y := by
  induction bs generalizing a b h fuel with
  | nil =>
    obtain ⟨fuel, rfl⟩ : ∃ k, fuel = k + 1 := ⟨fuel - 1, by simp at hfuel; omega⟩
    obtain ⟨hb, hb8, -⟩ := ht
    refine ⟨h, ?_, rfl, ⟨hb, hb8, trivial⟩, fun _ _ => rfl⟩
    rw [mergeLoop, if_pos (Or.inr (by rw [hb]; rfl))]
  | cons c bs ih =>
    obtain ⟨fuel, rfl⟩ : ∃ k, fuel = k + 1 := ⟨fuel - 1, by omega⟩
    obtain ⟨hb, hb8, hrest⟩ := ht
    obtain ⟨hc, hc8, hrest'⟩ := id hrest
    rw [extent_cons, extent_cons] at hend
    have hlen : b.len = 24 + b.size := rfl
    have hlenc : c.len = 24 + c.size := rfl
    have ha : (BitVec.ofNat 64 a).toNat = a := toNat_ofNat_of_lt (by omega)
    have hnext : (h.header (BitVec.ofNat 64 a)).next = BitVec.ofNat 64 (a + b.len) := by
      rw [hb]; rfl
    have hnot : ¬ (BitVec.ofNat 64 a = 0 ∨ (h.header (BitVec.ofNat 64 a)).next = 0) := by
      rw [hnext]
      rintro (h0 | h0)
      · exact ofNat_ne_zero ha0 (by omega) h0
      · exact ofNat_ne_zero (by omega) (by omega) h0
    rw [mergeLoop, if_neg hnot, hnext, hc]
    by_cases hfree : b.free = true ∧ c.free = true
    · have hcond : (h.header (BitVec.ofNat 64 a)).isFree = true ∧ c.free = true := by
        rw [hb]; exact hfree
      rw [if_pos hcond, mergeBlocks, if_pos hfree]
      -- the block at `a` has swallowed its follower; the pass stays at `a`
      have hsize : BitVec.ofNat 64 b.size + (BitVec.ofNat 64 c.size + headerSize)
          = BitVec.ofNat 64 (b.size + (c.size + 24)) := by
        rw [show headerSize = BitVec.ofNat 64 24 from rfl, ofNat_add_word, ofNat_add_word]
      have hlenm : a + Block.len ⟨b.size + (c.size + 24), true⟩ = a + b.len + c.len := by
        simp only [Block.len]; omega
      obtain ⟨h', hret, hhead, htiles, hframe⟩ := ih (b := ⟨b.size + (c.size + 24), true⟩)
        (h := h.setHeader (BitVec.ofNat 64 a) { h.header (BitVec.ofNat 64 a) with
          size := (h.header (BitVec.ofNat 64 a)).size + (BitVec.ofNat 64 c.size + headerSize)
          next := blockPtr (a + b.len + c.len) bs }) ha0
        ⟨by simp only [Heap.setHeader, Function.update_self, hb, hsize, hlenm, hfree.1],
          by show (b.size + (c.size + 24)) % 8 = 0; omega,
          by
            show Tiles _ (a + Block.len _) bs
            rw [hlenm]
            refine hrest'.congr (by omega) fun x hx => ?_
            have hxa : x ≠ BitVec.ofNat 64 a := fun he => by rw [he, ha] at hx; omega
            simp only [Heap.setHeader, Function.update_of_ne hxa]⟩
        (by rw [extent_cons]; simp only [Block.len]; omega) (by simp at hfuel; omega)
      refine ⟨h', hret, hhead, htiles, fun y hy => ?_⟩
      have hya : y ≠ BitVec.ofNat 64 a := fun he => by rw [he, ha] at hy; omega
      rw [hframe y hy]
      simp only [Heap.setHeader, Function.update_of_ne hya]
    · have hcond : ¬ ((h.header (BitVec.ofNat 64 a)).isFree = true ∧ c.free = true) := by
        rw [hb]; exact hfree
      rw [if_neg hcond, mergeBlocks, if_neg hfree]
      obtain ⟨h', hret, hhead, htiles, hframe⟩ := ih (a := a + b.len) (b := c)
        (by omega) hrest (by rw [extent_cons]; omega) (by simp at hfuel; omega)
      refine ⟨h', hret, hhead, ⟨?_, hb8, htiles⟩, fun y hy => hframe y (by omega)⟩
      rw [hframe _ (by rw [ha]; omega), hb,
        blockPtr_of_ne_nil (List.cons_ne_nil c bs) (mergeBlocks_ne_nil c bs)]

end Walk

end ZohoOs
