/-
  ZohoOs.Pmm.Multiboot — well-formed Multiboot2 blocks and what `pmm_init`
  makes of them.

  `MbiAt mem mbInfo tags` says that memory holds, at an 8-byte-aligned
  address, an information block with the given tags: each tag as long as it
  says, each memory map a whole number of entries, an end tag last, and
  `total_size` covering them all.  The addresses and lengths in the memory
  map are arbitrary.

  The result is `FrameFree`: which frames end up on the free stack, as
  arithmetic on the memory map, the kernel's end and the block's bounds.
-/
import ZohoOs.Pmm.Boot

namespace ZohoOs

open ZohoOs.Lib

/-! ## §1. Blocks in memory. -/

/-- `struct multiboot_mmap_entry`, the fields that are read. -/
structure MmapEntry where
  addr : Word
  len : Word
  type : BitVec 32

/-- A tag: a memory map, or one that `pmm_init` steps over. -/
inductive MbTag where
  | mmap (entrySize : Nat) (entries : List MmapEntry)
  | other (type : BitVec 32) (size : Nat)

/-- The tag's `size` field. -/
def MbTag.size : MbTag → Nat
  | .mmap entrySize entries => 16 + entrySize * entries.length
  | .other _ size => size

/-- The distance to the next tag. -/
def MbTag.stride (t : MbTag) : Nat := (t.size + 7) / 8 * 8

def EntryAt (mem : Mem) (a : Word) (e : MmapEntry) : Prop :=
  mem.load64 a = e.addr ∧ mem.load64 (a + 8) = e.len ∧ mem.load32 (a + 16) = e.type

def EntriesAt (mem : Mem) (entrySize : Nat) : Word → List MmapEntry → Prop
  | _, [] => True
  | a, e :: es => EntryAt mem a e ∧ EntriesAt mem entrySize (a + BitVec.ofNat 64 entrySize) es

def TagAt (mem : Mem) (a : Word) : MbTag → Prop
  | .mmap entrySize entries =>
      mem.load32 a = multibootTagTypeMmap ∧
      (mem.load32 (a + 4)).toNat = (MbTag.mmap entrySize entries).size ∧
      (mem.load32 (a + 8)).toNat = entrySize ∧ 24 ≤ entrySize ∧
      EntriesAt mem entrySize (a + 16) entries
  | .other type size =>
      mem.load32 a = type ∧ type ≠ multibootTagTypeMmap ∧ type ≠ multibootTagTypeEnd ∧
      (mem.load32 (a + 4)).toNat = size ∧ 8 ≤ size

/-- The tags from `a` on, up to the end tag. -/
def TagsAt (mem : Mem) : Word → List MbTag → Prop
  | a, [] => mem.load32 a = multibootTagTypeEnd
  | a, t :: ts => TagAt mem a t ∧ TagsAt mem (a + BitVec.ofNat 64 t.stride) ts

/-- The bytes of a list of tags and the end tag. -/
def tagsLength (tags : List MbTag) : Nat := (tags.map MbTag.stride).sum + 8

/-- A well-formed information block at `mbInfo`, below 4 GiB. -/
structure MbiAt (mem : Mem) (mbInfo : Word) (tags : List MbTag) : Prop where
  aligned : mbInfo.toNat % 8 = 0
  tagsAt : TagsAt mem (mbInfo + 8) tags
  totalSize : (mem.load32 mbInfo).toNat = 8 + tagsLength tags
  below : mbInfo.toNat + (8 + tagsLength tags) ≤ 2 ^ 32

/-- The available (type 1) regions of the memory maps, as (address, length). -/
def availableRegions (tags : List MbTag) : List (Word × Word) :=
  tags.flatMap fun
    | .mmap _ entries => (entries.filter fun e => e.type = 1).map fun e => (e.addr, e.len)
    | .other _ _ => []

/-! ## §2. What the scan clears. -/

/-- Frame `f` is cleared by the walk over one of the regions. -/
def Walked (regions : List (Word × Word)) (f : Nat) : Prop :=
  f < maxFrames ∧ ∃ r ∈ regions, PageWalk r.1 (r.1 + r.2) f

instance (regions : List (Word × Word)) (f : Nat) : Decidable (Walked regions f) :=
  inferInstanceAs (Decidable (_ ∧ _))

theorem walked_append (r r' : List (Word × Word)) (f : Nat) :
    Walked (r ++ r') f ↔ Walked r f ∨ Walked r' f := by
  unfold Walked
  constructor
  · rintro ⟨hf, x, hx, hw⟩
    rcases List.mem_append.mp hx with hx | hx
    · exact .inl ⟨hf, x, hx, hw⟩
    · exact .inr ⟨hf, x, hx, hw⟩
  · rintro (⟨hf, x, hx, hw⟩ | ⟨hf, x, hx, hw⟩)
    · exact ⟨hf, x, List.mem_append_left _ hx, hw⟩
    · exact ⟨hf, x, List.mem_append_right _ hx, hw⟩

/-- `s'` is `s` with the frames the regions' walks visit cleared. -/
def Cleared (s s' : BootScan) (regions : List (Word × Word)) : Prop :=
  ∀ f, s'.bitmap f = false ↔ s.bitmap f = false ∨ Walked regions f

theorem Cleared.refl (s : BootScan) : Cleared s s [] := by
  intro f
  simp [Walked]

theorem Cleared.trans {s₁ s₂ s₃ : BootScan} {r r' : List (Word × Word)}
    (h : Cleared s₁ s₂ r) (h' : Cleared s₂ s₃ r') : Cleared s₁ s₃ (r ++ r') := by
  intro f
  rw [h' f, h f, walked_append, or_assoc]

theorem foldl_markAvailableFrame (l : List Word) (s : BootScan) (f : Nat) :
    (l.foldl (fun s a => markAvailableFrame a s) s).bitmap f = false ↔
      s.bitmap f = false ∨ f < maxFrames ∧ ∃ a ∈ l, frameOf a = f := by
  induction l generalizing s with
  | nil => simp
  | cons a l ih =>
    rw [List.foldl_cons, ih]
    unfold markAvailableFrame
    split
    · rename_i hlt
      by_cases hf : f = frameOf a
      · subst hf; simp [bitmapUnset, hlt]
      · simp [bitmapUnset, Function.update_of_ne hf, Ne.symm hf]
    · rename_i hge
      have hne : ¬ (f < maxFrames ∧ frameOf a = f) := by rintro ⟨h, rfl⟩; exact hge h
      simp only [List.mem_cons, exists_eq_or_imp]
      tauto

theorem markAvailable_cleared {fuel : Nat} {addr len : Word} {s s' : BootScan}
    (h : markAvailable fuel addr len s = some s') : Cleared s s' [(addr, len)] := by
  obtain ⟨n, hn, rfl⟩ := stride_visits (by decide) h
  intro f
  rw [foldl_markAvailableFrame]
  simp only [pageSize, mem_strided_frame hn, Walked, List.mem_singleton, exists_eq_left]

theorem scanEntry_cleared {fuel : Nat} {mem : Mem} {a : Word} {e : MmapEntry} {s s' : BootScan}
    (he : EntryAt mem a e) (h : scanEntry fuel mem a s = some s') :
    Cleared s s' (([e].filter fun e => e.type = 1).map fun e => (e.addr, e.len)) := by
  obtain ⟨haddr, hlen, htype⟩ := he
  unfold scanEntry at h
  rw [haddr, hlen, htype] at h
  by_cases h1 : e.type = 1
  · rw [if_pos h1] at h
    simpa [h1] using markAvailable_cleared h
  · rw [if_neg h1] at h
    cases h
    rw [List.filter_singleton, decide_eq_false h1]
    exact Cleared.refl s

theorem toNat_setWidth_of_32 (w : BitVec 32) : (w.setWidth 64).toNat = w.toNat := by
  have := w.isLt
  rw [BitVec.toNat_setWidth]
  omega

theorem setWidth_eq_ofNat (w : BitVec 32) : w.setWidth 64 = BitVec.ofNat 64 w.toNat := by
  apply BitVec.eq_of_toNat_eq
  have := w.isLt
  rw [toNat_setWidth_of_32, BitVec.toNat_ofNat]
  omega

/-- The entry loop, from entry `a` on: it stops at the tag's end, after the
    listed entries. -/
theorem scanEntries_cleared {fuel gas : Nat} {mem : Mem} {entrySize : Nat} {stop : Word}
    (hsize : 24 ≤ entrySize) :
    ∀ {entries : List MmapEntry} {a : Word} {s s' : BootScan},
      EntriesAt mem entrySize a entries → a.toNat + entrySize * entries.length = stop.toNat →
      forLoop (fun entry => decide (entry < stop)) (fun entry => entry + BitVec.ofNat 64 entrySize)
        (scanEntry fuel mem) gas a s = some s' →
      Cleared s s' ((entries.filter fun e => e.type = 1).map fun e => (e.addr, e.len)) := by
  induction gas with
  | zero => intro _ _ _ _ _ _ h; cases h
  | succ gas ih =>
    intro entries a s s' hat hstop h
    unfold forLoop at h
    have hlt := stop.isLt
    cases entries with
    | nil =>
      have hge : ¬ a < stop := by rw [BitVec.lt_def]; simp at hstop; omega
      rw [decide_eq_false hge] at h
      cases h
      exact Cleared.refl s
    | cons e es =>
      obtain ⟨he, hes⟩ := hat
      rw [List.length_cons, Nat.mul_succ] at hstop
      have hless : a < stop := by rw [BitVec.lt_def]; omega
      rw [decide_eq_true hless, if_pos rfl] at h
      obtain ⟨s₁, h₁, hrest⟩ := Option.bind_eq_some_iff.mp h
      have hnext : (a + BitVec.ofNat 64 entrySize).toNat = a.toNat + entrySize := by
        rw [toNat_add_ofNat, Nat.mod_eq_of_lt (by omega)]
      have hc := (scanEntry_cleared he h₁).trans (ih hes (by rw [hnext]; omega) hrest)
      rw [← List.map_append, ← List.filter_append] at hc
      exact hc

theorem scanMmap_cleared {fuel : Nat} {mem : Mem} {tag : Word} {entrySize : Nat}
    {entries : List MmapEntry} {s s' : BootScan} (ht : TagAt mem tag (.mmap entrySize entries))
    (hfit : tag.toNat + (MbTag.mmap entrySize entries).size ≤ 2 ^ 32)
    (h : scanMmap fuel mem tag s = some s') :
    Cleared s s' (availableRegions [.mmap entrySize entries]) := by
  obtain ⟨-, hsz, hes, h24, hat⟩ := ht
  unfold scanMmap at h
  rw [setWidth_eq_ofNat (mem.load32 (tag + 8)), hes] at h
  unfold MbTag.size at hsz hfit
  have hstart : (tag + 16).toNat = tag.toNat + 16 := by
    rw [show (16 : Word) = BitVec.ofNat 64 16 from rfl, toNat_add_ofNat, Nat.mod_eq_of_lt (by omega)]
  have hend : (tag + (mem.load32 (tag + 4)).setWidth 64).toNat
      = tag.toNat + (16 + entrySize * entries.length) := by
    rw [setWidth_eq_ofNat, toNat_add_ofNat, hsz, Nat.mod_eq_of_lt (by omega)]
  have hc := scanEntries_cleared h24 hat (by rw [hstart, hend]; omega) h
  simpa [availableRegions] using hc

/-- Rounding a 32-bit size up to 8 in the source's arithmetic. -/
theorem stride_word (w : BitVec 32) (h : w.toNat + 7 < 2 ^ 32) :
    ((w + 7) &&& ~~~7).setWidth 64 = BitVec.ofNat 64 ((w.toNat + 7) / 8 * 8) := by
  have hmask : ((w + 7) &&& ~~~7 : BitVec 32) = ((w + 7) >>> 3) <<< 3 := by
    ext i hi
    interval_cases i <;> simp
  have hsum : (w + 7).toNat = w.toNat + 7 := by
    rw [BitVec.toNat_add]
    simp
    omega
  apply BitVec.eq_of_toNat_eq
  rw [toNat_setWidth_of_32, hmask, BitVec.toNat_shiftLeft, BitVec.toNat_ushiftRight, hsum,
    BitVec.toNat_ofNat, Nat.shiftLeft_eq, Nat.shiftRight_eq_div_pow]
  omega

theorem MbTag.size_le_stride (t : MbTag) : t.size ≤ t.stride := by
  unfold MbTag.stride
  omega

/-- The type and size fields every tag starts with. -/
theorem TagAt.header {mem : Mem} {a : Word} {t : MbTag} (h : TagAt mem a t) :
    mem.load32 a ≠ multibootTagTypeEnd ∧ (mem.load32 (a + 4)).toNat = t.size := by
  cases t with
  | mmap es entries => exact ⟨by rw [h.1]; decide, h.2.1⟩
  | other type size => exact ⟨by rw [h.1]; exact h.2.2.1, h.2.2.2.1⟩

/-- **The tag loop** clears the available regions of every memory map. -/
theorem scanTags_cleared {fuel gas : Nat} {mem : Mem} :
    ∀ {tags : List MbTag} {a : Word} {s s' : BootScan},
      TagsAt mem a tags → a.toNat + tagsLength tags ≤ 2 ^ 32 →
      forLoop (fun tag => decide (mem.load32 tag ≠ multibootTagTypeEnd))
        (fun tag => tag + ((mem.load32 (tag + 4) + 7) &&& ~~~7).setWidth 64)
        (fun tag s =>
          if mem.load32 tag = multibootTagTypeMmap then scanMmap fuel mem tag s else some s)
        gas a s = some s' →
      Cleared s s' (availableRegions tags) := by
  induction gas with
  | zero => intro _ _ _ _ _ _ h; cases h
  | succ gas ih =>
    intro tags a s s' hat hfit h
    unfold forLoop at h
    cases tags with
    | nil =>
      have hend : mem.load32 a = multibootTagTypeEnd := hat
      rw [decide_eq_false (by simpa using hend)] at h
      cases h
      exact Cleared.refl s
    | cons t ts =>
      obtain ⟨ht, hts⟩ := hat
      obtain ⟨htype, hsz⟩ := ht.header
      rw [decide_eq_true htype, if_pos rfl] at h
      obtain ⟨s₁, h₁, hrest⟩ := Option.bind_eq_some_iff.mp h
      have hlen : tagsLength (t :: ts) = t.stride + tagsLength ts := by
        simp [tagsLength, Nat.add_assoc]
      have h8 : 8 ≤ tagsLength ts := by unfold tagsLength; omega
      have hle := t.size_le_stride
      have hnext : ((mem.load32 (a + 4) + 7) &&& ~~~7).setWidth 64 = BitVec.ofNat 64 t.stride := by
        rw [stride_word _ (by omega), hsz, MbTag.stride]
      rw [hnext] at hrest
      have hpos : (a + BitVec.ofNat 64 t.stride).toNat = a.toNat + t.stride := by
        rw [toNat_add_ofNat, Nat.mod_eq_of_lt (by omega)]
      have hc := ih hts (by rw [hpos]; omega) hrest
      have hone : Cleared s s₁ (availableRegions [t]) := by
        cases t with
        | mmap es entries =>
          rw [ht.1, if_pos rfl] at h₁
          exact scanMmap_cleared ht (by omega) h₁
        | other type size =>
          rw [ht.1, if_neg ht.2.1] at h₁
          cases h₁
          simpa [availableRegions] using Cleared.refl s
      have happ : availableRegions (t :: ts) = availableRegions [t] ++ availableRegions ts := by
        simp [availableRegions]
      rw [happ]
      exact hone.trans hc

/-! ## §3. The free stack. -/

/-- Frame `f` is free after `pmm_init`: below 4 GiB, on the page walk of an
    available region, and on neither reservation walk. -/
def FrameFree (regions : List (Word × Word)) (kernelEnd mbInfo mbiEnd : Word) (f : Nat) : Prop :=
  Walked regions f ∧ ¬ PageWalk 0 kernelEnd f ∧ ¬ PageWalk mbInfo mbiEnd f

instance (regions : List (Word × Word)) (kernelEnd mbInfo mbiEnd : Word) (f : Nat) :
    Decidable (FrameFree regions kernelEnd mbInfo mbiEnd f) :=
  inferInstanceAs (Decidable (_ ∧ _))

/-- The first address after an information block. -/
def mbiEndOf (mbInfo : Word) (tags : List MbTag) : Word :=
  mbInfo + BitVec.ofNat 64 (8 + tagsLength tags)

theorem MbiAt.mbiEnd {mem : Mem} {mbInfo : Word} {tags : List MbTag} (h : MbiAt mem mbInfo tags) :
    mbInfo + (mem.load32 mbInfo).setWidth 64 = mbiEndOf mbInfo tags := by
  rw [setWidth_eq_ofNat, h.totalSize, mbiEndOf]

theorem MbiAt.toNat_mbiEnd {mem : Mem} {mbInfo : Word} {tags : List MbTag}
    (h : MbiAt mem mbInfo tags) :
    (mbiEndOf mbInfo tags).toNat = mbInfo.toNat + (8 + tagsLength tags) := by
  have := h.below
  rw [mbiEndOf, toNat_add_ofNat, Nat.mod_eq_of_lt (by omega)]

/-- **The free stack of a well-formed block**: the free frames, the lowest at
    the bottom. -/
theorem pmmInit_freeStack {fuel : Nat} {mem : Mem} {mbInfo kernelEnd : Word} {tags : List MbTag}
    {p : Pmm} (hmbi : MbiAt mem mbInfo tags)
    (h : pmmInit fuel mem mbInfo kernelEnd = some p) :
    p.freeStack = (((List.range maxFrames).filter fun f =>
        FrameFree (availableRegions tags) kernelEnd mbInfo (mbiEndOf mbInfo tags) f).reverse).map
      frameAddr ∧
    ∀ f, p.frameBitmap f = false ↔
      FrameFree (availableRegions tags) kernelEnd mbInfo (mbiEndOf mbInfo tags) f := by
  obtain ⟨s, -, hscan, hbits, hp⟩ := pmmInit_eq_some h
  have hbelow := hmbi.below
  have hstart : (mbInfo + 8).toNat = mbInfo.toNat + 8 := by
    rw [show (8 : Word) = BitVec.ofNat 64 8 from rfl, toNat_add_ofNat, Nat.mod_eq_of_lt (by omega)]
  have hclr := scanTags_cleared hmbi.tagsAt (by rw [hstart]; omega) hscan
  have hiff : ∀ f, p.frameBitmap f = false ↔
      FrameFree (availableRegions tags) kernelEnd mbInfo (mbiEndOf mbInfo tags) f := by
    intro f
    rw [hbits f, hclr f, hmbi.mbiEnd, FrameFree]
    simp
  refine ⟨?_, hiff⟩
  have hfilter : ((List.range maxFrames).filter fun f => !p.frameBitmap f)
      = (List.range maxFrames).filter fun f =>
          FrameFree (availableRegions tags) kernelEnd mbInfo (mbiEndOf mbInfo tags) f := by
    refine List.filter_congr fun f _ => ?_
    rw [Bool.eq_iff_iff, Bool.not_eq_true', hiff f, decide_eq_true_eq]
  rw [← hfilter]
  rw [buildFreeStack_eq] at hp
  conv_lhs => rw [hp]

/-! ## §4. `pmm_init` returns. -/

theorem scanEntry_returns {mem : Mem} {a : Word} {e : MmapEntry} (he : EntryAt mem a e)
    (hfit : e.type = 1 → (e.addr + e.len).toNat + 4096 ≤ 2 ^ 64) :
    ∃ N, ∀ fuel ≥ N, ∀ s, ∃ s', scanEntry fuel mem a s = some s' := by
  obtain ⟨haddr, hlen, htype⟩ := he
  by_cases h1 : e.type = 1
  · obtain ⟨N, hN⟩ := stride_returns (d := 4096) (a := e.addr) (by decide) (hfit h1)
      markAvailableFrame
    refine ⟨N, fun fuel hfuel s => ?_⟩
    rw [scanEntry, haddr, hlen, htype, if_pos h1]
    exact hN fuel hfuel s
  · refine ⟨0, fun fuel _ s => ⟨s, ?_⟩⟩
    rw [scanEntry, htype, if_neg h1]

theorem scanEntries_returns {mem : Mem} {entrySize : Nat} (stop : Word) (hsize : 24 ≤ entrySize) :
    ∀ {entries : List MmapEntry} {a : Word}, EntriesAt mem entrySize a entries →
      a.toNat + entrySize * entries.length = stop.toNat →
      (∀ e ∈ entries, e.type = 1 → (e.addr + e.len).toNat + 4096 ≤ 2 ^ 64) →
      ∃ N, ∀ fuel ≥ N, ∀ gas ≥ N, ∀ s, ∃ s',
        forLoop (fun entry => decide (entry < stop))
          (fun entry => entry + BitVec.ofNat 64 entrySize) (scanEntry fuel mem) gas a s = some s' := by
  intro entries
  induction entries with
  | nil =>
    intro a _ hstop _
    refine ⟨1, fun fuel _ gas hgas s => ⟨s, ?_⟩⟩
    obtain ⟨gas, rfl⟩ : ∃ g, gas = g + 1 := ⟨gas - 1, by omega⟩
    have hge : ¬ a < stop := by rw [BitVec.lt_def]; simp at hstop; omega
    rw [forLoop, decide_eq_false hge, if_neg (by simp)]
  | cons e es ih =>
    intro a hat hstop hfit
    obtain ⟨he, hes⟩ := hat
    have hlt := stop.isLt
    rw [List.length_cons, Nat.mul_succ] at hstop
    have hnext : (a + BitVec.ofNat 64 entrySize).toNat = a.toNat + entrySize := by
      rw [toNat_add_ofNat, Nat.mod_eq_of_lt (by omega)]
    obtain ⟨N₁, h₁⟩ := scanEntry_returns he (hfit e (by simp))
    obtain ⟨N₂, h₂⟩ := ih hes (by rw [hnext]; omega) fun e' he' => hfit e' (by simp [he'])
    refine ⟨max N₁ N₂ + 1, fun fuel hfuel gas hgas s => ?_⟩
    obtain ⟨gas, rfl⟩ : ∃ g, gas = g + 1 := ⟨gas - 1, by omega⟩
    obtain ⟨s₁, hs₁⟩ := h₁ fuel (by omega) s
    obtain ⟨s₂, hs₂⟩ := h₂ fuel (by omega) gas (by omega) s₁
    have hless : a < stop := by rw [BitVec.lt_def]; omega
    refine ⟨s₂, ?_⟩
    rw [forLoop, decide_eq_true hless, if_pos rfl, hs₁, Option.bind_some, hs₂]

theorem scanMmap_returns {mem : Mem} {tag : Word} {entrySize : Nat} {entries : List MmapEntry}
    (ht : TagAt mem tag (.mmap entrySize entries))
    (hfit : tag.toNat + (MbTag.mmap entrySize entries).size ≤ 2 ^ 32)
    (hreg : ∀ r ∈ availableRegions [.mmap entrySize entries], (r.1 + r.2).toNat + 4096 ≤ 2 ^ 64) :
    ∃ N, ∀ fuel ≥ N, ∀ s, ∃ s', scanMmap fuel mem tag s = some s' := by
  obtain ⟨-, hsz, hes, h24, hat⟩ := ht
  unfold MbTag.size at hsz hfit
  have hstart : (tag + 16).toNat = tag.toNat + 16 := by
    rw [show (16 : Word) = BitVec.ofNat 64 16 from rfl, toNat_add_ofNat, Nat.mod_eq_of_lt (by omega)]
  have hend : (tag + (mem.load32 (tag + 4)).setWidth 64).toNat
      = tag.toNat + (16 + entrySize * entries.length) := by
    rw [setWidth_eq_ofNat, toNat_add_ofNat, hsz, Nat.mod_eq_of_lt (by omega)]
  have hentries : ∀ e ∈ entries, e.type = 1 → (e.addr + e.len).toNat + 4096 ≤ 2 ^ 64 := by
    intro e he h1
    exact hreg (e.addr, e.len) (by simpa [availableRegions] using ⟨e, ⟨he, h1⟩, rfl, rfl⟩)
  obtain ⟨N, hN⟩ := scanEntries_returns (tag + (mem.load32 (tag + 4)).setWidth 64) h24 hat (by rw [hstart, hend]; omega) hentries
  refine ⟨N, fun fuel hfuel s => ?_⟩
  rw [scanMmap, setWidth_eq_ofNat (mem.load32 (tag + 8)), hes]
  exact hN fuel hfuel fuel hfuel s

theorem scanTags_returns {mem : Mem} :
    ∀ {tags : List MbTag} {a : Word}, TagsAt mem a tags → a.toNat + tagsLength tags ≤ 2 ^ 32 →
      (∀ r ∈ availableRegions tags, (r.1 + r.2).toNat + 4096 ≤ 2 ^ 64) →
      ∃ N, ∀ fuel ≥ N, ∀ gas ≥ N, ∀ s, ∃ s',
        forLoop (fun tag => decide (mem.load32 tag ≠ multibootTagTypeEnd))
          (fun tag => tag + ((mem.load32 (tag + 4) + 7) &&& ~~~7).setWidth 64)
          (fun tag s =>
            if mem.load32 tag = multibootTagTypeMmap then scanMmap fuel mem tag s else some s)
          gas a s = some s' := by
  intro tags
  induction tags with
  | nil =>
    intro a hat _ _
    have hend : mem.load32 a = multibootTagTypeEnd := hat
    refine ⟨1, fun fuel _ gas hgas s => ⟨s, ?_⟩⟩
    obtain ⟨gas, rfl⟩ : ∃ g, gas = g + 1 := ⟨gas - 1, by omega⟩
    rw [forLoop, decide_eq_false (by simpa using hend), if_neg (by simp)]
  | cons t ts ih =>
    intro a hat hfit hreg
    obtain ⟨ht, hts⟩ := hat
    obtain ⟨htype, hsz⟩ := ht.header
    have hlen : tagsLength (t :: ts) = t.stride + tagsLength ts := by
      simp [tagsLength, Nat.add_assoc]
    have h8 : 8 ≤ tagsLength ts := by unfold tagsLength; omega
    have hle := t.size_le_stride
    have hnext : ((mem.load32 (a + 4) + 7) &&& ~~~7).setWidth 64 = BitVec.ofNat 64 t.stride := by
      rw [stride_word _ (by omega), hsz, MbTag.stride]
    have hpos : (a + BitVec.ofNat 64 t.stride).toNat = a.toNat + t.stride := by
      rw [toNat_add_ofNat, Nat.mod_eq_of_lt (by omega)]
    have happ : availableRegions (t :: ts) = availableRegions [t] ++ availableRegions ts := by
      simp [availableRegions]
    rw [happ] at hreg
    have hone : ∃ N, ∀ fuel ≥ N, ∀ s, ∃ s',
        (if mem.load32 a = multibootTagTypeMmap then scanMmap fuel mem a s else some s)
          = some s' := by
      cases t with
      | mmap es entries =>
        simp only [ht.1, if_true]
        exact scanMmap_returns ht (by omega) fun r hr => hreg r (List.mem_append_left _ hr)
      | other type size =>
        simp only [ht.1, ht.2.1, if_false]
        exact ⟨0, fun _ _ s => ⟨s, rfl⟩⟩
    obtain ⟨N₁, h₁⟩ := hone
    obtain ⟨N₂, h₂⟩ := ih hts (by rw [hpos]; omega) fun r hr => hreg r (List.mem_append_right _ hr)
    refine ⟨max N₁ N₂ + 1, fun fuel hfuel gas hgas s => ?_⟩
    obtain ⟨gas, rfl⟩ : ∃ g, gas = g + 1 := ⟨gas - 1, by omega⟩
    obtain ⟨s₁, hs₁⟩ := h₁ fuel (by omega) s
    obtain ⟨s₂, hs₂⟩ := h₂ fuel (by omega) gas (by omega) s₁
    refine ⟨s₂, ?_⟩
    rw [forLoop, decide_eq_true htype, if_pos rfl, hs₁, Option.bind_some, hnext, hs₂]

theorem reserveRange_returns (start : Word) {stop : Word} (h : stop.toNat + 4096 ≤ 2 ^ 64) :
    ∃ N, ∀ fuel ≥ N, ∀ b, ∃ b', reserveRange fuel start stop b = some b' :=
  stride_returns (by decide) h _

/-- **`pmm_init` returns** on every well-formed block whose available regions
    end below the last page of the address space. -/
theorem pmmInit_returns {mem : Mem} {mbInfo : Word} (kernelEnd : Word) {tags : List MbTag}
    (hmbi : MbiAt mem mbInfo tags) (hk : kernelEnd.toNat + 4096 ≤ 2 ^ 64)
    (hreg : ∀ r ∈ availableRegions tags, (r.1 + r.2).toNat + 4096 ≤ 2 ^ 64) :
    ∃ N, ∀ fuel ≥ N, ∃ p, pmmInit fuel mem mbInfo kernelEnd = some p := by
  have hbelow := hmbi.below
  have hstart : (mbInfo + 8).toNat = mbInfo.toNat + 8 := by
    rw [show (8 : Word) = BitVec.ofNat 64 8 from rfl, toNat_add_ofNat, Nat.mod_eq_of_lt (by omega)]
  obtain ⟨N₁, h₁⟩ := scanTags_returns hmbi.tagsAt (by rw [hstart]; omega) hreg
  obtain ⟨N₂, h₂⟩ := reserveRange_returns 0 hk
  have hend : (mbiEndOf mbInfo tags).toNat + 4096 ≤ 2 ^ 64 := by
    rw [hmbi.toNat_mbiEnd]
    omega
  obtain ⟨N₃, h₃⟩ := reserveRange_returns mbInfo hend
  refine ⟨max N₁ (max N₂ N₃), fun fuel hfuel => ?_⟩
  obtain ⟨s, hs⟩ := h₁ fuel (by omega) fuel (by omega) { bitmap := fun _ => true, maxAddr := 0 }
  obtain ⟨b₁, hb₁⟩ := h₂ fuel (by omega) s.bitmap
  obtain ⟨b₂, hb₂⟩ := h₃ fuel (by omega) b₁
  refine ⟨buildFreeStack b₂ (min (s.maxAddr.toNat / pageSize) maxFrames), ?_⟩
  rw [pmmInit, hmbi.mbiEnd, scanTags, hs, Option.bind_some, hb₁, Option.bind_some, hb₂,
    Option.bind_some]

/-! ## §5. A block with a single available region. -/

/-- The block a loader leaves for a machine with one memory region. -/
def oneRegionBlock (mbInfo addr len : Word) : Mem :=
  Mem.ofWords mbInfo
    [56, 0, 6, 40, 24, 0, addr.setWidth 32, addr.extractLsb' 32 32,
      len.setWidth 32, len.extractLsb' 32 32, 1, 0, 0, 8]

def oneRegionTags (addr len : Word) : List MbTag := [.mmap 24 [⟨addr, len, 1⟩]]

theorem tagsLength_oneRegionTags (addr len : Word) : tagsLength (oneRegionTags addr len) = 48 := by
  simp [tagsLength, oneRegionTags, MbTag.stride, MbTag.size]

theorem availableRegions_oneRegionTags (addr len : Word) :
    availableRegions (oneRegionTags addr len) = [(addr, len)] := by
  simp [availableRegions, oneRegionTags]

/-- The one region ends below the last page. -/
theorem oneRegionTags_below {addr len : Word} (h : (addr + len).toNat + 4096 ≤ 2 ^ 64) :
    ∀ r ∈ availableRegions (oneRegionTags addr len), (r.1 + r.2).toNat + 4096 ≤ 2 ^ 64 := by
  intro r hr
  rw [availableRegions_oneRegionTags] at hr
  rw [List.mem_singleton.mp hr]
  exact h

theorem oneRegionBlock_at (mbInfo addr len : Word) (h8 : mbInfo.toNat % 8 = 0)
    (hlt : mbInfo.toNat + 56 ≤ 2 ^ 32) :
    MbiAt (oneRegionBlock mbInfo addr len) mbInfo (oneRegionTags addr len) := by
  set ws : List (BitVec 32) := [56, 0, 6, 40, 24, 0, addr.setWidth 32, addr.extractLsb' 32 32,
    len.setWidth 32, len.extractLsb' 32 32, 1, 0, 0, 8] with hws
  have hblock : oneRegionBlock mbInfo addr len = Mem.ofWords mbInfo ws := rfl
  have hjoin : ∀ w : Word, w.extractLsb' 32 32 ++ w.setWidth 32 = w := by
    intro w
    rw [show w.setWidth 32 = w.extractLsb' 0 32 by ext i hi; simp]
    exact (BitVec.extractLsb'_append_extractLsb'_eq_extractLsb' (by rfl)).trans
      BitVec.extractLsb'_eq_self
  have w0 : (Mem.ofWords mbInfo ws).load32 mbInfo = 56 := by
    simpa [hws] using Mem.load32_ofWords mbInfo ws (k := 0) (by decide)
  have w2 : (Mem.ofWords mbInfo ws).load32 (mbInfo + 8) = 6 :=
    Mem.load32_ofWords mbInfo ws (k := 2) (by decide)
  have w3 : (Mem.ofWords mbInfo ws).load32 (mbInfo + 12) = 40 :=
    Mem.load32_ofWords mbInfo ws (k := 3) (by decide)
  have w4 : (Mem.ofWords mbInfo ws).load32 (mbInfo + 16) = 24 :=
    Mem.load32_ofWords mbInfo ws (k := 4) (by decide)
  have w10 : (Mem.ofWords mbInfo ws).load32 (mbInfo + 40) = 1 :=
    Mem.load32_ofWords mbInfo ws (k := 10) (by decide)
  have w12 : (Mem.ofWords mbInfo ws).load32 (mbInfo + 48) = 0 :=
    Mem.load32_ofWords mbInfo ws (k := 12) (by decide)
  have d6 : (Mem.ofWords mbInfo ws).load64 (mbInfo + 24) = addr :=
    (Mem.load64_ofWords mbInfo ws (k := 6) (by decide)).trans (hjoin addr)
  have d8 : (Mem.ofWords mbInfo ws).load64 (mbInfo + 32) = len :=
    (Mem.load64_ofWords mbInfo ws (k := 8) (by decide)).trans (hjoin len)
  rw [hblock]
  refine ⟨h8, ?_, ?_, ?_⟩
  · simp only [oneRegionTags, TagsAt, TagAt, EntriesAt, EntryAt, MbTag.stride, MbTag.size,
      List.length_singleton, BitVec.add_assoc, BitVec.reduceAdd, BitVec.ofNat_eq_ofNat]
      at w2 w3 w4 w10 w12 d6 d8 ⊢
    simp [w2, w3, w4, w10, w12, d6, d8, multibootTagTypeMmap, multibootTagTypeEnd]
  · rw [w0, tagsLength_oneRegionTags]
    rfl
  · rw [tagsLength_oneRegionTags]
    exact hlt

end ZohoOs
