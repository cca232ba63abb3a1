/-
  ZohoOs.Lib.Memory — flat byte memory with little-endian words.

  A memory maps every 64-bit address to a byte.  Words are read and written
  as the bytes at consecutive addresses, so two accesses that overlap really
  interfere; the lemmas say when they do not.

    * `load64_store64_same`, `load64_store64_other` — a word store is seen by
      the same load and by no load at a distance of 8 or more;
    * `load64_store64_slot` — inside page-aligned tables of 512 words, a store
      to one slot is seen by no other slot;
    * `fill` — the closed form of a loop that writes `n` consecutive bytes.
-/
import ZohoOs.Lib.Word

namespace ZohoOs.Lib

/-- Flat byte memory. -/
abbrev Mem := Word → BitVec 8

namespace Mem

/-! ## §1. Loads and stores. -/

/-- The byte at `a`. -/
def load8 (m : Mem) (a : Word) : BitVec 8 := m a

/-- The little-endian 16-bit word at `a`. -/
def load16 (m : Mem) (a : Word) : BitVec 16 := m (a + 1) ++ m a

/-- The little-endian 32-bit word at `a`. -/
def load32 (m : Mem) (a : Word) : BitVec 32 := load16 m (a + 2) ++ load16 m a

/-- The little-endian 64-bit word at `a`. -/
def load64 (m : Mem) (a : Word) : Word := load32 m (a + 4) ++ load32 m a

/-- Write one byte. -/
def store8 (m : Mem) (a : Word) (b : BitVec 8) : Mem := fun x => if x = a then b else m x

/-- Write the eight bytes of `v` at `a`. -/
def store64 (m : Mem) (a v : Word) : Mem := fun x =>
  if (x - a).toNat < 8 then v.extractLsb' (8 * (x - a).toNat) 8 else m x

/-- A byte a store covers. -/
theorem store64_at (m : Mem) (a v k : Word) (hk : k.toNat < 8) :
    store64 m a v (a + k) = v.extractLsb' (8 * k.toNat) 8 := by
  have h : a + k - a = k := by rw [BitVec.add_comm, BitVec.add_sub_cancel]
  rw [store64, h, if_pos hk]

/-- A byte a store does not cover. -/
theorem store64_of_le (m : Mem) {a v x : Word} (h : 8 ≤ (x - a).toNat) :
    store64 m a v x = m x := by
  rw [store64, if_neg (by omega)]

/-- Two words whose bytes are the same, wherever they lie. -/
theorem load64_congr' {m m' : Mem} {a b : Word}
    (h : ∀ k : Word, k.toNat < 8 → m (a + k) = m' (b + k)) : load64 m a = load64 m' b := by
  have h0 : m a = m' b := by simpa using h 0 (by decide)
  simp only [load64, load32, load16, BitVec.add_assoc]
  rw [h0, h _ (by decide), h _ (by decide), h _ (by decide), h _ (by decide), h _ (by decide),
    h _ (by decide), h _ (by decide)]

/-- A load depends on its eight bytes only. -/
theorem load64_congr {m m' : Mem} {a : Word}
    (h : ∀ k : Word, k.toNat < 8 → m (a + k) = m' (a + k)) : load64 m a = load64 m' a :=
  load64_congr' h

/-- Memory holds, from `a` on, the `n` bytes of `v` that start at bit `s`. -/
def HasBytes (m : Mem) (a : Word) {w : Nat} (v : BitVec w) (s n : Nat) : Prop :=
  ∀ k < n, m (a + BitVec.ofNat 64 k) = v.extractLsb' (s + 8 * k) 8

theorem HasBytes.split {m : Mem} {a : Word} {w : Nat} {v : BitVec w} {s n : Nat} (k : Nat)
    (h : HasBytes m a v s (k + n)) :
    HasBytes m a v s k ∧ HasBytes m (a + BitVec.ofNat 64 k) v (s + 8 * k) n := by
  refine ⟨fun i hi => h i (by omega), fun i hi => ?_⟩
  rw [BitVec.add_assoc, ← BitVec.ofNat_add, h (k + i) (by omega)]
  congr 1
  omega

theorem load16_of_bytes {m : Mem} {a : Word} {w : Nat} {v : BitVec w} {s : Nat}
    (h : HasBytes m a v s 2) : load16 m a = v.extractLsb' s 16 := by
  have h0 := h 0 (by decide)
  have h1 := h 1 (by decide)
  simp only [BitVec.add_zero, Nat.mul_zero, Nat.add_zero, Nat.mul_one] at h0 h1
  rw [load16, show (1 : Word) = 1#64 from rfl, h0, h1]
  exact BitVec.extractLsb'_append_extractLsb'_eq_extractLsb' (by omega)

theorem load32_of_bytes {m : Mem} {a : Word} {w : Nat} {v : BitVec w} {s : Nat}
    (h : HasBytes m a v s 4) : load32 m a = v.extractLsb' s 32 := by
  obtain ⟨hlo, hhi⟩ := h.split 2 (n := 2)
  rw [load32, show (2 : Word) = 2#64 from rfl, load16_of_bytes hlo, load16_of_bytes hhi]
  exact BitVec.extractLsb'_append_extractLsb'_eq_extractLsb' (by omega)

theorem load64_of_bytes {m : Mem} {a : Word} {w : Nat} {v : BitVec w} {s : Nat}
    (h : HasBytes m a v s 8) : load64 m a = v.extractLsb' s 64 := by
  obtain ⟨hlo, hhi⟩ := h.split 4 (n := 4)
  rw [load64, show (4 : Word) = 4#64 from rfl, load32_of_bytes hlo, load32_of_bytes hhi]
  exact BitVec.extractLsb'_append_extractLsb'_eq_extractLsb' (by omega)

theorem extractLsb'_append_low {v w : Nat} (x : BitVec v) (y : BitVec w) {s : Nat} (h : s + 8 ≤ w) :
    (x ++ y).extractLsb' s 8 = y.extractLsb' s 8 := by
  apply BitVec.eq_of_getLsbD_eq
  intro i hi
  simp only [BitVec.getLsbD_extractLsb', BitVec.getLsbD_append, hi, decide_true, Bool.true_and,
    show s + i < w by omega, if_true]

theorem extractLsb'_append_high {v w : Nat} (x : BitVec v) (y : BitVec w) {s : Nat} (h : w ≤ s) :
    (x ++ y).extractLsb' s 8 = x.extractLsb' (s - w) 8 := by
  apply BitVec.eq_of_getLsbD_eq
  intro i hi
  simp only [BitVec.getLsbD_extractLsb', BitVec.getLsbD_append, hi, decide_true, Bool.true_and,
    show ¬ s + i < w by omega, if_false, show s + i - w = s - w + i by omega]

theorem byte_load16 (m : Mem) (a : Word) {k : Nat} (hk : k < 2) :
    (load16 m a).extractLsb' (8 * k) 8 = m (a + BitVec.ofNat 64 k) := by
  unfold load16
  by_cases h : k = 0
  · subst h; rw [extractLsb'_append_low _ _ (by omega), BitVec.extractLsb'_eq_self]; simp
  · obtain rfl : k = 1 := by omega
    rw [extractLsb'_append_high _ _ (by omega)]; exact BitVec.extractLsb'_eq_self

theorem byte_load32 (m : Mem) (a : Word) {k : Nat} (hk : k < 4) :
    (load32 m a).extractLsb' (8 * k) 8 = m (a + BitVec.ofNat 64 k) := by
  unfold load32
  by_cases h : k < 2
  · rw [extractLsb'_append_low _ _ (by omega), byte_load16 m a h]
  · rw [extractLsb'_append_high _ _ (by omega), show 8 * k - 16 = 8 * (k - 2) by omega,
      byte_load16 m _ (by omega), BitVec.add_assoc, show (2 : Word) = BitVec.ofNat 64 2 from rfl,
      ← BitVec.ofNat_add, show 2 + (k - 2) = k by omega]

/-- The bytes of a loaded word. -/
theorem byte_load64 (m : Mem) (a : Word) {k : Nat} (hk : k < 8) :
    (load64 m a).extractLsb' (8 * k) 8 = m (a + BitVec.ofNat 64 k) := by
  unfold load64
  by_cases h : k < 4
  · rw [extractLsb'_append_low _ _ (by omega), byte_load32 m a h]
  · rw [extractLsb'_append_high _ _ (by omega), show 8 * k - 32 = 8 * (k - 4) by omega,
      byte_load32 m _ (by omega), BitVec.add_assoc, show (4 : Word) = BitVec.ofNat 64 4 from rfl,
      ← BitVec.ofNat_add, show 4 + (k - 4) = k by omega]
theorem load64_store64_same (m : Mem) (a v : Word) : load64 (store64 m a v) a = v := by
  have h : HasBytes (store64 m a v) a v 0 8 := by
    intro k hk
    have hk' : (BitVec.ofNat 64 k).toNat = k := by rw [BitVec.toNat_ofNat]; omega
    rw [store64_at m a v _ (by omega), hk', Nat.zero_add]
  rw [load64_of_bytes h, BitVec.extractLsb'_eq_self]

theorem load64_store64_other (m : Mem) {a b v : Word}
    (h : 8 ≤ (b - a).toNat) (h' : 8 ≤ (a - b).toNat) :
    load64 (store64 m a v) b = load64 m b := by
  apply load64_congr
  intro k hk
  exact store64_of_le m (by bv_omega)

/-- The `size` bytes at `buf` are the same. -/
def SameBytes (buf : Word) (size : Nat) (mem mem' : Mem) : Prop :=
  ∀ p : Word, (p - buf).toNat < size → mem p = mem' p

section

variable {buf p : Word} {o size : Nat} {mem mem' : Mem}

theorem SameBytes.at (h : SameBytes buf size mem mem') (hp : At buf p o) {k : Nat}
    (hk : o + k < size) (hsize : size < 2 ^ 64) :
    mem (p + BitVec.ofNat 64 k) = mem' (p + BitVec.ofNat 64 k) := by
  have hat : At buf (p + BitVec.ofNat 64 k) (o + k) := hp.add k (by omega)
  apply h
  rw [hat]
  exact hk

theorem SameBytes.load16 (h : SameBytes buf size mem mem') (hp : At buf p o) (ho : o + 2 ≤ size)
    (hsize : size < 2 ^ 64) : Mem.load16 mem p = Mem.load16 mem' p := by
  have h0 : mem p = mem' p := h p (by rw [hp]; omega)
  have h1 : mem (p + 1) = mem' (p + 1) := h.at hp (k := 1) (by omega) hsize
  unfold Mem.load16
  rw [h0, h1]

theorem SameBytes.load32 (h : SameBytes buf size mem mem') (hp : At buf p o) (ho : o + 4 ≤ size)
    (hsize : size < 2 ^ 64) : Mem.load32 mem p = Mem.load32 mem' p := by
  unfold Mem.load32
  have hhigh : Mem.load16 mem (p + 2) = Mem.load16 mem' (p + 2) :=
    h.load16 (hp.add 2 (by omega)) (by omega) hsize
  rw [h.load16 hp (by omega) hsize, hhigh]

theorem SameBytes.load64 (h : SameBytes buf size mem mem') (hp : At buf p o) (ho : o + 8 ≤ size)
    (hsize : size < 2 ^ 64) : Mem.load64 mem p = Mem.load64 mem' p := by
  unfold Mem.load64
  have hhigh : Mem.load32 mem (p + 4) = Mem.load32 mem' (p + 4) :=
    h.load32 (hp.add 4 (by omega)) (by omega) hsize
  rw [h.load32 hp (by omega) hsize, hhigh]

end

/-! ## §2. Tables of 512 words in page-aligned frames. -/

/-- Page-aligned: a multiple of 4096. -/
def Aligned (a : Word) : Prop := a.toNat % 4096 = 0

instance (a : Word) : Decidable (Aligned a) := inferInstanceAs (Decidable (_ = _))

/-- The address of slot `i` of the table at `t`. -/
def slotAddr (t : Word) (i : Fin 512) : Word := t + 8 * BitVec.ofNat 64 i

/-- The address `x` lies in the 4096 bytes from `t` on. -/
def InPage (t x : Word) : Prop := (x - t).toNat < 4096

theorem toNat_slotOffset (i : Fin 512) : (8 * BitVec.ofNat 64 i : Word).toNat = 8 * i.val := by
  have := i.isLt
  rw [BitVec.toNat_mul, BitVec.toNat_ofNat]
  simp
  omega

/-- The bytes of a slot lie in the table's page. -/
theorem inPage_slot (t : Word) (i : Fin 512) {k : Word} (hk : k.toNat < 8) :
    InPage t (slotAddr t i + k) := by
  have hi := toNat_slotOffset i
  have := i.isLt
  unfold InPage slotAddr
  bv_omega

/-- Two page-aligned pages are equal or disjoint. -/
theorem not_inPage_of_ne {t t' x : Word} (ht : Aligned t) (ht' : Aligned t') (hne : t ≠ t')
    (hx : InPage t x) : ¬ InPage t' x := by
  unfold Aligned at ht ht'
  unfold InPage at hx ⊢
  have hne' : t.toNat ≠ t'.toNat := fun h => hne (BitVec.eq_of_toNat_eq h)
  bv_omega

/-- A store to one slot is seen by no other slot. -/
theorem load64_store64_slot (m : Mem) {t t' : Word} {i j : Fin 512} (v : Word)
    (ht : Aligned t) (ht' : Aligned t') (hne : ¬ (t' = t ∧ j = i)) :
    load64 (store64 m (slotAddr t i) v) (slotAddr t' j) = load64 m (slotAddr t' j) := by
  have hi := toNat_slotOffset i
  have hj := toNat_slotOffset j
  have := i.isLt
  have := j.isLt
  unfold Aligned at ht ht'
  unfold slotAddr
  by_cases htt : t' = t
  · have hij : j.val ≠ i.val := fun h => hne ⟨htt, Fin.ext h⟩
    subst htt
    apply load64_store64_other <;> bv_omega
  · have htn : t'.toNat ≠ t.toNat := fun h => htt (BitVec.eq_of_toNat_eq h)
    apply load64_store64_other <;> bv_omega

/-- A store to a slot changes no byte outside the table's page. -/
theorem store64_slot_of_not_inPage (m : Mem) {t x : Word} {i : Fin 512} (v : Word)
    (h : ¬ InPage t x) : store64 m (slotAddr t i) v x = m x := by
  have hi := toNat_slotOffset i
  have := i.isLt
  apply store64_of_le
  unfold InPage at h
  unfold slotAddr
  bv_omega

/-- The slots of a table depend on the bytes of its page only. -/
theorem load64_slot_congr {m m' : Mem} {t : Word} (i : Fin 512)
    (h : ∀ x, InPage t x → m x = m' x) :
    load64 m (slotAddr t i) = load64 m' (slotAddr t i) :=
  load64_congr fun _ hk => h _ (inPage_slot t i hk)

/-! ## §3. Filling a range of bytes. -/

/-- The memory after the bytes `g 0, …, g (n - 1)` have been written at `d`. -/
def fill (m : Mem) (d : Word) (n : Nat) (g : Nat → BitVec 8) : Mem := fun x =>
  if (x - d).toNat < n then g (x - d).toNat else m x

theorem fill_zero (m : Mem) (d : Word) (g : Nat → BitVec 8) : fill m d 0 g = m := by
  funext x
  simp [fill]

/-- Outside the range nothing changes. -/
theorem fill_of_le (m : Mem) {d x : Word} {n : Nat} (g : Nat → BitVec 8)
    (h : n ≤ (x - d).toNat) : fill m d n g x = m x := by
  rw [fill, if_neg (by omega)]

/-- The `k`-th byte of the range. -/
theorem fill_at (m : Mem) {d k : Word} {n : Nat} (g : Nat → BitVec 8) (h : k.toNat < n) :
    fill m d n g (d + k) = g k.toNat := by
  have hk : d + k - d = k := by rw [BitVec.add_comm, BitVec.add_sub_cancel]
  rw [fill, hk, if_pos h]

/-- A word of a copied range is the word it was copied from. -/
theorem load64_fill_copy (m : Mem) {d s k : Word} {n : Nat} (hn : n < 2 ^ 64) (h : k.toNat + 8 ≤ n) :
    load64 (fill m d n fun j => m (s + BitVec.ofNat 64 j)) (d + k) = load64 m (s + k) := by
  refine load64_congr' fun j hj => ?_
  have hsum : (k + j).toNat = k.toNat + j.toNat := by
    rw [BitVec.toNat_add, Nat.mod_eq_of_lt (by omega)]
  rw [BitVec.add_assoc, fill_at m _ (by omega), BitVec.ofNat_toNat, BitVec.setWidth_eq,
    ← BitVec.add_assoc]

/-- One more byte at the end of the range. -/
theorem store8_fill (m : Mem) {d : Word} {n : Nat} (g : Nat → BitVec 8) (hn : n < 2 ^ 64) :
    store8 (fill m d n g) (d + BitVec.ofNat 64 n) (g n) = fill m d (n + 1) g := by
  funext x
  have hmod : n % 2 ^ 64 = n := Nat.mod_eq_of_lt hn
  have heq : x = d + BitVec.ofNat 64 n ↔ (x - d).toNat = n := by
    constructor
    · rintro rfl
      rw [BitVec.add_comm, BitVec.add_sub_cancel, BitVec.toNat_ofNat, hmod]
    · intro h
      rw [← h, BitVec.ofNat_toNat, BitVec.setWidth_eq, BitVec.add_comm, BitVec.sub_add_cancel]
  by_cases h : (x - d).toNat = n
  · simp [store8, fill, heq, h]
  · have hlt : (x - d).toNat < n + 1 ↔ (x - d).toNat < n := by omega
    simp only [store8, fill, heq, h, if_false, hlt]

/-- The bytes of the range decide. -/
theorem fill_congr (m : Mem) (d : Word) {n : Nat} {g g' : Nat → BitVec 8} (h : ∀ k < n, g k = g' k) :
    fill m d n g = fill m d n g' := by
  funext x
  unfold fill
  by_cases hx : (x - d).toNat < n
  · rw [if_pos hx, if_pos hx, h _ hx]
  · rw [if_neg hx, if_neg hx]

/-- Filling a range with its own bytes. -/
theorem fill_self (m : Mem) (d : Word) (n : Nat) :
    fill m d n (fun k => m (d + BitVec.ofNat 64 k)) = m := by
  funext x
  have hx : d + BitVec.ofNat 64 (x - d).toNat = x := by
    rw [BitVec.ofNat_toNat, BitVec.setWidth_eq, BitVec.add_comm, BitVec.sub_add_cancel]
  unfold fill
  simp only [hx, ite_self]

/-- The last byte of a range may be written first. -/
theorem fill_store8 (m : Mem) {d : Word} {n : Nat} (g : Nat → BitVec 8) (hn : n < 2 ^ 64) :
    fill (store8 m (d + BitVec.ofNat 64 n) (g n)) d n g = fill m d (n + 1) g := by
  rw [← store8_fill m g hn]
  funext x
  unfold store8 fill
  dsimp only
  by_cases hx : x = d + BitVec.ofNat 64 n
  · have hoff : (x - d).toNat = n := by
      rw [hx, BitVec.add_comm, BitVec.add_sub_cancel, BitVec.toNat_ofNat, Nat.mod_eq_of_lt hn]
    rw [if_pos hx, if_neg (by omega), if_pos hx]
  · rw [if_neg hx, if_neg hx]

/-- Eight more bytes at the end of the range. -/
theorem store64_fill (m : Mem) {d v : Word} {n : Nat} (g : Nat → BitVec 8)
    (hn : n + 8 ≤ 2 ^ 64) (hv : ∀ k < 8, v.extractLsb' (8 * k) 8 = g (n + k)) :
    store64 (fill m d n g) (d + BitVec.ofNat 64 n) v = fill m d (n + 8) g := by
  funext x
  have hoff : (x - (d + BitVec.ofNat 64 n)).toNat
      = ((x - d).toNat + (2 ^ 64 - n)) % 2 ^ 64 := by
    rw [show x - (d + BitVec.ofNat 64 n) = (x - d) - BitVec.ofNat 64 n by bv_omega,
      BitVec.toNat_sub, BitVec.toNat_ofNat, Nat.mod_eq_of_lt (by omega : n < 2 ^ 64), Nat.add_comm]
  have hlt := (x - d).isLt
  unfold store64
  rw [hoff]
  by_cases hlow : (x - d).toNat < n
  · have hbig : ¬ ((x - d).toNat + (2 ^ 64 - n)) % 2 ^ 64 < 8 := by omega
    simp only [fill, hbig, if_false, hlow, if_true, show (x - d).toNat < n + 8 by omega]
  · have hval : ((x - d).toNat + (2 ^ 64 - n)) % 2 ^ 64 = (x - d).toNat - n := by omega
    rw [hval]
    by_cases hin : (x - d).toNat - n < 8
    · have hg := hv _ hin
      rw [show n + ((x - d).toNat - n) = (x - d).toNat by omega] at hg
      simp only [fill, hin, if_true, show (x - d).toNat < n + 8 by omega, hg]
    · simp only [fill, hin, if_false, hlow, show ¬ (x - d).toNat < n + 8 by omega]

/-- **An upward loop of word stores** fills, when each word it stores has the
    bytes asked for, given that the words before it are in place. -/
theorem foldl_store64 (m : Mem) (d : Word) (g : Nat → BitVec 8) (w : Nat → Mem → Word)
    {count : Nat} (hn : 8 * count ≤ 2 ^ 64)
    (hw : ∀ i < count, ∀ k < 8, (w i (fill m d (8 * i) g)).extractLsb' (8 * k) 8 = g (8 * i + k)) :
    (List.range count).foldl (fun m i => store64 m (d + BitVec.ofNat 64 (8 * i)) (w i m)) m
      = fill m d (8 * count) g := by
  induction count with
  | zero => exact (fill_zero m d g).symm
  | succ count ih =>
    rw [List.range_succ, List.foldl_append, ih (by omega) fun i hi => hw i (by omega),
      List.foldl_cons, List.foldl_nil, store64_fill m g (by omega) (hw count (by omega)),
      Nat.mul_succ]

/-- The same for bytes, from offset `n` on. -/
theorem foldl_store8 (m : Mem) (d : Word) (g : Nat → BitVec 8) (b : Nat → Mem → BitVec 8)
    {n count : Nat} (hn : n + count ≤ 2 ^ 64)
    (hb : ∀ i < count, b i (fill m d (n + i) g) = g (n + i)) :
    (List.range count).foldl
        (fun m i => store8 m (d + BitVec.ofNat 64 n + BitVec.ofNat 64 i) (b i m)) (fill m d n g)
      = fill m d (n + count) g := by
  induction count with
  | zero => rfl
  | succ count ih =>
    rw [List.range_succ, List.foldl_append, ih (by omega) fun i hi => hb i (by omega),
      List.foldl_cons, List.foldl_nil, hb count (by omega), BitVec.add_assoc, ← BitVec.ofNat_add,
      store8_fill m g (by omega), Nat.add_assoc]

/-! ## §4. Memory given by its contents. -/

/-- Memory that holds the 32-bit words `ws` from `base` on, and zeros after. -/
def ofWords (base : Word) (ws : List (BitVec 32)) : Mem := fun x =>
  (ws.getD ((x - base).toNat / 4) 0).extractLsb' (8 * ((x - base).toNat % 4)) 8

theorem load32_ofWords (base : Word) (ws : List (BitVec 32)) {k : Nat} (hk : k < 2 ^ 61) :
    load32 (ofWords base ws) (base + BitVec.ofNat 64 (4 * k)) = ws.getD k 0 := by
  have h : HasBytes (ofWords base ws) (base + BitVec.ofNat 64 (4 * k)) (ws.getD k 0) 0 4 := by
    intro j hj
    have hoff : (base + BitVec.ofNat 64 (4 * k) + BitVec.ofNat 64 j - base).toNat = 4 * k + j := by
      rw [BitVec.add_assoc, BitVec.add_comm, BitVec.add_sub_cancel, ← BitVec.ofNat_add,
        BitVec.toNat_ofNat, Nat.mod_eq_of_lt (by omega)]
    rw [ofWords, hoff, show (4 * k + j) / 4 = k by omega, show (4 * k + j) % 4 = j by omega,
      Nat.zero_add]
  rw [load32_of_bytes h, BitVec.extractLsb'_eq_self]

theorem load64_ofWords (base : Word) (ws : List (BitVec 32)) {k : Nat} (hk : k + 1 < 2 ^ 61) :
    load64 (ofWords base ws) (base + BitVec.ofNat 64 (4 * k))
      = ws.getD (k + 1) 0 ++ ws.getD k 0 := by
  have hnext : base + BitVec.ofNat 64 (4 * k) + 4 = base + BitVec.ofNat 64 (4 * (k + 1)) := by
    rw [BitVec.add_assoc, show (4 : Word) = BitVec.ofNat 64 4 from rfl, ← BitVec.ofNat_add,
      Nat.mul_succ]
  rw [load64, hnext, load32_ofWords base ws hk, load32_ofWords base ws (by omega)]

/-- Memory that holds the tables `E`: slot `i` of the page at `t` is `E t i`. -/
def ofTables (E : Word → Fin 512 → Word) : Mem := fun x =>
  (E (BitVec.ofNat 64 (x.toNat / 4096 * 4096)) ⟨x.toNat % 4096 / 8, by omega⟩).extractLsb'
    (8 * (x.toNat % 8)) 8

theorem load64_ofTables (E : Word → Fin 512 → Word) {t : Word} (ht : Aligned t) (i : Fin 512) :
    load64 (ofTables E) (slotAddr t i) = E t i := by
  have h : HasBytes (ofTables E) (slotAddr t i) (E t i) 0 8 := by
    intro k hk
    have hi := i.isLt
    have hlt := t.isLt
    have hoff := toNat_slotOffset i
    have hx : (slotAddr t i + BitVec.ofNat 64 k).toNat = t.toNat + (8 * i.val + k) := by
      unfold Aligned at ht
      unfold slotAddr
      bv_omega
    have hbase : BitVec.ofNat 64 ((t.toNat + (8 * i.val + k)) / 4096 * 4096) = t := by
      apply BitVec.eq_of_toNat_eq
      unfold Aligned at ht
      rw [BitVec.toNat_ofNat]
      omega
    unfold Aligned at ht
    have hslot : (⟨(t.toNat + (8 * i.val + k)) % 4096 / 8, by omega⟩ : Fin 512) = i := by
      apply Fin.ext
      show (t.toNat + (8 * i.val + k)) % 4096 / 8 = i.val
      omega
    simp only [ofTables, hx, hbase, hslot, Nat.zero_add]
    congr 1
    omega
  rw [load64_of_bytes h, BitVec.extractLsb'_eq_self]

end Mem

end ZohoOs.Lib
