/-
  ZohoOs.Tar.Listing — the name that `ls` is given (tar.c, string.c, shell.c).

  `tar_get_file_by_index` copies the name of a header with `strcpy`, which
  stops at a NUL byte and at nothing else.  A name of 100 bytes fills its field
  in the header and has none: the copy goes on into the mode field, and past
  the 100 bytes that `ls` has for a name.

  Main result:
    * `tar_listing_iff` — the copy stays in both buffers exactly when the name
      field of the header has a NUL byte.
-/
import ZohoOs.Libc.Copy
import ZohoOs.Tar.Walk

namespace ZohoOs

open ZohoOs.Lib

/-! ## §1. `strcpy`. -/

/-- A byte that `strcpy` reads or writes. -/
inductive CopyEvent where
  | read (p : Word)
  | write (p : Word)
  deriving DecidableEq

/-- `strcpy`, for at most `fuel` bytes. -/
def strcpy : Nat → Mem → Word → Word → Logged CopyEvent (Option Mem)
  | 0, _, _, _ => pure none
  | fuel + 1, mem, d, s => do
    Logged.tell (.read s)
    Logged.tell (.write d)
    let c := mem.load8 s
    let mem := mem.store8 d c
    if c = 0 then pure (some mem) else strcpy fuel mem (d + 1) (s + 1)

/-- No byte of the `n` from `d` on is one of the `m` from `s` on. -/
def CopyApart (d : Word) (n : Nat) (s : Word) (m : Nat) : Prop :=
  ∀ i < n, ∀ k < m, d + BitVec.ofNat 64 i ≠ s + BitVec.ofNat 64 k

theorem add_one_ofNat (x : Word) (j : Nat) :
    x + 1 + BitVec.ofNat 64 j = x + BitVec.ofNat 64 (j + 1) := by
  rw [BitVec.add_assoc, BitVec.ofNat_add, BitVec.add_comm 1]
  rfl

namespace CopyApart

variable {mem : Mem} {d s : Word} {n m : Nat}

/-- What is left after one byte. -/
theorem tail (h : CopyApart d (n + 1) s (m + 1)) : CopyApart (d + 1) n (s + 1) m := by
  intro i hi k hk
  rw [add_one_ofNat, add_one_ofNat]
  exact h (i + 1) (by omega) (k + 1) (by omega)

/-- The source behind the byte just copied is what it was. -/
theorem source (h : CopyApart d (n + 1) s (m + 1)) (c : BitVec 8) {k : Nat} (hk : k < m) :
    mem.store8 d c (s + 1 + BitVec.ofNat 64 k) = mem (s + BitVec.ofNat 64 (k + 1)) := by
  have hne := h 0 (by omega) (k + 1) (by omega)
  rw [BitVec.add_zero] at hne
  rw [add_one_ofNat, Mem.store8, if_neg hne.symm]

end CopyApart

section Strcpy

variable {mem : Mem} {d s : Word} {n : Nat}

/-- The event is of one of the first `n` bytes. -/
def CopyEvent.Below (d s : Word) (n : Nat) (e : CopyEvent) : Prop :=
  ∃ i < n, e = .read (s + BitVec.ofNat 64 i) ∨ e = .write (d + BitVec.ofNat 64 i)

/-- **A string of less than `n` bytes**: `strcpy` returns, and touches `n`
    bytes of the source and of the destination at most. -/
theorem strcpy_string (hapart : CopyApart d n s n)
    (hnul : ∃ j < n, mem (s + BitVec.ofNat 64 j) = 0) (fuel : Nat) :
    (strcpy fuel mem d s).All (CopyEvent.Below d s n) ∧
      (n ≤ fuel → (strcpy fuel mem d s).val.isSome) := by
  induction fuel generalizing mem d s n with
  | zero =>
    obtain ⟨j, hj, -⟩ := hnul
    exact ⟨Logged.all_pure _, fun hn => absurd hj (by omega)⟩
  | succ fuel ih =>
    obtain ⟨j, hj, hzero⟩ := hnul
    obtain ⟨n, rfl⟩ : ∃ n', n = n' + 1 := ⟨n - 1, by omega⟩
    have hread : CopyEvent.Below d s (n + 1) (.read s) :=
      ⟨0, Nat.succ_pos n, .inl (by rw [BitVec.add_zero])⟩
    have hwrite : CopyEvent.Below d s (n + 1) (.write d) :=
      ⟨0, Nat.succ_pos n, .inr (by rw [BitVec.add_zero])⟩
    unfold strcpy
    rw [Logged.all_tell_bind, Logged.all_tell_bind, Logged.val_bind, Logged.val_bind]
    dsimp only
    by_cases hend : mem.load8 s = 0
    · rw [if_pos hend]
      exact ⟨⟨hread, hwrite, Logged.all_pure _⟩, fun _ => rfl⟩
    · rw [if_neg hend]
      -- the NUL byte is further on
      have hj0 : j ≠ 0 := by
        rintro rfl
        rw [BitVec.add_zero] at hzero
        exact hend hzero
      have hnul' : ∃ i < n, mem.store8 d (mem.load8 s) (s + 1 + BitVec.ofNat 64 i) = 0 := by
        refine ⟨j - 1, by omega, ?_⟩
        rw [hapart.source _ (by omega), Nat.sub_add_cancel (by omega)]
        exact hzero
      obtain ⟨hall, hsome⟩ := ih hapart.tail hnul'
      refine ⟨⟨hread, hwrite, hall.mono fun e he => ?_⟩, fun hn => hsome (by omega)⟩
      obtain ⟨i, hi, he⟩ := he
      rw [add_one_ofNat, add_one_ofNat] at he
      exact ⟨i + 1, by omega, he⟩

/-- **Without a NUL byte** in the first `n` bytes, `strcpy` writes one more. -/
theorem strcpy_overrun (hapart : CopyApart d n s n) (hbytes : ∀ j < n, mem (s + BitVec.ofNat 64 j) ≠ 0)
    {fuel : Nat} (hfuel : n < fuel) :
    CopyEvent.write (d + BitVec.ofNat 64 n) ∈ (strcpy fuel mem d s).log := by
  induction n generalizing mem d s fuel with
  | zero =>
    obtain ⟨fuel, rfl⟩ : ∃ f, fuel = f + 1 := ⟨fuel - 1, by omega⟩
    unfold strcpy
    rw [BitVec.add_zero]
    exact List.mem_cons_of_mem _ List.mem_cons_self
  | succ n ih =>
    obtain ⟨fuel, rfl⟩ : ∃ f, fuel = f + 1 := ⟨fuel - 1, by omega⟩
    have hfirst : mem.load8 s ≠ 0 := by
      have hbyte := hbytes 0 (by omega)
      rw [BitVec.add_zero] at hbyte
      exact hbyte
    have hrest : ∀ j < n, mem.store8 d (mem.load8 s) (s + 1 + BitVec.ofNat 64 j) ≠ 0 := by
      intro j hj
      rw [hapart.source _ hj]
      exact hbytes (j + 1) (by omega)
    have hlater := ih hapart.tail hrest (Nat.lt_of_succ_lt_succ hfuel)
    rw [add_one_ofNat] at hlater
    unfold strcpy
    dsimp only
    rw [if_neg hfirst]
    exact List.mem_cons_of_mem _ (List.mem_cons_of_mem _ hlater)

end Strcpy

/-! ## §2. The name of a header. -/

/-- `tar_get_file_by_index`, with its sector buffer at `buffer` and the name
    stored through `out`: the memory after it, and what `strcpy` touches.  All
    other accesses to the buffer are at fixed places in it. -/
def tarCopyName (ata : AtaRead) (tar : Tar) (index : BitVec 32) (fuel : Nat) (mem : Mem)
    (buffer out : Word) : Logged CopyEvent (Option Mem) :=
  let header := tarWalk ata tar.tarStartLba
    (fun currentIdx _ header => if currentIdx = index then some header else none) tarFuel 0
    tar.tarStartLba tar.cache
  ((header.bind Prod.fst).elim (pure (some mem)) fun header =>
    strcpy fuel (mem.fill buffer 512 header.byte) out buffer)

/-- Inside the sector buffer, or inside the `char name[100]` of `ls`. -/
def CopyEvent.InBuffers (buffer out : Word) : CopyEvent → Prop
  | .read p => (p - buffer).toNat < 512
  | .write p => (p - out).toNat < 100

/-- **The copy stays in its buffers**, and comes to an end. -/
def CopySafe (ata : AtaRead) (tar : Tar) (index : BitVec 32) (mem : Mem) (buffer out : Word) : Prop :=
  (∀ fuel, (tarCopyName ata tar index fuel mem buffer out).All (CopyEvent.InBuffers buffer out)) ∧
    ∃ fuel, (tarCopyName ata tar index fuel mem buffer out).val.isSome

/-- The name field of the header has a NUL byte. -/
def NameEnds (header : Sector) : Prop := ∃ j < 100, header.byte j = 0

section Listing

variable {disk : AtaDisk} {tar : Tar}

/-- The header that is numbered `index`. -/
theorem tarWalk_header (hup : disk.Up) (hagrees : tar.cache.Agrees disk)
    (hstart : tar.tarStartLba.toNat + 20000 + 2 ^ 23 + 1 < 2 ^ 32) (index : BitVec 32) :
    (tarWalk disk.read tar.tarStartLba
      (fun currentIdx _ header => if currentIdx = index then some header else none) tarFuel 0
      tar.tarStartLba tar.cache).bind Prod.fst =
        (tarHeaders disk tar)[index.toNat]?.map disk.sectors := by
  have hfuel : tar.tarStartLba.toNat + 20000 < tar.tarStartLba.toNat + tarFuel := by
    unfold tarFuel
    omega
  obtain ⟨⟨cache, hval, -⟩, -⟩ := tarWalk_search hup
    (fun currentIdx _ header => if currentIdx = index then some header else none) hstart 0 hagrees
    (Nat.le_add_right _ _) hfuel
  rw [val_tarWalkLog] at hval
  have hlen : (tarHeaders disk tar).length ≤ 20001 := length_tarHeaders hstart
  have hindex := searchHeaders_number disk.sectors (fun _ header => header) index (tarHeaders disk tar) 0
    (Nat.zero_le _) (by omega)
  exact (congrArg (fun r => r.bind Prod.fst) hval).trans hindex

/-- The copy is of the header with that number. -/
theorem tarCopyName_eq (hup : disk.Up) (hagrees : tar.cache.Agrees disk)
    (hstart : tar.tarStartLba.toNat + 20000 + 2 ^ 23 + 1 < 2 ^ 32) (index : BitVec 32) (fuel : Nat)
    (mem : Mem) (buffer out : Word) :
    tarCopyName disk.read tar index fuel mem buffer out =
      ((tarHeaders disk tar)[index.toNat]?.map disk.sectors).elim (pure (some mem)) fun header =>
        strcpy fuel (mem.fill buffer 512 header.byte) out buffer := by
  unfold tarCopyName
  dsimp only
  rw [tarWalk_header hup hagrees hstart index]

/-- Without such a header nothing is copied. -/
theorem copySafe_none (hup : disk.Up) (hagrees : tar.cache.Agrees disk)
    (hstart : tar.tarStartLba.toNat + 20000 + 2 ^ 23 + 1 < 2 ^ 32) {index : BitVec 32}
    (hget : (tarHeaders disk tar)[index.toNat]? = none) (mem : Mem) (buffer out : Word) :
    CopySafe disk.read tar index mem buffer out := by
  have hrun : ∀ fuel, tarCopyName disk.read tar index fuel mem buffer out = pure (some mem) := by
    intro fuel
    rw [tarCopyName_eq hup hagrees hstart, hget]
    rfl
  constructor
  · intro fuel
    rw [hrun]
    exact Logged.all_pure _
  · refine ⟨0, ?_⟩
    rw [hrun]
    rfl

/-- **The copy of a header** is safe exactly if its name field has a NUL
    byte. -/
theorem copySafe_header (hup : disk.Up) (hagrees : tar.cache.Agrees disk)
    (hstart : tar.tarStartLba.toNat + 20000 + 2 ^ 23 + 1 < 2 ^ 32) {index l : BitVec 32}
    (hget : (tarHeaders disk tar)[index.toNat]? = some l) (mem : Mem) {buffer out : Word}
    (hapart : CopyApart out 100 buffer 512) :
    CopySafe disk.read tar index mem buffer out ↔ NameEnds (disk.sectors l) := by
  have hrun : ∀ fuel, tarCopyName disk.read tar index fuel mem buffer out =
      strcpy fuel (mem.fill buffer 512 (disk.sectors l).byte) out buffer := by
    intro fuel
    rw [tarCopyName_eq hup hagrees hstart, hget]
    rfl
  have hsource : ∀ j < 512, mem.fill buffer 512 (disk.sectors l).byte (buffer + BitVec.ofNat 64 j) =
      (disk.sectors l).byte j := by
    intro j hj
    have hjn : (BitVec.ofNat 64 j : Word).toNat = j := by
      rw [BitVec.toNat_ofNat]
      omega
    rw [Mem.fill_at _ _ (by omega), hjn]
  have hapart' : CopyApart out 100 buffer 100 := fun i hi k hk => hapart i hi k (by omega)
  unfold CopySafe
  simp only [hrun]
  constructor
  · -- a name without a NUL byte is copied past the end of `out`
    intro hsafe
    by_contra hnul
    have hbytes : ∀ j < 100,
        mem.fill buffer 512 (disk.sectors l).byte (buffer + BitVec.ofNat 64 j) ≠ 0 := by
      intro j hj hzero
      rw [hsource j (by omega)] at hzero
      exact hnul ⟨j, hj, hzero⟩
    have hwrite : (out + BitVec.ofNat 64 100 - out).toNat < 100 :=
      hsafe.1 101 _ (strcpy_overrun hapart' hbytes (by omega))
    rw [BitVec.add_comm, BitVec.add_sub_cancel] at hwrite
    exact absurd hwrite (by decide)
  · -- a name with a NUL byte ends inside both buffers
    intro hnul
    obtain ⟨j, hj, hzero⟩ := hnul
    have hstring : ∃ i < 100,
        mem.fill buffer 512 (disk.sectors l).byte (buffer + BitVec.ofNat 64 i) = 0 :=
      ⟨j, hj, (hsource j (by omega)).trans hzero⟩
    refine ⟨fun fuel => (strcpy_string hapart' hstring fuel).1.mono fun e he => ?_, 100,
      (strcpy_string hapart' hstring 100).2 le_rfl⟩
    obtain ⟨i, hi, he⟩ := he
    have hoffset : ∀ a : Word, (a + BitVec.ofNat 64 i - a).toNat = i := by
      intro a
      rw [BitVec.add_comm, BitVec.add_sub_cancel, BitVec.toNat_ofNat]
      omega
    rcases he with rfl | rfl
    · show (buffer + BitVec.ofNat 64 i - buffer).toNat < 512
      rw [hoffset]
      omega
    · show (out + BitVec.ofNat 64 i - out).toNat < 100
      rw [hoffset]
      exact hi

/-- **The name that `ls` is given.**  Take any disk with an archive said to start
    at sector 2048, any number, and two buffers that do not overlap.  The copy
    stays in them exactly if the header with that number, if there is one, has
    a NUL byte in its name field. -/
theorem tar_listing_iff (hup : disk.Up) (hagrees : tar.cache.Agrees disk) (index : BitVec 32)
    (mem : Mem) {buffer out : Word} (hapart : CopyApart out 100 buffer 512) :
    CopySafe disk.read (tarInitDisk tar 2048) index mem buffer out ↔
      ∀ l, (tarHeaders disk (tarInitDisk tar 2048))[index.toNat]? = some l →
        NameEnds (disk.sectors l) := by
  have hstart : (tarInitDisk tar 2048).tarStartLba.toNat + 20000 + 2 ^ 23 + 1 < 2 ^ 32 := by
    show 2048 + 20000 + 2 ^ 23 + 1 < 2 ^ 32
    norm_num
  have hcache : (tarInitDisk tar 2048).cache.Agrees disk := hagrees
  cases hget : (tarHeaders disk (tarInitDisk tar 2048))[index.toNat]? with
  | none =>
    refine iff_of_true (copySafe_none hup hcache hstart hget mem buffer out) fun l hl => ?_
    cases hl
  | some l =>
    rw [copySafe_header hup hcache hstart hget mem hapart]
    exact ⟨fun h l' hl' => Option.some.inj hl' ▸ h, fun h => h l rfl⟩

/-- The first header lies at the start. -/
theorem tarHeaders_first (h : (disk.sectors tar.tarStartLba).byte 0 ≠ 0) :
    (tarHeaders disk tar)[0]? = some tar.tarStartLba := by
  obtain ⟨fuel, hfuel⟩ : ∃ fuel, tarFuel = fuel + 1 := ⟨2 ^ 32 - 1, rfl⟩
  unfold tarHeaders headersWalked
  rw [hfuel]
  unfold sectorsWalked
  rw [List.filter_cons, if_pos (decide_eq_true h)]
  rfl

end Listing

/-- A disk with one header, which starts with `n` letters, and zeros. -/
def namedDisk (n : Nat) : AtaDisk where
  sectors := fun lba i => if lba = 2048 ∧ i.val < n then 0x61 else 0
  answers := fun _ => true

/-- The two buffers. -/
theorem stackBuffers_apart : CopyApart 0x2000 100 0x1000 512 := by
  intro i hi k hk
  bv_omega

/-- A name of 99 letters is copied. -/
theorem tar_listing_letters :
    CopySafe (namedDisk 99).read (tarInitDisk bootTar 2048) 0 (fun _ => 0) 0x1000 0x2000 := by
  have hfirst : (tarHeaders (namedDisk 99) (tarInitDisk bootTar 2048))[0]? = some 2048 :=
    tarHeaders_first (by decide)
  refine (tar_listing_iff (fun _ => rfl) (by intro h; cases h) 0 _ stackBuffers_apart).mpr fun l hl => ?_
  have hl' : l = 2048 := Option.some.inj (hl.symm.trans hfirst)
  rw [hl']
  exact ⟨99, by decide, by decide⟩

/-- **A name of 100 letters is not**: it is legal in TAR, and the copy goes on
    into the mode field. -/
theorem full_name_overruns :
    ¬ CopySafe (namedDisk 100).read (tarInitDisk bootTar 2048) 0 (fun _ => 0) 0x1000 0x2000 := by
  have hfirst : (tarHeaders (namedDisk 100) (tarInitDisk bootTar 2048))[0]? = some 2048 :=
    tarHeaders_first (by decide)
  have hstart : (tarInitDisk bootTar 2048).tarStartLba.toNat + 20000 + 2 ^ 23 + 1 < 2 ^ 32 := by
    decide
  have hname : ∀ j < 100, ((namedDisk 100).sectors 2048).byte j ≠ 0 := by decide
  rw [copySafe_header (fun _ => rfl) (by intro h; cases h) hstart hfirst _ stackBuffers_apart]
  intro hends
  obtain ⟨j, hj, hzero⟩ := hends
  exact hname j hj hzero

end ZohoOs
