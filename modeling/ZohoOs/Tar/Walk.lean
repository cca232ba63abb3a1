/-
  ZohoOs.Tar.Walk — the two searches on an arbitrary disk.

  Nothing on the disk is checked: a size is whatever octal digits stand in its
  field, and rounding it up to sectors may wrap around.  Yet a header is always
  followed by one further on, at most 2^23 sectors away, and both loops give up
  20000 sectors behind the start.  So the headers a disk has are one list,
  whatever is looked for, and both searches run through it from the front.

  Main results:
    * `tarWalkLog_reads` — which sectors a walk reads;
    * `tarWalk_search` — a walk is a search in the list of headers;
    * `tar_walks` — both searches end, read the same headers, and agree.
-/
import ZohoOs.Lib.Logged
import ZohoOs.Tar.Decode

namespace ZohoOs

open ZohoOs.Lib

/-! ## §1. What a walk reads. -/

/-- The loop of both searches, with the sectors it asks
    `cached_read_sector` for. -/
def tarWalkLog {α : Type} (ata : AtaRead) (startLba : BitVec 32)
    (found : BitVec 32 → BitVec 32 → Sector → Option α) :
    Nat → BitVec 32 → BitVec 32 → SectorCache →
      Logged (BitVec 32) (Option (Option α × SectorCache))
  | 0, _, _, _ => pure none
  | fuel + 1, index, lba, cache => do
    Logged.tell lba
    let header := (cachedReadSector ata cache lba).1
    let cache := (cachedReadSector ata cache lba).2
    if header.byte 0 = 0 then pure (some (none, cache))
    else
      (found index lba header).elim
        (let next := nextHeader lba (tarHeaderSize header)
        if next > startLba + 20000 then pure (some (none, cache))
        else tarWalkLog ata startLba found fuel (index + 1) next cache)
        fun a => pure (some (some a, cache))

/-- `tar_find_file`, with the sectors it reads. -/
def tarFindFileLog (ata : AtaRead) (tar : Tar) (name : List (BitVec 8)) :
    Logged (BitVec 32) (Option (Option (BitVec 32 × BitVec 32) × SectorCache)) :=
  tarWalkLog ata tar.tarStartLba (headerWithName name) tarFuel 0 tar.tarStartLba tar.cache

/-- `tar_get_file_by_index`, with the sectors it reads. -/
def tarGetFileByIndexLog (ata : AtaRead) (tar : Tar) (index : BitVec 32) :
    Logged (BitVec 32) (Option (Option (List (BitVec 8)) × SectorCache)) :=
  tarWalkLog ata tar.tarStartLba (headerWithIndex index) tarFuel 0 tar.tarStartLba tar.cache

section Log

variable {α : Type} (ata : AtaRead) (startLba : BitVec 32)
  (found : BitVec 32 → BitVec 32 → Sector → Option α)

/-- The log is of the walk itself. -/
theorem val_tarWalkLog (fuel : Nat) (index lba : BitVec 32) (cache : SectorCache) :
    (tarWalkLog ata startLba found fuel index lba cache).val =
      tarWalk ata startLba found fuel index lba cache := by
  induction fuel generalizing index lba cache with
  | zero => rfl
  | succ fuel ih =>
    unfold tarWalkLog tarWalk
    rw [Logged.val_bind]
    dsimp only
    by_cases hzero : (cachedReadSector ata cache lba).1.byte 0 = 0
    · rw [if_pos hzero, if_pos hzero]
      rfl
    · rw [if_neg hzero, if_neg hzero]
      cases found index lba (cachedReadSector ata cache lba).1 with
      | some a => rfl
      | none =>
        show Logged.val (if _ then _ else _) = _
        dsimp only
        split
        · rfl
        · exact ih _ _ _

theorem val_tarFindFileLog (tar : Tar) (name : List (BitVec 8)) :
    (tarFindFileLog ata tar name).val = tarFindFile ata tar name := val_tarWalkLog _ _ _ _ _ _ _

theorem val_tarGetFileByIndexLog (tar : Tar) (index : BitVec 32) :
    (tarGetFileByIndexLog ata tar index).val = tarGetFileByIndex ata tar index :=
  val_tarWalkLog _ _ _ _ _ _ _

end Log

/-! ## §2. The headers of a disk. -/

/-- Where the headers are, from `lba` on, up to the first sector that starts
    with a NUL byte or the safety break.  The last sector of the list is the
    one that starts with a NUL byte, if the walk gets that far. -/
def sectorsWalked (sectors : BitVec 32 → Sector) (startLba : BitVec 32) :
    Nat → BitVec 32 → List (BitVec 32)
  | 0, _ => []
  | fuel + 1, lba =>
    lba ::
      if (sectors lba).byte 0 = 0 ∨
          nextHeader lba (tarHeaderSize (sectors lba)) > startLba + 20000 then []
      else sectorsWalked sectors startLba fuel (nextHeader lba (tarHeaderSize (sectors lba)))

/-- The headers among them. -/
def headersWalked (sectors : BitVec 32 → Sector) (startLba : BitVec 32) (fuel : Nat)
    (lba : BitVec 32) : List (BitVec 32) :=
  (sectorsWalked sectors startLba fuel lba).filter fun l => (sectors l).byte 0 ≠ 0

section Headers

variable {sectors : BitVec 32 → Sector} {startLba lba : BitVec 32}

/-- **Progress**: the next header lies further on, whatever the size. -/
theorem toNat_nextHeader (lba size : BitVec 32) (h : lba.toNat + 2 ^ 23 + 1 < 2 ^ 32) :
    lba.toNat < (nextHeader lba size).toNat ∧
      (nextHeader lba size).toNat ≤ lba.toNat + 2 ^ 23 := by
  have hsum : (size + 511).toNat < 2 ^ 32 := (size + 511).isLt
  have hdiv : ((size + 511) / 512).toNat = (size + 511).toNat / 512 := BitVec.toNat_udiv
  have hone : (1 + (size + 511) / 512).toNat = 1 + (size + 511).toNat / 512 := by
    rw [BitVec.toNat_add, hdiv]
    show (1 + (size + 511).toNat / 512) % 2 ^ 32 = _
    omega
  unfold nextHeader
  rw [BitVec.toNat_add, hone]
  omega

/-- The next header, when it is not behind the safety break. -/
theorem nextHeader_near (hstart : startLba.toNat + 20000 + 2 ^ 23 + 1 < 2 ^ 32)
    (hhigh : lba.toNat ≤ startLba.toNat + 20000) {size : BitVec 32}
    (hnear : ¬ nextHeader lba size > startLba + 20000) :
    lba.toNat < (nextHeader lba size).toNat ∧
      (nextHeader lba size).toNat ≤ startLba.toNat + 20000 := by
  obtain ⟨hnext, -⟩ := toNat_nextHeader lba size (by omega)
  have hlimit : (startLba + 20000).toNat = startLba.toNat + 20000 := by
    rw [BitVec.toNat_add]
    show (startLba.toNat + 20000) % 2 ^ 32 = _
    omega
  have hle : (nextHeader lba size).toNat ≤ (startLba + 20000).toNat := Nat.le_of_not_lt hnear
  omega

variable (sectors) in
/-- **The bounds of a walk**, for a start with room behind it. -/
theorem sectorsWalked_bounds (hstart : startLba.toNat + 20000 + 2 ^ 23 + 1 < 2 ^ 32) (fuel : Nat)
    (hhigh : lba.toNat ≤ startLba.toNat + 20000) :
    (∀ l ∈ sectorsWalked sectors startLba fuel lba,
      lba.toNat ≤ l.toNat ∧ l.toNat ≤ startLba.toNat + 20000) ∧
    (sectorsWalked sectors startLba fuel lba).Pairwise fun l l' => l.toNat < l'.toNat := by
  induction fuel generalizing lba with
  | zero =>
    refine ⟨fun l hl => ?_, List.Pairwise.nil⟩
    cases hl
  | succ fuel ih =>
    unfold sectorsWalked
    by_cases hend : (sectors lba).byte 0 = 0 ∨
        nextHeader lba (tarHeaderSize (sectors lba)) > startLba + 20000
    · rw [if_pos hend]
      refine ⟨fun l hl => ?_, List.pairwise_singleton _ _⟩
      rw [List.mem_singleton.mp hl]
      exact ⟨Nat.le_refl _, hhigh⟩
    · rw [if_neg hend]
      obtain ⟨hlt, hle⟩ := nextHeader_near hstart hhigh (not_or.mp hend).2
      obtain ⟨hbounds, hpairs⟩ := ih hle
      constructor
      · intro l hl
        rcases List.mem_cons.mp hl with rfl | hl
        · exact ⟨Nat.le_refl _, hhigh⟩
        · obtain ⟨hl, hl'⟩ := hbounds l hl
          exact ⟨hlt.le.trans hl, hl'⟩
      · refine List.pairwise_cons.mpr ⟨fun l hl => ?_, hpairs⟩
        exact hlt.trans_le (hbounds l hl).1

variable (sectors) in
/-- A walk reads at most 20001 sectors. -/
theorem length_sectorsWalked (hstart : startLba.toNat + 20000 + 2 ^ 23 + 1 < 2 ^ 32) (fuel : Nat)
    (hhigh : lba.toNat ≤ startLba.toNat + 20000) :
    lba.toNat + (sectorsWalked sectors startLba fuel lba).length ≤ startLba.toNat + 20001 := by
  induction fuel generalizing lba with
  | zero =>
    unfold sectorsWalked
    rw [List.length_nil]
    omega
  | succ fuel ih =>
    unfold sectorsWalked
    rw [List.length_cons]
    by_cases hend : (sectors lba).byte 0 = 0 ∨
        nextHeader lba (tarHeaderSize (sectors lba)) > startLba + 20000
    · rw [if_pos hend, List.length_nil]
      omega
    · rw [if_neg hend]
      obtain ⟨hlt, hle⟩ := nextHeader_near hstart hhigh (not_or.mp hend).2
      have hrest := ih hle
      omega

end Headers

/-! ## §3. A walk is a search. -/

section Search

variable {α : Type} {disk : AtaDisk} {startLba lba : BitVec 32}

/-- The first of the headers, numbered from `index` on, that is found. -/
def searchHeaders (sectors : BitVec 32 → Sector)
    (found : BitVec 32 → BitVec 32 → Sector → Option α) (index : Nat) (headers : List (BitVec 32)) :
    Option α :=
  (headers.zipIdx index).findSome? fun h => found (BitVec.ofNat 32 h.2) h.1 (sectors h.1)

theorem searchHeaders_cons (sectors : BitVec 32 → Sector)
    (found : BitVec 32 → BitVec 32 → Sector → Option α) (index : Nat) (l : BitVec 32)
    (headers : List (BitVec 32)) :
    searchHeaders sectors found index (l :: headers) =
      (found (BitVec.ofNat 32 index) l (sectors l)).or
        (searchHeaders sectors found (index + 1) headers) := by
  unfold searchHeaders
  rw [List.zipIdx_cons, List.findSome?_cons]
  cases found (BitVec.ofNat 32 index) l (sectors l) with
  | none => rfl
  | some a => rfl

/-- **A walk is a search in the list of headers**, and reads the front of the
    list: all of it if nothing is found. -/
theorem tarWalk_search (hup : disk.Up) (found : BitVec 32 → BitVec 32 → Sector → Option α)
    (hstart : startLba.toNat + 20000 + 2 ^ 23 + 1 < 2 ^ 32) {fuel : Nat} (index : Nat)
    {cache : SectorCache} (hagrees : cache.Agrees disk) (hhigh : lba.toNat ≤ startLba.toNat + 20000)
    (hfuel : startLba.toNat + 20000 < lba.toNat + fuel) :
    let walk := tarWalkLog disk.read startLba found fuel (BitVec.ofNat 32 index) lba cache
    let result := searchHeaders disk.sectors found index
      (headersWalked disk.sectors startLba fuel lba)
    (∃ cache', walk.val = some (result, cache') ∧ cache'.Agrees disk) ∧
      walk.log <+: sectorsWalked disk.sectors startLba fuel lba ∧
      (result = none → walk.log = sectorsWalked disk.sectors startLba fuel lba) := by
  induction fuel generalizing index lba cache with
  | zero => exact absurd hfuel (by omega)
  | succ fuel ih =>
    obtain ⟨hread, hnext⟩ := cachedReadSector_eq hup hagrees lba
    unfold tarWalkLog headersWalked sectorsWalked
    dsimp only
    rw [Logged.val_bind, Logged.log_bind, hread]
    by_cases hzero : (disk.sectors lba).byte 0 = 0
    · -- the end of the archive
      rw [if_pos hzero, if_pos (.inl hzero)]
      have hnone : ([lba].filter fun l => (disk.sectors l).byte 0 ≠ 0) = [] := by
        rw [List.filter_cons_of_neg (by simpa using hzero), List.filter_nil]
      rw [hnone]
      exact ⟨⟨_, rfl, hnext⟩, List.prefix_rfl, fun _ => rfl⟩
    · have hcons : ∀ ls, ((lba :: ls).filter fun l => (disk.sectors l).byte 0 ≠ 0) =
          lba :: ls.filter fun l => (disk.sectors l).byte 0 ≠ 0 := by
        intro ls
        exact List.filter_cons_of_pos (by simpa using hzero)
      rw [if_neg hzero, hcons, searchHeaders_cons]
      cases hfound : found (BitVec.ofNat 32 index) lba (disk.sectors lba) with
      | some a =>
        refine ⟨⟨_, rfl, hnext⟩, ?_, fun h => ?_⟩
        · exact (List.prefix_append [lba] _)
        · cases h
      | none =>
        rw [Option.none_or]
        dsimp only [Option.elim]
        by_cases hfar : nextHeader lba (tarHeaderSize (disk.sectors lba)) > startLba + 20000
        · -- the safety break
          rw [if_pos hfar, if_pos (.inr hfar)]
          exact ⟨⟨_, rfl, hnext⟩, List.prefix_rfl, fun _ => rfl⟩
        · obtain ⟨hlt, hle⟩ := nextHeader_near hstart hhigh hfar
          rw [if_neg hfar, if_neg (not_or.mpr ⟨hzero, hfar⟩)]
          have hindex : BitVec.ofNat 32 index + 1 = BitVec.ofNat 32 (index + 1) :=
            (BitVec.ofNat_add ..).symm
          rw [hindex]
          obtain ⟨hval, hprefix, hall⟩ := ih (index + 1) hnext hle (by omega)
          refine ⟨hval, ?_, fun h => ?_⟩
          · exact List.cons_prefix_cons.mpr ⟨rfl, hprefix⟩
          · exact congrArg (lba :: ·) (hall h)

end Search

/-! ## §4. The two searches. -/

/-- The sectors that a walk through the whole archive reads. -/
def tarSectors (disk : AtaDisk) (tar : Tar) : List (BitVec 32) :=
  sectorsWalked disk.sectors tar.tarStartLba tarFuel tar.tarStartLba

/-- The headers among them. -/
def tarHeaders (disk : AtaDisk) (tar : Tar) : List (BitVec 32) :=
  headersWalked disk.sectors tar.tarStartLba tarFuel tar.tarStartLba

section Searches

variable {disk : AtaDisk} {tar : Tar}

theorem length_tarHeaders (hstart : tar.tarStartLba.toNat + 20000 + 2 ^ 23 + 1 < 2 ^ 32) :
    (tarHeaders disk tar).length ≤ 20001 := by
  have hlen := length_sectorsWalked disk.sectors hstart tarFuel
    (Nat.le_add_right tar.tarStartLba.toNat 20000)
  have hfilter : (tarHeaders disk tar).length ≤ (tarSectors disk tar).length :=
    List.length_filter_le _ _
  unfold tarSectors at hfilter
  omega

/-- A search over numbered headers finds something exactly if some header
    answers. -/
theorem searchHeaders_isSome {α : Type} {sectors : BitVec 32 → Sector}
    {found : BitVec 32 → BitVec 32 → Sector → Option α} {headers : List (BitVec 32)} :
    (searchHeaders sectors found 0 headers).isSome ↔
      ∃ (k : Nat) (l : BitVec 32), headers[k]? = some l ∧
        (found (BitVec.ofNat 32 k) l (sectors l)).isSome := by
  unfold searchHeaders
  rw [List.findSome?_isSome_iff]
  constructor
  · rintro ⟨⟨l, k⟩, hmem, hfound⟩
    exact ⟨k, l, List.mem_zipIdx_iff_getElem?.mp hmem, hfound⟩
  · rintro ⟨k, l, hget, hfound⟩
    exact ⟨(l, k), List.mem_zipIdx_iff_getElem?.mpr hget, hfound⟩

/-- Asking for a number gives what is asked of that header. -/
theorem searchHeaders_number {α : Type} (sectors : BitVec 32 → Sector) (g : BitVec 32 → Sector → α)
    (target : BitVec 32) (headers : List (BitVec 32)) (index : Nat) (hindex : index ≤ target.toNat)
    (hsmall : index + headers.length < 2 ^ 32) :
    searchHeaders sectors (fun currentIdx l header => if currentIdx = target then some (g l header) else none)
        index headers =
      headers[target.toNat - index]?.map fun l => g l (sectors l) := by
  induction headers generalizing index with
  | nil => rfl
  | cons l headers ih =>
    rw [List.length_cons] at hsmall
    have hnum : (BitVec.ofNat 32 index).toNat = index := Nat.mod_eq_of_lt (by omega)
    rw [searchHeaders_cons]
    by_cases heq : BitVec.ofNat 32 index = target
    · have hhere : target.toNat - index = 0 := by
        rw [← heq, hnum, Nat.sub_self]
      rw [if_pos heq, hhere]
      rfl
    · have hne : index ≠ target.toNat := fun h => heq (BitVec.eq_of_toNat_eq (hnum.trans h))
      have hlater : target.toNat - index = target.toNat - (index + 1) + 1 := by omega
      rw [if_neg heq, Option.none_or, hlater, List.getElem?_cons_succ]
      exact ih (index + 1) (by omega) (by omega)

theorem tarHeaderName_ne_nul (header : Sector) : ∀ c ∈ tarHeaderName header, c ≠ 0 := by
  intro c hc
  unfold tarHeaderName at hc
  have hc' := List.mem_takeWhile_imp hc
  exact of_decide_eq_true hc'

/-- A name found by `strcmp` is the name. -/
theorem headerWithName_isSome {name : List (BitVec 8)} (hname : ∀ c ∈ name, c ≠ 0)
    (index lba : BitVec 32) (header : Sector) :
    (headerWithName name index lba header).isSome ↔ tarHeaderName header = name := by
  have hbytes := tarHeaderName_ne_nul header
  unfold headerWithName
  by_cases heq : strcmp (tarHeaderName header) name = 0
  · rw [if_pos heq]
    exact iff_of_true rfl ((strcmp_eq_zero_iff hbytes hname).mp heq)
  · rw [if_neg heq]
    exact iff_of_false (by simp) (mt (strcmp_eq_zero_iff hbytes hname).mpr heq)

end Searches

/-- **The two searches run through one list of headers.** -/
structure TarWalks (disk : AtaDisk) (tar : Tar) : Prop where
  /-- The list lies in the 20000 sectors behind the start, in increasing
      order. -/
  inside : ∀ l ∈ tarSectors disk tar,
    tar.tarStartLba.toNat ≤ l.toNat ∧ l.toNat ≤ tar.tarStartLba.toNat + 20000
  increasing : (tarSectors disk tar).Pairwise fun l l' => l.toNat < l'.toNat
  /-- Both searches end, read the list from the front, and read all of it when
      they fail. -/
  find : ∀ name, ∃ result cache, tarFindFile disk.read tar name = some (result, cache) ∧
    (tarFindFileLog disk.read tar name).log <+: tarSectors disk tar ∧
    (result = none → (tarFindFileLog disk.read tar name).log = tarSectors disk tar)
  index : ∀ i, ∃ result cache, tarGetFileByIndex disk.read tar i = some (result, cache) ∧
    (tarGetFileByIndexLog disk.read tar i).log <+: tarSectors disk tar ∧
    (result = none → (tarGetFileByIndexLog disk.read tar i).log = tarSectors disk tar)
  /-- A name is found exactly if it is the name of some number. -/
  agree : ∀ name : List (BitVec 8), (∀ c ∈ name, c ≠ 0) →
    ((∃ entry cache, tarFindFile disk.read tar name = some (some entry, cache)) ↔
      ∃ i : BitVec 32, i.toNat < 2 ^ 31 ∧
        ∃ cache, tarGetFileByIndex disk.read tar i = some (some name, cache))

/-- **The TAR walkers on arbitrary disks**: whatever the disk holds, with the
    archive said to start at sector 2048. -/
theorem tar_walks {disk : AtaDisk} {tar : Tar} (hup : disk.Up) (hagrees : tar.cache.Agrees disk) :
    TarWalks disk (tarInitDisk tar 2048) := by
  obtain ⟨tar', htar⟩ : ∃ tar', tar' = tarInitDisk tar 2048 := ⟨_, rfl⟩
  have hlba : tar'.tarStartLba.toNat = 2048 := by
    rw [htar]
    rfl
  have hcache : tar'.cache.Agrees disk := by
    rw [htar]
    exact hagrees
  rw [← htar]
  have hstart : tar'.tarStartLba.toNat + 20000 + 2 ^ 23 + 1 < 2 ^ 32 := by omega
  have hhigh := Nat.le_add_right tar'.tarStartLba.toNat 20000
  have hfuel : tar'.tarStartLba.toNat + 20000 < tar'.tarStartLba.toNat + tarFuel := by
    unfold tarFuel
    omega
  obtain ⟨hinside, hpairs⟩ := sectorsWalked_bounds disk.sectors hstart tarFuel hhigh
  have hlen : (tarHeaders disk tar').length ≤ 20001 := length_tarHeaders hstart
  -- both searches are one walk over the headers, with another test
  have hfind : ∀ name, _ := fun name =>
    tarWalk_search hup (headerWithName name) hstart 0 hcache hhigh hfuel
  have hindex : ∀ i, _ := fun i =>
    tarWalk_search hup (headerWithIndex i) hstart 0 hcache hhigh hfuel
  refine ⟨hinside, hpairs, fun name => ?_, fun i => ?_, fun name hname => ?_⟩
  · obtain ⟨⟨cache, hval, -⟩, hlog⟩ := hfind name
    exact ⟨_, cache, (val_tarFindFileLog ..).symm.trans hval, hlog⟩
  · obtain ⟨⟨cache, hval, -⟩, hlog⟩ := hindex i
    exact ⟨_, cache, (val_tarGetFileByIndexLog ..).symm.trans hval, hlog⟩
  · obtain ⟨⟨cache, hval, -⟩, -⟩ := hfind name
    have hfound : tarFindFile disk.read tar' name = _ := (val_tarFindFileLog ..).symm.trans hval
    have hnumber : ∀ i : BitVec 32, ∃ cache', tarGetFileByIndex disk.read tar' i =
        some ((tarHeaders disk tar')[i.toNat]?.map fun l => tarHeaderName (disk.sectors l), cache') := by
      intro i
      obtain ⟨⟨cache', hval', -⟩, -⟩ := hindex i
      have hget : tarGetFileByIndex disk.read tar' i = _ :=
        (val_tarGetFileByIndexLog ..).symm.trans hval'
      refine ⟨cache', ?_⟩
      have hname' := searchHeaders_number disk.sectors (fun _ header => tarHeaderName header) i
        (tarHeaders disk tar') 0 (Nat.zero_le _) (by omega)
      exact hget.trans (congrArg (fun r => some (r, cache')) hname')
    rw [hfound]
    constructor
    · -- a file that is found has a number; the name of that number is the one asked for
      rintro ⟨entry, cache', hsome⟩
      obtain ⟨hentry, -⟩ := Prod.mk.inj (Option.some.inj hsome)
      obtain ⟨k, l, hget, hname'⟩ := searchHeaders_isSome.mp (Option.isSome_iff_exists.mpr ⟨_, hentry⟩)
      rw [headerWithName_isSome hname] at hname'
      have hk : k < (tarHeaders disk tar').length := (List.getElem?_eq_some_iff.mp hget).1
      have hkn : (BitVec.ofNat 32 k).toNat = k := Nat.mod_eq_of_lt (by omega)
      obtain ⟨cache'', hresult⟩ := hnumber (BitVec.ofNat 32 k)
      refine ⟨BitVec.ofNat 32 k, by omega, cache'', ?_⟩
      have hget' : (tarHeaders disk tar')[k]? = some l := hget
      rw [hresult, hkn, hget', Option.map_some, hname']
    · rintro ⟨i, -, cache', hsome⟩
      obtain ⟨cache'', hresult⟩ := hnumber i
      rw [hresult] at hsome
      obtain ⟨hmap, -⟩ := Prod.mk.inj (Option.some.inj hsome)
      obtain ⟨l, hget, hname'⟩ := Option.map_eq_some_iff.mp hmap
      have hisSome := searchHeaders_isSome.mpr
        ⟨i.toNat, l, hget, (headerWithName_isSome hname (BitVec.ofNat 32 i.toNat) l _).mpr hname'⟩
      obtain ⟨entry, hentry⟩ := Option.isSome_iff_exists.mp hisSome
      exact ⟨entry, cache, congrArg (fun r => some (r, cache)) hentry⟩

/-- The walkers on the disk with an archive of one file. -/
theorem tar_walks_oneFile : TarWalks (tarDisk 2048 [oneFile]) (tarInitDisk bootTar 2048) :=
  tar_walks (tarDisk_up _ _) (by intro h; cases h)

end ZohoOs
