/-
  ZohoOs.Tar.Coherence — the sector cache when transfers fail (tar.c, ata.c).

  `ata_read_sector` and `ata_write_sector` wait three times before they move a
  byte, and return from the first wait that fails without saying so.  Both
  cache routines mark the cache valid whatever became of the transfer.

  Main results:
    * `cache_coherent_iff` — a history of calls keeps the cache coherent if
      and only if every miss and every write was carried out, or would have
      changed nothing.
-/
import ZohoOs.Lib.Transition
import ZohoOs.Tar.Basic

namespace ZohoOs

open ZohoOs.Lib

/-! ## §1. Transfers that may fail. -/

/-- What `ata_wait` answered to the waits of one transfer: for the device to be
    idle, for the command to be taken, and for the data request. -/
structure AtaWaits where
  idle : Bool
  taken : Bool
  request : Bool
  deriving DecidableEq

/-- The transfer gets to the point where it moves the data. -/
def AtaWaits.Done (w : AtaWaits) : Prop := w.idle ∧ w.taken ∧ w.request

instance AtaWaits.decidableDone (w : AtaWaits) : Decidable w.Done := inferInstanceAs (Decidable (_ ∧ _ ∧ _))

/-- The disk and the cache in front of it. -/
structure CachedDisk where
  sectors : BitVec 32 → Sector
  cache : SectorCache

/-- The device during one transfer. -/
def CachedDisk.device (s : CachedDisk) (w : AtaWaits) : AtaDisk := ⟨s.sectors, fun _ => w.Done⟩

/-- A call from the TAR walkers or from `vfs_write`. -/
inductive CacheCall where
  | read (lba : BitVec 32) (waits : AtaWaits)
  | write (lba : BitVec 32) (buffer : Sector) (waits : AtaWaits)

/-- What the call does to disk and cache. -/
def CachedDisk.call (s : CachedDisk) : CacheCall → CachedDisk
  | .read lba w => { s with cache := (cachedReadSector (s.device w).read s.cache lba).2 }
  | .write lba buffer w =>
    let r := cachedWriteSector (s.device w) lba buffer
    ⟨r.1.sectors, r.2⟩

def CacheStep (s : CachedDisk) (c : CacheCall) (s' : CachedDisk) : Prop := s' = s.call c

/-! ## §2. Coherence. -/

/-- **The property**: a valid cache holds what is on the disk. -/
def CachedDisk.Coherent (s : CachedDisk) : Prop :=
  s.cache.valid = true → s.cache.data = s.sectors s.cache.lba

/-- The calls that keep it: a hit; a transfer that is carried out; a read that
    fails while the cache happens to hold the bytes of the sector, and a write
    that fails although the sector holds its bytes already. -/
def CachedDisk.Keeps (s : CachedDisk) : CacheCall → Prop
  | .read lba w =>
      (s.cache.valid = true ∧ s.cache.lba = lba) ∨ w.Done ∨ s.cache.data = s.sectors lba
  | .write lba buffer w => w.Done ∨ s.sectors lba = buffer

namespace CachedDisk

variable {s : CachedDisk}

/-- A hit changes nothing. -/
theorem call_read_hit {lba : BitVec 32} (w : AtaWaits)
    (hhit : s.cache.valid = true ∧ s.cache.lba = lba) : s.call (.read lba w) = s := by
  show { s with cache := (cachedReadSector (s.device w).read s.cache lba).2 } = s
  unfold cachedReadSector
  rw [if_pos hhit]

/-- A miss fills the cache, with the sector or with what was there. -/
theorem call_read_miss {lba : BitVec 32} (w : AtaWaits)
    (hmiss : ¬ (s.cache.valid = true ∧ s.cache.lba = lba)) :
    s.call (.read lba w) =
      { s with cache := ⟨lba, if w.Done then s.sectors lba else s.cache.data, true⟩ } := by
  show { s with cache := (cachedReadSector (s.device w).read s.cache lba).2 } = _
  unfold cachedReadSector AtaDisk.read device
  rw [if_neg hmiss]
  by_cases hw : w.Done
  · simp [hw]
  · simp [hw]

/-- A write fills the cache with its buffer, and the sector if it is carried
    out. -/
theorem call_write (lba : BitVec 32) (buffer : Sector) (w : AtaWaits) :
    s.call (.write lba buffer w) =
      ⟨if w.Done then Function.update s.sectors lba buffer else s.sectors, ⟨lba, buffer, true⟩⟩ := by
  show CachedDisk.mk (cachedWriteSector (s.device w) lba buffer).1.sectors
    (cachedWriteSector (s.device w) lba buffer).2 = _
  unfold cachedWriteSector AtaDisk.write device
  by_cases hw : w.Done
  · simp [hw]
  · simp [hw]

/-- **One call** on a coherent cache leaves it coherent exactly if it is one of
    those that keep it. -/
theorem coherent_call_iff (h : s.Coherent) (c : CacheCall) : (s.call c).Coherent ↔ s.Keeps c := by
  cases c with
  | read lba w =>
    by_cases hhit : s.cache.valid = true ∧ s.cache.lba = lba
    · rw [call_read_hit w hhit]
      exact iff_of_true h (.inl hhit)
    · rw [call_read_miss w hhit]
      have hcoh : CachedDisk.Coherent
          { s with cache := ⟨lba, if w.Done then s.sectors lba else s.cache.data, true⟩ }
          ↔ (if w.Done then s.sectors lba else s.cache.data) = s.sectors lba :=
        forall_prop_of_true rfl
      rw [hcoh]
      by_cases hw : w.Done
      · rw [if_pos hw]
        exact iff_of_true rfl (.inr (.inl hw))
      · rw [if_neg hw]
        constructor
        · intro hsame
          exact .inr (.inr hsame)
        · intro hkeeps
          exact (hkeeps.resolve_left hhit).resolve_left hw
  | write lba buffer w =>
    rw [call_write]
    have hcoh : CachedDisk.Coherent
        ⟨if w.Done then Function.update s.sectors lba buffer else s.sectors, ⟨lba, buffer, true⟩⟩
        ↔ buffer = (if w.Done then Function.update s.sectors lba buffer else s.sectors) lba :=
      forall_prop_of_true rfl
    rw [hcoh]
    by_cases hw : w.Done
    · rw [if_pos hw, Function.update_self]
      exact iff_of_true rfl (.inl hw)
    · rw [if_neg hw]
      constructor
      · intro hsame
        exact .inr hsame.symm
      · intro hkeeps
        exact (hkeeps.resolve_left hw).symm

end CachedDisk

/-- **Coherence over a history.**  From a cache that is not valid, as it is at
    boot, every state on the way is coherent if and only if every call keeps
    coherence. -/
theorem cache_coherent_iff {s₀ s : CachedDisk} {tr : List (Transition CachedDisk CacheCall)}
    (hrun : Run CacheStep s₀ tr s) (h0 : s₀.cache.valid = false) :
    (∀ x ∈ tr, x.2.2.Coherent) ↔ ∀ x ∈ tr, x.1.Keeps x.2.1 := by
  have hstart : s₀.Coherent := by
    intro hvalid
    rw [h0] at hvalid
    cases hvalid
  refine hrun.always_iff (I := CachedDisk.Coherent) (C := CachedDisk.Keeps) ?_ ?_ ?_ hstart
  · intro s c s' hcoh hkeeps hstep
    rw [show s' = s.call c from hstep]
    exact (CachedDisk.coherent_call_iff hcoh c).mpr hkeeps
  · intro s hcoh
    exact hcoh
  · intro s c s' hcoh hstep hkeeps
    rw [show s' = s.call c from hstep]
    exact mt (CachedDisk.coherent_call_iff hcoh c).mp hkeeps

/-- The disk of zeros but for one sector, and the cache at boot. -/
def bootCache : CachedDisk :=
  ⟨Function.update (fun _ _ => 0) 2048 fun _ => 0x61, ⟨0, fun _ => 0, false⟩⟩

/-- The first header is read. -/
theorem cache_coherent_iff_first :
    bootCache.Keeps (.read 2048 ⟨true, true, true⟩) ∧
      (bootCache.call (.read 2048 ⟨true, true, true⟩)).Coherent := by
  have hkeeps : bootCache.Keeps (.read 2048 ⟨true, true, true⟩) := .inr (.inl (by decide))
  refine ⟨hkeeps, (cache_coherent_iff ((Run.nil bootCache).snoc rfl) rfl).mpr ?_ _
    (List.mem_singleton_self _)⟩
  intro x hx
  rw [List.mem_singleton.mp hx]
  exact hkeeps

/-- **A failed read poisons the cache**: the data request of the first read
    times out, and the cache claims that sector 2048 is empty. -/
theorem failed_read_poisons_cache : ∃ tr s, Run CacheStep bootCache tr s ∧ ¬ s.Coherent := by
  refine ⟨_, _, (Run.nil bootCache).snoc
    (show CacheStep bootCache (.read 2048 ⟨true, true, false⟩) _ from rfl), ?_⟩
  intro hcoh
  have hbyte := congrFun (hcoh rfl) 0
  revert hbyte
  decide

end ZohoOs
