/-
  ZohoOs.Vmm.Shared — the entries of a page that a clone shares.

  Sharing rewrites an entry from its address bits and its flags: a writable
  page becomes copy-on-write in both tables, and any other keeps its flags.
  Read back, the entry goes to the same frame with the flags of `shareFlags`.
-/
import ZohoOs.Vmm.CloneWalk

namespace ZohoOs

open ZohoOs.Lib
open ZohoOs.Lib.Mem (Aligned)

/-! ## §1. Flags. -/

section Flags

variable {f w : Word}

/-- A present word has its lowest bit set. -/
theorem or_present (h : Present w) : w ||| pagePresent = w := by
  have hbit : w &&& pagePresent = pagePresent := by
    have hmod : (w &&& Word.lowMask 1).toNat = w.toNat % 2 := Word.toNat_and_lowMask w (by decide)
    have hne : (w &&& Word.lowMask 1).toNat ≠ 0 := fun hz =>
      h (BitVec.eq_of_toNat_eq (hz.trans rfl))
    apply BitVec.eq_of_toNat_eq
    show (w &&& Word.lowMask 1).toNat = 1
    omega
  have hsplit : (w &&& ~~~pagePresent) ||| pagePresent = w := by
    have h := Word.split_or w pagePresent
    rwa [hbit] at h
  calc w ||| pagePresent = ((w &&& ~~~pagePresent) ||| pagePresent) ||| pagePresent := by rw [hsplit]
    _ = w := by rw [BitVec.or_assoc, BitVec.or_self, hsplit]

/-- A bit other than the writable one and the copy-on-write one is kept. -/
theorem shareFlags_and {b : Word} (hw : ~~~pageWritable &&& b = b) (hc : pageCow &&& b = 0) :
    shareFlags f &&& b = f &&& b := by
  unfold shareFlags
  by_cases hf : f &&& pageWritable ≠ 0
  · rw [if_pos hf, BitVec.and_or_distrib_right, hc, BitVec.and_assoc, hw, BitVec.ofNat_eq_ofNat,
      BitVec.or_zero]
  · rw [if_neg hf]

theorem present_shareFlags : Present (shareFlags f) ↔ Present f := by
  unfold Present
  rw [shareFlags_and (by decide) (by decide)]

theorem huge_shareFlags : Huge (shareFlags f) ↔ Huge f := by
  unfold Huge
  rw [shareFlags_and (by decide) (by decide)]

theorem shareFlags_within (hf : f &&& ~~~flagMask = 0) : shareFlags f &&& ~~~flagMask = 0 := by
  unfold shareFlags
  by_cases hw : f &&& pageWritable ≠ 0
  · rw [if_pos hw]
    exact Word.or_within (Word.and_within hf) (by decide)
  · rw [if_neg hw]
    exact hf

theorem present_and_flagMask : Present (w &&& flagMask) ↔ Present w := by
  unfold Present
  rw [BitVec.and_assoc, show flagMask &&& pagePresent = pagePresent by decide]

theorem huge_and_flagMask : Huge (w &&& flagMask) ↔ Huge w := by
  unfold Huge
  rw [BitVec.and_assoc, show flagMask &&& pageHuge = pageHuge by decide]

end Flags

/-! ## §2. Entries. -/

/-- The entry that both tables of a shared writable page get, and that the
    clone's gets of any page. -/
def sharedEntry (mask e : Word) : Word :=
  (e &&& ~~~mask) ||| shareFlags (e &&& flagMask) ||| pagePresent

/-- What is left of the source's entry: a page that is not writable keeps
    its. -/
def sourceEntry (mask e : Word) : Word :=
  if (e &&& flagMask) &&& pageWritable ≠ 0 then sharedEntry mask e else e

/-- The attribute bits of a page cover its flags. -/
def Covers (mask : Word) : Prop := flagMask &&& ~~~mask = 0

theorem covers_of_pageMask {d : Nat} {e mask : Word} (h : pageMask d e = some mask) :
    Covers mask := by
  unfold pageMask at h
  split at h
  · cases h
    show flagMask &&& ~~~flagMask = 0
    decide
  · split at h
    · cases h
      show flagMask &&& ~~~hugeMask = 0
      decide
    · cases h

section Entry

variable {mask e : Word}

theorem sharedEntry_eq (hp : Present e) :
    sharedEntry mask e = (e &&& ~~~mask) ||| shareFlags (e &&& flagMask) := by
  rw [sharedEntry, BitVec.or_assoc,
    or_present (present_shareFlags.mpr (present_and_flagMask.mpr hp))]

/-- Its flags are the shared ones. -/
theorem sharedEntry_flags (hc : Covers mask) (hp : Present e) :
    sharedEntry mask e &&& flagMask = shareFlags (e &&& flagMask) := by
  have hfl : shareFlags (e &&& flagMask) &&& ~~~flagMask = 0 := shareFlags_within Word.and_mask_and_not
  have hz : (e &&& ~~~mask) &&& flagMask = 0 := by
    rw [BitVec.and_assoc, BitVec.and_comm (~~~mask), hc, BitVec.ofNat_eq_ofNat, BitVec.and_zero]
  rw [sharedEntry_eq hp, BitVec.and_or_distrib_right, hz, Word.and_mask_of_within hfl,
    BitVec.ofNat_eq_ofNat, BitVec.zero_or]

/-- It goes to the same frame. -/
theorem sharedEntry_addr (hc : Covers mask) (hp : Present e) :
    sharedEntry mask e &&& ~~~mask = e &&& ~~~mask := by
  have hfl : shareFlags (e &&& flagMask) &&& ~~~flagMask = 0 := shareFlags_within Word.and_mask_and_not
  have hwithin : shareFlags (e &&& flagMask) &&& ~~~mask = 0 := by
    rw [← Word.and_mask_of_within hfl, BitVec.and_assoc, hc, BitVec.ofNat_eq_ofNat, BitVec.and_zero]
  rw [sharedEntry_eq hp]
  exact Word.or_and_not Word.and_not_and_not hwithin

theorem present_sharedEntry (hc : Covers mask) (hp : Present e) : Present (sharedEntry mask e) := by
  rw [← present_and_flagMask, sharedEntry_flags hc hp, present_shareFlags, present_and_flagMask]
  exact hp

theorem huge_sharedEntry (hc : Covers mask) (hp : Present e) :
    Huge (sharedEntry mask e) ↔ Huge e := by
  rw [← huge_and_flagMask, sharedEntry_flags hc hp, huge_shareFlags, huge_and_flagMask]

/-- The source's entry goes to the same frame, with the shared flags. -/
theorem sourceEntry_flags (hc : Covers mask) (hp : Present e) :
    sourceEntry mask e &&& flagMask = shareFlags (e &&& flagMask) := by
  unfold sourceEntry
  by_cases hw : (e &&& flagMask) &&& pageWritable ≠ 0
  · rw [if_pos hw]
    exact sharedEntry_flags hc hp
  · rw [if_neg hw, shareFlags, if_neg hw]

theorem sourceEntry_addr (hc : Covers mask) (hp : Present e) :
    sourceEntry mask e &&& ~~~mask = e &&& ~~~mask := by
  unfold sourceEntry
  by_cases hw : (e &&& flagMask) &&& pageWritable ≠ 0
  · rw [if_pos hw]
    exact sharedEntry_addr hc hp
  · rw [if_neg hw]

theorem present_sourceEntry (hc : Covers mask) (hp : Present e) : Present (sourceEntry mask e) := by
  rw [← present_and_flagMask, sourceEntry_flags hc hp, present_shareFlags, present_and_flagMask]
  exact hp

theorem huge_sourceEntry (hc : Covers mask) (hp : Present e) :
    Huge (sourceEntry mask e) ↔ Huge e := by
  rw [← huge_and_flagMask, sourceEntry_flags hc hp, huge_shareFlags, huge_and_flagMask]

end Entry

/-! ## §3. Entries of a tree. -/

/-- What the clone's slot holds of a page at depth `d`. -/
def cloneLeaf (d : Nat) (e : Word) : Word := ((pageMask d e).map (sharedEntry · e)).getD e

/-- What the source's slot holds after its turn. -/
def sourceLeaf (d : Nat) (e : Word) : Word :=
  if Present e then ((pageMask d e).map (sourceEntry · e)).getD e else e

section Tree

variable {d : Nat} {mask e : Word}

theorem pageMask_congr {e' : Word} (h : Huge e' ↔ Huge e) : pageMask d e' = pageMask d e := by
  simp [pageMask, h]

theorem cloneLeaf_of_mask (hm : pageMask d e = some mask) : cloneLeaf d e = sharedEntry mask e := by
  rw [cloneLeaf, hm]
  rfl

theorem sourceLeaf_of_mask (hp : Present e) (hm : pageMask d e = some mask) :
    sourceLeaf d e = sourceEntry mask e := by
  rw [sourceLeaf, if_pos hp, hm]
  rfl

/-- What is no page is left alone. -/
theorem sourceLeaf_of_none (h : pageLeaf d e = none) : sourceLeaf d e = e := by
  unfold sourceLeaf
  by_cases hp : Present e
  · cases hm : pageMask d e with
    | none => rw [if_pos hp]; rfl
    | some mask =>
      rw [(pageLeaf_of_mask hp hm).1] at h
      cases h
  · rw [if_neg hp]

theorem present_sourceLeaf : Present (sourceLeaf d e) ↔ Present e := by
  by_cases hp : Present e
  · cases hm : pageMask d e with
    | none => rw [sourceLeaf, if_pos hp, hm]; rfl
    | some mask =>
      rw [sourceLeaf_of_mask hp hm]
      exact ⟨fun _ => hp, fun _ => present_sourceEntry (covers_of_pageMask hm) hp⟩
  · rw [sourceLeaf, if_neg hp]

theorem pageChild_cloneLeaf (hp : Present e) (hm : pageMask d e = some mask) :
    Present (cloneLeaf d e) ∧ pageChild d (cloneLeaf d e) = none := by
  have hc := covers_of_pageMask hm
  have hpres := present_sharedEntry hc hp
  rw [cloneLeaf_of_mask hm]
  exact ⟨hpres, (pageLeaf_of_mask hpres ((pageMask_congr (huge_sharedEntry hc hp)).trans hm)).2⟩

end Tree

end ZohoOs
