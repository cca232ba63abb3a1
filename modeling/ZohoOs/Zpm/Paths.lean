/-
  ZohoOs.Zpm.Paths — the paths that the package manager builds, and the sizes
  that it reads.

  Both path buffers hold 128 bytes.  The package's name is copied without a
  check, so a name of more than 113 bytes indexes beyond the end.  The name of
  a header is copied while it goes on; a name that fills its 100 bytes has no
  NUL byte, and the loop asks for byte 100.

    * `packageBuffer_fits`, `packageBuffer_panics` — the path of the package;
    * `targetBuffer_fits`, `targetBuffer_panics` — the path of an entry;
    * `octalToInt_eq` — the size of an entry.
-/
import ZohoOs.Zpm.Install
import Mathlib.Data.List.TakeWhile
import Mathlib.Data.Nat.Digits.Lemmas

namespace ZohoOs.Zpm

open ZohoOs.Lib

/-! ## §1. Numeric fields. -/

/-- The digits that are still to be read, behind the value of those before. -/
theorem octalToInt_loop {f : Text} (hdigits : ∀ c ∈ octalDigits f, 0x30 ≤ c ∧ c ≤ 0x37) (res : Nat) :
    octalToInt.loop f res = res * 8 ^ (octalDigits f).length +
      Nat.ofDigits 8 ((octalDigits f).reverse.map fun c => c.toNat - 0x30) := by
  induction f generalizing res with
  | nil => simp [octalToInt.loop, octalDigits]
  | cons c f ih =>
    rw [octalToInt.loop]
    by_cases hc : c = 0 ∨ c = 0x20
    · have hnone : octalDigits (c :: f) = [] := by
        rw [octalDigits, List.takeWhile_cons_of_neg]
        simpa [or_iff_not_imp_left] using hc
      rw [if_pos hc, hnone]
      simp
    · have hsome : octalDigits (c :: f) = c :: octalDigits f := by
        rw [octalDigits, List.takeWhile_cons_of_pos, octalDigits]
        simpa using hc
      rw [hsome] at hdigits ⊢
      obtain ⟨hlow, hhigh⟩ := hdigits c List.mem_cons_self
      have hdigit : (c - 0x30).toNat = c.toNat - 0x30 := by bv_omega
      rw [if_neg hc, ih fun x hx => hdigits x (List.mem_cons_of_mem c hx), List.reverse_cons, List.map_append,
        Nat.ofDigits_append, List.length_map, List.length_reverse, List.length_cons, hdigit, List.map_singleton,
        Nat.ofDigits_singleton, pow_succ]
      ring

/-- **The size of an entry** is decoded. -/
theorem octalToInt_eq {f : Text} {v : Nat} (h : HoldsOctal f v) : octalToInt f = v := by
  rw [octalToInt, octalToInt_loop h.1, Nat.zero_mul, Nat.zero_add]
  exact h.2

/-! ## §2. Copying to a buffer. -/

section Copy

variable {front src : Text} {k : Nat}

theorem setByte_fits (c : BitVec 8) :
    setByte (front ++ List.replicate (k + 1) 0) front.length c = .ok ((front ++ [c]) ++ List.replicate k 0) := by
  have hlt : front.length < (front ++ List.replicate (k + 1) (0 : BitVec 8)).length := by
    rw [List.length_append, List.length_replicate]
    omega
  rw [setByte, if_pos hlt, List.set_append_right _ _ (Nat.le_refl _), Nat.sub_self, List.replicate_succ,
    List.set_cons_zero, List.append_assoc]
  rfl

theorem setByte_panics (c : BitVec 8) :
    setByte (front ++ List.replicate 0 0) front.length c = .error ⟨front.length, front.length⟩ := by
  rw [List.replicate_zero, List.append_nil, setByte, if_neg (lt_irrefl _)]

/-- **A copy that fits.** -/
theorem copyBytes_fits (h : src.length ≤ k) :
    copyBytes src front.length (front ++ List.replicate k 0) =
      .ok ((front ++ src) ++ List.replicate (k - src.length) 0, (front ++ src).length) := by
  induction src generalizing front k with
  | nil => simp [copyBytes]
  | cons c src ih =>
    obtain ⟨k, rfl⟩ : ∃ k', k = k' + 1 := ⟨k - 1, by rw [List.length_cons] at h; omega⟩
    have hrest : src.length ≤ k := by
      rw [List.length_cons] at h
      omega
    have hstep := @ih (front ++ [c]) k hrest
    rw [List.length_append, List.length_singleton] at hstep
    rw [copyBytes, setByte_fits]
    show copyBytes src (front.length + 1) _ = _
    rw [hstep, ← List.append_cons, List.length_cons, Nat.add_sub_add_right]

/-- **A copy that does not fit** indexes behind the end. -/
theorem copyBytes_panics (h : k < src.length) :
    copyBytes src front.length (front ++ List.replicate k 0) = .error ⟨front.length + k, front.length + k⟩ := by
  induction src generalizing front k with
  | nil => exact absurd h (Nat.not_lt_zero k)
  | cons c src ih =>
    rw [copyBytes]
    cases k with
    | zero =>
      rw [setByte_panics]
      rfl
    | succ k =>
      have hstep := @ih (front ++ [c]) k (by rw [List.length_cons] at h; omega)
      rw [List.length_append, List.length_singleton] at hstep
      rw [setByte_fits]
      show copyBytes src (front.length + 1) _ = _
      rw [hstep, Nat.add_assoc, Nat.add_comm 1 k]

/-- A string in a buffer, up to the NUL byte behind it. -/
theorem cString_eq {s rest : Text} (hs : ∀ c ∈ s, c ≠ 0) : cString ((s ++ [0]) ++ rest) = s := by
  rw [cString, List.append_assoc, List.takeWhile_append_of_pos fun c hc => by simpa using hs c hc]
  simp

end Copy

/-! ## §3. The path of the package. -/

section Package

variable {pkgName : Text}

theorem packagePath_ne_nul (hname : ∀ c ∈ pkgName, c ≠ 0) : ∀ c ∈ packagePath pkgName, c ≠ 0 := by
  have hfront : ∀ c ∈ packagesPrefix, c ≠ 0 := by decide
  have hback : ∀ c ∈ tarSuffix, c ≠ 0 := by decide
  intro c hc
  rcases List.mem_append.mp hc with hc | hc
  · exact hfront c hc
  · rcases List.mem_append.mp hc with hc | hc
    · exact hname c hc
    · exact hback c hc

theorem copy_packagesPrefix : copyBytes packagesPrefix 0 (List.replicate 128 0) =
    .ok (packagesPrefix ++ List.replicate 118 0, packagesPrefix.length) :=
  @copyBytes_fits [] packagesPrefix 128 (by decide)

/-- **A package name of at most 113 bytes** fits. -/
theorem packageBuffer_fits (h : pkgName.length ≤ 113) :
    ∃ rest, packageBuffer pkgName = .ok ((packagePath pkgName ++ [0]) ++ rest) := by
  have hname := @copyBytes_fits packagesPrefix pkgName 118 (by omega)
  have hsuffix := @copyBytes_fits (packagesPrefix ++ pkgName) tarSuffix (118 - pkgName.length)
    (show 4 ≤ 118 - pkgName.length by omega)
  obtain ⟨k, hk⟩ : ∃ k, 118 - pkgName.length - tarSuffix.length = k + 1 :=
    ⟨113 - pkgName.length, show 118 - pkgName.length - 4 = _ by omega⟩
  rw [hk] at hsuffix
  have hend := @setByte_fits (packagesPrefix ++ pkgName ++ tarSuffix) k 0
  refine ⟨List.replicate k 0, ?_⟩
  rw [packageBuffer, copy_packagesPrefix]
  show (copyBytes pkgName _ _ >>= _) = _
  rw [hname]
  show (copyBytes tarSuffix _ _ >>= _) = _
  rw [hsuffix]
  show setByte _ _ _ = _
  rw [hend, packagePath, List.append_assoc packagesPrefix]

/-- **A longer package name** is written beyond the end of the buffer. -/
theorem packageBuffer_panics (h : 113 < pkgName.length) : packageBuffer pkgName = .error ⟨128, 128⟩ := by
  rw [packageBuffer, copy_packagesPrefix]
  show (copyBytes pkgName _ _ >>= _) = _
  by_cases hfits : pkgName.length ≤ 118
  · rw [copyBytes_fits hfits]
    show (copyBytes tarSuffix _ _ >>= _) = _
    by_cases hlast : pkgName.length = 114
    · -- the path fits without its NUL byte
      have hsuffix := @copyBytes_fits (packagesPrefix ++ pkgName) tarSuffix (118 - pkgName.length)
        (show 4 ≤ 118 - pkgName.length by omega)
      have hk : 118 - pkgName.length - tarSuffix.length = 0 := show 118 - pkgName.length - 4 = 0 by omega
      rw [hk] at hsuffix
      rw [hsuffix]
      show setByte _ _ _ = _
      rw [setByte_panics, List.length_append, List.length_append, hlast]
      rfl
    · rw [copyBytes_panics (show 118 - pkgName.length < 4 by omega), List.length_append]
      show Except.error _ = _
      rw [show packagesPrefix.length = 10 from rfl, show 10 + pkgName.length + (118 - pkgName.length) = 128 by omega]
  · rw [copyBytes_panics (by omega)]
    rfl

end Package

/-! ## §4. The path of an entry. -/

section Target

variable {header : Text}

theorem length_fieldName_le (header : Text) : (fieldName header).length ≤ 100 :=
  (List.takeWhile_prefix _).length_le.trans (List.length_take_le 100 header)

theorem fieldName_ne_nul (header : Text) : ∀ c ∈ fieldName header, c ≠ 0 := by
  intro c hc
  simpa using List.mem_takeWhile_imp hc

/-- **The name is copied from byte `hn` on**, unless it goes on behind byte
    99. -/
theorem copyName_eq (hlen : header.length = 512) {m hn left k : Nat} {front rest : Text} (hm : hn + m = 100)
    (hleft : m < left) (hfront : front.length = 5 + hn) (hk : k = 23 + m)
    (hrest : ((header.take 100).drop hn).takeWhile (fun c => c ≠ 0) = rest) :
    copyName header left hn front.length (front ++ List.replicate k 0) =
      if hn + rest.length < 100 then
        .ok ((front ++ rest) ++ List.replicate (k - rest.length) 0, (front ++ rest).length)
      else .error ⟨100, 100⟩ := by
  induction m generalizing hn left k front rest with
  | zero =>
    obtain ⟨left, rfl⟩ : ∃ l, left = l + 1 := ⟨left - 1, by omega⟩
    have hnone : rest = [] := by
      rw [← hrest, List.drop_eq_nil_of_le (by rw [List.length_take]; omega)]
      rfl
    rw [copyName, headerName, if_neg (by omega), hnone, List.length_nil, if_neg (by omega), show hn = 100 by omega]
    rfl
  | succ m ih =>
    obtain ⟨left, rfl⟩ : ∃ l, left = l + 1 := ⟨left - 1, by omega⟩
    have hcons : (header.take 100).drop hn = header.getD hn 0 :: (header.take 100).drop (hn + 1) := by
      rw [List.drop_eq_getElem_cons (by rw [List.length_take]; omega), List.getElem_take,
        List.getD_eq_getElem _ _ (by omega)]
    rw [hcons] at hrest
    rw [copyName, headerName, if_pos (by omega)]
    show (if header.getD hn 0 ≠ 0 ∧ front.length < 127 then _ else _) = _
    by_cases hc : header.getD hn 0 = 0
    · -- the NUL byte behind the name
      have hnone : rest = [] := by
        rw [← hrest, List.takeWhile_cons_of_neg]
        simpa using hc
      rw [if_neg fun hne => hne.1 hc, hnone, List.length_nil, if_pos (by omega), List.append_nil, Nat.sub_zero]
    · obtain ⟨k', rfl⟩ : ∃ k', k = k' + 1 := ⟨k - 1, by omega⟩
      rw [if_pos ⟨hc, by omega⟩, setByte_fits]
      rw [List.takeWhile_cons_of_pos (by simpa using hc)] at hrest
      have hlast : (front ++ [header.getD hn 0]).length = front.length + 1 := by
        rw [List.length_append, List.length_singleton]
      have hstep := @ih (hn + 1) left k' (front ++ [header.getD hn 0]) _ (by omega) (by omega)
        (by rw [hlast]; omega) (by omega) rfl
      rw [hlast] at hstep
      show copyName header left (hn + 1) (front.length + 1) _ = _
      rw [hstep, ← List.append_cons, ← hrest, List.length_cons, Nat.add_assoc, Nat.add_comm 1, Nat.add_sub_add_right]

theorem copy_binDirectory : copyBytes binDirectory 0 (List.replicate 128 0) =
    .ok (binDirectory ++ List.replicate 123 0, binDirectory.length) :=
  @copyBytes_fits [] binDirectory 128 (by decide)

/-- **A name that ends in the field** gives the path `/bin/<name>`. -/
theorem targetBuffer_fits (hlen : header.length = 512) (hname : (fieldName header).length ≤ 99) :
    ∃ rest, targetBuffer header = .ok ((binDirectory ++ fieldName header ++ [0]) ++ rest) := by
  have hcopy := @copyName_eq header hlen 100 0 128 123 binDirectory (fieldName header) rfl (by decide) rfl rfl
    (by rw [List.drop_zero]; rfl)
  rw [Nat.zero_add, if_pos (by omega)] at hcopy
  obtain ⟨k, hk⟩ : ∃ k, 123 - (fieldName header).length = k + 1 := ⟨122 - (fieldName header).length, by omega⟩
  rw [hk] at hcopy
  have hend := @setByte_fits (binDirectory ++ fieldName header) k 0
  refine ⟨List.replicate k 0, ?_⟩
  rw [targetBuffer, copy_binDirectory]
  show (copyName header 128 0 _ _ >>= _) = _
  rw [hcopy]
  exact hend

/-- **A name that fills its field** is read beyond the end. -/
theorem targetBuffer_panics (hlen : header.length = 512) (hname : (fieldName header).length = 100) :
    targetBuffer header = .error ⟨100, 100⟩ := by
  have hcopy := @copyName_eq header hlen 100 0 128 123 binDirectory (fieldName header) rfl (by decide) rfl rfl
    (by rw [List.drop_zero]; rfl)
  rw [Nat.zero_add, if_neg (by omega)] at hcopy
  rw [targetBuffer, copy_binDirectory]
  show (copyName header 128 0 _ _ >>= _) = _
  rw [hcopy]
  rfl

/-- The path has no NUL byte. -/
theorem path_ne_nul (header : Text) : ∀ c ∈ binDirectory ++ fieldName header, c ≠ 0 := by
  have hfront : ∀ c ∈ binDirectory, c ≠ 0 := by decide
  intro c hc
  rcases List.mem_append.mp hc with hc | hc
  · exact hfront c hc
  · exact fieldName_ne_nul header c hc

end Target

end ZohoOs.Zpm
