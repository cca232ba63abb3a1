/-
  ZohoOs.Libc.Printf — formatting of log messages (printf.c).

  `vsnprintf` writes the expansion of a format into a buffer of `size` bytes,
  as far as it fits, and a NUL behind it.  Digits are produced backwards, into
  a buffer of their own, and turned around there.

  Main results:
    * `reverse_eq`, `itoa_eq` — the swaps reverse, and the digits are those of
      the number;
    * `vsnprintfLoop_spec` — the loop over the format, from any index on;
    * `vsnprintf_formats` — what is written, returned, and read back.
-/
import Mathlib.Data.Nat.Digits.Lemmas
import ZohoOs.Lib.Bytes
import ZohoOs.Lib.Logged

namespace ZohoOs

open ZohoOs.Lib

/-! ## §1. Digits. -/

/-- The loop of `reverse`, from `i` and `j` on. -/
def reverseLoop : Nat → Text → Nat → Nat → Text
  | 0, s, _, _ => s
  | fuel + 1, s, i, j =>
    if i < j then
      let c := s.getD i 0
      reverseLoop fuel ((s.set i (s.getD j 0)).set j c) (i + 1) (j - 1)
    else s

/-- `reverse`. -/
def reverse (s : Text) : Text := reverseLoop s.length s 0 (s.length - 1)

/-- A digit; `rem` is the `int` of that name. -/
def digitChar (rem : Nat) : BitVec 8 := BitVec.ofNat 8 (if rem > 9 then rem - 10 + 0x61 else rem + 0x30)

/-- `while (n > 0)`, for at most `fuel` digits. -/
def itoaLoop (base : BitVec 64) : Nat → BitVec 64 → Text
  | 0, _ => []
  | fuel + 1, n =>
    if n > 0 then digitChar (n % base).toNat :: itoaLoop base fuel (n / base) else []

/-- `itoa`: the string in `s`.  A number of 64 bits has at most 64 digits. -/
def itoa (n base : BitVec 64) : Text :=
  reverse (if n = 0 then [0x30] else itoaLoop base 64 n)

/-! ## §2. `vsnprintf`. -/

/-- A write of a byte to `str[index]`. -/
structure StrStore where
  index : Nat
  byte : BitVec 8

/-- An argument, with the type it is passed with; a string up to its NUL. -/
inductive VaArg
  | int (n : BitVec 32)
  | int64 (n : BitVec 64)
  | uint64 (n : BitVec 64)
  | pointer (a : BitVec 64)
  | string (s : Text)

namespace VaArg

def int? : VaArg → Option (BitVec 32)
  | int n => some n
  | _ => none

def int64? : VaArg → Option (BitVec 64)
  | int64 n => some n
  | _ => none

def uint64? : VaArg → Option (BitVec 64)
  | uint64 n => some n
  | _ => none

def pointer? : VaArg → Option (BitVec 64)
  | pointer a => some a
  | _ => none

def string? : VaArg → Option Text
  | string s => some s
  | _ => none

end VaArg

/-- `va_arg`: the next argument, if it has the type asked for, and the others. -/
def vaArg {α : Type} (type : VaArg → Option α) (args : List VaArg) : Option (α × List VaArg) :=
  args.head?.bind fun a => (type a).map fun v => (v, args.tail)

/-- `while (*s != '\0' && i < size - 1) str[i++] = *s++`; the new `i`. -/
def putString (size : Nat) : Text → Nat → Logged StrStore Nat
  | [], i => pure i
  | c :: s, i =>
    if i < size - 1 then do
      Logged.tell ⟨i, c⟩
      putString size s (i + 1)
    else pure i

/-- `str[i++] = c`. -/
def putChar (c : BitVec 8) (i : Nat) : Logged StrStore Nat := do
  Logged.tell ⟨i, c⟩
  pure (i + 1)

/-- The body of `case 'd'`. -/
def putSigned (size : Nat) (n : BitVec 64) (i : Nat) : Logged StrStore Nat := do
  let i ← if n.slt 0 then putChar 0x2D i else pure i
  let n := if n.slt 0 then -n else n
  putString size (itoa n 10) i

/-- A case that takes an argument: the new `i`, and the arguments that are left. -/
def convert {α : Type} (type : VaArg → Option α) (put : α → Nat → Logged StrStore Nat)
    (args : List VaArg) (i : Nat) : Logged StrStore (Option (Nat × List VaArg)) :=
  (vaArg type args).elim (pure none) fun a => do
    let i ← put a.1 i
    pure (some (i, a.2))

/-- `switch (*p)`. -/
def vsnprintfSwitch (size : Nat) (c : BitVec 8) (args : List VaArg) (i : Nat) :
    Logged StrStore (Option (Nat × List VaArg)) :=
  if c = 0x63 then convert VaArg.int? (fun n => putChar (n.setWidth 8)) args i
  else if c = 0x73 then convert VaArg.string? (putString size) args i
  else if c = 0x64 then convert VaArg.int64? (putSigned size) args i
  else if c = 0x75 then convert VaArg.uint64? (fun n => putString size (itoa n 10)) args i
  else if c = 0x78 then convert VaArg.uint64? (fun n => putString size (itoa n 16)) args i
  else if c = 0x70 then convert VaArg.pointer? (fun a => putString size (itoa a 16)) args i
  else if c = 0x25 then do
    let i ← putChar 0x25 i
    pure (some (i, args))
  else do
    let i ← putChar c i
    pure (some (i, args))

/-- The loop over the format: the last `i`.  There is none if an argument is
    missing or has another type, or if the format ends behind a `%`. -/
def vsnprintfLoop (size : Nat) : Text → List VaArg → Nat → Logged StrStore (Option Nat)
  | [], _, i => pure (some i)
  | [c], _, i =>
    if i < size - 1 then
      if c ≠ 0x25 then do
        let i ← putChar c i
        pure (some i)
      else pure none
    else pure (some i)
  | c :: d :: p, args, i =>
    if i < size - 1 then
      if c ≠ 0x25 then do
        let i ← putChar c i
        vsnprintfLoop size (d :: p) args i
      else do
        let r ← vsnprintfSwitch size d args i
        r.elim (pure none) fun r => vsnprintfLoop size p r.2 r.1
    else pure (some i)

/-- `vsnprintf`; the result is `(int)i`. -/
def vsnprintf (size : Nat) (format : Text) (ap : List VaArg) : Logged StrStore (Option (BitVec 32)) := do
  let i ← vsnprintfLoop size format ap 0
  i.elim (pure none) fun i => do
    Logged.tell ⟨i, 0⟩
    pure (some (BitVec.ofNat 32 i))

/-! ## §3. The reference. -/

/-- The digits of `n`, highest first; `0` has one. -/
def refDigits (base n : Nat) : Text :=
  if n = 0 then [digitChar 0] else ((Nat.digits base n).map digitChar).reverse

/-- Signed decimal. -/
def refSigned (n : Int) : Text :=
  if n < 0 then 0x2D :: refDigits 10 n.natAbs else refDigits 10 n.natAbs

/-- What a conversion expands to, and the arguments that are left. -/
def refConversion (c : BitVec 8) (args : List VaArg) : Option (Text × List VaArg) :=
  if c = 0x63 then (vaArg VaArg.int? args).map fun a => ([a.1.setWidth 8], a.2)
  else if c = 0x73 then vaArg VaArg.string? args
  else if c = 0x64 then (vaArg VaArg.int64? args).map fun a => (refSigned a.1.toInt, a.2)
  else if c = 0x75 then (vaArg VaArg.uint64? args).map fun a => (refDigits 10 a.1.toNat, a.2)
  else if c = 0x78 then (vaArg VaArg.uint64? args).map fun a => (refDigits 16 a.1.toNat, a.2)
  else if c = 0x70 then (vaArg VaArg.pointer? args).map fun a => (refDigits 16 a.1.toNat, a.2)
  else some ([c], args)

/-- **The reference expansion** of a format.  There is none if the arguments do
    not match, or if the format ends in a lone `%`. -/
def expansion : Text → List VaArg → Option Text
  | [], _ => some []
  | [c], _ => if c = 0x25 then none else some [c]
  | c :: d :: p, args =>
    if c = 0x25 then (refConversion d args).bind fun r => (expansion p r.2).map fun t => r.1 ++ t
    else (expansion (d :: p) args).map fun t => c :: t

/-- The value of a row of digits. -/
def digitValue (c : BitVec 8) : Nat := if c.toNat < 0x61 then c.toNat - 0x30 else c.toNat - 0x61 + 10

def parseDigits (base : Nat) (ds : Text) : Nat := ds.foldl (fun v c => v * base + digitValue c) 0

def parseSigned (ds : Text) : Int :=
  if ds.head? = some 0x2D then -(parseDigits 10 ds.tail : Int) else parseDigits 10 ds

/-! ## §4. The digits of a number. -/

section Reverse

/-- One turn of `reverse` swaps two characters. -/
theorem swap_getD {s : Text} {i j : Nat} (hi : i < s.length) (hj : j < s.length) (k : Nat) :
    ((s.set i (s.getD j 0)).set j (s.getD i 0)).getD k 0 =
      if k = j then s.getD i 0 else if k = i then s.getD j 0 else s.getD k 0 := by
  simp only [List.getD_eq_getElem?_getD, List.getElem?_set, List.length_set]
  by_cases hkj : j = k
  · subst hkj
    rw [if_pos rfl, if_pos hj, if_pos rfl]
    rfl
  · rw [if_neg hkj, if_neg (Ne.symm hkj)]
    by_cases hki : i = k
    · subst hki
      rw [if_pos rfl, if_pos hi, if_pos rfl]
      rfl
    · rw [if_neg hki, if_neg (Ne.symm hki)]

theorem reverseLoop_length (fuel : Nat) (s : Text) (i j : Nat) :
    (reverseLoop fuel s i j).length = s.length := by
  induction fuel generalizing s i j with
  | zero => rfl
  | succ fuel ih =>
    unfold reverseLoop
    by_cases hlt : i < j
    · rw [if_pos hlt, ih, List.length_set, List.length_set]
    · rw [if_neg hlt]

/-- **The swaps** turn the characters from `i` to `j` around, and leave the
    others alone. -/
theorem reverseLoop_getD {fuel : Nat} {s : Text} {i j : Nat} (hj : j < s.length) (hfuel : j ≤ i + 2 * fuel)
    (k : Nat) :
    (reverseLoop fuel s i j).getD k 0 = if i ≤ k ∧ k ≤ j then s.getD (i + j - k) 0 else s.getD k 0 := by
  -- where the indices have met, only `k = i = j` is left
  have hmet : j ≤ i → s.getD k 0 = if i ≤ k ∧ k ≤ j then s.getD (i + j - k) 0 else s.getD k 0 := by
    intro hle
    by_cases hk : i ≤ k ∧ k ≤ j
    · have hsame : i + j - k = k := by omega
      rw [if_pos hk, hsame]
    · rw [if_neg hk]
  induction fuel generalizing s i j with
  | zero => exact hmet (by omega)
  | succ fuel ih =>
    unfold reverseLoop
    by_cases hlt : i < j
    · rw [if_pos hlt]
      dsimp only
      have hi : i < s.length := hlt.trans hj
      have hswap := swap_getD hi hj
      rw [ih (by rw [List.length_set, List.length_set]; omega) (by omega) (fun hle => ?_)]
      · have hmirror : i + 1 + (j - 1) - k = i + j - k := by omega
        rw [hmirror, hswap, hswap]
        by_cases hk : i ≤ k ∧ k ≤ j
        · rw [if_pos hk]
          by_cases hki : k = i
          · have hother : i + j - k = j := by omega
            rw [if_neg (by omega), if_neg (by omega), if_pos hki, hother]
          · by_cases hkj : k = j
            · have hother : i + j - k = i := by omega
              rw [if_neg (by omega), if_pos hkj, hother]
            · rw [if_pos (by omega), if_neg (by omega), if_neg (by omega)]
        · rw [if_neg hk, if_neg (by omega), if_neg (by omega), if_neg (by omega)]
      · by_cases hk : i + 1 ≤ k ∧ k ≤ j - 1
        · have hsame : i + 1 + (j - 1) - k = k := by omega
          rw [if_pos hk, hsame]
        · rw [if_neg hk]
    · rw [if_neg hlt]
      exact hmet (by omega)

/-- **`reverse` reverses.** -/
theorem reverse_eq (s : Text) : reverse s = s.reverse := by
  unfold reverse
  apply List.ext_getElem
  · rw [reverseLoop_length, List.length_reverse]
  · intro k hk hk'
    rw [reverseLoop_length] at hk
    have hget := reverseLoop_getD (show s.length - 1 < s.length by omega)
      (show s.length - 1 ≤ 0 + 2 * s.length by omega) k
    rw [if_pos (by omega)] at hget
    rw [← List.getD_eq_getElem _ 0, hget, List.getElem_reverse, List.getD_eq_getElem _ 0 (by omega)]
    congr 1
    omega

end Reverse

section Itoa

/-- The digits that `itoa` produces, lowest first. -/
theorem itoaLoop_eq {base : BitVec 64} (hbase : 1 < base.toNat) {fuel : Nat} {n : BitVec 64}
    (hn : n.toNat < base.toNat ^ fuel) :
    itoaLoop base fuel n = (Nat.digits base.toNat n.toNat).map digitChar := by
  induction fuel generalizing n with
  | zero =>
    have hzero : n.toNat = 0 := by
      rw [Nat.pow_zero] at hn
      omega
    rw [hzero, Nat.digits_zero]
    rfl
  | succ fuel ih =>
    unfold itoaLoop
    by_cases hpos : 0 < n.toNat
    · have hdiv : (n / base).toNat = n.toNat / base.toNat := BitVec.toNat_udiv
      have hmod : (n % base).toNat = n.toNat % base.toNat := BitVec.toNat_umod
      have hless : (n / base).toNat < base.toNat ^ fuel := by
        rw [hdiv, Nat.div_lt_iff_lt_mul (by omega)]
        exact hn
      rw [if_pos (show n > 0 from hpos), ih hless, Nat.digits_def' hbase hpos, List.map_cons, hmod, hdiv]
    · have hzero : n.toNat = 0 := by omega
      rw [if_neg (show ¬ n > 0 from hpos), hzero, Nat.digits_zero]
      rfl

/-- **`itoa` gives the digits of the number.** -/
theorem itoa_eq {base : BitVec 64} (hbase : 1 < base.toNat) (n : BitVec 64) :
    itoa n base = refDigits base.toNat n.toNat := by
  have hfuel : n.toNat < base.toNat ^ 64 :=
    n.isLt.trans_le (Nat.pow_le_pow_left hbase 64)
  unfold itoa refDigits
  rw [reverse_eq]
  by_cases hzero : n = 0
  · rw [if_pos hzero, if_pos (by rw [hzero]; rfl)]
    rfl
  · have hne : n.toNat ≠ 0 := fun h => hzero (BitVec.eq_of_toNat_eq h)
    rw [if_neg hzero, if_neg hne, itoaLoop_eq hbase hfuel]

/-- A digit is read back. -/
theorem digitValue_digitChar {d : Nat} (hd : d < 16) : digitValue (digitChar d) = d := by
  revert d
  decide

/-- **The digits are read back.** -/
theorem parseDigits_refDigits {base : Nat} (hbase : 1 < base) (hsmall : base ≤ 16) (n : Nat) :
    parseDigits base (refDigits base n) = n := by
  unfold refDigits
  by_cases hzero : n = 0
  · rw [if_pos hzero, hzero]
    show 0 * base + digitValue (digitChar 0) = 0
    rw [digitValue_digitChar (by decide), Nat.zero_mul]
  · have hdigits : ∀ d ∈ Nat.digits base n, digitValue (digitChar d) = d := fun d hd =>
      digitValue_digitChar ((Nat.digits_lt_base hbase hd).trans_le hsmall)
    rw [if_neg hzero]
    unfold parseDigits
    rw [List.foldl_reverse, List.foldr_map]
    have hfoldr : (Nat.digits base n).foldr (fun d v => v * base + digitValue (digitChar d)) 0 =
        Nat.ofDigits base (Nat.digits base n) := by
      rw [Nat.ofDigits_eq_foldr]
      refine List.foldr_ext _ _ _ fun d hd v => ?_
      rw [hdigits d hd, Nat.add_comm, Nat.mul_comm]
      rfl
    exact hfoldr.trans (Nat.ofDigits_digits base n)

/-- The characters are digits. -/
theorem mem_refDigits {base n : Nat} (hbase : 1 < base) (hsmall : base ≤ 16) {c : BitVec 8}
    (hc : c ∈ refDigits base n) : ∃ d < 16, c = digitChar d := by
  unfold refDigits at hc
  by_cases hzero : n = 0
  · rw [if_pos hzero] at hc
    exact ⟨0, by decide, List.mem_singleton.mp hc⟩
  · rw [if_neg hzero, List.mem_reverse, List.mem_map] at hc
    obtain ⟨d, hd, rfl⟩ := hc
    exact ⟨d, (Nat.digits_lt_base hbase hd).trans_le hsmall, rfl⟩

/-- **No leading zeros**, but for the number 0. -/
theorem refDigits_head {base n : Nat} (hbase : 1 < base) (hsmall : base ≤ 16) (hn : n ≠ 0) :
    (refDigits base n).head? ≠ some 0x30 := by
  intro hhead
  unfold refDigits at hhead
  rw [if_neg hn, List.head?_reverse, List.getLast?_map] at hhead
  obtain ⟨d, hd, hchar⟩ := Option.map_eq_some_iff.mp hhead
  -- the highest digit is not 0
  have hne : Nat.digits base n ≠ [] := Nat.digits_ne_nil_iff_ne_zero.mpr hn
  have hpos : d ≠ 0 := by
    rw [← Option.some.inj ((List.getLast?_eq_some_getLast hne).symm.trans hd)]
    exact Nat.getLast_digit_ne_zero base hn
  have hlt : d < 16 :=
    (Nat.digits_lt_base hbase (List.mem_of_getLast? hd)).trans_le hsmall
  have hvalue := digitValue_digitChar hlt
  rw [hchar] at hvalue
  exact hpos hvalue.symm

/-- **Signed decimals are read back**, also the least one. -/
theorem parseSigned_refSigned (n : Int) : parseSigned (refSigned n) = n := by
  have hparse := parseDigits_refDigits (show 1 < 10 by decide) (by decide) n.natAbs
  unfold parseSigned refSigned
  by_cases hneg : n < 0
  · rw [if_pos hneg, List.head?_cons, if_pos rfl, List.tail_cons, hparse]
    omega
  · have hsign : (refDigits 10 n.natAbs).head? ≠ some 0x2D := by
      intro hhead
      obtain ⟨d, hd, hchar⟩ := mem_refDigits (by decide) (by decide) (List.mem_of_head? hhead)
      revert d
      decide
    rw [if_neg hneg, if_neg hsign, hparse]
    omega

end Itoa

/-! ## §5. What is put into the buffer. -/

/-- The writes of a text, from index `i` on. -/
def storesFrom : Nat → Text → List StrStore
  | _, [] => []
  | i, c :: t => ⟨i, c⟩ :: storesFrom (i + 1) t

theorem storesFrom_append (i : Nat) (t t' : Text) :
    storesFrom i (t ++ t') = storesFrom i t ++ storesFrom (i + t.length) t' := by
  induction t generalizing i with
  | nil => rfl
  | cons c t ih =>
    rw [List.cons_append, List.length_cons, Nat.add_comm t.length, ← Nat.add_assoc]
    exact congrArg (⟨i, c⟩ :: ·) (ih (i + 1))

theorem mem_storesFrom {i : Nat} {t : Text} {e : StrStore} (he : e ∈ storesFrom i t) :
    i ≤ e.index ∧ e.index < i + t.length := by
  induction t generalizing i with
  | nil => cases he
  | cons c t ih =>
    rw [List.length_cons]
    rcases List.mem_cons.mp he with rfl | he
    · exact ⟨le_rfl, show i < i + (t.length + 1) by omega⟩
    · have hrest := ih he
      omega

/-- **The text is put into the buffer** from `i` on, as far as it fits; `j` is
    the index behind it. -/
structure Puts (size i : Nat) (t : Text) (j : Nat) (log : List StrStore) : Prop where
  next : j = min (size - 1) (i + t.length)
  log : log = storesFrom i (t.take (size - 1 - i))

section Puts

variable {size i : Nat}

/-- One text behind the other. -/
theorem storesFrom_take_append {m : Nat} (hi : i ≤ m) (t t' : Text) :
    storesFrom i ((t ++ t').take (m - i)) =
      storesFrom i (t.take (m - i)) ++
        storesFrom (min m (i + t.length)) (t'.take (m - min m (i + t.length))) := by
  rw [List.take_append, storesFrom_append, List.length_take]
  congr 1
  by_cases hfits : i + t.length ≤ m
  · have hstart : i + min (m - i) t.length = min m (i + t.length) := by omega
    have hroom : m - i - t.length = m - min m (i + t.length) := by omega
    rw [hstart, hroom]
  · -- no room is left for the second text
    have hnone : m - i - t.length = 0 := by omega
    have hnone' : m - min m (i + t.length) = 0 := by omega
    rw [hnone, hnone', List.take_zero]
    rfl

theorem Puts.append {t t' : Text} {j k : Nat} {log log' : List StrStore} (hi : i ≤ size - 1)
    (h : Puts size i t j log) (h' : Puts size j t' k log') : Puts size i (t ++ t') k (log ++ log') := by
  constructor
  · rw [h'.next, h.next, List.length_append]
    omega
  · rw [h'.log, h.log, h.next, storesFrom_take_append hi]

/-- Where the buffer is full, nothing is put into it. -/
theorem Puts.full (hi : i ≤ size - 1) (hfull : ¬ i < size - 1) (t : Text) : Puts size i t i [] := by
  have hroom : size - 1 - i = 0 := by omega
  constructor
  · omega
  · rw [hroom]
    rfl

theorem putChar_puts (hi : i < size - 1) (c : BitVec 8) : Puts size i [c] (putChar c i).val (putChar c i).log := by
  constructor
  · show i + 1 = min (size - 1) (i + 1)
    omega
  · obtain ⟨k, hk⟩ : ∃ k, size - 1 - i = k + 1 := ⟨size - 1 - i - 1, by omega⟩
    rw [hk, List.take_succ_cons, List.take_nil]
    rfl

theorem putString_puts (hi : i ≤ size - 1) (s : Text) :
    Puts size i s (putString size s i).val (putString size s i).log := by
  induction s generalizing i with
  | nil =>
    constructor
    · show i = min (size - 1) (i + 0)
      omega
    · rw [List.take_nil]
      rfl
  | cons c s ih =>
    unfold putString
    by_cases hlt : i < size - 1
    · rw [if_pos hlt]
      -- the first character, and the others behind it
      exact (putChar_puts hlt c).append hi (ih (show i + 1 ≤ size - 1 by omega))
    · rw [if_neg hlt]
      exact .full hi hlt _

theorem putUnsigned_puts (hi : i ≤ size - 1) {base : BitVec 64} (hbase : 1 < base.toNat) (n : BitVec 64) :
    Puts size i (refDigits base.toNat n.toNat) (putString size (itoa n base) i).val
      (putString size (itoa n base) i).log := by
  rw [itoa_eq hbase]
  exact putString_puts hi _

/-- A negative number, also the least one, has the digits of its negation. -/
theorem toNat_neg_of_slt {n : BitVec 64} (hneg : n.toInt < 0) : (-n).toNat = n.toInt.natAbs := by
  have hlt := n.isLt
  rw [BitVec.toInt_eq_toNat_cond] at hneg ⊢
  rw [BitVec.toNat_neg]
  split_ifs at hneg ⊢ <;> omega

theorem putSigned_puts (hi : i < size - 1) (n : BitVec 64) :
    Puts size i (refSigned n.toInt) (putSigned size n i).val (putSigned size n i).log := by
  have hzero : (0 : BitVec 64).toInt = 0 := rfl
  unfold putSigned refSigned
  by_cases hneg : n.toInt < 0
  · have hslt : n.slt 0 = true := BitVec.slt_iff_toInt_lt.mpr (by rw [hzero]; exact hneg)
    rw [if_pos hslt, if_pos hslt, if_pos hneg, ← toNat_neg_of_slt hneg]
    exact (putChar_puts hi 0x2D).append hi.le
      (@putUnsigned_puts size (i + 1) (by omega) 10 (by decide) (-n))
  · have hslt : ¬ n.slt 0 = true := fun h => hneg (hzero ▸ BitVec.slt_iff_toInt_lt.mp h)
    have hnat : n.toInt.natAbs = n.toNat := by
      have hlt := n.isLt
      rw [BitVec.toInt_eq_toNat_cond] at hneg ⊢
      split_ifs at hneg ⊢ <;> omega
    rw [if_neg hslt, if_neg hslt, if_neg hneg, hnat]
    exact @putUnsigned_puts size i hi.le 10 (by decide) n

end Puts

/-! ## §6. The format. -/

section Format

variable {size i : Nat} {args : List VaArg}

/-- **A conversion**: the text is put into the buffer, and `rest` is left. -/
def Converts (size i : Nat) (t : Text) (rest : List VaArg)
    (x : Logged StrStore (Option (Nat × List VaArg))) : Prop :=
  ∃ j, x.val = some (j, rest) ∧ Puts size i t j x.log

/-- A case that puts a text into the buffer. -/
theorem converts_of_puts {t : Text} {x : Logged StrStore Nat} (h : Puts size i t x.val x.log) :
    Converts size i t args (x >>= fun i => pure (some (i, args))) := by
  refine ⟨x.val, rfl, ?_⟩
  rw [Logged.log_bind, Logged.log_pure, List.append_nil]
  exact h

/-- A case that takes an argument. -/
theorem convert_converts {α : Type} {type : VaArg → Option α} {put : α → Nat → Logged StrStore Nat}
    {a : α × List VaArg} {t : Text} (ha : vaArg type args = some a)
    (h : Puts size i t (put a.1 i).val (put a.1 i).log) :
    Converts size i t a.2 (convert type put args i) := by
  unfold convert
  rw [ha]
  exact converts_of_puts h

/-- **The switch** puts the expansion of the conversion into the buffer. -/
theorem vsnprintfSwitch_converts (hi : i < size - 1) {c : BitVec 8} {r : Text × List VaArg}
    (href : refConversion c args = some r) :
    Converts size i r.1 r.2 (vsnprintfSwitch size c args i) := by
  unfold refConversion at href
  unfold vsnprintfSwitch
  by_cases hc : c = 0x63
  · rw [if_pos hc] at href ⊢
    obtain ⟨a, ha, rfl⟩ := Option.map_eq_some_iff.mp href
    exact convert_converts ha (putChar_puts hi _)
  by_cases hs : c = 0x73
  · rw [if_neg hc, if_pos hs] at href ⊢
    exact convert_converts href (putString_puts hi.le _)
  by_cases hd : c = 0x64
  · rw [if_neg hc, if_neg hs, if_pos hd] at href ⊢
    obtain ⟨a, ha, rfl⟩ := Option.map_eq_some_iff.mp href
    exact convert_converts ha (putSigned_puts hi _)
  by_cases hu : c = 0x75
  · rw [if_neg hc, if_neg hs, if_neg hd, if_pos hu] at href ⊢
    obtain ⟨a, ha, rfl⟩ := Option.map_eq_some_iff.mp href
    exact convert_converts ha (@putUnsigned_puts size i hi.le 10 (by decide) a.1)
  by_cases hx : c = 0x78
  · rw [if_neg hc, if_neg hs, if_neg hd, if_neg hu, if_pos hx] at href ⊢
    obtain ⟨a, ha, rfl⟩ := Option.map_eq_some_iff.mp href
    exact convert_converts ha (@putUnsigned_puts size i hi.le 16 (by decide) a.1)
  by_cases hp : c = 0x70
  · rw [if_neg hc, if_neg hs, if_neg hd, if_neg hu, if_neg hx, if_pos hp] at href ⊢
    obtain ⟨a, ha, rfl⟩ := Option.map_eq_some_iff.mp href
    exact convert_converts ha (@putUnsigned_puts size i hi.le 16 (by decide) a.1)
  · -- the character stands for itself, also a second `%`
    rw [if_neg hc, if_neg hs, if_neg hd, if_neg hu, if_neg hx, if_neg hp] at href ⊢
    obtain rfl := Option.some.inj href
    by_cases hpercent : c = 0x25
    · rw [if_pos hpercent, hpercent]
      exact converts_of_puts (putChar_puts hi _)
    · rw [if_neg hpercent]
      exact converts_of_puts (putChar_puts hi _)

/-- Where the buffer is full, the loop ends. -/
theorem vsnprintfLoop_full (hfull : ¬ i < size - 1) (format : Text) :
    vsnprintfLoop size format args i = pure (some i) := by
  cases format with
  | nil => rfl
  | cons c p =>
    cases p with
    | nil => exact if_neg hfull
    | cons d p => exact if_neg hfull

/-- **The loop over the format** puts the expansion into the buffer. -/
theorem vsnprintfLoop_spec {format t : Text} (href : expansion format args = some t) (hi : i ≤ size - 1) :
    ∃ j, (vsnprintfLoop size format args i).val = some j ∧
      Puts size i t j (vsnprintfLoop size format args i).log := by
  -- a full buffer ends the loop, wherever it is in the format
  by_cases hlt : i < size - 1
  case neg =>
    rw [vsnprintfLoop_full hlt]
    exact ⟨i, rfl, .full hi hlt t⟩
  induction format, args using expansion.induct generalizing i t with
  | case1 args =>
    obtain rfl := Option.some.inj href
    exact ⟨i, rfl, show i = min (size - 1) (i + 0) by omega, by rw [List.take_nil]; rfl⟩
  | case2 args => cases href
  | case3 c args hc =>
    unfold expansion at href
    rw [if_neg hc] at href
    obtain rfl := Option.some.inj href
    unfold vsnprintfLoop
    rw [if_pos hlt, if_pos hc]
    have hputs := putChar_puts hlt c
    refine ⟨_, rfl, ?_⟩
    rw [Logged.log_bind, Logged.log_pure, List.append_nil]
    exact hputs
  | case4 d p args ih =>
    unfold expansion at href
    rw [if_pos rfl] at href
    obtain ⟨r, hr, hmap⟩ := Option.bind_eq_some_iff.mp href
    obtain ⟨t', ht', rfl⟩ := Option.map_eq_some_iff.mp hmap
    obtain ⟨j, hval, hputs⟩ := vsnprintfSwitch_converts hlt hr
    have hj : j ≤ size - 1 := by
      have hnext := hputs.next
      omega
    unfold vsnprintfLoop
    rw [if_pos hlt, if_neg (not_not.mpr rfl), Logged.val_bind, Logged.log_bind, hval]
    show ∃ k, (vsnprintfLoop size p r.2 j).val = some k ∧
      Puts size i (r.1 ++ t') k (_ ++ (vsnprintfLoop size p r.2 j).log)
    obtain ⟨k, hk, hrest⟩ : ∃ k, (vsnprintfLoop size p r.2 j).val = some k ∧
        Puts size j t' k (vsnprintfLoop size p r.2 j).log := by
      by_cases hroom : j < size - 1
      · exact ih r ht' hj hroom
      · rw [vsnprintfLoop_full hroom]
        exact ⟨j, rfl, .full hj hroom t'⟩
    exact ⟨k, hk, hputs.append hi hrest⟩
  | case5 c d p args hc ih =>
    unfold expansion at href
    rw [if_neg hc] at href
    obtain ⟨t', ht', rfl⟩ := Option.map_eq_some_iff.mp href
    have hputs := putChar_puts hlt c
    unfold vsnprintfLoop
    rw [if_pos hlt, if_pos hc, Logged.val_bind, Logged.log_bind]
    show ∃ k, (vsnprintfLoop size (d :: p) args (i + 1)).val = some k ∧
      Puts size i ([c] ++ t') k (_ ++ (vsnprintfLoop size (d :: p) args (i + 1)).log)
    obtain ⟨k, hk, hrest⟩ : ∃ k, (vsnprintfLoop size (d :: p) args (i + 1)).val = some k ∧
        Puts size (i + 1) t' k (vsnprintfLoop size (d :: p) args (i + 1)).log := by
      by_cases hroom : i + 1 < size - 1
      · exact ih ht' (by omega) hroom
      · rw [vsnprintfLoop_full hroom]
        exact ⟨i + 1, rfl, .full (by omega) hroom t'⟩
    exact ⟨k, hk, hputs.append hi hrest⟩

end Format

/-! ## §7. `vsnprintf`. -/

/-- **The buffer holds the text**: as much of it as there is room for, and a NUL;
    nothing is written behind the buffer, and the index of the NUL is returned as
    an `int`. -/
structure Formats (size : Nat) (t : Text) (x : Logged StrStore (Option (BitVec 32))) : Prop where
  result : x.val = some (BitVec.ofNat 32 (min (size - 1) t.length))
  writes : x.log = storesFrom 0 (t.take (size - 1) ++ [0])
  inside : x.All fun e => e.index < size

/-- The loop and the NUL. -/
theorem vsnprintf_formats {size : Nat} (hsize : 0 < size) {format t : Text} {ap : List VaArg}
    (href : expansion format ap = some t) : Formats size t (vsnprintf size format ap) := by
  obtain ⟨j, hval, hputs⟩ := vsnprintfLoop_spec href (Nat.zero_le (size - 1))
  have hnext := hputs.next
  rw [Nat.zero_add] at hnext
  have hlog : (vsnprintf size format ap).log = storesFrom 0 (t.take (size - 1) ++ [0]) := by
    unfold vsnprintf
    rw [Logged.log_bind, hval, hputs.log, Nat.sub_zero, storesFrom_append, List.length_take, Nat.zero_add,
      ← hnext]
    rfl
  refine ⟨?_, hlog, fun e he => ?_⟩
  · unfold vsnprintf
    rw [Logged.val_bind, hval, ← hnext]
    rfl
  · rw [hlog] at he
    have hlt := (mem_storesFrom he).2
    rw [List.length_append, List.length_take, List.length_singleton] at hlt
    omega

/-- **The reference is well-made**: its digits are read back, and have no
    leading zeros. -/
structure DigitsRight : Prop where
  signed : ∀ n : BitVec 64, parseSigned (refSigned n.toInt) = n.toInt
  unsigned : ∀ (base : Nat) (n : BitVec 64), base = 10 ∨ base = 16 →
    parseDigits base (refDigits base n.toNat) = n.toNat
  noZero : ∀ (base : Nat) (n : BitVec 64), base = 10 ∨ base = 16 → n ≠ 0 →
    (refDigits base n.toNat).head? ≠ some 0x30

/-- **Log formatting.**  Take any format that does not end in a lone `%`, any
    arguments that match it, and any size from 1 on.  The buffer then holds the
    expansion, and the digits in it are those of the arguments. -/
theorem vsnprintf_spec {size : Nat} (hsize : 0 < size) {format t : Text} {ap : List VaArg}
    (href : expansion format ap = some t) : Formats size t (vsnprintf size format ap) ∧ DigitsRight := by
  refine ⟨vsnprintf_formats hsize href, fun n => parseSigned_refSigned _, ?_, ?_⟩
  · intro base n hbase
    exact parseDigits_refDigits (by omega) (by omega) _
  · intro base n hbase hn
    exact refDigits_head (by omega) (by omega) fun h => hn (BitVec.eq_of_toNat_eq h)

/-- `%d!` with -42, in a buffer that is one byte too short. -/
theorem vsnprintf_truncates :
    Formats 4 (text ['-', '4', '2', '!']) (vsnprintf 4 (text ['%', 'd', '!']) [.int64 (-42)]) ∧
      DigitsRight :=
  vsnprintf_spec (by decide) (by decide)

/-- A string of 2^31 letters. -/
def longString : Text := List.replicate 2147483648 0x61

/-- **The index is returned as an `int`**: 2^31 characters come back as a
    negative number. -/
theorem return_value_negative :
    ¬ ∃ r, (vsnprintf 4294967296 (text ['%', 's']) [.string longString]).val = some r ∧
      r.toInt = min (4294967296 - 1) longString.length := by
  intro h
  obtain ⟨r, hval, hr⟩ := h
  have hlength : longString.length = 2147483648 := List.length_replicate
  have href : expansion (text ['%', 's']) [.string longString] = some (longString ++ []) := rfl
  have hresult := (vsnprintf_formats (show 0 < 4294967296 by decide) href).result
  rw [List.append_nil, hlength] at hresult
  obtain rfl := Option.some.inj (hval.symm.trans hresult)
  rw [hlength] at hr
  revert hr
  decide

end ZohoOs
