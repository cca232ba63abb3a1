/-
  ZohoOs.Lib.FirstKeys — a table of fixed size that keeps the first keys.

  A table is filled by one loop, which writes a binding to the first slot that
  is free or holds its key, and drops it if there is none.  It keeps the first
  `n` distinct keys of the bindings it was given, in their order, each with the
  last of its values.

  Main results:
    * `Table.Keeps.insert` — what one binding does to the table;
    * `Table.Keeps.find` — a search for the first slot with a key finds its
      last value.
-/
import Mathlib.Data.List.Induction
import Mathlib.Data.List.Infix
import ZohoOs.Lib.Slots

namespace ZohoOs.Lib

variable {K V : Type*} [DecidableEq K] {n : Nat}

/-! ## §1. Sequences of bindings. -/

/-- The first `n` distinct keys. -/
def firstKeys (n : Nat) (bindings : List (K × V)) : List K :=
  (bindings.map Prod.fst).eraseDups.take n

/-- The last value of a key. -/
def lastValue (bindings : List (K × V)) (k : K) : Option V :=
  (bindings.reverse.find? fun b => b.1 = k).map Prod.snd

variable {bindings : List (K × V)} {k : K}

theorem eraseDups_concat (l : List K) (k : K) :
    (l ++ [k]).eraseDups = if k ∈ l then l.eraseDups else l.eraseDups ++ [k] := by
  rw [List.eraseDups_append]
  unfold List.removeAll
  have hone : [k].eraseDups = [k] := by
    rw [List.eraseDups_cons]
    rfl
  by_cases hk : k ∈ l
  · simp [hk]
  · simp [hk, hone]

theorem nodup_eraseDups (l : List K) : l.eraseDups.Nodup := by
  induction l using List.reverseRecOn with
  | nil => exact List.nodup_nil
  | append_singleton l k ih =>
    rw [eraseDups_concat]
    by_cases hk : k ∈ l
    · rw [if_pos hk]
      exact ih
    · rw [if_neg hk]
      refine List.nodup_append.mpr ⟨ih, List.nodup_singleton k, ?_⟩
      intro a ha b hb hab
      rw [List.mem_singleton.mp hb] at hab
      rw [hab] at ha
      exact hk (List.mem_eraseDups.mp ha)

theorem nodup_firstKeys (n : Nat) (bindings : List (K × V)) : (firstKeys n bindings).Nodup :=
  (nodup_eraseDups _).sublist (List.take_sublist n _)

theorem length_firstKeys_le (n : Nat) (bindings : List (K × V)) : (firstKeys n bindings).length ≤ n :=
  List.length_take_le n _

/-- Keys that are kept stay, at their place. -/
theorem firstKeys_getElem? (bindings' : List (K × V)) {i : Nat}
    (h : (firstKeys n bindings)[i]? = some k) :
    (firstKeys n (bindings ++ bindings'))[i]? = some k := by
  unfold firstKeys at h ⊢
  obtain ⟨rest, hprefix⟩ : (bindings.map Prod.fst).eraseDups.take n <+:
      ((bindings ++ bindings').map Prod.fst).eraseDups.take n := by
    rw [List.map_append, List.eraseDups_append]
    exact List.IsPrefix.take (List.prefix_append _ _) n
  rw [← hprefix, List.getElem?_append_left (List.getElem?_eq_some_iff.mp h).1]
  exact h

/-- A binding of a key that is kept already, or that comes too late. -/
theorem firstKeys_concat_same (v : V)
    (h : k ∈ firstKeys n bindings ∨ (firstKeys n bindings).length = n) :
    firstKeys n (bindings ++ [(k, v)]) = firstKeys n bindings := by
  unfold firstKeys at h ⊢
  rw [List.map_append, List.map_singleton, eraseDups_concat]
  by_cases hk : k ∈ bindings.map Prod.fst
  · rw [if_pos hk]
  · rw [if_neg hk]
    rcases h with hmem | hfull
    · exact absurd (List.mem_eraseDups.mp (List.mem_of_mem_take hmem)) hk
    · apply List.take_append_of_le_length
      rw [List.length_take] at hfull
      omega

/-- A binding of a new key. -/
theorem firstKeys_concat_new (v : V) (hnew : k ∉ firstKeys n bindings)
    (hroom : (firstKeys n bindings).length < n) :
    firstKeys n (bindings ++ [(k, v)]) = firstKeys n bindings ++ [k] := by
  unfold firstKeys at hnew hroom ⊢
  have hshort : (bindings.map Prod.fst).eraseDups.length < n := by
    rw [List.length_take] at hroom
    omega
  rw [List.take_of_length_le (Nat.le_of_lt hshort)] at hnew ⊢
  rw [List.map_append, List.map_singleton, eraseDups_concat,
    if_neg (mt List.mem_eraseDups.mpr hnew), List.take_of_length_le]
  rw [List.length_append, List.length_singleton]
  exact hshort

theorem lastValue_concat_self (bindings : List (K × V)) (k : K) (v : V) :
    lastValue (bindings ++ [(k, v)]) k = some v := by
  unfold lastValue
  rw [List.reverse_concat, List.find?_cons_of_pos]
  · rfl
  · exact decide_eq_true rfl

theorem lastValue_concat_of_ne {k' : K} (bindings : List (K × V)) (v : V) (h : k ≠ k') :
    lastValue (bindings ++ [(k, v)]) k' = lastValue bindings k' := by
  unfold lastValue
  rw [List.reverse_concat, List.find?_cons_of_neg]
  intro heq
  exact h (of_decide_eq_true heq)

/-! ## §2. Tables. -/

/-- A table of `n` slots, each free or with a binding. -/
abbrev Table (n : Nat) (K V : Type*) := Fin n → Option (K × V)

namespace Table

/-- The slot that a binding of `k` goes to: the first that is free or holds
    `k`. -/
def slot (t : Table n K V) (k : K) : Option (Fin n) :=
  (List.finRange n).find? fun i => ∀ b ∈ t i, b.1 = k

def insert (t : Table n K V) (k : K) (v : V) : Table n K V :=
  match t.slot k with
  | some i => Function.update t i (some (k, v))
  | none => t

/-- The value in the first slot that holds `k`. -/
def find (t : Table n K V) (k : K) : Option V :=
  ((List.finRange n).find? fun i => ∃ b ∈ t i, b.1 = k).bind fun i => (t i).map Prod.snd

/-- The table keeps the first keys of the bindings, each with its last value. -/
structure Keeps (t : Table n K V) (bindings : List (K × V)) : Prop where
  keys : ∀ i, (t i).map Prod.fst = (firstKeys n bindings)[i.val]?
  values : ∀ i, ∀ b ∈ t i, lastValue bindings b.1 = some b.2

theorem keeps_nil : Keeps (fun _ => none : Table n K V) [] where
  keys _ := by
    unfold firstKeys
    simp
  values _ b hb := nomatch hb

namespace Keeps

variable {t : Table n K V}

/-- Two slots never hold one key. -/
theorem injective (h : t.Keeps bindings) {i j : Fin n} (hi : (t i).map Prod.fst = some k)
    (hj : (t j).map Prod.fst = some k) : i = j := by
  rw [h.keys] at hi hj
  obtain ⟨hlt, _⟩ := List.getElem?_eq_some_iff.mp hi
  exact Fin.ext ((List.getElem?_inj hlt (nodup_firstKeys n bindings)).mp (hi.trans hj.symm))

/-- The slots that are used are the first ones. -/
theorem used_iff (h : t.Keeps bindings) (i : Fin n) :
    (t i).isSome ↔ i.val < (firstKeys n bindings).length := by
  rw [← Option.isSome_map (f := Prod.fst), h.keys, Option.isSome_iff_ne_none, Ne,
    List.getElem?_eq_none_iff, Nat.not_le]

/-- A kept key is in a slot. -/
theorem exists_slot (h : t.Keeps bindings) (hk : k ∈ firstKeys n bindings) :
    ∃ i v, t i = some (k, v) := by
  obtain ⟨j, hj, hget⟩ := List.mem_iff_getElem.mp hk
  have hjn : j < n := lt_of_lt_of_le hj (length_firstKeys_le n bindings)
  have hkey := h.keys ⟨j, hjn⟩
  rw [List.getElem?_eq_getElem hj, hget] at hkey
  obtain ⟨⟨k', v⟩, hentry, hfst⟩ := Option.map_eq_some_iff.mp hkey
  obtain rfl : k' = k := hfst
  exact ⟨_, v, hentry⟩

/-- What is in a slot is a kept key. -/
theorem mem_of_slot (h : t.Keeps bindings) {i : Fin n} {v : V} (hi : t i = some (k, v)) :
    k ∈ firstKeys n bindings := by
  have hkey := h.keys i
  rw [hi] at hkey
  exact List.mem_of_getElem? hkey.symm

/-- The slot of a key that is kept. -/
theorem slot_of_mem (h : t.Keeps bindings) {i : Fin n} {v : V} (hi : t i = some (k, v)) :
    t.slot k = some i := by
  apply find?_slot_eq_some_iff.mpr
  constructor
  · intro b hb
    rw [hi] at hb
    cases hb
    rfl
  · intro j hj hall
    -- the slots before `i` are used, by other keys
    obtain ⟨hlt, _⟩ := List.getElem?_eq_some_iff.mp ((h.keys i).symm.trans (by rw [hi]; rfl))
    have hused := h.keys j
    rw [List.getElem?_eq_getElem (lt_trans hj hlt)] at hused
    obtain ⟨b, hb, _⟩ := Option.map_eq_some_iff.mp hused
    have hkey : (t j).map Prod.fst = some k := by
      rw [hb]
      exact congrArg some (hall b hb)
    exact absurd (h.injective hkey (by rw [hi]; rfl)) (ne_of_lt hj)

/-- The slot of a new key is the one behind the last that is used, if there is
    one. -/
theorem slot_of_new (h : t.Keeps bindings) (hnew : k ∉ firstKeys n bindings)
    (hroom : (firstKeys n bindings).length < n) :
    t.slot k = some ⟨(firstKeys n bindings).length, hroom⟩ := by
  apply find?_slot_from
  intro i
  constructor
  · intro hall
    by_contra hlt
    have hkey := h.keys i
    rw [List.getElem?_eq_getElem (Nat.lt_of_not_le hlt)] at hkey
    obtain ⟨b, hb, _⟩ := Option.map_eq_some_iff.mp hkey
    obtain ⟨k', v⟩ := b
    obtain rfl : k' = k := hall _ hb
    exact hnew (h.mem_of_slot hb)
  · intro hle b hb
    have hkey := h.keys i
    rw [List.getElem?_eq_none hle, show t i = some b from hb] at hkey
    cases hkey

/-- A full table has no slot for a new key. -/
theorem slot_of_full (h : t.Keeps bindings) (hnew : k ∉ firstKeys n bindings)
    (hfull : (firstKeys n bindings).length = n) : t.slot k = none := by
  apply find?_slot_eq_none_iff.mpr
  intro i hall
  have hkey := h.keys i
  rw [List.getElem?_eq_getElem (by rw [hfull]; exact i.isLt)] at hkey
  obtain ⟨⟨k', v⟩, hb, _⟩ := Option.map_eq_some_iff.mp hkey
  obtain rfl : k' = k := hall _ hb
  exact hnew (h.mem_of_slot hb)

/-- Writing a binding of `k` to slot `i`. -/
theorem update (h : t.Keeps bindings) {i : Fin n} (v : V)
    (hkeys : ∀ j, (Function.update t i (some (k, v)) j).map Prod.fst =
      (firstKeys n (bindings ++ [(k, v)]))[j.val]?)
    (hother : ∀ j, j ≠ i → (t j).map Prod.fst ≠ some k) :
    Table.Keeps (Function.update t i (some (k, v))) (bindings ++ [(k, v)]) := by
  refine ⟨hkeys, fun j b hb => ?_⟩
  by_cases hj : j = i
  · subst hj
    rw [Function.update_self] at hb
    cases hb
    exact lastValue_concat_self bindings k v
  · rw [Function.update_of_ne hj] at hb
    have hne : k ≠ b.1 := by
      intro heq
      apply hother j hj
      rw [show t j = some b from hb, heq]
      rfl
    rw [lastValue_concat_of_ne bindings v hne]
    exact h.values j b hb

/-- **One binding**: the table still keeps the first keys, with their last
    values. -/
theorem insert (h : t.Keeps bindings) (k : K) (v : V) :
    (t.insert k v).Keeps (bindings ++ [(k, v)]) := by
  unfold Table.insert
  by_cases hk : k ∈ firstKeys n bindings
  · obtain ⟨i, v', hi⟩ := h.exists_slot hk
    rw [h.slot_of_mem hi]
    refine h.update v (fun j => ?_) fun j hj hkey => hj (h.injective hkey (by rw [hi]; rfl))
    rw [firstKeys_concat_same v (.inl hk), ← h.keys]
    by_cases hj : j = i
    · subst hj
      rw [Function.update_self, hi]
      rfl
    · rw [Function.update_of_ne hj]
  have hother : ∀ j, (t j).map Prod.fst ≠ some k := by
    intro j hkey
    obtain ⟨⟨k', v'⟩, hb, hfst⟩ := Option.map_eq_some_iff.mp hkey
    obtain rfl : k' = k := hfst
    exact hk (h.mem_of_slot hb)
  by_cases hroom : (firstKeys n bindings).length < n
  · rw [h.slot_of_new hk hroom]
    refine h.update v (fun j => ?_) fun j _ => hother j
    rw [firstKeys_concat_new v hk hroom]
    by_cases hj : j = ⟨(firstKeys n bindings).length, hroom⟩
    · rw [hj, Function.update_self, List.getElem?_concat_length]
      rfl
    · have hne : j.val ≠ (firstKeys n bindings).length := fun heq => hj (Fin.ext heq)
      rw [Function.update_of_ne hj, h.keys]
      rcases Nat.lt_or_gt_of_ne hne with hlt | hgt
      · rw [List.getElem?_append_left hlt]
      · rw [List.getElem?_eq_none (Nat.le_of_lt hgt), List.getElem?_eq_none]
        rw [List.length_append, List.length_singleton]
        exact hgt
  · have hfull : (firstKeys n bindings).length = n :=
      Nat.le_antisymm (length_firstKeys_le n bindings) (Nat.le_of_not_lt hroom)
    rw [h.slot_of_full hk hfull]
    refine ⟨fun j => ?_, fun j b hb => ?_⟩
    · rw [firstKeys_concat_same v (.inr hfull)]
      exact h.keys j
    · have hne : k ≠ b.1 := by
        intro heq
        apply hother j
        rw [show t j = some b from hb, heq]
        rfl
      rw [lastValue_concat_of_ne bindings v hne]
      exact h.values j b hb

/-- **A search** finds the last value of a kept key, and nothing for another. -/
theorem find (h : t.Keeps bindings) (k : K) :
    t.find k = if k ∈ firstKeys n bindings then lastValue bindings k else none := by
  unfold Table.find
  by_cases hk : k ∈ firstKeys n bindings
  · obtain ⟨i, v, hi⟩ := h.exists_slot hk
    have hfirst : ((List.finRange n).find? fun i => ∃ b ∈ t i, b.1 = k) = some i := by
      apply find?_slot_eq_some_iff.mpr
      refine ⟨⟨(k, v), hi, rfl⟩, fun j hj hb => ?_⟩
      obtain ⟨b, hb, hkey⟩ := hb
      refine absurd (h.injective (k := k) ?_ (by rw [hi]; rfl)) (ne_of_lt hj)
      rw [show t j = some b from hb, ← hkey]
      rfl
    rw [hfirst, if_pos hk, h.values i (k, v) hi]
    show (t i).map Prod.snd = _
    rw [hi]
    rfl
  · have hnone : ((List.finRange n).find? fun i => ∃ b ∈ t i, b.1 = k) = none := by
      apply find?_slot_eq_none_iff.mpr
      intro i hb
      obtain ⟨⟨k', v⟩, hb, hkey⟩ := hb
      obtain rfl : k' = k := hkey
      exact hk (h.mem_of_slot hb)
    rw [hnone, if_neg hk]
    rfl

end Keeps

end Table

end ZohoOs.Lib
