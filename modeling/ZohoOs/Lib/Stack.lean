/-
  ZohoOs.Lib.Stack — words pushed on a stack that grows down.

  `pushAll m sp ws` is the memory after the words `ws` were pushed in turn
  from the stack pointer `sp`; the stack pointer is then `stackDown sp ws.length`.
  A processor, a sequence of `push` instructions and a program that writes
  `*(--stack) = w` all push the same way, so all of them are read back by the
  same two lemmas:

    * `load64_pushAll` — the word at slot `i` above the new stack pointer;
    * `pushAll_frame` — nothing outside the pushed words changes.
-/
import ZohoOs.Lib.Memory

namespace ZohoOs.Lib

/-- The stack pointer `n` words below `sp`. -/
def stackDown (sp : Word) (n : Nat) : Word := sp - BitVec.ofNat 64 (8 * n)

/-- The address of slot `i` of a stack whose pointer is `sp`. -/
def stackSlot (sp : Word) (i : Nat) : Word := sp + BitVec.ofNat 64 (8 * i)

namespace Mem

/-- The memory after the words `ws` are pushed, the first one first. -/
def pushAll : Mem → Word → List Word → Mem
  | m, _, [] => m
  | m, sp, w :: ws => pushAll (m.store64 (sp - 8) w) (sp - 8) ws

end Mem

@[simp] theorem stackDown_zero (sp : Word) : stackDown sp 0 = sp := by
  simp [stackDown]

theorem stackDown_succ (sp : Word) (n : Nat) : stackDown sp (n + 1) = stackDown (sp - 8) n := by
  have h : BitVec.ofNat 64 (8 * (n + 1)) = 8 + BitVec.ofNat 64 (8 * n) := by
    rw [show 8 * (n + 1) = 8 + 8 * n by omega, BitVec.ofNat_add]
    rfl
  rw [stackDown, stackDown, h]
  bv_omega

theorem stackDown_add (sp : Word) (n k : Nat) : stackDown (stackDown sp n) k = stackDown sp (n + k) := by
  induction n generalizing sp with
  | zero => rw [stackDown_zero, Nat.zero_add]
  | succ n ih => rw [stackDown_succ, ih, show n + 1 + k = n + k + 1 by omega, stackDown_succ]

@[simp] theorem stackSlot_zero (sp : Word) : stackSlot sp 0 = sp := by
  simp [stackSlot]

theorem stackSlot_succ (sp : Word) (i : Nat) : stackSlot sp (i + 1) = stackSlot (sp + 8) i := by
  have h : BitVec.ofNat 64 (8 * (i + 1)) = 8 + BitVec.ofNat 64 (8 * i) := by
    rw [show 8 * (i + 1) = 8 + 8 * i by omega, BitVec.ofNat_add]
    rfl
  rw [stackSlot, stackSlot, h, BitVec.add_assoc]

theorem stackSlot_add (sp : Word) (i j : Nat) : stackSlot (stackSlot sp i) j = stackSlot sp (i + j) := by
  rw [stackSlot, stackSlot, stackSlot, BitVec.add_assoc, ← BitVec.ofNat_add, Nat.mul_add]

/-- Slot `i` starts `8 i` bytes above the stack pointer. -/
theorem at_stackSlot (sp : Word) {i : Nat} (hi : 8 * i < 2 ^ 64) : At sp (stackSlot sp i) (8 * i) := by
  have h : stackSlot sp i - sp = BitVec.ofNat 64 (8 * i) := by
    unfold stackSlot
    bv_omega
  rw [At, h, BitVec.toNat_ofNat, Nat.mod_eq_of_lt hi]

/-- A slot of a pushed stack that lies `j + 1` words below the old pointer. -/
theorem stackSlot_stackDown (sp : Word) (i j : Nat) :
    stackSlot (stackDown sp (i + j)) i = stackDown sp j := by
  have h : BitVec.ofNat 64 (8 * (i + j)) = BitVec.ofNat 64 (8 * i) + BitVec.ofNat 64 (8 * j) := by
    rw [Nat.mul_add, BitVec.ofNat_add]
  rw [stackSlot, stackDown, stackDown, h]
  bv_omega

namespace Mem

theorem pushAll_append (m : Mem) (sp : Word) (ws vs : List Word) :
    pushAll m sp (ws ++ vs) = pushAll (pushAll m sp ws) (stackDown sp ws.length) vs := by
  induction ws generalizing m sp with
  | nil => rw [List.nil_append, List.length_nil, stackDown_zero, pushAll]
  | cons w ws ih => rw [List.cons_append, pushAll, pushAll, ih, List.length_cons, stackDown_succ]

/-- **The frame of a push**: a byte outside the pushed words. -/
theorem pushAll_frame (m : Mem) {sp x : Word} (ws : List Word) (hlen : 8 * ws.length < 2 ^ 64)
    (hx : 8 * ws.length ≤ (x - stackDown sp ws.length).toNat) : pushAll m sp ws x = m x := by
  induction ws generalizing m sp with
  | nil => rfl
  | cons w ws ih =>
    rw [List.length_cons] at hlen hx
    rw [stackDown_succ] at hx
    have hfar : 8 ≤ (x - (sp - 8)).toNat := by
      unfold stackDown at hx
      bv_omega
    rw [pushAll, ih _ (by omega) (by omega)]
    exact store64_of_le m hfar

/-- A word that ends below the pushed words, or starts above them. -/
theorem load64_pushAll_other (m : Mem) {sp a : Word} (ws : List Word)
    (hlen : 8 * ws.length < 2 ^ 64)
    (hx : ∀ k : Word, k.toNat < 8 → 8 * ws.length ≤ (a + k - stackDown sp ws.length).toNat) :
    (pushAll m sp ws).load64 a = m.load64 a :=
  load64_congr fun k hk => pushAll_frame m ws hlen (hx k hk)

/-- **What was pushed is read back**: the word pushed `i`-th lies `i + 1` words
    below the old stack pointer. -/
theorem load64_stackDown (m : Mem) (sp : Word) (ws : List Word) (hlen : 8 * ws.length < 2 ^ 64)
    {i : Nat} (hi : i < ws.length) : (pushAll m sp ws).load64 (stackDown sp (i + 1)) = ws[i] := by
  induction ws generalizing m sp i with
  | nil => exact absurd hi (Nat.not_lt_zero i)
  | cons w ws ih =>
    rw [List.length_cons] at hlen hi
    cases i with
    | zero =>
      -- the later pushes stay below the first one
      have hbelow : (pushAll (m.store64 (sp - 8) w) (sp - 8) ws).load64 (sp - 8) =
          (m.store64 (sp - 8) w).load64 (sp - 8) := by
        refine load64_pushAll_other _ ws (by omega) fun k hk => ?_
        unfold stackDown
        bv_omega
      rw [stackDown_succ, stackDown_zero, pushAll, hbelow, load64_store64_same]
      rfl
    | succ i =>
      rw [stackDown_succ, pushAll, ih _ _ (by omega) (by omega)]
      rfl

/-- The words of a stack, from the new stack pointer up: the last one pushed
    first. -/
theorem load64_pushAll (m : Mem) (sp : Word) (ws : List Word) (hlen : 8 * ws.length < 2 ^ 64)
    {i : Nat} (hi : i < ws.length) :
    (pushAll m sp ws).load64 (stackSlot (stackDown sp ws.length) i) =
      ws.reverse.getD i 0 := by
  have hsplit : ws.length = i + (ws.length - 1 - i + 1) := by omega
  have haddr : stackSlot (stackDown sp ws.length) i = stackDown sp (ws.length - 1 - i + 1) := by
    rw [hsplit, stackSlot_stackDown]
    congr 1
    omega
  have hrev : i < ws.reverse.length := by
    rw [List.length_reverse]
    exact hi
  rw [haddr, load64_stackDown m sp ws hlen (by omega), List.getD_eq_getElem _ _ hrev,
    List.getElem_reverse]

/-- A word written in one slot is not seen in another. -/
theorem load64_stackSlot (m : Mem) (sp v : Word) {i j : Nat} (hi : 8 * i + 8 < 2 ^ 64)
    (hj : 8 * j + 8 < 2 ^ 64) :
    (m.store64 (stackSlot sp j) v).load64 (stackSlot sp i) =
      if i = j then v else m.load64 (stackSlot sp i) := by
  by_cases hij : i = j
  · rw [if_pos hij, hij, load64_store64_same]
  · rw [if_neg hij]
    -- two different slots are eight bytes apart, either way around
    have hi' : (BitVec.ofNat 64 (8 * i)).toNat = 8 * i := by rw [BitVec.toNat_ofNat]; omega
    have hj' : (BitVec.ofNat 64 (8 * j)).toNat = 8 * j := by rw [BitVec.toNat_ofNat]; omega
    unfold stackSlot
    exact load64_store64_other m (by bv_omega) (by bv_omega)

end Mem

end ZohoOs.Lib
