/-
  ZohoOs.Lib.Asm — straight-line assembly with jumps to labels.

  A small part of the x86-64 instruction set, enough for the code a kernel
  enters and leaves by: moves, pushes and pops, a test, jumps to labels,
  `swapgs`, calls of routines given from outside, and the three instructions
  that leave such code.  A configuration is the code still to run, a suffix of
  the program, and the state of the core with the memory.

  Of the arithmetic flags the code reads, and the semantics writes, ZF only.

    * `Steps.block` — a block without jumps runs to its end;
    * `runBlock_pushes`, `runBlock_pops` — saving a list of registers, and
      loading one back.
-/
import ZohoOs.Lib.Stack
import Mathlib.Data.List.Basic
import Mathlib.Logic.Relation
import Mathlib.Logic.Function.Basic

namespace ZohoOs.Lib.Asm

open ZohoOs.Lib

universe u v

/-! ## §1. Cores and instructions. -/

/-- The general registers. -/
inductive Reg where
  | rax | rbx | rcx | rdx | rsi | rdi | rbp | rsp
  | r8 | r9 | r10 | r11 | r12 | r13 | r14 | r15
  deriving DecidableEq

/-- The data segment registers. -/
inductive Seg where
  | ds | es
  deriving DecidableEq

/-- **A core**, with the memory it sees. -/
structure Core where
  regs : Reg → Word
  segs : Seg → BitVec 16
  rip : Word
  cs : Word
  rflags : Word
  ss : Word
  gsBase : Word
  /-- `IA32_KERNEL_GS_BASE`, the base `swapgs` exchanges with `gsBase`. -/
  kernelGsBase : Word
  mem : Mem

/-- What an instruction reads or writes. -/
inductive Place where
  | reg (r : Reg)
  /-- `[base + disp]`. -/
  | mem (base : Reg) (disp : Word)
  /-- `[gs:disp]`. -/
  | gs (disp : Word)

inductive Operand where
  | place (p : Place)
  | imm (v : Word)

/-- The instructions; `L` are the labels and `F` the routines called. -/
inductive Instr (L : Type u) (F : Type v) where
  | label (l : L)
  | mov (d : Place) (s : Operand)
  /-- `mov` of 16 bits into the low bits of a register. -/
  | mov16 (d : Reg) (v : BitVec 16)
  | movSeg (d : Seg) (s : Reg)
  | push (s : Operand)
  | pop (d : Reg)
  | add (d : Reg) (v : Word)
  | test (p : Place) (v : Word)
  | jz (l : L)
  | jmp (l : L)
  | swapgs
  | call (f : F)
  | ret
  | iretq
  | sysret

namespace Core

variable (k : Core)

def setReg (r : Reg) (v : Word) : Core := { k with regs := Function.update k.regs r v }

@[simp] theorem regs_setReg (r : Reg) (v : Word) :
    (k.setReg r v).regs = Function.update k.regs r v := rfl

/-- ZF is bit 6 of RFLAGS. -/
def zf : Bool := k.rflags.getLsbD 6

/-- RFLAGS after an instruction with the result `v`. -/
def setZf (v : Word) : Core :=
  { k with rflags := if v = 0 then k.rflags ||| 0x40 else k.rflags &&& ~~~0x40 }

def read : Place → Word
  | .reg r => k.regs r
  | .mem base disp => k.mem.load64 (k.regs base + disp)
  | .gs disp => k.mem.load64 (k.gsBase + disp)

def eval : Operand → Word
  | .place p => k.read p
  | .imm v => v

def write (v : Word) : Place → Core
  | .reg r => k.setReg r v
  | .mem base disp => { k with mem := k.mem.store64 (k.regs base + disp) v }
  | .gs disp => { k with mem := k.mem.store64 (k.gsBase + disp) v }

/-- `push` of a word. -/
def push (v : Word) : Core :=
  { k with
    regs := Function.update k.regs .rsp (k.regs .rsp - 8)
    mem := k.mem.store64 (k.regs .rsp - 8) v }

/-- `pop` into `r`; `pop rsp` keeps the word it loaded. -/
def pop (r : Reg) : Core :=
  (k.setReg .rsp (k.regs .rsp + 8)).setReg r (k.mem.load64 (k.regs .rsp))

def swapgs : Core := { k with gsBase := k.kernelGsBase, kernelGsBase := k.gsBase }

/-- The word at slot `i` of the stack. -/
def slot (i : Nat) : Word := k.mem.load64 (stackSlot (k.regs .rsp) i)

theorem regs_pop (r : Reg) : (k.pop r).regs =
    Function.update (Function.update k.regs .rsp (k.regs .rsp + 8)) r (k.slot 0) := by
  rw [slot, stackSlot_zero]
  rfl

/-- `iretq`: RIP, CS, RFLAGS, RSP and SS from the stack. -/
def iretq : Core :=
  { k with
    rip := k.slot 0, cs := k.slot 1, rflags := k.slot 2, ss := k.slot 4
    regs := Function.update k.regs .rsp (k.slot 3) }

/-- `ret`. -/
def ret : Core := { k.setReg .rsp (k.regs .rsp + 8) with rip := k.slot 0 }

/-- `syscall`, with the selectors that the STAR register gives, and the flags
    that SFMASK clears; `rip` is the next instruction. -/
def syscall (cs ss mask : Word) : Core :=
  { k with
    regs := Function.update (Function.update k.regs .rcx k.rip) .r11 k.rflags
    cs := cs, ss := ss, rflags := k.rflags &&& ~~~mask }

/-- `sysret` to 64-bit mode; RF, VM and the reserved flags are not loaded. -/
def sysret (cs ss : Word) : Core :=
  { k with
    rip := k.regs .rcx, rflags := (k.regs .r11 &&& 0x3C7FD7) ||| 2, cs := cs, ss := ss }

end Core

/-! ## §2. Execution. -/

section

variable {L : Type u} {F : Type v}

/-- An instruction that goes on to the next one. -/
def Instr.straight : Instr L F → Bool
  | .jz _ | .jmp _ | .ret | .iretq | .sysret => false
  | _ => true

/-- The effect of such an instruction; `env f` is a whole call of `f`, from the
    `call` instruction to the return. -/
def Instr.exec (env : F → Core → Core) : Instr L F → Core → Core
  | .mov d s, k => k.write (k.eval s) d
  | .mov16 d v, k => k.setReg d ((k.regs d &&& ~~~0xFFFF) ||| v.setWidth 64)
  | .movSeg d s, k => { k with segs := Function.update k.segs d ((k.regs s).setWidth 16) }
  | .push s, k => k.push (k.eval s)
  | .pop d, k => k.pop d
  | .add d v, k => (k.setReg d (k.regs d + v)).setZf (k.regs d + v)
  | .test p v, k => k.setZf (k.read p &&& v)
  | .swapgs, k => k.swapgs
  | .call f, k => env f k
  | _, k => k

/-- The code after label `l`. -/
def codeAt [DecidableEq L] (l : L) : List (Instr L F) → Option (List (Instr L F))
  | [] => none
  | .label l' :: c => if l' = l then some c else codeAt l c
  | _ :: c => codeAt l c

theorem codeAt_append_of_mem [DecidableEq L] {l : L} {a c : List (Instr L F)}
    (h : codeAt l a = some c) (b : List (Instr L F)) : codeAt l (a ++ b) = some (c ++ b) := by
  induction a with
  | nil => cases h
  | cons i a ih =>
    cases i with
    | label l' =>
      simp only [List.cons_append, codeAt] at h ⊢
      by_cases hl : l' = l
      · rw [if_pos hl] at h ⊢
        rw [Option.some.inj h]
      · rw [if_neg hl] at h ⊢
        exact ih h
    | _ => exact ih h

theorem codeAt_append_of_none [DecidableEq L] {l : L} {a : List (Instr L F)}
    (h : codeAt l a = none) (b : List (Instr L F)) : codeAt l (a ++ b) = codeAt l b := by
  induction a with
  | nil => rfl
  | cons i a ih =>
    cases i with
    | label l' =>
      simp only [List.cons_append, codeAt] at h ⊢
      by_cases hl : l' = l
      · rw [if_pos hl] at h
        cases h
      · rw [if_neg hl] at h ⊢
        exact ih h
    | _ => exact ih h

/-- **One of a family of labelled pieces**, each of which has its own label
    only. -/
theorem codeAt_flatMap [DecidableEq L] {ι : Type*} (is : List ι) (f : ι → List (Instr L F)) {i : ι}
    {l : L} {c : List (Instr L F)} (hi : i ∈ is) (hc : codeAt l (f i) = some c)
    (hother : ∀ j ∈ is, j ≠ i → codeAt l (f j) = none) (b : List (Instr L F)) :
    ∃ c', codeAt l (is.flatMap f ++ b) = some (c ++ c') := by
  induction is with
  | nil => cases hi
  | cons j is ih =>
    rw [List.flatMap_cons, List.append_assoc]
    by_cases hj : j = i
    · subst hj
      exact ⟨_, codeAt_append_of_mem hc _⟩
    · rw [codeAt_append_of_none (hother j List.mem_cons_self hj)]
      exact ih ((List.mem_cons.mp hi).resolve_left (Ne.symm hj))
        fun k hk => hother k (List.mem_cons_of_mem j hk)

/-- A label that none of the pieces has. -/
theorem codeAt_flatMap_none [DecidableEq L] {ι : Type*} (is : List ι) (f : ι → List (Instr L F))
    {l : L} (h : ∀ j ∈ is, codeAt l (f j) = none) (b : List (Instr L F)) :
    codeAt l (is.flatMap f ++ b) = codeAt l b := by
  induction is with
  | nil => rfl
  | cons j is ih =>
    rw [List.flatMap_cons, List.append_assoc, codeAt_append_of_none (h j List.mem_cons_self)]
    exact ih fun k hk => h k (List.mem_cons_of_mem j hk)

/-- **One instruction**; `none` at the end of the code and at an instruction
    that leaves it. -/
def step [DecidableEq L] (prog : List (Instr L F)) (env : F → Core → Core) :
    List (Instr L F) × Core → Option (List (Instr L F) × Core)
  | (.jmp l :: _, k) => (codeAt l prog).map (·, k)
  | (.jz l :: c, k) => if k.zf then (codeAt l prog).map (·, k) else some (c, k)
  | (.ret :: _, _) | (.iretq :: _, _) | (.sysret :: _, _) | ([], _) => none
  | (i :: c, k) => some (c, i.exec env k)

/-- Any number of instructions. -/
def Steps [DecidableEq L] (prog : List (Instr L F)) (env : F → Core → Core) :
    List (Instr L F) × Core → List (Instr L F) × Core → Prop :=
  Relation.ReflTransGen fun a b => step prog env a = some b

/-- A block of straight instructions. -/
def runBlock (env : F → Core → Core) (b : List (Instr L F)) (k : Core) : Core :=
  b.foldl (fun k i => i.exec env k) k

@[simp] theorem runBlock_nil (env : F → Core → Core) (k : Core) :
    runBlock (L := L) env [] k = k := rfl

@[simp] theorem runBlock_cons (env : F → Core → Core) (i : Instr L F) (b : List (Instr L F))
    (k : Core) : runBlock env (i :: b) k = runBlock env b (i.exec env k) := rfl

theorem runBlock_append (env : F → Core → Core) (b b' : List (Instr L F)) (k : Core) :
    runBlock env (b ++ b') k = runBlock env b' (runBlock env b k) := List.foldl_append

variable [DecidableEq L] {prog : List (Instr L F)} {env : F → Core → Core}

theorem step_straight {i : Instr L F} (hi : i.straight = true) (c : List (Instr L F)) (k : Core) :
    step prog env (i :: c, k) = some (c, i.exec env k) := by
  cases i with
  | jz l => cases hi
  | jmp l => cases hi
  | ret => cases hi
  | iretq => cases hi
  | sysret => cases hi
  | _ => rfl

/-- **A block runs to its end.** -/
theorem Steps.block {b : List (Instr L F)} (hb : b.all Instr.straight = true) (c : List (Instr L F))
    (k : Core) : Steps prog env (b ++ c, k) (c, runBlock env b k) := by
  induction b generalizing k with
  | nil => exact Relation.ReflTransGen.refl
  | cons i b ih =>
    rw [List.all_cons, Bool.and_eq_true] at hb
    have hhead : step prog env (i :: b ++ c, k) = some (b ++ c, i.exec env k) :=
      step_straight hb.1 _ k
    exact Relation.ReflTransGen.head hhead (ih hb.2 _)

theorem Steps.jmp {l : L} {c c' : List (Instr L F)} (h : codeAt l prog = some c') (k : Core) :
    Steps prog env (.jmp l :: c, k) (c', k) := by
  refine Relation.ReflTransGen.single ?_
  show (codeAt l prog).map (·, k) = some (c', k)
  rw [h]
  rfl

/-- A forward jump around a block: whether it is taken or not, the run goes on
    at the label. -/
theorem Steps.skip {l : L} {b c : List (Instr L F)} (hb : b.all Instr.straight = true)
    (h : codeAt l prog = some c) (k : Core) :
    Steps prog env (.jz l :: (b ++ .label l :: c), k) (c, if k.zf then k else runBlock env b k) := by
  by_cases hz : k.zf = true
  · rw [if_pos hz]
    refine Relation.ReflTransGen.single ?_
    show (if k.zf then (codeAt l prog).map (·, k) else _) = some (c, k)
    rw [if_pos hz, h]
    rfl
  · rw [if_neg hz]
    have hfall : step prog env (.jz l :: (b ++ .label l :: c), k) = some (b ++ .label l :: c, k) :=
      if_neg hz
    have hlabel : step prog env (.label l :: c, runBlock env b k) = some (c, runBlock env b k) := rfl
    exact Relation.ReflTransGen.head hfall
      ((Steps.block hb _ k).trans (Relation.ReflTransGen.single hlabel))

end

/-! ## §3. Saving and loading registers. -/

section

variable {L : Type u} {F : Type v} (env : F → Core → Core)

/-- `push` of each register in turn. -/
def pushes (rs : List Reg) : List (Instr L F) := rs.map fun r => .push (.place (.reg r))

/-- `pop` into each register in turn. -/
def pops (rs : List Reg) : List (Instr L F) := rs.map .pop

/-- A core after the words `ws` were pushed on its stack. -/
def Core.pushWords (k : Core) (ws : List Word) : Core :=
  { k with
    regs := Function.update k.regs .rsp (stackDown (k.regs .rsp) ws.length)
    mem := k.mem.pushAll (k.regs .rsp) ws }

@[simp] theorem Core.pushWords_nil (k : Core) : k.pushWords [] = k := by
  simp [pushWords, Mem.pushAll]

theorem Core.pushWords_append (k : Core) (ws vs : List Word) :
    (k.pushWords ws).pushWords vs = k.pushWords (ws ++ vs) := by
  simp only [pushWords, Function.update_self, Function.update_idem, stackDown_add,
    Mem.pushAll_append, List.length_append]

theorem Core.push_eq (k : Core) (v : Word) : k.push v = k.pushWords [v] := by
  have h : stackDown (k.regs .rsp) 1 = k.regs .rsp - 8 := by rw [stackDown_succ, stackDown_zero]
  rw [push, pushWords, List.length_singleton, h]
  rfl

/-- A pushed word at its slot. -/
theorem Core.slot_pushWords (k : Core) (ws : List Word) (hlen : 8 * ws.length < 2 ^ 64) {i : Nat}
    (hi : i < ws.length) : (k.pushWords ws).slot i = ws.reverse.getD i 0 := by
  rw [← Mem.load64_pushAll k.mem (k.regs .rsp) ws hlen hi]
  show Mem.load64 _ (stackSlot (Function.update k.regs .rsp _ .rsp) i) = _
  rw [Function.update_self]
  rfl

/-- **Saving registers** pushes what they hold. -/
theorem runBlock_pushes {rs : List Reg} (hrsp : Reg.rsp ∉ rs) (k : Core) :
    runBlock env (pushes rs : List (Instr L F)) k = k.pushWords (rs.map k.regs) := by
  induction rs generalizing k with
  | nil => rw [List.map_nil, Core.pushWords_nil]; rfl
  | cons r rs ih =>
    have hr : r ≠ .rsp := fun he => hrsp (he ▸ List.mem_cons_self)
    have hrs : Reg.rsp ∉ rs := fun h => hrsp (List.mem_cons_of_mem r h)
    have hkeep : rs.map (k.push (k.regs r)).regs = rs.map k.regs := by
      refine List.map_congr_left fun x hx => Function.update_of_ne ?_ _ _
      rintro rfl
      exact hrs hx
    show runBlock env (pushes rs) (k.push (k.regs r)) = _
    rw [ih hrs, hkeep, Core.push_eq, Core.pushWords_append]
    rfl

/-- The word a list of `pop`s loads into `r`, if any. -/
def poppedInto (k : Core) (rs : List Reg) (r : Reg) : Word :=
  if r ∈ rs then k.slot (rs.idxOf r) else k.regs r

/-- **Loading registers**: each one gets the word of its slot. -/
theorem runBlock_pops {rs : List Reg} (hrsp : Reg.rsp ∉ rs) (hnd : rs.Nodup) (k : Core) :
    runBlock env (pops rs : List (Instr L F)) k =
      { k with regs :=
          Function.update (poppedInto k rs) .rsp (stackSlot (k.regs .rsp) rs.length) } := by
  induction rs generalizing k with
  | nil =>
    have hregs : Function.update (poppedInto k []) .rsp (k.regs .rsp) = k.regs := by
      funext x
      by_cases hx : x = .rsp
      · rw [hx, Function.update_self]
      · rw [Function.update_of_ne hx]
        exact if_neg (List.not_mem_nil)
    rw [List.length_nil, stackSlot_zero, hregs]
    rfl
  | cons r rs ih =>
    have hr : r ≠ .rsp := fun he => hrsp (he ▸ List.mem_cons_self)
    have hrs : Reg.rsp ∉ rs := fun h => hrsp (List.mem_cons_of_mem r h)
    obtain ⟨hnew, hnd'⟩ := List.nodup_cons.mp hnd
    have hsp : (k.pop r).regs .rsp = k.regs .rsp + 8 := by
      rw [Core.regs_pop, Function.update_of_ne hr.symm, Function.update_self]
    have hslot : ∀ i, (k.pop r).slot i = k.slot (i + 1) := by
      intro i
      show Mem.load64 k.mem (stackSlot ((k.pop r).regs .rsp) i) = k.slot (i + 1)
      rw [hsp, ← stackSlot_succ]
      rfl
    have hregs : Function.update (poppedInto (k.pop r) rs) .rsp
          (stackSlot ((k.pop r).regs .rsp) rs.length) =
        Function.update (poppedInto k (r :: rs)) .rsp
          (stackSlot (k.regs .rsp) (r :: rs).length) := by
      funext x
      by_cases hx : x = .rsp
      · rw [hx, Function.update_self, Function.update_self, hsp, List.length_cons, stackSlot_succ]
      · rw [Function.update_of_ne hx, Function.update_of_ne hx]
        by_cases hxr : x = r
        · -- the register just loaded is not loaded again
          subst hxr
          have hval : (k.pop x).regs x = k.slot 0 := by
            rw [Core.regs_pop, Function.update_self]
          unfold poppedInto
          rw [if_neg hnew, if_pos List.mem_cons_self, List.idxOf_cons_self, hval]
        · have hold : (k.pop r).regs x = k.regs x := by
            rw [Core.regs_pop, Function.update_of_ne hxr, Function.update_of_ne hx]
          unfold poppedInto
          by_cases hmem : x ∈ rs
          · rw [if_pos hmem, if_pos (List.mem_cons_of_mem r hmem), hslot,
              List.idxOf_cons_ne _ (Ne.symm hxr)]
          · rw [if_neg hmem, if_neg (fun h => (List.mem_cons.mp h).elim hxr hmem), hold]
    show runBlock env (pops rs) (k.pop r) = _
    rw [ih hrs hnd', hregs]
    rfl

end

end ZohoOs.Lib.Asm
