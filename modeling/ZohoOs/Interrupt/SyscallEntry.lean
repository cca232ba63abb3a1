/-
  ZohoOs.Interrupt.SyscallEntry — `syscall` and back (syscall_asm.asm).

  `syscall_entry` has no stack of its own and no free register: it saves the
  user's stack pointer in the CPU's `cpu_t`, which GS reaches after `swapgs`,
  takes the kernel stack from there, and saves the registers on it.  It then
  moves the six values of the system call into the argument registers of C.

  Main result: `syscall_transparent` — a user program sees its registers
  unchanged, but for RAX, which holds what `syscall_handler_c` returned, and
  RCX and R11, which the instruction itself overwrites.
-/
import ZohoOs.Interrupt.Stub

namespace ZohoOs

open ZohoOs.Lib
open ZohoOs.Lib.Asm

/-! ## §1. The code. -/

/-- `syscall_init`: STAR gives `syscall` the selectors 0x08 and 0x10. -/
def star : Word := ((0x10 : Word) <<< 48) ||| ((0x08 : Word) <<< 32)

/-- The selectors of STAR: those of `syscall`, and those of `sysret` to 64-bit
    mode. -/
def syscallCs : Word := (star >>> 32) &&& 0xFFFC
def syscallSs : Word := ((star >>> 32) &&& 0xFFFF) + 8
def sysretCs : Word := ((star >>> 48) + 16) ||| 3
def sysretSs : Word := ((star >>> 48) + 8) ||| 3

theorem sysretCs_eq : sysretCs = 0x23 := by decide

theorem sysretSs_eq : sysretSs = 0x1B := by decide

/-- `syscall_init`: interrupts are off at the entry. -/
def sfmask : Word := 0x200

/-- The registers `syscall_entry` pushes after the user's stack pointer. -/
def syscallSaved : List Reg :=
  [.r11, .rcx, .rax, .rdi, .rsi, .rdx, .r10, .r8, .r9, .rbx, .rbp, .r12, .r13, .r14, .r15]

/-- A `mov` between registers. -/
def movReg (d s : Reg) : Instr Empty Unit := .mov (.reg d) (.place (.reg s))

/-- `syscall_entry` up to the call of `syscall_handler_c`. -/
def syscallEntryIn : List (Instr Empty Unit) :=
  [.swapgs, .mov (.gs 0x00) (.place (.reg .rsp)), .mov (.reg .rsp) (.place (.gs 0x08)),
    .push (.place (.gs 0x00))] ++ pushes syscallSaved ++
  [movReg .r9 .r8, movReg .r8 .r10, movReg .rcx .rdx, movReg .rdx .rsi, movReg .rsi .rdi,
    movReg .rdi .rax]

/-- `syscall_entry` from the return of `syscall_handler_c` on. -/
def syscallEntryOut : List (Instr Empty Unit) :=
  .mov (.mem .rsp (12 * 8)) (.place (.reg .rax)) :: (pops syscallSaved.reverse ++ [.pop .rsp, .swapgs])

def syscallEntry : List (Instr Empty Unit) :=
  syscallEntryIn ++ .call () :: (syscallEntryOut ++ [.sysret])

/-! ## §2. The way in. -/

/-- The kernel stack that the `cpu_t` of the CPU names. -/
def kernelStackOf (k : Core) : Word := k.mem.load64 (k.kernelGsBase + 8)

/-- The words on the kernel stack. -/
def syscallWords (k : Core) : List Word :=
  k.regs .rsp :: syscallSaved.map (k.syscall syscallCs syscallSs sfmask).regs

/-- The registers with which `syscall_handler_c` is called: the number and up
    to five arguments of the caller. -/
def syscallArgs (k : Core) : Reg → Word
  | .rdi => k.regs .rax
  | .rsi => k.regs .rdi
  | .rdx => k.regs .rsi
  | .rcx => k.regs .rdx
  | .r8 => k.regs .r10
  | .r9 => k.regs .r8
  | .rsp => stackDown (kernelStackOf k) 16
  | .r11 => k.rflags
  | r => k.regs r

/-- The core when `syscall_handler_c` is called. -/
def syscallEnter (k : Core) : Core :=
  { k.syscall syscallCs syscallSs sfmask with
    regs := syscallArgs k
    gsBase := k.kernelGsBase
    kernelGsBase := k.gsBase
    mem := (k.mem.store64 k.kernelGsBase (k.regs .rsp)).pushAll (kernelStackOf k) (syscallWords k) }

/-- The stack switch: the first four instructions. -/
theorem runBlock_syscallSwitch (env : Unit → Core → Core) (k : Core) :
    runBlock env ([.swapgs, .mov (.gs 0x00) (.place (.reg .rsp)), .mov (.reg .rsp) (.place (.gs 0x08)),
      .push (.place (.gs 0x00))] : List (Instr Empty Unit)) k =
      ({ k.swapgs.setReg .rsp (kernelStackOf k) with
        mem := k.mem.store64 k.kernelGsBase (k.regs .rsp) } : Core).pushWords [k.regs .rsp] := by
  have hstack : (k.mem.store64 k.kernelGsBase (k.regs .rsp)).load64 (k.kernelGsBase + 8) =
      kernelStackOf k :=
    Mem.load64_store64_other k.mem (by bv_omega) (by bv_omega)
  have hbase : k.kernelGsBase + 0x00 = k.kernelGsBase := BitVec.add_zero k.kernelGsBase
  rw [← Core.push_eq]
  simp only [runBlock_cons, runBlock_nil, Instr.exec, Core.eval, Core.read, Core.write, Core.swapgs,
    Core.setReg, hbase, hstack, Mem.load64_store64_same]

theorem runBlock_movs (env : Unit → Core → Core) (k : Core) :
    runBlock env [movReg .r9 .r8, movReg .r8 .r10, movReg .rcx .rdx, movReg .rdx .rsi,
        movReg .rsi .rdi, movReg .rdi .rax] k =
      { k with
        regs := fun
          | .r9 => k.regs .r8
          | .r8 => k.regs .r10
          | .rcx => k.regs .rdx
          | .rdx => k.regs .rsi
          | .rsi => k.regs .rdi
          | .rdi => k.regs .rax
          | r => k.regs r } := by
  simp only [runBlock_cons, runBlock_nil, movReg, Instr.exec, Core.eval, Core.read, Core.write,
    Core.setReg]
  congr 1
  funext r
  cases r <;> rfl

/-- **The way in**, from `syscall` to the call of `syscall_handler_c`. -/
theorem runBlock_syscallIn (env : Unit → Core → Core) (k : Core) :
    runBlock env syscallEntryIn (k.syscall syscallCs syscallSs sfmask) = syscallEnter k := by
  set k₁ := k.syscall syscallCs syscallSs sfmask with hk₁
  have hstack : kernelStackOf k₁ = kernelStackOf k := rfl
  have hrsp : k₁.regs .rsp = k.regs .rsp := rfl
  set k₂ := ({ k₁.swapgs.setReg .rsp (kernelStackOf k) with
    mem := k₁.mem.store64 k₁.kernelGsBase (k.regs .rsp) } : Core) with hk₂
  have hregs : syscallSaved.map (k₂.pushWords [k.regs .rsp]).regs = syscallSaved.map k₁.regs := by
    refine List.map_congr_left fun r hr => ?_
    have hne : r ≠ .rsp := by
      rintro rfl
      revert hr
      decide
    simp only [hk₂, Core.pushWords, Core.setReg, Core.swapgs, Function.update_of_ne hne]
  unfold syscallEntryIn
  rw [runBlock_append, runBlock_append, runBlock_syscallSwitch, hstack, hrsp, ← hk₂,
    runBlock_pushes env (by decide), hregs, Core.pushWords_append, runBlock_movs]
  -- each register of C is now loaded from the user's
  unfold syscallEnter
  congr 1
  funext r
  cases r <;> rfl

/-! ## §3. The way out. -/

/-- The registers of the caller after the call: RAX is the result. -/
def syscallResult (k : Core) (rax : Word) : Reg → Word
  | .rax => rax
  | .rcx => k.rip
  | .r11 => k.rflags
  | r => k.regs r

/-- A core in which `syscall_handler_c` has returned to `syscall_entry`: the
    stack pointer, the words above it and the GS bases are as they were. -/
structure SyscallReturned (k k' : Core) : Prop where
  rsp : k'.regs .rsp = (syscallEnter k).regs .rsp
  words : Mem.SameBytes ((syscallEnter k).regs .rsp) 128 (syscallEnter k).mem k'.mem
  gsBase : k'.gsBase = (syscallEnter k).gsBase
  kernelGsBase : k'.kernelGsBase = (syscallEnter k).kernelGsBase

/-- The saved words, from the stack pointer up. -/
theorem SyscallReturned.slot {k k' : Core} (h : SyscallReturned k k') {i : Nat} (hi : i < 16) :
    k'.slot i = (syscallWords k).reverse.getD i 0 := by
  have hlen : (syscallWords k).length = 16 := rfl
  have hrsp : (syscallEnter k).regs .rsp = stackDown (kernelStackOf k) 16 := rfl
  have hat : At (stackDown (kernelStackOf k) 16) (stackSlot (stackDown (kernelStackOf k) 16) i) (8 * i) :=
    at_stackSlot _ (by omega)
  have hsame := h.words
  rw [hrsp] at hsame
  rw [Core.slot, h.rsp, hrsp, ← hsame.load64 hat (by omega) (by omega)]
  exact Mem.load64_pushAll _ (kernelStackOf k) (syscallWords k) (by rw [hlen]; omega) (by omega)

/-- The core after the result was written over the saved RAX. -/
def syscallStored (k' : Core) : Core :=
  { k' with mem := k'.mem.store64 (k'.regs .rsp + 12 * 8) (k'.regs .rax) }

theorem SyscallReturned.slot_stored {k k' : Core} (h : SyscallReturned k k') {i : Nat} (hi : i < 16) :
    (syscallStored k').slot i = if i = 12 then k'.regs .rax else (syscallWords k).reverse.getD i 0 := by
  have haddr : k'.regs .rsp + 12 * 8 = stackSlot (k'.regs .rsp) 12 := rfl
  have hstore := Mem.load64_stackSlot k'.mem (k'.regs .rsp) (k'.regs .rax) (i := i) (j := 12)
    (by omega) (by omega)
  rw [← haddr] at hstore
  rw [← h.slot hi]
  exact hstore

/-- **The pops**: the caller's registers, and the result in RAX. -/
theorem SyscallReturned.popped {k k' : Core} (h : SyscallReturned k k') :
    poppedInto (syscallStored k') syscallSaved.reverse =
      Function.update (syscallResult k (k'.regs .rax)) .rsp (k'.regs .rsp) := by
  funext r
  cases r with
  | rsp => rfl
  | rax => exact h.slot_stored (i := 12) (by omega)
  | rbx => exact h.slot_stored (i := 5) (by omega)
  | rcx => exact h.slot_stored (i := 13) (by omega)
  | rdx => exact h.slot_stored (i := 9) (by omega)
  | rsi => exact h.slot_stored (i := 10) (by omega)
  | rdi => exact h.slot_stored (i := 11) (by omega)
  | rbp => exact h.slot_stored (i := 4) (by omega)
  | r8 => exact h.slot_stored (i := 7) (by omega)
  | r9 => exact h.slot_stored (i := 6) (by omega)
  | r10 => exact h.slot_stored (i := 8) (by omega)
  | r11 => exact h.slot_stored (i := 14) (by omega)
  | r12 => exact h.slot_stored (i := 3) (by omega)
  | r13 => exact h.slot_stored (i := 2) (by omega)
  | r14 => exact h.slot_stored (i := 1) (by omega)
  | r15 => exact h.slot_stored (i := 0) (by omega)

/-- The core after the 15 pops. -/
def syscallPopped (k k' : Core) : Core :=
  { syscallStored k' with
    regs := Function.update (syscallResult k (k'.regs .rax)) .rsp (stackSlot (k'.regs .rsp) 15) }

theorem SyscallReturned.runBlock_pops {k k' : Core} (h : SyscallReturned k k')
    (env : Unit → Core → Core) :
    runBlock env (pops syscallSaved.reverse : List (Instr Empty Unit)) (syscallStored k') =
      syscallPopped k k' := by
  rw [Asm.runBlock_pops env (by decide) (by decide), h.popped, Function.update_idem]
  rfl

/-- The last word of the stack is the user's stack pointer. -/
theorem SyscallReturned.pop_rsp {k k' : Core} (h : SyscallReturned k k') :
    ((syscallPopped k k').pop .rsp).regs = syscallResult k (k'.regs .rax) := by
  have hregs : (syscallPopped k k').regs =
      Function.update (syscallResult k (k'.regs .rax)) .rsp (stackSlot (k'.regs .rsp) 15) := rfl
  have hlast : (syscallPopped k k').slot 0 = k.regs .rsp := by
    have hslot : (syscallPopped k k').slot 0 = (syscallStored k').slot 15 := by
      rw [Core.slot, hregs, Function.update_self, stackSlot_zero]
      rfl
    rw [hslot, h.slot_stored (by omega)]
    rfl
  have hkept : syscallResult k (k'.regs .rax) .rsp = k.regs .rsp := rfl
  rw [Core.regs_pop, hlast, Function.update_idem, hregs, Function.update_idem, ← hkept,
    Function.update_eq_self]

/-- **The way out**, from the return of `syscall_handler_c` to `sysret`. -/
theorem SyscallReturned.runBlock_out {k k' : Core} (h : SyscallReturned k k')
    (env : Unit → Core → Core) :
    (runBlock env syscallEntryOut k').sysret sysretCs sysretSs =
      { syscallStored k' with
        regs := syscallResult k (k'.regs .rax)
        rip := k.rip
        rflags := (k.rflags &&& 0x3C7FD7) ||| 2
        cs := 0x23, ss := 0x1B
        gsBase := k.gsBase, kernelGsBase := k.kernelGsBase } := by
  have hrun : runBlock env syscallEntryOut k' = ((syscallPopped k k').pop .rsp).swapgs := by
    have hstore : Instr.exec env (.mov (.mem .rsp (12 * 8)) (.place (.reg .rax)) : Instr Empty Unit) k' =
        syscallStored k' := rfl
    rw [syscallEntryOut, runBlock_cons, hstore, runBlock_append, h.runBlock_pops]
    rfl
  have hpop : ∀ p : Core, (p.pop .rsp).swapgs.sysret sysretCs sysretSs =
      { p with
        regs := (p.pop .rsp).regs
        rip := (p.pop .rsp).regs .rcx
        rflags := ((p.pop .rsp).regs .r11 &&& 0x3C7FD7) ||| 2
        cs := sysretCs, ss := sysretSs
        gsBase := p.kernelGsBase, kernelGsBase := p.gsBase } := fun _ => rfl
  have hgs : (syscallPopped k k').gsBase = k.kernelGsBase := h.gsBase
  have hkgs : (syscallPopped k k').kernelGsBase = k.gsBase := h.kernelGsBase
  rw [hrun, hpop, h.pop_rsp, sysretCs_eq, sysretSs_eq, hgs, hkgs]
  rfl

/-! ## §4. Whole system calls. -/

/-- Nothing is written but the saved stack pointer and the kernel stack. -/
theorem mem_syscallEnter (k : Core) {x : Word} (hgs : 8 ≤ (x - k.kernelGsBase).toNat)
    (hstack : 128 ≤ (x - stackDown (kernelStackOf k) 16).toNat) :
    (syscallEnter k).mem x = k.mem x := by
  have hlen : (syscallWords k).length = 16 := rfl
  have hframe : (syscallEnter k).mem x = k.mem.store64 k.kernelGsBase (k.regs .rsp) x :=
    Mem.pushAll_frame _ (syscallWords k) (by rw [hlen]; omega) (by rw [hlen]; exact hstack)
  exact hframe.trans (Mem.store64_of_le k.mem hgs)

/-- **A system call is transparent**: `syscall_handler_c` is called on the
    kernel stack of the CPU, with the number and the arguments of the caller;
    and whatever it does, as long as it returns with its stack and GS as it
    found them, the caller goes on behind its `syscall` with all its registers
    but RAX, RCX and R11. -/
theorem syscall_transparent (handler : Core → Core) (k : Core)
    (hret : SyscallReturned k (handler (syscallEnter k))) (hcs : k.cs = 0x23) (hss : k.ss = 0x1B) :
    (syscallEnter k).regs = syscallArgs k ∧
      ∃ k', Steps syscallEntry (fun _ => handler)
          (syscallEntry, k.syscall syscallCs syscallSs sfmask) ([.sysret], k') ∧
        coreContext (k'.sysret sysretCs sysretSs) =
          { coreContext k with
            rax := (handler (syscallEnter k)).regs .rax, rcx := k.rip, r11 := k.rflags
            rflags := (k.rflags &&& 0x3C7FD7) ||| 2 } ∧
        (k'.sysret sysretCs sysretSs).gsBase = k.gsBase ∧
        (k'.sysret sysretCs sysretSs).kernelGsBase = k.kernelGsBase := by
  refine ⟨rfl, runBlock (fun _ => handler) syscallEntryOut (handler (syscallEnter k)), ?_, ?_⟩
  · have hin : Steps syscallEntry (fun _ => handler)
        (syscallEntry, k.syscall syscallCs syscallSs sfmask)
        (.call () :: (syscallEntryOut ++ [.sysret]), syscallEnter k) := by
      rw [← runBlock_syscallIn (fun _ => handler) k]
      exact Steps.block rfl _ _
    have hcall : Steps syscallEntry (fun _ => handler)
        (.call () :: (syscallEntryOut ++ [.sysret]), syscallEnter k)
        (syscallEntryOut ++ [.sysret], handler (syscallEnter k)) :=
      Relation.ReflTransGen.single rfl
    exact (hin.trans hcall).trans (Steps.block rfl _ _)
  · rw [hret.runBlock_out]
    refine ⟨?_, rfl, rfl⟩
    rw [← hcs, ← hss]
    rfl

/-- `syscall_transparent` for a call whose result is 3. -/
theorem syscall_transparent_three : ∃ k k' : Core, k.regs .rax = 7 ∧
    Steps syscallEntry (fun _ k => k.setReg .rax 3)
      (syscallEntry, k.syscall syscallCs syscallSs sfmask) ([.sysret], k') ∧
    (k'.sysret sysretCs sysretSs).regs .rax = 3 ∧ (k'.sysret sysretCs sysretSs).regs .rdi = 7 := by
  set k : Core :=
    { regs := fun _ => 7, segs := fun _ => 0x1B, rip := 0x400000, cs := 0x23, rflags := 0x202
      ss := 0x1B, gsBase := 0, kernelGsBase := 0x5000, mem := fun _ => 0 } with hk
  obtain ⟨-, k', hsteps, hctx, -⟩ := syscall_transparent (fun k => k.setReg .rax 3) k
    ⟨rfl, fun _ _ => rfl, rfl, rfl⟩ rfl rfl
  exact ⟨k, k', rfl, hsteps, congrArg Context.rax hctx, congrArg Context.rdi hctx⟩

end ZohoOs
