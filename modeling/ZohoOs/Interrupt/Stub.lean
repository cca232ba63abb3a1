/-
  ZohoOs.Interrupt.Stub — the interrupt stubs (idt_asm.asm).

  Each of the 48 vectors has a stub that pushes its number, and a zero where
  the processor pushes no error code; all of them go on in `isr_common_stub`,
  which pushes the general registers, hands the stack pointer to
  `isr_handler`, continues on the stack pointer that `isr_handler` returns,
  and pops what it finds there.

  `deliver` is what the processor does before the first instruction of a stub.

  Main results:
    * `isrEnter_frame` — `isr_handler` gets a pointer to a
      `struct interrupt_frame` that holds what was interrupted;
    * `isr_runs` — a stub, from the delivery to `iretq`, is `isrEnter`, the
      handler and `isrLeave`;
    * `isrLeave_context` — what runs afterwards is the context of the frame the
      handler returned.
-/
import ZohoOs.Lib.Asm
import ZohoOs.Task.Fork

namespace ZohoOs

open ZohoOs.Lib
open ZohoOs.Lib.Asm

/-! ## §1. The code. -/

inductive IsrLabel where
  | isr (v : Nat)
  | isrCommonStub
  | kernelEntry
  | kernelExit
  deriving DecidableEq

/-- The one routine the stubs call is `isr_handler`. -/
abbrev IsrCode := List (Instr IsrLabel Unit)

/-- `%macro ISR_NOERRCODE`. -/
def isrNoerrcode (v : Nat) : IsrCode :=
  [.label (.isr v), .push (.imm 0), .push (.imm (BitVec.ofNat 64 v)), .jmp .isrCommonStub]

/-- `%macro ISR_ERRCODE`. -/
def isrErrcode (v : Nat) : IsrCode :=
  [.label (.isr v), .push (.imm (BitVec.ofNat 64 v)), .jmp .isrCommonStub]

/-- The vectors written with `ISR_ERRCODE`. -/
def hasErrcode (v : Nat) : Bool := v ∈ [8, 10, 11, 12, 13, 14, 17]

def isrStub (v : Nat) : IsrCode := if hasErrcode v then isrErrcode v else isrNoerrcode v

/-- The registers in the order they are pushed. -/
def savedRegs : List Reg :=
  [.rax, .rbx, .rcx, .rdx, .rbp, .rsi, .rdi, .r8, .r9, .r10, .r11, .r12, .r13, .r14, .r15]

/-- The stub from its second `jz` on. -/
def isrExit : IsrCode :=
  [.mov16 .rax 0x1B, .movSeg .ds .rax, .movSeg .es .rax, .swapgs] ++
    .label .kernelExit :: (pops savedRegs.reverse ++ [.add .rsp 16, .iretq])

/-- What is left when `isr_handler` has returned. -/
def isrReturned : IsrCode :=
  [.mov (.reg .rsp) (.place (.reg .rax)), .test (.mem .rsp (18 * 8)) 3] ++
    .jz .kernelExit :: isrExit

/-- `isr_common_stub`, after its label. -/
def isrBody : IsrCode :=
  pushes savedRegs ++ [.test (.mem .rsp (18 * 8)) 3] ++ .jz .kernelEntry :: ([.swapgs] ++
    .label .kernelEntry :: ([.mov (.reg .rdi) (.place (.reg .rsp))] ++ .call () :: isrReturned))

/-- idt_asm.asm: the stubs of the exceptions and of the 16 IRQs. -/
def idtAsm : IsrCode := (List.range 48).flatMap isrStub ++ .label .isrCommonStub :: isrBody

/-! ## §2. What the processor does. -/

/-- Privilege level 0, which the two low bits of CS say. -/
def InKernel (cs : Word) : Prop := cs &&& 3 = 0

instance (cs : Word) : Decidable (InKernel cs) := inferInstanceAs (Decidable (_ = _))

/-- The stack an interrupt is delivered on: that of the TSS if the privilege
    level changes, aligned to 16 bytes. -/
def deliverySp (rsp0 : Word) (k : Core) : Word :=
  (if InKernel k.cs then k.regs .rsp else rsp0) &&& ~~~0xF

/-- **The delivery** of an interrupt through an interrupt gate with selector
    `0x08`, with the error code if the vector has one. -/
def deliver (rsp0 : Word) (errorCode : Option Word) (k : Core) : Core :=
  let sp := deliverySp rsp0 k
  let k' := (k.setReg .rsp sp).pushWords
    ([k.ss, k.regs .rsp, k.rflags, k.cs, k.rip] ++ errorCode.toList)
  { k' with
    cs := 0x08
    ss := if InKernel k.cs then k.ss else 0
    -- TF, IF, NT, RF and VM are cleared
    rflags := k.rflags &&& ~~~0x34300 }

/-- Where the frame of an interrupt lies. -/
def isrFrameAddr (rsp0 : Word) (k : Core) : Word := stackDown (deliverySp rsp0 k) 22

/-- The frame of an interrupt with vector `v`. -/
def isrFrame (v : Nat) (errorCode : Option Word) (k : Core) : InterruptFrame where
  r15 := k.regs .r15
  r14 := k.regs .r14
  r13 := k.regs .r13
  r12 := k.regs .r12
  r11 := k.regs .r11
  r10 := k.regs .r10
  r9 := k.regs .r9
  r8 := k.regs .r8
  rdi := k.regs .rdi
  rsi := k.regs .rsi
  rbp := k.regs .rbp
  rdx := k.regs .rdx
  rcx := k.regs .rcx
  rbx := k.regs .rbx
  rax := k.regs .rax
  intNo := BitVec.ofNat 64 v
  errorCode := errorCode.getD 0
  rip := k.rip
  cs := k.cs
  rflags := k.rflags
  rsp := k.regs .rsp
  ss := k.ss

/-- What a core runs with. -/
def coreContext (k : Core) : Context where
  r15 := k.regs .r15
  r14 := k.regs .r14
  r13 := k.regs .r13
  r12 := k.regs .r12
  r11 := k.regs .r11
  r10 := k.regs .r10
  r9 := k.regs .r9
  r8 := k.regs .r8
  rdi := k.regs .rdi
  rsi := k.regs .rsi
  rbp := k.regs .rbp
  rdx := k.regs .rdx
  rcx := k.regs .rcx
  rbx := k.regs .rbx
  rax := k.regs .rax
  rip := k.rip
  cs := k.cs
  rflags := k.rflags
  rsp := k.regs .rsp
  ss := k.ss

/-- A frame holds the context it was made of. -/
theorem isrFrame_context (v : Nat) (errorCode : Option Word) (k : Core) :
    (isrFrame v errorCode k).context = coreContext k := rfl

/-! ## §3. The way in. -/

/-- The words of a frame in the order they are pushed. -/
def frameWords (v : Nat) (errorCode : Option Word) (k : Core) : List Word :=
  [k.ss, k.regs .rsp, k.rflags, k.cs, k.rip, errorCode.getD 0, BitVec.ofNat 64 v] ++
    savedRegs.map k.regs

/-- The core when `isr_handler` is called: the frame is on the stack, and GS
    has the kernel's base. -/
def isrEnter (v : Nat) (rsp0 : Word) (errorCode : Option Word) (k : Core) : Core :=
  let k₁ := { (k.setReg .rsp (deliverySp rsp0 k)).pushWords (frameWords v errorCode k) with
    cs := 0x08, ss := if InKernel k.cs then k.ss else 0, rflags := k.rflags &&& ~~~0x34300 }
  let k₂ := k₁.setZf (k.cs &&& 3)
  let k₃ := if InKernel k.cs then k₂ else k₂.swapgs
  k₃.setReg .rdi (isrFrameAddr rsp0 k)

theorem deliverySp_setReg (rsp0 : Word) (errorCode : Option Word) (k : Core) :
    (deliver rsp0 errorCode k) =
      { (k.setReg .rsp (deliverySp rsp0 k)).pushWords
          ([k.ss, k.regs .rsp, k.rflags, k.cs, k.rip] ++ errorCode.toList) with
        cs := 0x08, ss := if InKernel k.cs then k.ss else 0, rflags := k.rflags &&& ~~~0x34300 } := rfl

/-- Pushing does not touch the other registers. -/
theorem pushWords_control (k : Core) (cs ss rflags : Word) (ws : List Word) :
    ({ k with cs := cs, ss := ss, rflags := rflags } : Core).pushWords ws =
      { k.pushWords ws with cs := cs, ss := ss, rflags := rflags } := rfl

/-- The stub of vector `v` and the common pushes complete the frame. -/
theorem isrStub_pushes {v : Nat} (rsp0 : Word) {errorCode : Option Word} (k : Core)
    (hec : errorCode.isSome = hasErrcode v) (env : Unit → Core → Core) :
    runBlock env (pushes savedRegs : IsrCode)
        (runBlock env ((if hasErrcode v then [] else [.push (.imm 0)]) ++
          [.push (.imm (BitVec.ofNat 64 v))] : IsrCode) (deliver rsp0 errorCode k)) =
      { (k.setReg .rsp (deliverySp rsp0 k)).pushWords (frameWords v errorCode k) with
        cs := 0x08, ss := if InKernel k.cs then k.ss else 0, rflags := k.rflags &&& ~~~0x34300 } := by
  have hpushed : runBlock env ((if hasErrcode v then [] else [.push (.imm 0)]) ++
      [.push (.imm (BitVec.ofNat 64 v))] : IsrCode) (deliver rsp0 errorCode k) =
      (deliver rsp0 errorCode k).pushWords
        ((if hasErrcode v then [] else [0]) ++ [BitVec.ofNat 64 v]) := by
    cases hasErrcode v with
    | true => exact Core.push_eq _ _
    | false =>
      show ((deliver rsp0 errorCode k).push 0).push _ = _
      rw [Core.push_eq, Core.push_eq, Core.pushWords_append]
      rfl
  have hwords : errorCode.toList ++ ((if hasErrcode v then [] else [(0 : Word)]) ++
      [BitVec.ofNat 64 v]) = [errorCode.getD 0, BitVec.ofNat 64 v] := by
    cases errorCode with
    | none => rw [← hec]; rfl
    | some e => rw [← hec]; rfl
  have hregs : savedRegs.map ((deliver rsp0 errorCode k).pushWords
      ((if hasErrcode v then [] else [0]) ++ [BitVec.ofNat 64 v])).regs = savedRegs.map k.regs := by
    refine List.map_congr_left fun r hr => ?_
    have hrsp : r ≠ .rsp := by
      rintro rfl
      revert hr
      decide
    simp only [deliver, Core.pushWords, Core.setReg, Function.update_of_ne hrsp]
  rw [hpushed, runBlock_pushes env (by decide), hregs, Core.pushWords_append, deliverySp_setReg,
    pushWords_control, Core.pushWords_append, frameWords, List.append_assoc, ← List.append_assoc
      errorCode.toList, hwords]
  rfl

/-- The stack of `isr_handler`, word by word. -/
theorem savedFrame_isrEnter (v : Nat) (rsp0 : Word) (errorCode : Option Word) (k : Core) :
    savedFrame (isrEnter v rsp0 errorCode k).mem (isrFrameAddr rsp0 k) = isrFrame v errorCode k := by
  have hmem : (isrEnter v rsp0 errorCode k).mem =
      k.mem.pushAll (deliverySp rsp0 k) (frameWords v errorCode k) := by
    simp only [isrEnter, Core.setReg, Core.pushWords, Core.setZf, Core.swapgs, Function.update_self]
    split <;> rfl
  have heq : savedFrame (isrEnter v rsp0 errorCode k).mem (isrFrameAddr rsp0 k) =
      .ofWords fun i => (frameWords v errorCode k).reverse.getD i 0 := by
    refine ofWords_congr fun i hi => ?_
    have hlen : i < (frameWords v errorCode k).length := by simpa [frameWords, savedRegs] using hi
    rw [hmem]
    exact Mem.load64_pushAll k.mem _ (frameWords v errorCode k) (by simp [frameWords, savedRegs]) hlen
  rw [heq]
  rfl

/-- Nothing but the frame is written. -/
theorem mem_isrEnter (v : Nat) (rsp0 : Word) (errorCode : Option Word) (k : Core) {x : Word}
    (hx : 176 ≤ (x - isrFrameAddr rsp0 k).toNat) : (isrEnter v rsp0 errorCode k).mem x = k.mem x := by
  have hmem : (isrEnter v rsp0 errorCode k).mem =
      k.mem.pushAll (deliverySp rsp0 k) (frameWords v errorCode k) := by
    simp only [isrEnter, Core.setReg, Core.pushWords, Core.setZf, Core.swapgs, Function.update_self]
    split <;> rfl
  rw [hmem]
  exact Mem.pushAll_frame k.mem _ (by simp [frameWords, savedRegs]) hx

/-! ## §4. The way out. -/

/-- The registers of a context. -/
def Context.reg (x : Context) : Reg → Word
  | .rax => x.rax
  | .rbx => x.rbx
  | .rcx => x.rcx
  | .rdx => x.rdx
  | .rsi => x.rsi
  | .rdi => x.rdi
  | .rbp => x.rbp
  | .rsp => x.rsp
  | .r8 => x.r8
  | .r9 => x.r9
  | .r10 => x.r10
  | .r11 => x.r11
  | .r12 => x.r12
  | .r13 => x.r13
  | .r14 => x.r14
  | .r15 => x.r15

/-- What the stub makes of the core in which `isr_handler` returned: the
    context of the frame at the returned address runs, with the user's data
    segments and GS base if it is a user context. -/
def isrLeave (k : Core) : Core :=
  let f := savedFrame k.mem (k.regs .rax)
  let k₁ := if InKernel f.cs then k else { k.swapgs with segs := fun _ => 0x1B }
  { k₁ with
    regs := f.context.reg
    rip := f.rip, cs := f.cs, rflags := f.rflags, ss := f.ss }

/-- **The context of the returned frame runs**. -/
theorem isrLeave_context (k : Core) :
    coreContext (isrLeave k) = (savedFrame k.mem (k.regs .rax)).context := by
  unfold isrLeave
  rfl

/-- The core at the first `pop`, on the stack the handler returned. -/
def isrSwitched (k : Core) : Core :=
  let k₁ := (k.setReg .rsp (k.regs .rax)).setZf ((savedFrame k.mem (k.regs .rax)).cs &&& 3)
  if InKernel (savedFrame k.mem (k.regs .rax)).cs then k₁
  else
    { (k₁.setReg .rax ((k.regs .rax &&& ~~~0xFFFF) ||| 0x1B)).swapgs with segs := fun _ => 0x1B }

theorem zf_setZf (k : Core) (v : Word) : (k.setZf v).zf = decide (v = 0) := by
  unfold Core.zf Core.setZf
  by_cases h : v = 0
  · rw [decide_eq_true h, if_pos h]
    simp
  · rw [decide_eq_false h, if_neg h]
    simp

/-- `test` of CS looks at the privilege level. -/
theorem zf_test (k : Core) (cs : Word) : (k.setZf (cs &&& 3)).zf = decide (InKernel cs) :=
  zf_setZf k (cs &&& 3)

/-- The user data segments and the user's GS base, if the frame is a user's. -/
theorem runBlock_userSegments (k : Core) (env : Unit → Core → Core) :
    runBlock env ([.mov16 .rax 0x1B, .movSeg .ds .rax, .movSeg .es .rax, .swapgs] : IsrCode) k =
      { (k.setReg .rax ((k.regs .rax &&& ~~~0xFFFF) ||| 0x1B)).swapgs with segs := fun _ => 0x1B } := by
  have hsel : ((k.regs .rax &&& ~~~0xFFFF) ||| 0x1B : Word).setWidth 16 = (0x1B : BitVec 16) := by
    have hlow : (~~~0xFFFF : Word).setWidth 16 = (0 : BitVec 16) := by decide
    rw [BitVec.setWidth_or, BitVec.setWidth_and, hlow, BitVec.ofNat_eq_ofNat, BitVec.and_zero,
      BitVec.zero_or]
    rfl
  have hsegs : Function.update (Function.update k.segs .ds (0x1B : BitVec 16)) .es 0x1B =
      fun _ => 0x1B := by
    funext d
    cases d <;> rfl
  have hword : (0x1B : BitVec 16).setWidth 64 = (0x1B : Word) := by decide
  simp only [runBlock_cons, runBlock_nil, Instr.exec, Core.setReg, Core.swapgs, Function.update_self,
    hword, hsel, hsegs]

/-- The interrupt number and the error code are skipped. -/
theorem iretq_skip (k : Core) :
    ((k.setReg .rsp (k.regs .rsp + 16)).setZf (k.regs .rsp + 16)).iretq =
      { k with
        rip := k.slot 2, cs := k.slot 3, rflags := k.slot 4, ss := k.slot 6
        regs := Function.update k.regs .rsp (k.slot 5) } := by
  have hslot : ∀ i, ((k.setReg .rsp (k.regs .rsp + 16)).setZf (k.regs .rsp + 16)).slot i =
      k.slot (i + 2) := by
    intro i
    have haddr : stackSlot (k.regs .rsp + 16) i = stackSlot (k.regs .rsp) (i + 2) := by
      rw [stackSlot_succ, stackSlot_succ, BitVec.add_assoc]
      rfl
    simp only [Core.slot, Core.setZf, Core.setReg, Function.update_self, haddr]
  rw [Core.iretq, hslot, hslot, hslot, hslot, hslot]
  simp only [Core.setZf, Core.setReg, Function.update_idem]

theorem isrSwitched_mem (k : Core) : (isrSwitched k).mem = k.mem := by
  unfold isrSwitched
  split <;> rfl

theorem isrSwitched_rsp (k : Core) : (isrSwitched k).regs .rsp = k.regs .rax := by
  unfold isrSwitched
  split <;> simp [Core.setReg, Core.setZf, Core.swapgs, Function.update]

theorem isrSwitched_slot (k : Core) (i : Nat) :
    (isrSwitched k).slot i = k.mem.load64 (k.regs .rax + BitVec.ofNat 64 (8 * i)) := by
  rw [Core.slot, isrSwitched_mem, isrSwitched_rsp]
  rfl

/-- The core after the 15 pops. -/
def isrPopped (k : Core) : Core :=
  { isrSwitched k with
    regs := Function.update (savedFrame k.mem (k.regs .rax)).context.reg .rsp
      (stackSlot (k.regs .rax) 15) }

theorem isrPopped_regs (k : Core) : (isrPopped k).regs =
    Function.update (savedFrame k.mem (k.regs .rax)).context.reg .rsp
      (stackSlot (k.regs .rax) 15) := rfl

/-- **The pops**: each register from its own slot. -/
theorem isrSwitched_pops (k : Core) (env : Unit → Core → Core) :
    runBlock env (pops savedRegs.reverse : IsrCode) (isrSwitched k) = isrPopped k := by
  have hregs : Function.update (poppedInto (isrSwitched k) savedRegs.reverse) .rsp
        (stackSlot ((isrSwitched k).regs .rsp) savedRegs.reverse.length) =
      Function.update (savedFrame k.mem (k.regs .rax)).context.reg .rsp
        (stackSlot (k.regs .rax) 15) := by
    funext r
    by_cases hr : r = .rsp
    · rw [hr, Function.update_self, Function.update_self, isrSwitched_rsp]
      rfl
    · rw [Function.update_of_ne hr, Function.update_of_ne hr]
      cases r with
      | rsp => exact absurd rfl hr
      | _ => exact isrSwitched_slot k _
  rw [runBlock_pops env (by decide) (by decide), hregs]
  rfl

theorem isrPopped_slot (k : Core) (i : Nat) : (isrPopped k).slot i =
    k.mem.load64 (k.regs .rax + BitVec.ofNat 64 (8 * (15 + i))) := by
  have hmem : (isrPopped k).mem = k.mem := isrSwitched_mem k
  rw [Core.slot, isrPopped_regs, Function.update_self, hmem, stackSlot_add]
  rfl

/-- **The rest of the frame**: what `add rsp, 16` and `iretq` do. -/
theorem isrPopped_iretq (k : Core) (env : Unit → Core → Core) :
    (Instr.exec env (.add .rsp 16 : Instr IsrLabel Unit) (isrPopped k)).iretq = isrLeave k := by
  have hregs : Function.update (isrPopped k).regs .rsp ((isrPopped k).slot 5) =
      (savedFrame k.mem (k.regs .rax)).context.reg := by
    funext r
    by_cases hr : r = .rsp
    · rw [hr, Function.update_self, isrPopped_slot]
      rfl
    · rw [Function.update_of_ne hr, isrPopped_regs, Function.update_of_ne hr]
  have hskip := iretq_skip (isrPopped k)
  rw [hregs, isrPopped_slot, isrPopped_slot, isrPopped_slot, isrPopped_slot] at hskip
  refine hskip.trans ?_
  by_cases hcs : InKernel (savedFrame k.mem (k.regs .rax)).cs
  · simp only [isrLeave, isrPopped, isrSwitched, if_pos hcs]
    rfl
  · simp only [isrLeave, isrPopped, isrSwitched, if_neg hcs]
    rfl

/-! ## §5. Whole interrupts. -/

theorem codeAt_isrStub (v w : Nat) : codeAt (.isr w) (isrStub v) =
    if v = w then
      some ((if hasErrcode v then [] else [.push (.imm 0)]) ++
        [.push (.imm (BitVec.ofNat 64 v)), .jmp .isrCommonStub])
    else none := by
  by_cases hvw : v = w
  · subst hvw
    unfold isrStub
    cases hasErrcode v <;> simp [isrErrcode, isrNoerrcode, codeAt]
  · unfold isrStub
    cases hasErrcode v <;> simp [isrErrcode, isrNoerrcode, codeAt, hvw]

/-- The stub of a vector. -/
theorem codeAt_isr {v : Nat} (hv : v < 48) : ∃ c, codeAt (.isr v) idtAsm =
    some ((if hasErrcode v then [] else [.push (.imm 0)]) ++
      [.push (.imm (BitVec.ofNat 64 v)), .jmp .isrCommonStub] ++ c) := by
  refine codeAt_flatMap (List.range 48) isrStub (List.mem_range.mpr hv) ?_ (fun w _ hw => ?_) _
  · rw [codeAt_isrStub, if_pos rfl]
  · rw [codeAt_isrStub, if_neg hw]

/-- The labels of the common part. -/
theorem codeAt_common {l : IsrLabel} (hl : ∀ v, l ≠ .isr v) :
    codeAt l idtAsm = codeAt l (.label .isrCommonStub :: isrBody) := by
  refine codeAt_flatMap_none (List.range 48) isrStub (fun v _ => ?_) _
  unfold isrStub
  cases hasErrcode v <;> simp [isrErrcode, isrNoerrcode, codeAt, (hl v).symm]

/-- The way in ends where `isr_handler` is called. -/
theorem isr_enters {v : Nat} (hv : v < 48) (rsp0 : Word) {errorCode : Option Word}
    (hec : errorCode.isSome = hasErrcode v) (env : Unit → Core → Core) (k : Core) :
    ∃ c, codeAt (.isr v) idtAsm = some c ∧
      Steps idtAsm env (c, deliver rsp0 errorCode k)
        (.call () :: isrReturned, isrEnter v rsp0 errorCode k) := by
  obtain ⟨c, hc⟩ := codeAt_isr hv
  refine ⟨_, hc, ?_⟩
  have hcommon : codeAt .isrCommonStub idtAsm = some isrBody := by
    rw [codeAt_common (fun v => by simp)]
    rfl
  have hentry : codeAt .kernelEntry idtAsm =
      some (.mov (.reg .rdi) (.place (.reg .rsp)) :: .call () :: isrReturned) := by
    rw [codeAt_common (fun v => by simp)]
    rfl
  set k₁ := runBlock env ((if hasErrcode v then [] else [.push (.imm 0)]) ++
    [.push (.imm (BitVec.ofNat 64 v))] : IsrCode) (deliver rsp0 errorCode k) with hk₁
  set k₂ := ({ (k.setReg .rsp (deliverySp rsp0 k)).pushWords (frameWords v errorCode k) with
    cs := 0x08, ss := if InKernel k.cs then k.ss else 0, rflags := k.rflags &&& ~~~0x34300 } :
    Core) with hk₂
  have hstub : Steps idtAsm env (((if hasErrcode v then [] else [.push (.imm 0)]) ++
      [.push (.imm (BitVec.ofNat 64 v)), .jmp .isrCommonStub] ++ c), deliver rsp0 errorCode k)
      (isrBody, k₁) := by
    have hblock : Steps idtAsm env (((if hasErrcode v then [] else [.push (.imm 0)]) ++
        [.push (.imm (BitVec.ofNat 64 v))] : IsrCode) ++ (.jmp .isrCommonStub :: c),
        deliver rsp0 errorCode k) (.jmp .isrCommonStub :: c, k₁) :=
      Steps.block (by cases hasErrcode v <;> rfl) _ _
    rw [List.append_assoc] at hblock ⊢
    exact hblock.trans (Steps.jmp hcommon k₁)
  have hsave : Steps idtAsm env (isrBody, k₁)
      (.jz .kernelEntry :: ([.swapgs] ++ .label .kernelEntry ::
        ([.mov (.reg .rdi) (.place (.reg .rsp))] ++ .call () :: isrReturned)),
        k₂.setZf (k.cs &&& 3)) := by
    have hblock : Steps idtAsm env (isrBody, k₁) (_, runBlock env
        (pushes savedRegs ++ [.test (.mem .rsp (18 * 8)) 3] : IsrCode) k₁) := Steps.block rfl _ _
    rw [runBlock_append, hk₁, isrStub_pushes rsp0 k hec env, ← hk₂] at hblock
    -- CS is the 18th word of the stack
    have hcs : k₂.read (.mem .rsp (18 * 8)) = k.cs := by
      have hslot := Core.slot_pushWords (k.setReg .rsp (deliverySp rsp0 k)) (frameWords v errorCode k)
        (by simp [frameWords, savedRegs]) (i := 18) (by simp [frameWords, savedRegs])
      exact hslot
    have htest : runBlock env ([.test (.mem .rsp (18 * 8)) 3] : IsrCode) k₂ =
        k₂.setZf (k.cs &&& 3) := by
      show k₂.setZf (k₂.read (.mem .rsp (18 * 8)) &&& 3) = _
      rw [hcs]
    rw [htest] at hblock
    exact hblock
  have hswap : Steps idtAsm env (.jz .kernelEntry :: ([.swapgs] ++ .label .kernelEntry ::
      ([.mov (.reg .rdi) (.place (.reg .rsp))] ++ .call () :: isrReturned)), k₂.setZf (k.cs &&& 3))
      ([.mov (.reg .rdi) (.place (.reg .rsp))] ++ .call () :: isrReturned,
        if InKernel k.cs then k₂.setZf (k.cs &&& 3) else (k₂.setZf (k.cs &&& 3)).swapgs) := by
    have hskip : Steps idtAsm env _ _ :=
      Steps.skip (b := [.swapgs]) rfl hentry (k₂.setZf (k.cs &&& 3))
    simp only [zf_test, decide_eq_true_eq] at hskip
    exact hskip
  have hrdi : Steps idtAsm env ([.mov (.reg .rdi) (.place (.reg .rsp))] ++ .call () :: isrReturned,
      if InKernel k.cs then k₂.setZf (k.cs &&& 3) else (k₂.setZf (k.cs &&& 3)).swapgs)
      (.call () :: isrReturned, isrEnter v rsp0 errorCode k) := by
    set k₃ := if InKernel k.cs then k₂.setZf (k.cs &&& 3) else (k₂.setZf (k.cs &&& 3)).swapgs with hk₃
    have hrsp : k₃.regs .rsp = isrFrameAddr rsp0 k := by
      have hregs : k₃.regs = k₂.regs := by
        rw [hk₃]
        split <;> rfl
      rw [hregs, hk₂]
      simp only [Core.pushWords, Core.setReg, Function.update_self]
      rfl
    have hlast : isrEnter v rsp0 errorCode k = k₃.setReg .rdi (k₃.regs .rsp) := by
      rw [hrsp]
      rfl
    rw [hlast]
    exact Steps.block rfl _ _
  exact ((hstub.trans hsave).trans hswap).trans hrdi

/-- The way out ends at `iretq`. -/
theorem isr_leaves (env : Unit → Core → Core) (k : Core) :
    ∃ k', Steps idtAsm env (isrReturned, k) ([.iretq], k') ∧ k'.iretq = isrLeave k := by
  have hexit : codeAt .kernelExit idtAsm = some (pops savedRegs.reverse ++ [.add .rsp 16, .iretq]) := by
    rw [codeAt_common (fun v => by simp)]
    rfl
  set k₁ := (k.setReg .rsp (k.regs .rax)).setZf ((savedFrame k.mem (k.regs .rax)).cs &&& 3) with hk₁
  have hhead : Steps idtAsm env (isrReturned, k) (.jz .kernelExit :: isrExit, k₁) := by
    have hblock : Steps idtAsm env (isrReturned, k) (.jz .kernelExit :: isrExit, runBlock env
        ([.mov (.reg .rsp) (.place (.reg .rax)), .test (.mem .rsp (18 * 8)) 3] : IsrCode) k) :=
      Steps.block rfl _ _
    have htest : runBlock env ([.mov (.reg .rsp) (.place (.reg .rax)), .test (.mem .rsp (18 * 8)) 3] :
        IsrCode) k = k₁ := by
      simp only [runBlock_cons, runBlock_nil, Instr.exec, Core.eval, Core.read, Core.write,
        Core.setReg, Function.update_self, hk₁]
      rfl
    rw [htest] at hblock
    exact hblock
  have hskip : Steps idtAsm env (.jz .kernelExit :: isrExit, k₁)
      (pops savedRegs.reverse ++ [.add .rsp 16, .iretq], isrSwitched k) := by
    have hjump : Steps idtAsm env _ _ :=
      Steps.skip (b := [.mov16 .rax 0x1B, .movSeg .ds .rax, .movSeg .es .rax, .swapgs]) rfl hexit k₁
    have hlast : (if k₁.zf then k₁ else runBlock env ([.mov16 .rax 0x1B, .movSeg .ds .rax,
        .movSeg .es .rax, .swapgs] : IsrCode) k₁) = isrSwitched k := by
      have hrax : k₁.regs .rax = k.regs .rax := rfl
      rw [runBlock_userSegments, hrax, hk₁, zf_test]
      unfold isrSwitched
      by_cases hcs : InKernel (savedFrame k.mem (k.regs .rax)).cs
      · rw [if_pos hcs, if_pos (decide_eq_true hcs)]
      · rw [if_neg hcs, if_neg (by simpa using hcs)]
    rw [hlast] at hjump
    exact hjump
  have hpops : Steps idtAsm env (pops savedRegs.reverse ++ [.add .rsp 16, .iretq], isrSwitched k)
      ([.iretq], Instr.exec env (.add .rsp 16 : Instr IsrLabel Unit) (isrPopped k)) := by
    have hblock : Steps idtAsm env ((pops savedRegs.reverse ++ [.add .rsp 16]) ++ [.iretq],
        isrSwitched k) ([.iretq], runBlock env
          (pops savedRegs.reverse ++ [.add .rsp 16] : IsrCode) (isrSwitched k)) :=
      Steps.block rfl _ _
    rw [runBlock_append, isrSwitched_pops] at hblock
    exact hblock
  exact ⟨_, (hhead.trans hskip).trans hpops, isrPopped_iretq k env⟩

/-- **A whole interrupt**: from the delivery of vector `v` to `iretq`, whatever
    `isr_handler` does. -/
theorem isr_runs {v : Nat} (hv : v < 48) (rsp0 : Word) {errorCode : Option Word}
    (hec : errorCode.isSome = hasErrcode v) (isrHandler : Core → Core) (k : Core) :
    ∃ c k', codeAt (.isr v) idtAsm = some c ∧
      Steps idtAsm (fun _ => isrHandler) (c, deliver rsp0 errorCode k) ([.iretq], k') ∧
      k'.iretq = isrLeave (isrHandler (isrEnter v rsp0 errorCode k)) := by
  obtain ⟨c, hc, hin⟩ := isr_enters hv rsp0 hec (fun _ => isrHandler) k
  obtain ⟨k', hout, hiret⟩ := isr_leaves (fun _ => isrHandler) (isrHandler (isrEnter v rsp0 errorCode k))
  have hcall : Steps idtAsm (fun _ => isrHandler) (.call () :: isrReturned, isrEnter v rsp0 errorCode k)
      (isrReturned, isrHandler (isrEnter v rsp0 errorCode k)) :=
    Relation.ReflTransGen.single rfl
  exact ⟨c, k', hc, (hin.trans hcall).trans hout, hiret⟩

theorem isrEnter_rdi (v : Nat) (rsp0 : Word) (errorCode : Option Word) (k : Core) :
    (isrEnter v rsp0 errorCode k).regs .rdi = isrFrameAddr rsp0 k := by
  simp only [isrEnter, Core.regs_setReg, Function.update_self]

/-- GS around the handler: the kernel's base on entry, and what was there before
    once the same context is resumed. -/
theorem isrLeave_gs {v : Nat} {rsp0 : Word} {errorCode : Option Word} {k k' : Core}
    (hgs : k'.gsBase = (isrEnter v rsp0 errorCode k).gsBase)
    (hkgs : k'.kernelGsBase = (isrEnter v rsp0 errorCode k).kernelGsBase)
    (hcs : (savedFrame k'.mem (k'.regs .rax)).cs = k.cs) :
    (isrLeave k').gsBase = k.gsBase ∧ (isrLeave k').kernelGsBase = k.kernelGsBase := by
  by_cases hk : InKernel k.cs
  · simp only [isrEnter, if_pos hk] at hgs hkgs
    simp only [isrLeave, hcs, if_pos hk]
    exact ⟨hgs, hkgs⟩
  · simp only [isrEnter, if_neg hk] at hgs hkgs
    simp only [isrLeave, hcs, if_neg hk]
    exact ⟨hkgs, hgs⟩

/-- **An interrupt is invisible** to what it interrupts, in every vector and at
    either privilege level: `isr_handler` is called with a pointer to a
    `struct interrupt_frame` that holds the interrupted context, and if it
    returns that pointer and leaves the frame alone, the same context goes on
    with the same GS bases. -/
theorem isr_invisible {v : Nat} (hv : v < 48) (rsp0 : Word) {errorCode : Option Word}
    (hec : errorCode.isSome = hasErrcode v) (isrHandler : Core → Core) (k : Core)
    (hret : (isrHandler (isrEnter v rsp0 errorCode k)).regs .rax = isrFrameAddr rsp0 k)
    (hframe : Mem.SameBytes (isrFrameAddr rsp0 k) 176 (isrEnter v rsp0 errorCode k).mem
      (isrHandler (isrEnter v rsp0 errorCode k)).mem)
    (hgs : (isrHandler (isrEnter v rsp0 errorCode k)).gsBase = (isrEnter v rsp0 errorCode k).gsBase)
    (hkgs : (isrHandler (isrEnter v rsp0 errorCode k)).kernelGsBase =
      (isrEnter v rsp0 errorCode k).kernelGsBase) :
    (isrEnter v rsp0 errorCode k).regs .rdi = isrFrameAddr rsp0 k ∧
      savedFrame (isrEnter v rsp0 errorCode k).mem (isrFrameAddr rsp0 k) = isrFrame v errorCode k ∧
      ∃ c k', codeAt (.isr v) idtAsm = some c ∧
        Steps idtAsm (fun _ => isrHandler) (c, deliver rsp0 errorCode k) ([.iretq], k') ∧
        coreContext k'.iretq = coreContext k ∧ k'.iretq.gsBase = k.gsBase ∧
        k'.iretq.kernelGsBase = k.kernelGsBase := by
  have hsaved := savedFrame_isrEnter v rsp0 errorCode k
  refine ⟨isrEnter_rdi v rsp0 errorCode k, hsaved, ?_⟩
  obtain ⟨c, k', hc, hsteps, hiret⟩ := isr_runs hv rsp0 hec isrHandler k
  set e := isrHandler (isrEnter v rsp0 errorCode k) with he
  have hback : savedFrame e.mem (e.regs .rax) = isrFrame v errorCode k := by
    rw [hret, ← savedFrame_congr hframe]
    exact hsaved
  have hcs : (savedFrame e.mem (e.regs .rax)).cs = k.cs := by
    rw [hback]
    rfl
  refine ⟨c, k', hc, hsteps, ?_, ?_⟩
  · rw [hiret, isrLeave_context, hback, isrFrame_context]
  · rw [hiret]
    exact isrLeave_gs hgs hkgs hcs

/-- `isr_invisible` for a page fault in user mode. -/
theorem isr_invisible_pageFault : ∃ (k k' : Core) (c : IsrCode),
    codeAt (.isr 14) idtAsm = some c ∧
      Steps idtAsm (fun _ k => k.setReg .rax (k.regs .rdi)) (c, deliver 0x9000 (some 6) k)
        ([.iretq], k') ∧ k.cs = 0x23 ∧ coreContext k'.iretq = coreContext k := by
  set k : Core :=
    { regs := fun _ => 7, segs := fun _ => 0x1B, rip := 0x400000, cs := 0x23, rflags := 0x202
      ss := 0x1B, gsBase := 0, kernelGsBase := 0x5000, mem := fun _ => 0 } with hk
  have hrdi := isrEnter_rdi 14 0x9000 (some 6) k
  have hec : (some 6 : Option Word).isSome = hasErrcode 14 := rfl
  obtain ⟨-, -, c, k', hc, hsteps, hctx, -⟩ :=
    isr_invisible (by decide) 0x9000 hec
      (fun k => k.setReg .rax (k.regs .rdi)) k
      (by rw [Core.regs_setReg, Function.update_self, hrdi]) (fun _ _ => rfl) rfl rfl
  exact ⟨k, k', c, hc, hsteps, rfl, hctx⟩

end ZohoOs
