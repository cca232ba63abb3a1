/-
  ZohoOs.Interrupt.Tasking — CPUs that execute tasks.

  The state is the scheduler's, memory, and the registers of every CPU.  A CPU
  executes its current task, is interrupted, or creates a task; the steps of
  different CPUs interleave.  An interrupt is one step: the delivery, the stub
  and `isr_handler` of `Interrupt.Stub` and `Interrupt.Handler`.  As in
  `Task.Basic`, the scheduler's functions are not interleaved with each other.

  What a task does between interrupts is not modelled; `OwnStep` says what it
  may do: it leaves the kernel stacks of waiting tasks alone, in the kernel it
  stays on its own stack, and it changes the GS base only together with the
  privilege level.  `task_fork` is not among the steps: it copies a frame that
  the parent saved earlier, which is the subject of `Task.Fork`.

    * `frameIn_deliver` — an interrupt frame of a task lies on its own kernel
      stack;
    * `savedFrame_initialFrame` — the first frame of a task, as the creating
      functions write it.
-/
import ZohoOs.Interrupt.Handler

namespace ZohoOs

open ZohoOs.Lib
open ZohoOs.Lib.Asm

variable {n : Nat}

/-! ## §1. Kernel stacks. -/

/-- **The kernel stack of a task**, by its lowest address: what the creating
    function allocated, or the boot stack of the CPU whose idle task it is. -/
inductive StackOf (boot : Fin n → Word) (s : Sched n) : Word → Word → Prop
  | created {t : Word} (ht : t ∈ s.created) (h0 : t ≠ 0) : StackOf boot s t (s.tasks t).stackBottom
  | idle (c : Fin n) : StackOf boot s (s.idle c) (boot c)

/-- Two stacks share no byte. -/
def StacksApart (b b' : Word) : Prop :=
  b.toNat + 16384 ≤ b'.toNat ∨ b'.toNat + 16384 ≤ b.toNat

/-- The frame at `a` lies on the stack at `b`. -/
def FrameIn (b a : Word) : Prop := b.toNat ≤ a.toNat ∧ a.toNat + 176 ≤ b.toNat + 16384

/-- A context in the kernel is on the stack at `b`, with room for one more
    interrupt. -/
def Context.OnStack (b : Word) (x : Context) : Prop :=
  InKernel x.cs → b.toNat + 192 ≤ x.rsp.toNat ∧ x.rsp.toNat ≤ b.toNat + 16384

/-- In the kernel GS has the base `g`; in user mode `swapgs` brings it back. -/
def GsOk (g : Word) (k : Core) : Prop :=
  if InKernel k.cs then k.gsBase = g else k.kernelGsBase = g

/-- Nobody writes the kernel stack of a task that waits for a CPU. -/
def KeepsWaiting (boot : Fin n → Word) (s : Sched n) (mem mem' : Mem) : Prop :=
  ∀ t b, StackOf boot s t b → (∀ c, s.current c ≠ t) → Mem.SameBytes b 16384 mem mem'

/-- The frame of a delivery on a stack pointer with room below it. -/
theorem frameIn_of_top {b p : Word} (hlow : b.toNat + 192 ≤ p.toNat)
    (hhigh : p.toNat ≤ b.toNat + 16384) : FrameIn b (stackDown (p &&& ~~~0xF) 22) := by
  have hmask : (p &&& ~~~0xF).toNat = p.toNat / 2 ^ 4 * 2 ^ 4 :=
    Word.toNat_and_not_lowMask p (k := 4) (by decide)
  have hdown : (stackDown (p &&& ~~~0xF) 22).toNat = p.toNat / 16 * 16 - 176 := by
    rw [stackDown, BitVec.toNat_sub, hmask]
    have hp := p.isLt
    have h176 : (BitVec.ofNat 64 (8 * 22) : Word).toNat = 176 := by decide
    rw [h176]
    omega
  unfold FrameIn
  rw [hdown]
  omega

theorem FrameIn.sameBytes {b a : Word} {mem mem' : Mem} (h : FrameIn b a)
    (hfit : b.toNat + 16384 < 2 ^ 64) (hsame : Mem.SameBytes b 16384 mem mem') :
    Mem.SameBytes a 176 mem mem' := by
  intro p hp
  obtain ⟨hlow, hhigh⟩ := h
  apply hsame
  rw [BitVec.toNat_sub] at hp ⊢
  omega

/-- What happens on one stack does not reach another. -/
theorem FrameIn.apart {b b' a x : Word} (h : FrameIn b a) (hb : StacksApart b b')
    (hfit : b.toNat + 16384 < 2 ^ 64) (hfit' : b'.toNat + 16384 < 2 ^ 64) (hx : (x - b').toNat < 16384) :
    176 ≤ (x - a).toNat := by
  obtain ⟨hlow, hhigh⟩ := h
  unfold StacksApart at hb
  rw [BitVec.toNat_sub] at hx ⊢
  have := x.isLt
  have := a.isLt
  omega

/-! ## §2. Creating tasks. -/

/-- What the creating functions write below the top of a new kernel stack, in
    this order: SS, RSP, RFLAGS, CS, RIP, two zeros and 15 zero registers. -/
def initialFrame (mem : Mem) (top ss rsp cs entry : Word) : Mem :=
  mem.pushAll top ([ss, rsp, 0x202, cs, entry, 0, 0] ++ List.replicate 15 0)

/-- What a task starts with. -/
def startContext (ss rsp cs entry : Word) : Context :=
  ⟨0, 0, 0, 0, 0, 0, 0, 0, 0, 0, 0, 0, 0, 0, 0, entry, cs, 0x202, rsp, ss⟩

/-- **A creating function**, with the record and the kernel stack `kmalloc`
    returned: what it does to the scheduler, and the SS, RSP, CS and RIP it
    writes.  C leaves open whether `task_create` computes `stack + 8` before or
    after `--stack`. -/
inductive Creates [NeZero n] (s : Sched n) (t stack : Word) :
    Sched n → Word → Word → Word → Word → Prop
  | kernel (cr3 entry rsp : Word) (h : rsp = stack + stackSize ∨ rsp = stack + stackSize - 8) :
      Creates s t stack (taskCreate s t cr3 stack) 0x10 rsp 0x08 entry
  | user (pml4 ustack entry : Word) :
      Creates s t stack (taskCreateUser s t pml4 stack ustack) 0x1B (ustack + stackSize) 0x23 entry
  | exec (pml4 ustack entry : Word) :
      Creates s t stack (taskExec s (some pml4) t stack ustack) 0x1B (ustack + stackSize) 0x23 entry

/-- All of them are `spawnTask`. -/
theorem Creates.spawns [NeZero n] {s s' : Sched n} {t stack ss rsp cs entry : Word}
    (h : Creates s t stack s' ss rsp cs entry) :
    ∃ pml4 ustack, s' = spawnTask s t pml4 stack ustack := by
  cases h with
  | kernel cr3 entry rsp h => exact ⟨cr3, 0, rfl⟩
  | user pml4 ustack entry => exact ⟨pml4, ustack, rfl⟩
  | exec pml4 ustack entry => exact ⟨pml4, ustack, rfl⟩

/-- A task that starts in the kernel starts at the top of its stack. -/
theorem Creates.onStack [NeZero n] {s s' : Sched n} {t stack ss rsp cs entry : Word}
    (h : Creates s t stack s' ss rsp cs entry) (hfit : stack.toNat + 16384 < 2 ^ 64) :
    (startContext ss rsp cs entry).OnStack stack := by
  have htop : (stack + stackSize).toNat = stack.toNat + 16384 := by
    rw [BitVec.toNat_add, show stackSize.toNat = 16384 from rfl, Nat.mod_eq_of_lt hfit]
  have huser : ¬ InKernel (0x23 : Word) := by decide
  intro hcs
  cases h with
  | kernel cr3 entry rsp hrsp =>
    show stack.toNat + 192 ≤ rsp.toNat ∧ rsp.toNat ≤ stack.toNat + 16384
    rcases hrsp with rfl | rfl
    · omega
    · rw [BitVec.toNat_sub, htop]
      have h8 : (8 : Word).toNat = 8 := by decide
      omega
  | user pml4 ustack entry => exact absurd hcs huser
  | exec pml4 ustack entry => exact absurd hcs huser

/-- **The first frame of a task**. -/
theorem savedFrame_initialFrame (mem : Mem) (top ss rsp cs entry : Word) :
    (savedFrame (initialFrame mem top ss rsp cs entry) (stackDown top 22)).context =
      startContext ss rsp cs entry := by
  set ws : List Word := [ss, rsp, 0x202, cs, entry, 0, 0] ++ List.replicate 15 0 with hws
  have heq : savedFrame (initialFrame mem top ss rsp cs entry) (stackDown top 22) =
      .ofWords fun i => ws.reverse.getD i 0 := by
    refine ofWords_congr fun i hi => ?_
    have hlen : i < ws.length := by simpa [hws] using hi
    exact Mem.load64_pushAll mem top ws (by simp [hws]) hlen
  rw [heq]
  rfl

theorem mem_initialFrame (mem : Mem) {top ss rsp cs entry x : Word}
    (hx : 176 ≤ (x - stackDown top 22).toNat) : initialFrame mem top ss rsp cs entry x = mem x :=
  Mem.pushAll_frame mem _ (by simp) (by simpa using hx)

/-- The record of the new task. -/
theorem spawnTask_fields [NeZero n] (s : Sched n) (t pml4 stack ustack : Word) :
    ((spawnTask s t pml4 stack ustack).tasks t).rsp = stack + stackSize - 22 * 8 ∧
      stackFields ((spawnTask s t pml4 stack ustack).tasks t) = (stack, stack + stackSize) := by
  unfold spawnTask
  have hqueued := fun (s₁ : Sched n) (c : Fin n) => (enqueueTask_same s₁ c t).tasks t
  constructor
  · rw [hqueued, Sched.tasks_setTask_self, Sched.tasks_setTask_self]
  · rw [hqueued, Sched.tasks_setTask_self, Sched.tasks_setTask_self]
    rfl

/-- The records of the other tasks. -/
theorem spawnTask_other [NeZero n] (s : Sched n) {t x : Word} (pml4 stack ustack : Word)
    (hx : x ≠ t) : ((spawnTask s t pml4 stack ustack).tasks x).rsp = (s.tasks x).rsp ∧
      stackFields ((spawnTask s t pml4 stack ustack).tasks x) = stackFields (s.tasks x) := by
  unfold spawnTask
  have hqueued := fun (s₁ : Sched n) (c : Fin n) => (enqueueTask_same s₁ c t).tasks x
  constructor
  · rw [hqueued, Sched.tasks_setTask_of_ne hx, Sched.tasks_setTask_of_ne hx]
  · rw [hqueued, Sched.tasks_setTask_of_ne hx, Sched.tasks_setTask_of_ne hx]
    rfl

theorem spawnTask_rsp0 [NeZero n] (s : Sched n) (t pml4 stack ustack : Word) (c : Fin n) :
    ((spawnTask s t pml4 stack ustack).cpus c).tssRsp0 = (s.cpus c).tssRsp0 := by
  unfold spawnTask
  have hqueued := fun (s₁ : Sched n) (c' : Fin n) => (enqueueTask_same s₁ c' t).cpus c
  rw [hqueued]
  rfl

/-! ## §3. Runs. -/

/-- **The CPUs and their tasks**; the memory of the cores is `mem`. -/
structure Tasking (n : Nat) where
  sched : Sched n
  mem : Mem
  core : Fin n → Core

namespace Tasking

/-- CPU `c`. -/
def on (m : Tasking n) (c : Fin n) : Core := { m.core c with mem := m.mem }

/-- CPU `c` goes on as `k`. -/
def put (m : Tasking n) (c : Fin n) (k : Core) (s : Sched n) : Tasking n :=
  ⟨s, k.mem, Function.update m.core c k⟩

/-- The frame of an interrupt that CPU `c` takes now. -/
def frameAt (m : Tasking n) (c : Fin n) : Word := isrFrameAddr (m.sched.cpus c).tssRsp0 (m.on c)

/-- CPU `c` when `isr_handler` is called. -/
def enter (m : Tasking n) (c : Fin n) (v : Nat) (errorCode : Option Word) : Core :=
  isrEnter v (m.sched.cpus c).tssRsp0 errorCode (m.on c)

end Tasking

/-- **What the current task of CPU `c` may do** between two interrupts, leaving
    its CPU as `k`. -/
structure OwnStep (boot gs : Fin n → Word) (m : Tasking n) (c : Fin n) (k : Core) : Prop where
  kept : KeepsWaiting boot m.sched m.mem k.mem
  onStack : ∀ b, StackOf boot m.sched (m.sched.current c) b → (coreContext k).OnStack b
  /-- The idle task has no user mode. -/
  idle : m.sched.current c = m.sched.idle c → InKernel k.cs
  gs : GsOk (gs c) k

/-- The steps: CPU `c` executes its task, CPU `c` is interrupted, task `t` is
    created. -/
inductive TaskAct (n : Nat) where
  | run (c : Fin n)
  | interrupt (c : Fin n)
  | spawn (t : Word)

inductive TaskStep [NeZero n] (boot gs : Fin n → Word) : Tasking n → TaskAct n → Tasking n → Prop
  | run {m : Tasking n} (c : Fin n) (k : Core) (h : OwnStep boot gs m c k) :
      TaskStep boot gs m (.run c) (m.put c k m.sched)
  /-- Vector `v` interrupts CPU `c`; `k` is the core in which `isr_handler` has
      returned `r`. -/
  | interrupt {m : Tasking n} {s₀ s' : Sched n} {r : Word} (c : Fin n) {v : Nat} (hv : v < 48)
      (errorCode : Option Word) (hec : errorCode.isSome = hasErrcode v)
      (hraised : Raised m.sched c v s₀) (fuel : Nat) (cow : Bool)
      (hret : isrHandler fuel s₀ c (savedFrame (m.enter c v errorCode).mem (m.frameAt c))
        (m.frameAt c) cow = some (r, s'))
      (k : Core) (hrax : k.regs .rax = r) (hgs : k.gsBase = (m.enter c v errorCode).gsBase)
      (hkept : KeepsWaiting boot m.sched (m.enter c v errorCode).mem k.mem)
      (hframe : Mem.SameBytes (m.frameAt c) 176 (m.enter c v errorCode).mem k.mem) :
      TaskStep boot gs m (.interrupt c) (m.put c (isrLeave k) s')
  /-- `kmalloc` returns a record and a stack nobody uses. -/
  | spawn {m : Tasking n} {s' : Sched n} {t stack ss rsp cs entry : Word}
      (hrec : m.sched.KmallocReturns t) (h0 : t ≠ 0)
      (hfit : stack.toNat + 16384 < 2 ^ 64)
      (hnew : ∀ t' b, StackOf boot m.sched t' b → StacksApart stack b)
      (h : Creates m.sched t stack s' ss rsp cs entry) :
      TaskStep boot gs m (.spawn t)
        ⟨s', initialFrame m.mem (stack + stackSize) ss rsp cs entry, m.core⟩

end ZohoOs
