/-
  ZohoOs.Task.Basic — tasks, runqueues and the scheduler (task.c).

  A task is a record at the address `kmalloc` returned for it; `0` is `NULL`.
  Every CPU has a runqueue, linked through the tasks' `next` fields, a current
  task and an idle task.  Each function takes the CPU it runs on.

  What a function gets from elsewhere is an argument: the pointers `kmalloc`
  returns, the address space the VMM or the ELF loader returns, the saved
  stack pointer.  The contents of stacks and address spaces are not part of
  this state.  The spinlocks are not modelled here: every function runs to its
  end before the next one starts.
-/
import ZohoOs.Lib.Word
import Mathlib.Data.List.FinRange
import Mathlib.Logic.Function.Basic

namespace ZohoOs

open ZohoOs.Lib

/-! ## §1. The state. -/

/-- `task_state_t`. -/
inductive TaskState where
  | ready
  | running
  | exited
  deriving DecidableEq

/-- `task_t`. -/
structure Task where
  id : Word
  /-- The saved stack pointer. -/
  rsp : Word
  stackBottom : Word
  userStackBottom : Word
  kernelRsp : Word
  pml4 : Word
  state : TaskState
  cpuId : BitVec 32
  timeslice : BitVec 32
  totalTicks : Word
  next : Word

/-- `runqueue_t`. -/
structure Runqueue where
  head : Word
  tail : Word
  count : BitVec 32

/-- What task.c reads and writes of a `cpu_t`. -/
structure Cpu where
  id : BitVec 8
  currentTask : Word
  idleTask : Word
  runqueue : Runqueue
  needResched : Bool
  totalTicks : Word
  idleTicks : Word
  /-- `tss.rsp0`. -/
  tssRsp0 : Word
  /-- The stack of `syscall_entry`. -/
  kernelStack : Word
  cr3 : Word

/-- The tasks and CPUs of a machine with `n` CPUs. -/
structure Sched (n : Nat) where
  /-- The task records, by address. -/
  tasks : Word → Task
  cpus : Fin n → Cpu
  nextId : Word
  /-- Ghost: what `kmalloc` returned for the tasks created so far, newest
      first. -/
  created : List Word
  /-- Ghost: the tasks passed to `task_reap`, newest first. -/
  reaped : List Word
  /-- Ghost: the CPUs whose runqueue `dequeue_task` looked at, newest first. -/
  dequeues : List (Fin n)

def taskDefaultTimeslice : BitVec 32 := 4

/-- Every stack has 16 KiB. -/
def stackSize : Word := 4096 * 4

namespace Sched

variable {n : Nat}

/-- Write to the record of task `t`. -/
def setTask (s : Sched n) (t : Word) (f : Task → Task) : Sched n :=
  { s with tasks := Function.update s.tasks t (f (s.tasks t)) }

/-- Write to the record of CPU `c`. -/
def setCpu (s : Sched n) (c : Fin n) (f : Cpu → Cpu) : Sched n :=
  { s with cpus := Function.update s.cpus c (f (s.cpus c)) }

/-- `task->next = v`. -/
def setNext (s : Sched n) (t v : Word) : Sched n := s.setTask t fun r => { r with next := v }

def setQueue (s : Sched n) (c : Fin n) (rq : Runqueue) : Sched n :=
  s.setCpu c fun cpu => { cpu with runqueue := rq }

/-- The links of the tasks. -/
def next (s : Sched n) (t : Word) : Word := (s.tasks t).next

def queue (s : Sched n) (c : Fin n) : Runqueue := (s.cpus c).runqueue

def current (s : Sched n) (c : Fin n) : Word := (s.cpus c).currentTask

def idle (s : Sched n) (c : Fin n) : Word := (s.cpus c).idleTask

/-- The `cpu_id` of the tasks of CPU `c`. -/
def cpuIdOf (s : Sched n) (c : Fin n) : BitVec 32 := (s.cpus c).id.setWidth 32

end Sched

variable {n : Nat}

/-! ## §2. Runqueues. -/

/-- `enqueue_task`. -/
def enqueueTask (s : Sched n) (c : Fin n) (task : Word) : Sched n :=
  let s := s.setNext task 0
  let rq := s.queue c
  if rq.tail ≠ 0 then
    (s.setNext rq.tail task).setQueue c { rq with tail := task, count := rq.count + 1 }
  else s.setQueue c { head := task, tail := task, count := rq.count + 1 }

/-- `dequeue_task`. -/
def dequeueTask (s : Sched n) (c : Fin n) : Word × Sched n :=
  let s := { s with dequeues := c :: s.dequeues }
  let rq := s.queue c
  if rq.head = 0 then (0, s)
  else
    let head := s.next rq.head
    (rq.head, s.setQueue c
      { head := head, tail := if head = 0 then 0 else rq.tail, count := rq.count - 1 })

/-- The load of a CPU: its runqueue and its current task, if not idle. -/
def cpuLoad (s : Sched n) (c : Fin n) : BitVec 32 :=
  (s.queue c).count + if s.current c ≠ 0 ∧ (s.tasks (s.current c)).id ≠ 0 then 1 else 0

/-- `pick_least_loaded_cpu`. -/
def pickLeastLoadedCpu [NeZero n] (s : Sched n) : Fin n :=
  ((List.finRange n).drop 1).foldl
    (fun least i => if (cpuLoad s i).slt (cpuLoad s least) then i else least) 0

/-! ## §3. Creating tasks. -/

/-- `task_init_per_cpu`, with the pointer `kmalloc` returned and the loaded
    `cr3`. -/
def taskInitPerCpu (s : Sched n) (c : Fin n) (idleTask cr3 : Word) : Sched n :=
  let s := s.setQueue c ⟨0, 0, 0⟩
  let s := s.setTask idleTask fun t =>
    { t with
      id := 0, state := .running, cpuId := s.cpuIdOf c, next := 0, rsp := 0, kernelRsp := 0,
      stackBottom := 0, userStackBottom := 0, timeslice := 0, pml4 := cr3 }
  s.setCpu c fun cpu =>
    { cpu with idleTask := idleTask, currentTask := idleTask, totalTicks := 0, idleTicks := 0 }

/-- What the creating functions share: a record for a task that has not run
    yet, with 22 words of initial frame on its kernel stack, on the least
    loaded CPU. -/
def spawnTask [NeZero n] (s : Sched n) (newTask pml4 stackBottom userStackBottom : Word) : Sched n :=
  let id := s.nextId
  let s := { s with nextId := s.nextId + 1, created := newTask :: s.created }
  let kernelRsp := stackBottom + stackSize
  let s := s.setTask newTask fun t =>
    { t with
      id := id, pml4 := pml4, stackBottom := stackBottom, userStackBottom := userStackBottom,
      kernelRsp := kernelRsp, rsp := kernelRsp - 22 * 8, state := .ready,
      timeslice := taskDefaultTimeslice, totalTicks := 0 }
  let target := pickLeastLoadedCpu s
  let s := s.setTask newTask fun t => { t with cpuId := s.cpuIdOf target }
  enqueueTask s target newTask

/-- `task_create`: a kernel task in the loaded address space. -/
def taskCreate [NeZero n] (s : Sched n) (newTask cr3 stackBottom : Word) : Sched n :=
  spawnTask s newTask cr3 stackBottom 0

/-- `task_create_user`, in the address space `vmm_create_address_space`
    returned. -/
def taskCreateUser [NeZero n] (s : Sched n) (newTask pml4 stackBottom userStackBottom : Word) :
    Sched n :=
  spawnTask s newTask pml4 stackBottom userStackBottom

/-- `task_exec`, with what `elf_load` returned: nothing, or an address
    space. -/
def taskExec [NeZero n] (s : Sched n) (loaded : Option Word)
    (newTask stackBottom userStackBottom : Word) : Sched n :=
  match loaded with
  | none => s
  | some pml4 => spawnTask s newTask pml4 stackBottom userStackBottom

/-- `task_fork`: the parent's stack is copied to the same depth of the
    child's. -/
def taskFork (s : Sched n) (c : Fin n) (child pml4 stackBottom userStackBottom : Word) : Sched n :=
  let parent := s.current c
  let id := s.nextId
  let s := { s with nextId := s.nextId + 1, created := child :: s.created }
  let stackTopOffset := (s.tasks parent).kernelRsp - (s.tasks parent).rsp
  let kernelRsp := stackBottom + stackSize
  let s := s.setTask child fun t =>
    { t with
      id := id, pml4 := pml4, stackBottom := stackBottom
      userStackBottom := if (s.tasks parent).userStackBottom ≠ 0 then userStackBottom else 0
      kernelRsp := kernelRsp, rsp := kernelRsp - stackTopOffset, state := .ready
      cpuId := (s.tasks parent).cpuId, timeslice := taskDefaultTimeslice, totalTicks := 0 }
  enqueueTask s c child

/-! ## §4. Scheduling. -/

/-- `task_reap`: the task's address space, windows, stacks and record are
    given back. -/
def taskReap (s : Sched n) (task : Word) : Sched n := { s with reaped := task :: s.reaped }

/-- The loop of `task_steal` over the CPUs still to look at. -/
def taskStealFrom (self : Fin n) : List (Fin n) → Sched n → Word × Sched n
  | [], s => (0, s)
  | victim :: rest, s =>
      if victim = self then taskStealFrom self rest s
      else
        let (task, s) := dequeueTask s victim
        if task ≠ 0 then (task, s.setTask task fun t => { t with cpuId := s.cpuIdOf self })
        else taskStealFrom self rest s

/-- `task_steal`. -/
def taskSteal (s : Sched n) (self : Fin n) : Word × Sched n :=
  taskStealFrom self (List.finRange n) s

/-- The next task from the local runqueue, or a stolen one. -/
def pullTask (s : Sched n) (c : Fin n) : Word × Sched n :=
  let (task, s) := dequeueTask s c
  if task = 0 then taskSteal s c else (task, s)

/-- The `while (1)` of `task_schedule`; `none` means that the fuel ran out. -/
def taskScheduleLoop (c : Fin n) : Nat → Sched n → Option (Word × Sched n)
  | 0, _ => none
  | fuel + 1, s =>
      let (task, s) := pullTask s c
      if task = 0 then some (0, s)
      else
        match (s.tasks task).state with
        | .exited => taskScheduleLoop c fuel (taskReap s task)
        | .ready => some (task, s)
        | .running => taskScheduleLoop c fuel (enqueueTask s c task)

/-- `task_schedule` first saves the stack pointer of the outgoing task. -/
def saveOutgoing (s : Sched n) (c : Fin n) (currentRsp : Word) : Sched n :=
  (s.setCpu c fun cpu => { cpu with needResched := false }).setTask (s.current c) fun t =>
    { t with rsp := currentRsp }

/-- It then requeues the outgoing task if it is still runnable. -/
def requeueOutgoing (s : Sched n) (c : Fin n) (currentRsp : Word) : Sched n :=
  let cur := s.current c
  let s := saveOutgoing s c currentRsp
  if (s.tasks cur).state = .running then
    let s := s.setTask cur fun t => { t with state := .ready }
    if (s.tasks cur).id ≠ 0 then enqueueTask s c cur else s
  else s

/-- The last part of `task_schedule`: make `next` current, or the idle task. -/
def switchTo (s : Sched n) (c : Fin n) (next : Word) : Sched n :=
  let next := if next = 0 then s.idle c else next
  let s := s.setTask next fun t =>
    { t with
      state := .running
      timeslice := if t.id = 0 then 0 else taskDefaultTimeslice }
  s.setCpu c fun cpu =>
    { cpu with
      currentTask := next
      tssRsp0 := (s.tasks next).kernelRsp
      kernelStack := (s.tasks next).kernelRsp
      cr3 := (s.tasks next).pml4 }

/-- `task_schedule` returns the stack pointer to restore. -/
def taskSchedule (fuel : Nat) (s : Sched n) (c : Fin n) (currentRsp : Word) :
    Option (Word × Sched n) :=
  if s.current c = 0 then some (currentRsp, s)
  else
    (taskScheduleLoop c fuel (requeueOutgoing s c currentRsp)).map fun x =>
      let s := switchTo x.2 c x.1
      ((s.tasks (s.current c)).rsp, s)

/-! ## §5. Ticks, exits and faults. -/

/-- `task_timer_tick`. -/
def taskTimerTick (s : Sched n) (c : Fin n) : Sched n :=
  let cur := s.current c
  let s := s.setCpu c fun cpu => { cpu with totalTicks := cpu.totalTicks + 1 }
  if cur = 0 then s.setCpu c fun cpu => { cpu with needResched := true }
  else
    let s := s.setTask cur fun t => { t with totalTicks := t.totalTicks + 1 }
    let s :=
      if (s.tasks cur).id = 0 then s.setCpu c fun cpu => { cpu with idleTicks := cpu.idleTicks + 1 }
      else s
    if (s.tasks cur).state ≠ .running then s.setCpu c fun cpu => { cpu with needResched := true }
    else if (s.tasks cur).id = 0 then
      if (s.queue c).count ≠ 0 then s.setCpu c fun cpu => { cpu with needResched := true } else s
    else
      let s := s.setTask cur fun t =>
        { t with timeslice := if t.timeslice > 0 then t.timeslice - 1 else t.timeslice }
      if (s.tasks cur).timeslice = 0 then s.setCpu c fun cpu => { cpu with needResched := true }
      else s

/-- Interrupt 32 of `isr_handler`: account the tick, reschedule if asked to. -/
def timerInterrupt (fuel : Nat) (s : Sched n) (c : Fin n) (rsp : Word) : Option (Word × Sched n) :=
  let s := taskTimerTick s c
  if ((s.cpus c).needResched) then taskSchedule fuel s c rsp else some (rsp, s)

/-- `task_yield`. -/
def taskYield (fuel : Nat) (s : Sched n) (c : Fin n) (rsp : Word) : Option (Word × Sched n) :=
  timerInterrupt fuel (s.setCpu c fun cpu => { cpu with needResched := true }) c rsp

/-- Mark the current task dead. -/
def exitCurrent (s : Sched n) (c : Fin n) : Sched n :=
  s.setTask (s.current c) fun t => { t with state := .exited }

/-- `sys_exit`; `rsp` is the frame the yield interrupt pushes. -/
def sysExit (fuel : Nat) (s : Sched n) (c : Fin n) (rsp : Word) : Option (Word × Sched n) :=
  taskYield fuel (exitCurrent s c) c rsp

/-- A fault in user mode that `isr_handler` or `handle_page_fault` answers by
    terminating the task; `frame` is the interrupt frame. -/
def terminateFault (fuel : Nat) (s : Sched n) (c : Fin n) (frame : Word) :
    Option (Word × Sched n) :=
  taskSchedule fuel (exitCurrent s c) c frame

end ZohoOs
