/-
  ZohoOs.Task.Locks — the kernel's spinlocks and the timer interrupt (lock.c,
  cpu.c, task.c).

  The functions appear here as the lock operations they perform; a branch that
  depends on data is a choice.  All of them take their locks with
  `spin_lock_irqsave`, except `pick_least_loaded_cpu`: `cpu_lock_all` is a
  plain `spin_lock`.  The timer interrupt takes the same lock in `task_steal`.

  Main results:
    * `kernel_disciplined_iff` — no CPU ever spins on a lock that the code it
      interrupted holds, and interrupts are off wherever such a lock is held,
      if and only if `cpu_lock_all` is only called with interrupts off;
    * `tick_in_pick_least_loaded_cpu` — a tick in `pick_least_loaded_cpu`.
-/
import ZohoOs.Lib.Locks
import Mathlib.Data.List.FinRange

namespace ZohoOs

open ZohoOs.Lib

variable {n : Nat}

/-! ## §1. Locks and functions. -/

/-- The spinlocks. -/
inductive KernelLock (n : Nat) where
  | cpu
  | id
  | runqueue (c : Fin n)
  | kmalloc
  | pmm
  | vmm
  | window
  | vfs
  | klog
  | serial
  deriving DecidableEq

/-- The lock operations of kernel code. -/
abbrev KernelCode (n : Nat) := Code (KernelLock n)

namespace Locking

open Code

/-- `spin_lock_irqsave`, a critical section without locks of its own, and
    `spin_unlock_irqrestore`. -/
def locked (l : KernelLock n) : KernelCode n := irqsave l skip

/-- Code that runs on some paths only. -/
def maybe (a : KernelCode n) : KernelCode n := choice a skip

def serialPrint : KernelCode n := locked .serial

/-- `klog`: below the log level nothing is printed. -/
def klog : KernelCode n := maybe (irqsave .klog (loop serialPrint))

/-- `kmalloc`: the log is written after the lock is released. -/
def kmalloc : KernelCode n := seq (locked .kmalloc) (maybe klog)

/-- `kfree`: `NULL` is ignored. -/
def kfree : KernelCode n := maybe (locked .kmalloc)

def pmmAllocFrame : KernelCode n := locked .pmm

def pmmFreeFrame : KernelCode n := locked .pmm

def pmmRefInc : KernelCode n := locked .pmm

def ensureNextTable : KernelCode n :=
  maybe (seq pmmAllocFrame (maybe (seq (locked .vmm) (maybe pmmFreeFrame))))

def vmmMap : KernelCode n :=
  seq ensureNextTable (maybe (seq ensureNextTable (maybe
    (choice (locked .vmm) (seq ensureNextTable (maybe (locked .vmm)))))))

def vmmCreateAddressSpace : KernelCode n := seq pmmAllocFrame (maybe (locked .vmm))

def vmmCloneAddressSpace : KernelCode n :=
  seq vmmCreateAddressSpace (loop (choice ensureNextTable pmmRefInc))

def vmmDestroyAddressSpace : KernelCode n := seq (loop pmmFreeFrame) pmmFreeFrame

def elfLoad : KernelCode n :=
  choice klog (seq vmmCreateAddressSpace (loop (seq pmmAllocFrame vmmMap)))

def vfsOpen : KernelCode n := maybe (locked .vfs)

def vfsRead : KernelCode n := locked .vfs

def vfsSize : KernelCode n := locked .vfs

def vfsClose : KernelCode n := locked .vfs

/-- `window_destroy_by_pid`: `free_window` runs under the window lock. -/
def windowDestroyByPid : KernelCode n :=
  irqsave .window (loop (maybe (seq kfree kfree)))

def cpuGetCount : KernelCode n := locked .cpu

def cpuGetByIndex : KernelCode n := locked .cpu

/-- `pick_least_loaded_cpu`, from `cpu_lock_all` to `cpu_unlock_all`. -/
def pickLeastLoadedCpu : KernelCode n := spin .cpu skip

def enqueueTask (c : Fin n) : KernelCode n := locked (.runqueue c)

def dequeueTask (c : Fin n) : KernelCode n := locked (.runqueue c)

/-- `task_create`, for the CPU that `pick_least_loaded_cpu` finds. -/
def taskCreate (target : Fin n) : KernelCode n :=
  all [kmalloc, locked .id, kmalloc, pickLeastLoadedCpu, enqueueTask target]

def taskCreateUser (target : Fin n) : KernelCode n :=
  all [kmalloc, locked .id, vmmCreateAddressSpace, kmalloc, kmalloc, pickLeastLoadedCpu,
    enqueueTask target]

def taskExec (target : Fin n) : KernelCode n :=
  seq elfLoad (maybe (all [kmalloc, locked .id, kmalloc, kmalloc, pickLeastLoadedCpu,
    enqueueTask target]))

def taskExecFile (target : Fin n) : KernelCode n :=
  seq vfsOpen (maybe (all [vfsSize, kmalloc, vfsRead, vfsClose, taskExec target, kfree]))

def taskFork (c : Fin n) : KernelCode n :=
  all [kmalloc, locked .id, vmmCloneAddressSpace, kmalloc, maybe kmalloc, enqueueTask c]

def taskReap : KernelCode n :=
  all [maybe vmmDestroyAddressSpace, windowDestroyByPid, kfree, kfree, kfree]

/-- The loop of `task_steal` over the CPUs still to look at. -/
def taskStealFrom (self : Fin n) : List (Fin n) → KernelCode n
  | [] => skip
  | victim :: rest =>
      seq cpuGetByIndex (if victim = self then taskStealFrom self rest
        else seq (dequeueTask victim) (maybe (taskStealFrom self rest)))

def taskSteal (self : Fin n) : KernelCode n :=
  seq cpuGetCount (taskStealFrom self (List.finRange n))

/-- A round of the `while (1)` of `task_schedule`. -/
def scheduleRound (c : Fin n) : KernelCode n :=
  all [dequeueTask c, maybe (taskSteal c), maybe (choice taskReap (enqueueTask c))]

def taskSchedule (c : Fin n) : KernelCode n :=
  maybe (all [maybe (enqueueTask c), loop (scheduleRound c), scheduleRound c])

/-- Interrupt 32: `pit_handler` takes no lock. -/
def timerInterrupt (c : Fin n) : KernelCode n := maybe (taskSchedule c)

/-- `task_get_all_info`. -/
def taskGetAllInfo : KernelCode n :=
  seq cpuGetCount (all ((List.finRange n).map fun c => seq cpuGetByIndex (locked (.runqueue c))))

end Locking

/-- What a thread may call: kernel threads with interrupts on, user programs
    through `syscall_entry`, which clears the interrupt flag until the return
    to user mode. -/
inductive KernelCall (n : Nat) where
  | klog
  | kmalloc
  | kfree
  | vmmMap
  | vfsOpen
  | vfsRead
  | vfsClose
  | cpuGetCount
  | cpuGetByIndex
  | taskCreate (target : Fin n)
  | taskCreateUser (target : Fin n)
  | taskExec (target : Fin n)
  | taskExecFile (target : Fin n)
  | taskFork (c : Fin n)
  | taskGetAllInfo
  | taskYield
  | syscall (call : KernelCall n)

def KernelCall.code : KernelCall n → KernelCode n
  | klog => Locking.klog
  | kmalloc => Locking.kmalloc
  | kfree => Locking.kfree
  | vmmMap => Locking.vmmMap
  | vfsOpen => Locking.vfsOpen
  | vfsRead => Locking.vfsRead
  | vfsClose => Locking.vfsClose
  | cpuGetCount => Locking.cpuGetCount
  | cpuGetByIndex => Locking.cpuGetByIndex
  | taskCreate target => Locking.taskCreate target
  | taskCreateUser target => Locking.taskCreateUser target
  | taskExec target => Locking.taskExec target
  | taskExecFile target => Locking.taskExecFile target
  | taskFork c => Locking.taskFork c
  | taskGetAllInfo => Locking.taskGetAllInfo
  | taskYield => .yield
  | syscall call => .masked call.code

/-- A thread that makes `calls`, one after the other. -/
def threadCode (calls : List (KernelCall n)) : KernelCode n :=
  Code.all (calls.map KernelCall.code)

/-- **The start**: every CPU runs a thread of its own, and the other threads
    wait in their first interrupt frame; no lock is held. -/
structure KernelStart {T : Type} (m : Threads (KernelLock n) T n) : Prop where
  inj : ∀ c c', m.running c = m.running c' → c = c'
  running : ∀ c, ∃ calls, m.todo (m.running c) = [.code (threadCode calls)]
  waiting : ∀ t, (∀ c, m.running c ≠ t) →
    ∃ f calls, m.todo t = [.restore f, .code (threadCode calls)]
  locked : ∀ l, m.locked l = false

/-! ## §2. The discipline of the kernel. -/

/-- The lock that is acquired without clearing the interrupt flag. -/
def PlainLock (l : KernelLock n) : Prop := l = .cpu

namespace Locking

open Code

/-- Simple critical sections fit wherever their lock is not held. -/
theorem locked_fits {l : KernelLock n} {held : List (KernelLock n)} (h : l ∉ held) :
    (locked l).Fits PlainLock held :=
  ⟨h, trivial⟩

theorem maybe_fits {a : KernelCode n} {held : List (KernelLock n)} (h : a.Fits PlainLock held) :
    (maybe a).Fits PlainLock held :=
  ⟨h, trivial⟩

theorem kfree_fits {held : List (KernelLock n)} (h : .kmalloc ∉ held) :
    (kfree (n := n)).Fits PlainLock held :=
  maybe_fits (locked_fits h)

theorem klog_fits : (klog (n := n)).Fits PlainLock [] := by
  have hprint : (serialPrint (n := n)).Fits PlainLock [.klog] := locked_fits (by simp)
  exact maybe_fits ⟨List.not_mem_nil, hprint⟩

theorem kmalloc_fits : (kmalloc (n := n)).Fits PlainLock [] :=
  ⟨locked_fits List.not_mem_nil, maybe_fits klog_fits⟩

theorem ensureNextTable_fits : (ensureNextTable (n := n)).Fits PlainLock [] := by
  have hvmm : (locked (n := n) .vmm).Fits PlainLock [] := locked_fits List.not_mem_nil
  have hfree : (pmmFreeFrame (n := n)).Fits PlainLock [] := locked_fits List.not_mem_nil
  exact maybe_fits ⟨locked_fits List.not_mem_nil, maybe_fits ⟨hvmm, maybe_fits hfree⟩⟩

theorem vmmMap_fits : (vmmMap (n := n)).Fits PlainLock [] := by
  have hvmm : (locked (n := n) .vmm).Fits PlainLock [] := locked_fits List.not_mem_nil
  have hlast : (choice (locked .vmm) (seq ensureNextTable (maybe (locked (n := n) .vmm)))).Fits
      PlainLock [] := ⟨hvmm, ensureNextTable_fits, maybe_fits hvmm⟩
  exact ⟨ensureNextTable_fits, maybe_fits ⟨ensureNextTable_fits, maybe_fits hlast⟩⟩

theorem vmmCreateAddressSpace_fits : (vmmCreateAddressSpace (n := n)).Fits PlainLock [] :=
  ⟨locked_fits List.not_mem_nil, maybe_fits (locked_fits List.not_mem_nil)⟩

theorem vmmCloneAddressSpace_fits : (vmmCloneAddressSpace (n := n)).Fits PlainLock [] := by
  have hloop : (choice ensureNextTable (pmmRefInc (n := n))).Fits PlainLock [] :=
    ⟨ensureNextTable_fits, locked_fits List.not_mem_nil⟩
  exact ⟨vmmCreateAddressSpace_fits, hloop⟩

theorem vmmDestroyAddressSpace_fits : (vmmDestroyAddressSpace (n := n)).Fits PlainLock [] := by
  have hfree : (pmmFreeFrame (n := n)).Fits PlainLock [] := locked_fits List.not_mem_nil
  exact ⟨hfree, hfree⟩

theorem elfLoad_fits : (elfLoad (n := n)).Fits PlainLock [] := by
  have hpage : (seq pmmAllocFrame (vmmMap (n := n))).Fits PlainLock [] :=
    ⟨locked_fits List.not_mem_nil, vmmMap_fits⟩
  exact ⟨klog_fits, vmmCreateAddressSpace_fits, hpage⟩

theorem windowDestroyByPid_fits : (windowDestroyByPid (n := n)).Fits PlainLock [] := by
  have hfree : (kfree (n := n)).Fits PlainLock [.window] := kfree_fits (by simp)
  have hbody : (maybe (seq kfree (kfree (n := n)))).Fits PlainLock [.window] :=
    maybe_fits ⟨hfree, hfree⟩
  exact ⟨List.not_mem_nil, hbody⟩

/-- `cpu_lock_all` may be called where `cpu_lock` is not held. -/
theorem pickLeastLoadedCpu_fits : (pickLeastLoadedCpu (n := n)).Fits PlainLock [] :=
  ⟨rfl, List.not_mem_nil, trivial⟩

theorem taskCreate_fits (target : Fin n) : (taskCreate target).Fits PlainLock [] := by
  apply fits_all
  simp [kmalloc_fits, pickLeastLoadedCpu_fits, enqueueTask, locked_fits]

theorem taskCreateUser_fits (target : Fin n) : (taskCreateUser target).Fits PlainLock [] := by
  apply fits_all
  simp [kmalloc_fits, vmmCreateAddressSpace_fits, pickLeastLoadedCpu_fits, enqueueTask, locked_fits]

theorem taskExec_fits (target : Fin n) : (taskExec target).Fits PlainLock [] := by
  refine ⟨elfLoad_fits, maybe_fits (fits_all ?_)⟩
  simp [kmalloc_fits, pickLeastLoadedCpu_fits, enqueueTask, locked_fits]

theorem taskExecFile_fits (target : Fin n) : (taskExecFile target).Fits PlainLock [] := by
  refine ⟨maybe_fits (locked_fits List.not_mem_nil), maybe_fits (fits_all ?_)⟩
  simp [kmalloc_fits, vfsSize, vfsRead, vfsClose, taskExec_fits, kfree_fits, locked_fits]

theorem taskFork_fits (c : Fin n) : (taskFork c).Fits PlainLock [] := by
  apply fits_all
  simp [kmalloc_fits, vmmCloneAddressSpace_fits, enqueueTask, locked_fits, maybe_fits]

theorem taskReap_fits : (taskReap (n := n)).Fits PlainLock [] := by
  apply fits_all
  simp [vmmDestroyAddressSpace_fits, windowDestroyByPid_fits, kfree_fits, maybe_fits]

theorem taskStealFrom_fits (self : Fin n) (l : List (Fin n)) :
    (taskStealFrom self l).Fits PlainLock [] := by
  induction l with
  | nil => exact trivial
  | cons victim rest ih =>
    refine ⟨locked_fits List.not_mem_nil, ?_⟩
    by_cases hv : victim = self
    · rw [if_pos hv]
      exact ih
    · rw [if_neg hv]
      exact ⟨locked_fits List.not_mem_nil, maybe_fits ih⟩

theorem scheduleRound_fits (c : Fin n) : (scheduleRound c).Fits PlainLock [] := by
  have hsteal : (taskSteal c).Fits PlainLock [] :=
    ⟨locked_fits List.not_mem_nil, taskStealFrom_fits c _⟩
  have hput : (choice taskReap (enqueueTask c)).Fits PlainLock [] :=
    ⟨taskReap_fits, locked_fits List.not_mem_nil⟩
  apply fits_all
  simp [dequeueTask, locked_fits, maybe_fits, hsteal, hput]

/-- The timer interrupt may come when no lock is held. -/
theorem timerInterrupt_fits (c : Fin n) : (timerInterrupt c).Fits PlainLock [] := by
  have hround : (loop (scheduleRound c)).Fits PlainLock [] := scheduleRound_fits c
  refine maybe_fits (maybe_fits (fits_all ?_))
  simp [enqueueTask, locked_fits, maybe_fits, hround, scheduleRound_fits]

theorem taskGetAllInfo_fits : (taskGetAllInfo (n := n)).Fits PlainLock [] := by
  refine ⟨locked_fits List.not_mem_nil, fits_all fun a ha => ?_⟩
  obtain ⟨c, -, rfl⟩ := List.mem_map.mp ha
  exact ⟨locked_fits List.not_mem_nil, locked_fits List.not_mem_nil⟩

/-- `task_steal` makes `cpu_lock` a lock of the timer interrupt. -/
theorem timerInterrupt_locks_cpu (c : Fin n) : (timerInterrupt c).Locks .cpu := by
  have hsteal : (maybe (taskSteal c)).Locks .cpu := .inl (.inl (.inl rfl))
  have hround : (scheduleRound c).Locks .cpu := .inr (.inl hsteal)
  exact .inl (.inl (.inr (.inr (.inl hround))))

end Locking

open Locking in
theorem KernelCall.fits (call : KernelCall n) : call.code.Fits PlainLock [] := by
  induction call with
  | klog => exact klog_fits
  | kmalloc => exact kmalloc_fits
  | kfree => exact kfree_fits List.not_mem_nil
  | vmmMap => exact vmmMap_fits
  | vfsOpen => exact maybe_fits (locked_fits List.not_mem_nil)
  | vfsRead => exact locked_fits List.not_mem_nil
  | vfsClose => exact locked_fits List.not_mem_nil
  | cpuGetCount => exact locked_fits List.not_mem_nil
  | cpuGetByIndex => exact locked_fits List.not_mem_nil
  | taskCreate target => exact taskCreate_fits target
  | taskCreateUser target => exact taskCreateUser_fits target
  | taskExec target => exact taskExec_fits target
  | taskExecFile target => exact taskExecFile_fits target
  | taskFork c => exact taskFork_fits c
  | taskGetAllInfo => exact taskGetAllInfo_fits
  | taskYield => rfl
  | syscall call ih => exact ih

theorem threadCode_fits (calls : List (KernelCall n)) :
    (threadCode calls).Fits PlainLock [] := by
  refine Code.fits_all fun a ha => ?_
  obtain ⟨call, -, rfl⟩ := List.mem_map.mp ha
  exact call.fits

/-- At the start every thread is in order. -/
theorem KernelStart.good {T : Type} {m : Threads (KernelLock n) T n} (h : KernelStart m) :
    m.Good PlainLock := by
  refine ⟨h.inj, fun c => ?_, fun t ht => ?_⟩
  · obtain ⟨calls, htodo⟩ := h.running c
    rw [htodo]
    exact ⟨threadCode_fits calls, fun _ => rfl, trivial⟩
  · obtain ⟨f, calls, htodo⟩ := h.waiting t ht
    rw [htodo]
    exact ⟨⟨fun _ => rfl, threadCode_fits calls, fun _ => rfl, trivial⟩, rfl⟩

/-- **The lock discipline of the kernel**: in every state of a run no CPU spins
    on a lock of the code it interrupted, and the locks of the timer interrupt
    are held with interrupts off only, if and only if in every step of the
    run the lock taken, if any, is taken with interrupts off. -/
theorem kernel_disciplined_iff {T : Type} [DecidableEq T] {m m' : Threads (KernelLock n) T n}
    {tr : List (Transition (Threads (KernelLock n) T n) (ThreadAct T n))} (h : KernelStart m)
    (hrun : Run (Threads.Steps Locking.timerInterrupt) m tr m') :
    (∀ x ∈ tr, x.2.2.Disciplined Locking.timerInterrupt) ↔ ∀ x ∈ tr, x.1.Masked x.2.1 := by
  refine Threads.Good.always_disciplined_iff Locking.timerInterrupt_fits (fun l hl c => ?_) hrun
    h.good
  have hcpu : l = .cpu := hl
  rw [hcpu]
  exact Locking.timerInterrupt_locks_cpu c

/-- One CPU, whose thread is about to create a task with interrupts on. -/
def createStart : Threads (KernelLock 1) Unit 1 :=
  { todo := fun _ => [.code (threadCode [.taskCreate 0])]
    running := fun _ => ()
    intr := fun _ => true
    locked := fun _ => false }

theorem createStart_start : KernelStart createStart :=
  ⟨fun _ _ _ => Subsingleton.elim _ _, fun _ => ⟨_, rfl⟩, fun _ ht => absurd rfl (ht 0),
    fun _ => rfl⟩

/-- The first step of the thread. -/
theorem createStart_first : ∃ m, createStart.step Locking.timerInterrupt (.run 0 false) = some m :=
  ⟨_, rfl⟩

/-- `kernel_disciplined_iff` for the first step of the thread. -/
theorem kernel_disciplined_iff_first :
    ∃ m, Threads.Steps Locking.timerInterrupt createStart (.run 0 false) m ∧
      m.Disciplined Locking.timerInterrupt := by
  obtain ⟨m, hst⟩ := createStart_first
  have hiff := kernel_disciplined_iff createStart_start ((Run.nil createStart).snoc hst)
  refine ⟨m, hst, hiff.mpr (fun x hx => ?_) (_, _, _) (List.mem_singleton_self _)⟩
  rw [List.mem_singleton.mp hx]
  intro l body rest htodo
  cases htodo

/-- The thread runs `task_create` up to the middle of
    `pick_least_loaded_cpu`; a tick comes, finds the runqueue empty and calls
    `task_steal`. -/
def tickInPick : List (ThreadAct Unit 1) :=
  List.replicate 28 (.run 0 false) ++ .timer 0 :: [true, true, true, false, true, true, false, true,
    true, true, true, true, true, true, true, true, true, true].map (.run 0)

/-- **A tick in `pick_least_loaded_cpu`**: `cpu_get_count` spins on the lock
    that the interrupted `cpu_lock_all` holds. -/
theorem tick_in_pick_least_loaded_cpu : ∃ m tr,
    Run (Threads.Steps Locking.timerInterrupt) createStart tr m ∧ Run.labels tr = tickInPick ∧
      KernelStart createStart ∧ m.SelfDeadlock 0 ∧ m.locked .cpu = true ∧
      ¬ m.Disciplined Locking.timerInterrupt := by
  have heval : ((createStart.steps Locking.timerInterrupt tickInPick).map fun m =>
      (m.locked .cpu, decide (m.SelfDeadlock 0))) = some (true, true) := by decide
  obtain ⟨m, hm, hend⟩ := Option.map_eq_some_iff.mp heval
  obtain ⟨hlocked, hdead⟩ := Prod.mk.inj hend
  have hdead : m.SelfDeadlock 0 := of_decide_eq_true hdead
  obtain ⟨tr, hrun, hlabels⟩ := Threads.run_steps hm
  exact ⟨m, tr, hrun, hlabels, createStart_start, hdead, hlocked, fun hdisc => hdisc.1 0 hdead⟩

end ZohoOs
