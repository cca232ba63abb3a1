/-
  ZohoOs.Syscall.Basic — the system calls that store through a caller's
  pointer (syscall.c, task.c).

  Four handlers take a pointer from user space and write a result through it:
  `sys_get_event`, `sys_read`, `sys_get_sys_info` and `sys_get_tasks`.  The
  model of a call returns, besides its result and the kernel's state, the list
  of bytes stored at addresses taken from an argument.  The other system calls
  store nothing through an argument; what they do is a parameter.
-/
import ZohoOs.Vfs.Basic
import ZohoOs.Window.Basic
import ZohoOs.Task.Basic

namespace ZohoOs

open ZohoOs.Lib

variable {n : Nat}

/-! ## §1. The kernel as the system calls see it. -/

structure Kernel (n : Nat) where
  sched : Sched n
  windows : Windows
  fds : FdTable
  machine : Machine

/-- The outcome of a system call. -/
structure SyscallResult (n : Nat) where
  ret : Word
  kernel : Kernel n
  /-- The bytes stored through a pointer the caller passed. -/
  stores : List Store

/-- Store a 32-bit or 64-bit field, lowest byte first. -/
def putField {w : Nat} (a : Word) (v : BitVec w) (bytes : Nat) : List Store :=
  storesAt a bytes fun i => v.extractLsb' (8 * i) 8

/-! ## §2. The handlers. -/

/-- `memcpy(out_event, &event, sizeof(gui_event_t))`. -/
def putEvent (outEvent : Word) (e : GuiEvent) : List Store :=
  putField outEvent e.type 4 ++ putField (outEvent + 4) e.x 4 ++ putField (outEvent + 8) e.y 4 ++
    putField (outEvent + 12) e.data 4

/-- `pmm_get_total_frames`. -/
def pmmGetTotalFrames (p : Pmm) : Nat := p.totalFrames

/-- `sys_get_sys_info`: the ticks of the first 16 CPUs; the task count is
    summed up in place. -/
def sysGetSysInfo (k : Kernel n) (info : Word) : List Store :=
  let cpus := List.finRange n
  let ticks := (cpus.take 16).flatMap fun i =>
    let cpu := k.sched.cpus i
    let p := info + BitVec.ofNat 64 (24 + 16 * i)
    putField p cpu.totalTicks 8 ++ putField (p + 8) cpu.idleTicks 8
  let counts := cpus.scanl (fun count i => count + ((k.sched.queue i).count + 1)) (0 : BitVec 32)
  putField info (BitVec.ofNat 64 (pmmGetTotalFrames k.machine.pmm)) 8 ++
    putField (info + 8) (BitVec.ofNat 64 (pmmGetFreeCount k.machine.pmm)) 8 ++
    putField (info + 16) (BitVec.ofNat 32 n) 4 ++ ticks ++
    counts.flatMap fun count => putField (info + 280) count 4

/-- `(uint32_t)task->state`. -/
def TaskState.toUint : TaskState → BitVec 32
  | .ready => 0
  | .running => 1
  | .exited => 2

/-- `tasks[count] = ...`, a 32-byte record with its padding left alone. -/
def putTaskInfo (s : Sched n) (c : Fin n) (tasks : Word) (count : Nat) (t : Word) : List Store :=
  let p := tasks + BitVec.ofNat 64 (32 * count)
  putField p (s.tasks t).id 8 ++ putField (p + 8) (s.cpuIdOf c) 4 ++
    putField (p + 16) (s.tasks t).totalTicks 8 ++ putField (p + 24) (s.tasks t).state.toUint 4

/-- The walk of `task_get_all_info` over the runqueue of `c`, for at most the
    given number of records. -/
def putQueueInfo (s : Sched n) (c : Fin n) (tasks : Word) :
    Nat → Word → Nat → Nat × List Store
  | 0, _, count => (count, [])
  | room + 1, curr, count =>
      if curr = 0 then (count, [])
      else
        let rest := putQueueInfo s c tasks room (s.next curr) (count + 1)
        (rest.1, putTaskInfo s c tasks count curr ++ rest.2)

/-- One CPU of `task_get_all_info`: its current task, then its runqueue. -/
def putCpuInfo (s : Sched n) (tasks : Word) (maxTasks : Nat) (r : Nat × List Store) (c : Fin n) :
    Nat × List Store :=
  let r :=
    if s.current c ≠ 0 ∧ r.1 < maxTasks then
      (r.1 + 1, r.2 ++ putTaskInfo s c tasks r.1 (s.current c))
    else r
  let q := putQueueInfo s c tasks (maxTasks - r.1) (s.queue c).head r.1
  (q.1, r.2 ++ q.2)

/-- `task_get_all_info`: the number of records, and the stores. -/
def taskGetAllInfo (s : Sched n) (tasks : Word) (maxTasks : BitVec 32) : Nat × List Store :=
  (List.finRange n).foldl (putCpuInfo s tasks maxTasks.toNat) (0, [])

/-! ## §3. The dispatcher. -/

/-- `syscall_handler_c`.  `other` is what the system calls do that store
    nothing through an argument: `sys_create_window`, `sys_exit`, `sys_open`,
    `sys_write`, `sys_close`, `sys_exec`, `sys_yield`, `sys_free_frames` and
    `sys_fork`. -/
def syscallHandlerC (fuel : Nat) (ata : AtaRead) (sectorBuf : Sector)
    (other : Kernel n → Word → Word → Word → Word → Word → Option (Word × Kernel n))
    (k : Kernel n) (num arg1 arg2 arg3 arg4 : Word) : Option (SyscallResult n) :=
  match num.toNat with
  | 2 =>
      (windowPopEvent fuel k.windows (arg1.setWidth 32) arg2).map fun r =>
        ⟨r.1.signExtend 64, { k with windows := r.2.2 }, (r.2.1.map (putEvent arg2)).getD []⟩
  | 5 =>
      let r := vfsRead ata k.fds (arg1.setWidth 32) arg2 (arg3.setWidth 32) sectorBuf
      some ⟨r.1.signExtend 64, { k with fds := r.2.1 }, r.2.2⟩
  | 11 => some ⟨0, k, sysGetSysInfo k arg1⟩
  | 12 =>
      let r := taskGetAllInfo k.sched arg1 (arg2.setWidth 32)
      some ⟨(BitVec.ofNat 32 r.1).signExtend 64, k, r.2⟩
  | 1 | 3 | 4 | 6 | 7 | 8 | 9 | 10 | 13 =>
      (other k num arg1 arg2 arg3 arg4).map fun r => ⟨r.1, r.2, []⟩
  | _ => some ⟨0xFFFFFFFFFFFFFFFF, k, []⟩

end ZohoOs
