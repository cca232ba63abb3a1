/-
  ZohoOs.Kernel.Exhaustion — the constructors on a heap that runs out
  (task.c, window.c, syscall.c, net.c).

  `kmalloc` answers a request it cannot serve with `NULL`, and `kfree` is
  ready for `NULL`.  None of the eight functions below looks at the answer:
  each goes on to store through it.  They are written here as programs over
  the heap, around the functions that model what they do to tasks, windows
  and the network stack.  `e1000_send_packet` allocates nothing and takes the
  frame.

  Main results:
    * `sysCreateWindow_gui` — without its log of stores the program for
      `sys_create_window` is the function of Window.Basic;
    * `heap_exhaustion_handled_iff` — on which heaps a call is handled: when
      first fit has a block for every request of the call, one after another.
-/
import ZohoOs.Kmalloc.Program
import ZohoOs.Net.Codec
import ZohoOs.Net.Confine
import ZohoOs.Task.Runs
import ZohoOs.Window.Runs
import ZohoOs.Window.Share

namespace ZohoOs

open ZohoOs.Lib

/-- `sizeof(task_t)`. -/
def taskSize : Word := 80

/-- What the calls read and write besides the heap; `S` stands for the memory
    manager and the caller's address space. -/
structure Objects (n : Nat) (S : Type) where
  sched : Sched n
  windows : Windows
  mem : Mem
  space : S
  /-- Ghost: the buffers mapped so far, newest first. -/
  mapped : List MappedBuffer
  net : Net

/-- The part of it that `sys_create_window` is concerned with. -/
def Objects.gui {n : Nat} {S : Type} (k : Objects n S) (h : Heap) : Gui S :=
  ⟨h, k.windows, k.mem, k.space, k.mapped⟩

namespace Alloc

variable {n : Nat} {S : Type}

/-! ## §1. Tasks. -/

/-- The 22 words of the initial frame, at the top of a kernel stack. -/
def storeFrame (stackBottom : Grant) : HeapM Unit :=
  HeapM.store stackBottom (stackSize.toNat - 22 * 8) (22 * 8)

/-- `task_create`, on CPU `c`. -/
def taskCreate [NeZero n] (s : Sched n) (c : Fin n) : HeapM (Word × Sched n) := do
  let newTask ← HeapM.kmalloc taskSize
  HeapM.store newTask 0 taskSize.toNat
  let stackBottom ← HeapM.kmalloc stackSize
  storeFrame stackBottom
  return (newTask.ptr, ZohoOs.taskCreate s newTask.ptr (s.cpus c).cr3 stackBottom.ptr)

/-- What `task_create_user` and `task_exec` share.  Nothing is stored through
    the user stack here; its top goes into the frame. -/
def createUserTask [NeZero n] (s : Sched n) (pml4 : Word) : HeapM (Word × Sched n) := do
  let newTask ← HeapM.kmalloc taskSize
  HeapM.store newTask 0 taskSize.toNat
  let userStackBottom ← HeapM.kmalloc stackSize
  let stackBottom ← HeapM.kmalloc stackSize
  storeFrame stackBottom
  return (newTask.ptr, spawnTask s newTask.ptr pml4 stackBottom.ptr userStackBottom.ptr)

/-- `task_create_user`, in the address space `vmm_create_address_space`
    returned. -/
def taskCreateUser [NeZero n] (s : Sched n) (pml4 : Word) : HeapM (Word × Sched n) :=
  createUserTask s pml4

/-- `task_exec`, with what `elf_load` returned. -/
def taskExec [NeZero n] (s : Sched n) (loaded : Option Word) : HeapM (Word × Sched n) :=
  match loaded with
  | none => return (0, s)
  | some pml4 => createUserTask s pml4

/-- The depth of the parent's kernel stack that `task_fork` copies. -/
def forkDepth (s : Sched n) (c : Fin n) : Nat :=
  ((s.tasks (s.current c)).kernelRsp - (s.tasks (s.current c)).rsp).toNat

/-- A user stack for the child, if the parent has one. -/
def forkUserStack (s : Sched n) (c : Fin n) : HeapM Grant :=
  if (s.tasks (s.current c)).userStackBottom ≠ 0 then HeapM.kmalloc stackSize else pure ⟨0, 0⟩

/-- The copy of the parent's stack, and `*child_rax = 0` at its low end. -/
def storeFork (stackBottom : Grant) (depth : Nat) : HeapM Unit := do
  HeapM.store stackBottom (stackSize.toNat - depth) depth
  HeapM.store stackBottom (stackSize.toNat - depth) 8

/-- `task_fork`, with the address space `vmm_clone_address_space` returned. -/
def taskFork (s : Sched n) (c : Fin n) (pml4 : Word) : HeapM (Word × Sched n) := do
  let child ← HeapM.kmalloc taskSize
  HeapM.store child 0 taskSize.toNat
  let stackBottom ← HeapM.kmalloc stackSize
  let userStackBottom ← forkUserStack s c
  storeFork stackBottom (forkDepth s c)
  return (s.nextId, ZohoOs.taskFork s c child.ptr pml4 stackBottom.ptr userStackBottom.ptr)

/-! ## §2. Windows. -/

/-- `window_create` stores every field but the event queue, which lies between
    the bytes 56 and 312. -/
def windowCreate (s : Windows) (x y w h bgColor : BitVec 32) : HeapM (Word × Windows) := do
  let win ← HeapM.kmalloc windowSize
  HeapM.store win 0 56
  HeapM.store win 312 16
  return (win.ptr, ZohoOs.windowCreate s win.ptr x y w h bgColor)

/-- `sys_create_window` for the task `pid`.  `window_set_owner` and
    `window_set_buffer` check the window they are given. -/
def sysCreateWindow (vmmMap : S → Word → Word → Word → S) (k : Objects n S) (pid : Word)
    (x y w h : BitVec 32) : HeapM (BitVec 32 × Objects n S) := do
  let (win, windows) ← windowCreate k.windows x y w h 0xFFFFFFFF
  let numPages := bufferPages w h
  let kernelBuf ← HeapM.kmalloc ((numPages * 4096).setWidth 64)
  HeapM.store kernelBuf 0 (numPages * 4096).toNat
  let mem := memset k.mem kernelBuf.ptr 0 (numPages * 4096).toNat
  let windows := windowSetOwner windows win pid
  let windows := windowSetBuffer windows win kernelBuf.ptr
  let id := (windows.window win).id
  return (id,
    { k with
      windows := windows, mem := mem
      space := mapBuffer vmmMap k.space (windowUserAddr id) kernelBuf.ptr numPages
      mapped := ⟨id, windowUserAddr id, numPages⟩ :: k.mapped })

/-- **Without its log the program is the function.** -/
theorem sysCreateWindow_gui {vmmMap : S → Word → Word → Word → S} {k k' : Objects n S} {pid : Word}
    {x y w h' id : BitVec 32} {fuel : Nat} {h h₁ : Heap} {log : List Grant}
    (hret : sysCreateWindow vmmMap k pid x y w h' fuel h = some ((id, k'), h₁, log)) :
    ZohoOs.sysCreateWindow vmmMap fuel (k.gui h) pid x y w h' = some (id, k'.gui h₁) := by
  unfold sysCreateWindow windowCreate at hret
  simp only [bind_assoc, pure_bind] at hret
  obtain ⟨win, heap₁, _, _, hwin, hret⟩ := HeapM.bind_eq_some hret
  obtain ⟨_, heap₂, _, _, hstore₁, hret⟩ := HeapM.bind_eq_some hret
  obtain ⟨_, heap₃, _, _, hstore₂, hret⟩ := HeapM.bind_eq_some hret
  obtain ⟨kernelBuf, heap₄, _, _, hbuf, hret⟩ := HeapM.bind_eq_some hret
  obtain ⟨_, heap₅, _, _, hstore₃, hret⟩ := HeapM.bind_eq_some hret
  rw [HeapM.store_eq_some hstore₂, HeapM.store_eq_some hstore₁] at hbuf
  have hwin := HeapM.kmalloc_eq_some hwin
  have hbuf := HeapM.kmalloc_eq_some hbuf
  have hdone := Option.some.inj hret
  rw [HeapM.store_eq_some hstore₃] at hdone
  obtain ⟨hr, hheap⟩ := Prod.mk.inj hdone
  obtain ⟨hid, hk⟩ := Prod.mk.inj hr
  obtain ⟨rfl, -⟩ := Prod.mk.inj hheap
  subst hid hk
  unfold ZohoOs.sysCreateWindow
  show Option.bind (kmalloc fuel h windowSize) _ = _
  rw [hwin, Option.bind_some]
  show Option.bind (kmalloc fuel heap₁ _) _ = _
  rw [hbuf, Option.bind_some]
  rfl

/-! ## §3. Packets. -/

/-- `net_send_eth`: the two addresses and the type, then the data. -/
def netSendEth (net : Net) (destMac : BitVec 48) (type : BitVec 16) (data : List (BitVec 8)) :
    HeapM (NetM Net) := do
  let eth ← HeapM.kmalloc ((BitVec.ofNat 16 sizeofEth + len16 data).setWidth 64)
  HeapM.store eth 0 sizeofEth
  HeapM.store eth sizeofEth data.length
  HeapM.kfree eth
  return ZohoOs.netSendEth net destMac type data

/-- `net_send_ipv4`: the header, then the data. -/
def netSendIpv4 (net : Net) (destIp : BitVec 32) (destMac : BitVec 48) (proto : BitVec 8)
    (data : List (BitVec 8)) : HeapM (NetM Net) := do
  let totalLen := BitVec.ofNat 16 sizeofIpv4 + len16 data
  let checksum := netChecksum (ipv4Header totalLen proto 0 net.myIp destIp)
  let ip ← HeapM.kmalloc (totalLen.setWidth 64)
  HeapM.store ip 0 sizeofIpv4
  HeapM.store ip sizeofIpv4 data.length
  let sent ← netSendEth net destMac ethertypeIpv4
    ((ipv4Header totalLen proto checksum net.myIp destIp ++ data).take totalLen.toNat)
  HeapM.kfree ip
  return (do
    Logged.tell (.buffer totalLen.toNat (sizeofIpv4 + data.length))
    sent)

end Alloc

/-! ## §4. Calls. -/

/-- A call of one of the eight functions. -/
inductive AllocCall (n : Nat) where
  | taskCreate (c : Fin n)
  | taskCreateUser (pml4 : Word)
  | taskExec (loaded : Option Word)
  | taskFork (c : Fin n) (pml4 : Word)
  | windowCreate (x y w h bgColor : BitVec 32)
  | sysCreateWindow (c : Fin n) (x y w h : BitVec 32)
  | netSendIpv4 (destIp : BitVec 32) (destMac : BitVec 48) (proto : BitVec 8)
      (data : List (BitVec 8))
  | netSendEth (destMac : BitVec 48) (type : BitVec 16) (data : List (BitVec 8))

namespace AllocCall

variable {n : Nat} [NeZero n] {S : Type}

/-- Make the call.  The flag says that it reports a failure: only the
    functions that return a pointer can, by returning `NULL`. -/
def run (vmmMap : S → Word → Word → Word → S) (k : Objects n S) :
    AllocCall n → HeapM (Bool × Objects n S)
  | .taskCreate c => do
      let (task, sched) ← Alloc.taskCreate k.sched c
      return (task == 0, { k with sched := sched })
  | .taskCreateUser pml4 => do
      let (task, sched) ← Alloc.taskCreateUser k.sched pml4
      return (task == 0, { k with sched := sched })
  | .taskExec loaded => do
      let (task, sched) ← Alloc.taskExec k.sched loaded
      return (task == 0, { k with sched := sched })
  | .taskFork c pml4 => do
      let (_, sched) ← Alloc.taskFork k.sched c pml4
      return (false, { k with sched := sched })
  | .windowCreate x y w h bgColor => do
      let (win, windows) ← Alloc.windowCreate k.windows x y w h bgColor
      return (win == 0, { k with windows := windows })
  | .sysCreateWindow c x y w h => do
      let (_, k) ← Alloc.sysCreateWindow vmmMap k (k.sched.tasks (k.sched.current c)).id x y w h
      return (false, k)
  | .netSendIpv4 destIp destMac proto data => do
      let sent ← Alloc.netSendIpv4 k.net destIp destMac proto data
      return (false, { k with net := sent.val })
  | .netSendEth destMac type data => do
      let sent ← Alloc.netSendEth k.net destMac type data
      return (false, { k with net := sent.val })

/-- **The property.**  The call ends, having stored nothing through a `NULL`
    that `kmalloc` answered; if it reports a failure, the heap and everything
    else are as before. -/
def Handled (vmmMap : S → Word → Word → Word → S) (k : Objects n S) (h : Heap) (c : AllocCall n) :
    Prop :=
  HeapM.Handles (fun r h' => r.1 = true → r.2 = k ∧ h' = h) (c.run vmmMap k) h

/-- The calls for which the heap has all blocks, one after another.  A user
    stack that `task_fork` does not get is not missed, nor is a buffer without
    pages.  A frame must not be longer than a `uint16_t` can say, or its data
    is copied past the end of a shorter block; and what `task_fork` copies,
    with the word it stores at the low end, must lie inside a stack. -/
def Served (k : Objects n S) (bs : List Block) : AllocCall n → Prop
  | .taskCreate _ => Serves [80, 16384] bs
  | .taskCreateUser _ => Serves [80, 16384, 16384] bs
  | .taskExec loaded => loaded.isSome → Serves [80, 16384, 16384] bs
  | .taskFork c _ =>
      (8 ≤ Alloc.forkDepth k.sched c ∧ Alloc.forkDepth k.sched c ≤ 16384) ∧ Serves [80, 16384] bs
  | .windowCreate .. => Serves [328] bs
  | .sysCreateWindow _ _ _ w h =>
      if bufferPages w h = 0 then Serves [328] bs
      else Serves [328, (bufferPages w h).toNat * 4096] bs
  | .netSendIpv4 _ _ _ data =>
      34 + data.length < 2 ^ 16 ∧ Serves [20 + data.length, 34 + data.length] bs
  | .netSendEth _ _ data => 14 + data.length < 2 ^ 16 ∧ Serves [14 + data.length] bs

end AllocCall

/-! ## §5. When each call is handled. -/

namespace Alloc

variable {n : Nat} {S : Type} {h : Heap} {live : Word → Option Nat} {bs : List Block}

section Tasks

variable {β : Type} {Q : β → Heap → Prop}

/-- The record of a task has room for all its fields. -/
theorem handles_storeTask {task : Word} (htask : task ≠ 0) (f : Unit → HeapM β) :
    HeapM.Handles Q (HeapM.store ⟨task, taskSize.toNat⟩ 0 taskSize.toNat >>= f) h
      ↔ HeapM.Handles Q (f ()) h :=
  HeapM.handles_store_inside f htask (Int.le_refl 0) (Int.le_of_eq (Int.zero_add _))

/-- A kernel stack has room for the initial frame. -/
theorem handles_storeFrame {stackBottom : Word} (hstack : stackBottom ≠ 0) (f : Unit → HeapM β) :
    HeapM.Handles Q (storeFrame ⟨stackBottom, stackSize.toNat⟩ >>= f) h
      ↔ HeapM.Handles Q (f ()) h := by
  refine HeapM.handles_store_inside f hstack (by decide) ?_
  show (stackSize.toNat : Int) - 22 * 8 + ((22 * 8 : Nat) : Int) ≤ stackSize.toNat
  decide

/-- `task_create` and the rest of the program. -/
theorem taskCreate_handles [NeZero n] (s : Sched n) (c : Fin n) {f : Word × Sched n → HeapM β}
    (hI : HeapSystem.Inv ⟨h, live⟩ bs) (rest : ∀ r h', r.1 ≠ 0 → HeapM.Handles Q (f r) h') :
    HeapM.Handles Q (taskCreate s c >>= f) h ↔ Serves [80, 16384] bs := by
  unfold taskCreate
  simp only [bind_assoc, pure_bind]
  refine HeapM.handles_kmalloc_needed hI (by decide) ?_ ?_
  · exact fun h' _ => HeapM.not_handles_null 0 (by decide) _
  · intro newTask bs₁ h₁ htask _ hI₁
    rw [handles_storeTask htask]
    refine HeapM.handles_kmalloc_needed hI₁ (by decide) ?_ ?_
    · exact fun h' _ => HeapM.not_handles_null _ (by decide) _
    · intro stackBottom bs₂ h₂ hstack _ _
      rw [handles_storeFrame hstack]
      exact iff_of_true (rest _ _ htask) trivial

/-- The user stack is not stored into, but when it is refused the kernel stack
    of the same size is refused as well. -/
theorem createUserTask_handles [NeZero n] (s : Sched n) (pml4 : Word) {f : Word × Sched n → HeapM β}
    (hI : HeapSystem.Inv ⟨h, live⟩ bs) (rest : ∀ r h', r.1 ≠ 0 → HeapM.Handles Q (f r) h') :
    HeapM.Handles Q (createUserTask s pml4 >>= f) h ↔ Serves [80, 16384, 16384] bs := by
  unfold createUserTask
  simp only [bind_assoc, pure_bind]
  refine HeapM.handles_kmalloc_needed hI (by decide) ?_ ?_
  · exact fun h' _ => HeapM.not_handles_null 0 (by decide) _
  · intro newTask bs₁ h₁ htask _ hI₁
    rw [handles_storeTask htask]
    have kernelStack : ∀ (userStackBottom : Word) live₂ bs₂ h₂,
        HeapSystem.Inv ⟨h₂, live₂⟩ bs₂ →
        (HeapM.Handles Q
          (HeapM.kmalloc stackSize >>= fun stackBottom => storeFrame stackBottom >>= fun _ =>
            f (newTask, spawnTask s newTask pml4 stackBottom.ptr userStackBottom)) h₂
          ↔ Serves [16384] bs₂) := by
      intro userStackBottom live₂ bs₂ h₂ hI₂
      refine HeapM.handles_kmalloc_needed hI₂ (by decide) ?_ ?_
      · exact fun h' _ => HeapM.not_handles_null _ (by decide) _
      · intro stackBottom bs₃ h₃ hstack _ _
        rw [handles_storeFrame hstack]
        exact iff_of_true (rest _ _ htask) trivial
    refine HeapM.handles_kmalloc hI₁ (by decide) ?_ ?_
    · intro hnone h₂ hI₂
      exact (kernelStack 0 _ _ _ hI₂).trans
        (iff_of_false (not_serves_of_none hnone) (not_serves_of_none hnone))
    · intro x bs₂ hfit userStackBottom h₂ _ _ hI₂
      exact (kernelStack userStackBottom _ _ _ hI₂).trans (serves_cons_of_some hfit).symm

/-- What is copied, and the word stored at its low end, lie inside the stack. -/
theorem handles_storeFork (stackBottom : Word) (depth : Nat) (f : Unit → HeapM β) :
    HeapM.Handles Q (storeFork ⟨stackBottom, stackSize.toNat⟩ depth >>= f) h ↔
      (stackBottom ≠ 0 ∧ 8 ≤ depth ∧ depth ≤ 16384) ∧ HeapM.Handles Q (f ()) h := by
  have hsize : stackSize.toNat = 16384 := by decide
  unfold storeFork
  rw [bind_assoc, HeapM.handles_store, HeapM.handles_store, hsize, ← and_assoc]
  refine and_congr_left' ⟨fun hx => ?_, fun hx => ?_⟩
  · obtain ⟨hstack, hlow, hhigh⟩ := hx.2 (by decide)
    have hhigh : (16384 : Int) - depth + 8 ≤ 16384 := hhigh
    exact ⟨hstack, by omega, by omega⟩
  · obtain ⟨hstack, hlow, hhigh⟩ := hx
    refine ⟨fun _ => ⟨hstack, by omega, ?_⟩, fun _ => ⟨hstack, by omega, ?_⟩⟩
    · show (16384 : Int) - depth + depth ≤ 16384
      omega
    · show (16384 : Int) - depth + 8 ≤ 16384
      omega

/-- `task_fork` and the rest of the program. -/
theorem taskFork_handles (s : Sched n) (c : Fin n) (pml4 : Word) {f : Word × Sched n → HeapM β}
    (hI : HeapSystem.Inv ⟨h, live⟩ bs) (rest : ∀ r h', HeapM.Handles Q (f r) h') :
    HeapM.Handles Q (taskFork s c pml4 >>= f) h ↔
      (8 ≤ forkDepth s c ∧ forkDepth s c ≤ 16384) ∧ Serves [80, 16384] bs := by
  unfold taskFork
  simp only [bind_assoc, pure_bind]
  refine HeapM.handles_kmalloc_needed_and hI (by decide) ?_ ?_
  · exact fun h' _ => HeapM.not_handles_null 0 (by decide) _
  · intro child bs₁ h₁ hchild _ hI₁
    rw [handles_storeTask hchild]
    -- the stores into the kernel stack, whatever becomes of the user stack
    have stores : ∀ stackBottom live₂ bs₂ h₂, HeapSystem.Inv ⟨h₂, live₂⟩ bs₂ →
        (HeapM.Handles Q
          (forkUserStack s c >>= fun userStackBottom =>
            storeFork ⟨stackBottom, stackSize.toNat⟩ (forkDepth s c) >>= fun _ =>
              f (s.nextId, ZohoOs.taskFork s c child pml4 stackBottom userStackBottom.ptr)) h₂
          ↔ stackBottom ≠ 0 ∧ 8 ≤ forkDepth s c ∧ forkDepth s c ≤ 16384) := by
      intro stackBottom live₂ bs₂ h₂ hI₂
      have hstore : ∀ r h₃,
          HeapM.Handles Q
            (storeFork ⟨stackBottom, stackSize.toNat⟩ (forkDepth s c) >>= fun _ => f r) h₃
            ↔ stackBottom ≠ 0 ∧ 8 ≤ forkDepth s c ∧ forkDepth s c ≤ 16384 := by
        intro r h₃
        rw [handles_storeFork]
        exact and_iff_left (rest r h₃)
      unfold forkUserStack
      split
      · exact HeapM.handles_kmalloc_unused hI₂ (by decide) fun _ _ => hstore _ _
      · rw [pure_bind]
        exact hstore _ _
    refine HeapM.handles_kmalloc_needed_and hI₁ (by decide) ?_ ?_
    · intro h₂ hI₂ hx
      exact ((stores _ _ _ _ hI₂).mp hx).1 rfl
    · intro stackBottom bs₂ h₂ hstack _ hI₂
      exact (stores _ _ _ _ hI₂).trans
        ⟨fun hx => ⟨hx.2, trivial⟩, fun hx => ⟨hstack, hx.1⟩⟩

end Tasks

section Windows

variable {β : Type} {Q : β → Heap → Prop}

/-- `window_create` and the rest of the program. -/
theorem windowCreate_handles (s : Windows) (x y w h' bgColor : BitVec 32)
    {f : Word × Windows → HeapM β} {ns : List Nat} (hI : HeapSystem.Inv ⟨h, live⟩ bs)
    (rest : ∀ win bs₁ h₁, win ≠ 0 → HeapSystem.Inv ⟨h₁, liveKmalloc live win windowSize⟩ bs₁ →
      (HeapM.Handles Q (f (win, ZohoOs.windowCreate s win x y w h' bgColor)) h₁ ↔ Serves ns bs₁)) :
    HeapM.Handles Q (windowCreate s x y w h' bgColor >>= f) h ↔ Serves (328 :: ns) bs := by
  unfold windowCreate
  simp only [bind_assoc, pure_bind]
  refine HeapM.handles_kmalloc_needed hI (by decide) ?_ ?_
  · exact fun h' _ => HeapM.not_handles_null 0 (by decide) _
  · intro win bs₁ h₁ hwin _ hI₁
    rw [HeapM.handles_store_inside _ hwin (by decide) (by show (0 : Int) + 56 ≤ 328; decide),
      HeapM.handles_store_inside _ hwin (by decide) (by show (312 : Int) + 16 ≤ 328; decide)]
    exact rest win bs₁ h₁ hwin hI₁

theorem sysCreateWindow_handles (vmmMap : S → Word → Word → Word → S) (k : Objects n S) (pid : Word)
    (x y w h' : BitVec 32) {f : BitVec 32 × Objects n S → HeapM β}
    (hI : HeapSystem.Inv ⟨h, live⟩ bs) (hf : ∀ r h₁, HeapM.Handles Q (f r) h₁) :
    HeapM.Handles Q (sysCreateWindow vmmMap k pid x y w h' >>= f) h ↔
      if bufferPages w h' = 0 then Serves [328] bs
      else Serves [328, (bufferPages w h').toNat * 4096] bs := by
  have hbytes := toNat_bufferBytes w h'
  have hle := bufferPages_le w h'
  unfold sysCreateWindow
  simp only [bind_assoc, pure_bind]
  split
  · rename_i hpages
    refine windowCreate_handles k.windows x y w h' 0xFFFFFFFF hI ?_
    intro win bs₁ h₁ _ hI₁
    refine HeapM.handles_kmalloc_unused hI₁ (by rw [hbytes]; omega) fun kernelBuf h₂ => ?_
    -- there is no page to clear
    rw [HeapM.handles_store]
    refine iff_of_true ⟨fun hlen => absurd ?_ hlen, hf _ _⟩ trivial
    rw [hpages]
    rfl
  · rename_i hpages
    have hpos : (bufferPages w h').toNat ≠ 0 := fun h0 => hpages (BitVec.eq_of_toNat_eq h0)
    have hlen : (bufferPages w h' * 4096).toNat = (bufferPages w h').toNat * 4096 := by
      rw [BitVec.toNat_mul]
      show (bufferPages w h').toNat * 4096 % 2 ^ 32 = _
      omega
    rw [← hbytes]
    refine windowCreate_handles k.windows x y w h' 0xFFFFFFFF hI ?_
    intro win bs₁ h₁ _ hI₁
    refine HeapM.handles_kmalloc_needed hI₁ (by rw [hbytes]; omega) ?_ ?_
    · exact fun h' _ => HeapM.not_handles_null 0 (by rw [hlen]; omega) _
    · intro kernelBuf bs₂ h₂ hbuf _ _
      rw [HeapM.handles_store_inside _ hbuf (Int.le_refl 0)]
      · exact iff_of_true (hf _ _) trivial
      · rw [hlen, hbytes, Int.zero_add]

end Windows

section Packets

variable {β : Type} {Q : β → Heap → Prop}

/-- A block that was allocated and freed leaves the live blocks as they were. -/
theorem liveKfree_liveKmalloc {p : Word} (hp : p ≠ 0) (hfresh : live p = none) (m : Word) :
    liveKfree (liveKmalloc live p m) p = live := by
  unfold liveKfree liveKmalloc
  rw [if_neg hp, Function.update_idem, ← hfresh, Function.update_eq_self]

theorem isSome_liveKmalloc {p : Word} (hp : p ≠ 0) (m : Word) :
    (liveKmalloc live p m p).isSome := by
  unfold liveKmalloc
  rw [if_neg hp, Function.update_self]
  rfl

/-- The `uint16_t` sum of a header and the data, as a size for `kmalloc`. -/
theorem toNat_size (size : Nat) (data : List (BitVec 8)) :
    ((BitVec.ofNat 16 size + len16 data).setWidth 64 : Word).toNat
      = (size + data.length) % 2 ^ 16 := by
  rw [BitVec.toNat_setWidth, toNat_total]
  omega

/-- A header and the data stored into a block of their 16-bit sum: that sum
    must not have wrapped. -/
theorem handles_storePacket {p : Word} (hp : p ≠ 0) {size : Nat} (hsize : size ≠ 0)
    (data : List (BitVec 8)) (f : Unit → HeapM β) :
    HeapM.Handles Q
      (HeapM.store ⟨p, (size + data.length) % 2 ^ 16⟩ 0 size >>= fun _ =>
        HeapM.store ⟨p, (size + data.length) % 2 ^ 16⟩ size data.length >>= f) h ↔
      size + data.length < 2 ^ 16 ∧ HeapM.Handles Q (f ()) h := by
  rw [HeapM.handles_store, HeapM.handles_store, ← and_assoc]
  refine and_congr_left' ⟨fun hx => ?_, fun hx => ?_⟩
  · obtain ⟨hhead, hdata⟩ := hx
    have hhead : (0 : Int) + size ≤ ((size + data.length) % 2 ^ 16 : Nat) := (hhead hsize).2.2
    by_cases hlen : data.length = 0
    · omega
    · have hdata : (size : Int) + data.length ≤ ((size + data.length) % 2 ^ 16 : Nat) :=
        (hdata hlen).2.2
      omega
  · refine ⟨fun _ => ⟨hp, Int.le_refl 0, ?_⟩, fun _ => ⟨hp, Int.natCast_nonneg _, ?_⟩⟩
    · show (0 : Int) + size ≤ ((size + data.length) % 2 ^ 16 : Nat)
      omega
    · show (size : Int) + data.length ≤ ((size + data.length) % 2 ^ 16 : Nat)
      omega

/-- `net_send_eth` and the rest of the program. -/
theorem netSendEth_handles (net : Net) (destMac : BitVec 48) (type : BitVec 16)
    (data : List (BitVec 8)) {f : NetM Net → HeapM β} (hI : HeapSystem.Inv ⟨h, live⟩ bs)
    (rest : ∀ bs' h', HeapSystem.Inv ⟨h', live⟩ bs' →
      HeapM.Handles Q (f (ZohoOs.netSendEth net destMac type data)) h') :
    HeapM.Handles Q (netSendEth net destMac type data >>= f) h ↔
      14 + data.length < 2 ^ 16 ∧ Serves [14 + data.length] bs := by
  have hbytes : ((BitVec.ofNat 16 sizeofEth + len16 data).setWidth 64 : Word).toNat
      = (14 + data.length) % 2 ^ 16 := toNat_size sizeofEth data
  have hwrap : 14 + data.length < 2 ^ 16 → (14 + data.length) % 2 ^ 16 = 14 + data.length :=
    Nat.mod_eq_of_lt
  unfold netSendEth
  simp only [bind_assoc, pure_bind]
  refine (HeapM.handles_kmalloc_needed_and (c := 14 + data.length < 2 ^ 16) (l := []) hI
    (by rw [hbytes]; omega) ?_ ?_).trans
    (and_congr_right fun hlt => by rw [hbytes, hwrap hlt])
  · exact fun h' _ => HeapM.not_handles_null 0 (by decide) _
  · intro eth bs₁ h₁ heth hfresh hI₁
    rw [hbytes]
    refine (handles_storePacket heth (by decide) data _).trans (and_congr_right fun hlt => ?_)
    refine HeapM.handles_kfree hI₁ (isSome_liveKmalloc heth _) ?_
    intro bs₂ h₂ hI₂
    rw [liveKfree_liveKmalloc heth hfresh] at hI₂
    exact iff_of_true (rest _ _ hI₂) trivial

theorem netSendIpv4_handles (net : Net) (destIp : BitVec 32) (destMac : BitVec 48)
    (proto : BitVec 8) (data : List (BitVec 8)) {f : NetM Net → HeapM β}
    (hI : HeapSystem.Inv ⟨h, live⟩ bs) (hf : ∀ r h', HeapM.Handles Q (f r) h') :
    HeapM.Handles Q (netSendIpv4 net destIp destMac proto data >>= f) h ↔
      34 + data.length < 2 ^ 16 ∧ Serves [20 + data.length, 34 + data.length] bs := by
  have hbytes : ((BitVec.ofNat 16 sizeofIpv4 + len16 data).setWidth 64 : Word).toNat
      = (20 + data.length) % 2 ^ 16 := toNat_size sizeofIpv4 data
  have htotal : (BitVec.ofNat 16 sizeofIpv4 + len16 data).toNat = (20 + data.length) % 2 ^ 16 := by
    rw [← hbytes, BitVec.toNat_setWidth]
    omega
  unfold netSendIpv4
  simp only [bind_assoc, pure_bind]
  refine (HeapM.handles_kmalloc_needed_and (c := 34 + data.length < 2 ^ 16)
    (l := [34 + data.length]) hI (by rw [hbytes]; omega) ?_ ?_).trans
    (and_congr_right fun hlt => by rw [hbytes, Nat.mod_eq_of_lt (by omega)])
  · exact fun h' _ => HeapM.not_handles_null 0 (by decide) _
  · intro ip bs₁ h₁ hip _ hI₁
    rw [hbytes]
    refine (handles_storePacket hip (by decide) data _).trans ?_
    -- the packet that is handed down is as long as its 16-bit length says
    set packet := (ipv4Header (BitVec.ofNat 16 sizeofIpv4 + len16 data) proto
      (netChecksum (ipv4Header (BitVec.ofNat 16 sizeofIpv4 + len16 data) proto 0 net.myIp destIp))
      net.myIp destIp ++ data).take (BitVec.ofNat 16 sizeofIpv4 + len16 data).toNat with hpacket
    have hlength : packet.length = (20 + data.length) % 2 ^ 16 := by
      rw [hpacket, List.length_take, List.length_append, length_ipv4Header, htotal]
      omega
    rw [netSendEth_handles net destMac ethertypeIpv4 packet hI₁, hlength]
    · constructor
      · intro hx
        obtain ⟨hlt, hframe, hserves⟩ := hx
        rw [Nat.mod_eq_of_lt hlt, ← Nat.add_assoc] at hframe hserves
        exact ⟨hframe, hserves⟩
      · intro hx
        obtain ⟨hframe, hserves⟩ := hx
        refine ⟨by omega, ?_⟩
        rw [Nat.mod_eq_of_lt (by omega), ← Nat.add_assoc]
        exact ⟨hframe, hserves⟩
    · intro bs₂ h₂ hI₂
      refine (HeapM.handles_kfree (c := True) hI₂ (isSome_liveKmalloc hip _) ?_).mpr trivial
      exact fun bs₃ h₃ _ => iff_of_true (hf _ _) trivial

end Packets

end Alloc

/-! ## §6. All eight. -/

section Calls

variable {n : Nat} [NeZero n] {S : Type}

/-- A tiled heap, as seen by a program that owns nothing yet. -/
theorem HeapTiled.inv {h : Heap} {bs : List Block} (ht : HeapTiled h bs) :
    HeapSystem.Inv ⟨h, fun _ => none⟩ bs :=
  ⟨ht, fun _ _ hp => nomatch hp⟩

/-- **Heap exhaustion is handled by the calls that are served, and by no
    others.**  On every heap whose list tiles it, a call of one of the eight
    functions ends without a store through `NULL`, and leaves everything
    unchanged if it reports a failure, exactly when first fit has a block for
    each of its requests, and the sizes it computes hold what it stores. -/
theorem heap_exhaustion_handled_iff (vmmMap : S → Word → Word → Word → S) (k : Objects n S)
    {h : Heap} {bs : List Block} (ht : HeapTiled h bs) (c : AllocCall n) :
    c.Handled vmmMap k h ↔ c.Served k bs := by
  have hI := ht.inv
  have replied : ∀ {ptr : Word} (k' : Objects n S) h', ptr ≠ 0 →
      HeapM.Handles (fun r h' => r.1 = true → r.2 = k ∧ h' = h) (pure (ptr == 0, k')) h' := by
    intro ptr k' h' hptr
    rw [HeapM.handles_pure]
    intro hnull
    exact absurd (eq_of_beq hnull) hptr
  have silent : ∀ (k' : Objects n S) h',
      HeapM.Handles (fun r h' => r.1 = true → r.2 = k ∧ h' = h) (pure (false, k')) h' := by
    intro k' h'
    rw [HeapM.handles_pure]
    exact fun hfail => nomatch hfail
  cases c with
  | taskCreate c => exact Alloc.taskCreate_handles k.sched c hI fun r h' hr => replied _ h' hr
  | taskCreateUser pml4 =>
    exact Alloc.createUserTask_handles k.sched pml4 hI fun r h' hr => replied _ h' hr
  | taskExec loaded =>
    cases loaded with
    | none =>
      refine iff_of_true ?_ (fun hsome => nomatch hsome)
      show HeapM.Handles _ (pure (0, k.sched) >>= _) h
      rw [pure_bind, HeapM.handles_pure]
      exact fun _ => ⟨rfl, rfl⟩
    | some pml4 =>
      have hexec := Alloc.createUserTask_handles k.sched pml4 hI
        fun r h' hr => replied { k with sched := r.2 } h' hr
      exact hexec.trans ⟨fun hs _ => hs, fun hs => hs rfl⟩
  | taskFork c pml4 => exact Alloc.taskFork_handles k.sched c pml4 hI fun r h' => silent _ h'
  | windowCreate x y w h' bgColor =>
    exact Alloc.windowCreate_handles k.windows x y w h' bgColor hI
      fun win bs₁ h₁ hwin _ => iff_of_true (replied _ h₁ hwin) trivial
  | sysCreateWindow c x y w h' =>
    exact Alloc.sysCreateWindow_handles vmmMap k _ x y w h' hI fun r h₁ => silent _ h₁
  | netSendIpv4 destIp destMac proto data =>
    exact Alloc.netSendIpv4_handles k.net destIp destMac proto data hI fun r h' => silent _ h'
  | netSendEth destMac type data =>
    exact Alloc.netSendEth_handles k.net destMac type data hI fun bs' h' _ => silent _ h'

end Calls

/-- Two CPUs, no windows, and the network stack after `net_init`. -/
def bootObjects : Objects 2 Unit :=
  ⟨twoCpus, ⟨fun _ => blankWindow, 0, 1⟩, fun _ => 0, (), [], bootNet⟩

/-- `task_create` on the fresh heap. -/
theorem heap_exhaustion_handled_iff_fresh :
    (AllocCall.taskCreate 0).Handled (fun space _ _ _ => space) bootObjects
      (heapInit fun _ => ⟨0, false, 0⟩) :=
  (heap_exhaustion_handled_iff _ bootObjects (heapInit_tiled _) (.taskCreate 0)).mpr (by
    show Serves [80, 16384] [⟨heapSize - 24, true⟩]
    decide)

/-- **`task_create` on an exhausted heap**: once the whole heap has been handed
    out, the record of the new task is stored through `NULL`. -/
theorem task_create_through_null :
    ∃ s tr, Run HeapStep (bootHeap ⟨fun _ => true, [], fun _ => 0, 0, 0⟩ fun _ => ⟨0, false, 0⟩)
        tr s ∧
      ¬ (AllocCall.taskCreate 0).Handled (fun space _ _ _ => space) bootObjects s.heap := by
  have hfit : firstFit (roundUp8 (BitVec.ofNat 64 (heapSize - 24)).toNat) heapStart.toNat
      [⟨heapSize - 24, true⟩] = some (heapStart.toNat, [⟨heapSize - 24, false⟩]) := by decide
  obtain ⟨h, ht, hret⟩ :=
    (heapInit_tiled fun _ => ⟨0, false, 0⟩).kmalloc_some (by decide) hfit
  refine ⟨_, _, (Run.nil _).snoc (HeapStep.kmalloc _ (by decide) (hret 2 (by decide))), ?_⟩
  intro hhandled
  have hserves : Serves [80, 16384] [⟨heapSize - 24, false⟩] :=
    (Alloc.taskCreate_handles bootObjects.sched 0 ht.inv fun r h' hr => by
      rw [HeapM.handles_pure]
      exact fun hnull => absurd (eq_of_beq hnull) hr).mp hhandled
  revert hserves
  decide

end ZohoOs
