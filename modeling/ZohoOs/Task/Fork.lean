/-
  ZohoOs.Task.Fork — the stack of a forked task (task.c, idt_asm.asm).

  `task_fork` copies the parent's kernel stack, from its saved stack pointer
  up, to the same depth of the child's stack.  The interrupt frame at the
  bottom of the copy is what `isr_common_stub` restores when the scheduler
  first selects the child.  "Child returns 0 from fork" is one store to the
  lowest word of that frame, which is R15 and not RAX.

  The memory is the one `task_fork` finds when `kmalloc` and
  `vmm_clone_address_space` have returned.

  Main results:
    * `savedFrame_fork` — the child's frame is the parent's with R15 cleared;
    * `fork_child_resumes_iff` — so the child resumes with the parent's
      registers and RAX 0 exactly when the parent's R15 and RAX were 0.
-/
import ZohoOs.Libc.Copy
import ZohoOs.Task.Runs

namespace ZohoOs

open ZohoOs.Lib

/-! ## §1. Interrupt frames. -/

/-- `struct interrupt_frame`. -/
structure InterruptFrame where
  r15 : Word
  r14 : Word
  r13 : Word
  r12 : Word
  r11 : Word
  r10 : Word
  r9 : Word
  r8 : Word
  rdi : Word
  rsi : Word
  rbp : Word
  rdx : Word
  rcx : Word
  rbx : Word
  rax : Word
  intNo : Word
  errorCode : Word
  rip : Word
  cs : Word
  rflags : Word
  rsp : Word
  ss : Word
  deriving DecidableEq

/-- What a task resumes with. -/
structure Context where
  r15 : Word
  r14 : Word
  r13 : Word
  r12 : Word
  r11 : Word
  r10 : Word
  r9 : Word
  r8 : Word
  rdi : Word
  rsi : Word
  rbp : Word
  rdx : Word
  rcx : Word
  rbx : Word
  rax : Word
  rip : Word
  cs : Word
  rflags : Word
  rsp : Word
  ss : Word
  deriving DecidableEq

/-- The registers of a frame. -/
def InterruptFrame.context (f : InterruptFrame) : Context where
  r15 := f.r15
  r14 := f.r14
  r13 := f.r13
  r12 := f.r12
  r11 := f.r11
  r10 := f.r10
  r9 := f.r9
  r8 := f.r8
  rdi := f.rdi
  rsi := f.rsi
  rbp := f.rbp
  rdx := f.rdx
  rcx := f.rcx
  rbx := f.rbx
  rax := f.rax
  rip := f.rip
  cs := f.cs
  rflags := f.rflags
  rsp := f.rsp
  ss := f.ss

/-- The 22 words of a frame, lowest first. -/
def InterruptFrame.ofWords (w : Nat → Word) : InterruptFrame :=
  ⟨w 0, w 1, w 2, w 3, w 4, w 5, w 6, w 7, w 8, w 9, w 10, w 11, w 12, w 13, w 14, w 15, w 16, w 17,
    w 18, w 19, w 20, w 21⟩

/-- The frame at `a`. -/
def savedFrame (mem : Mem) (a : Word) : InterruptFrame :=
  .ofWords fun i => mem.load64 (a + BitVec.ofNat 64 (8 * i))

/-- `pop`: the word, and the stack pointer after it. -/
def pop (mem : Mem) (rsp : Word) : Word × Word := (mem.load64 rsp, rsp + 8)

/-- The way out of `isr_common_stub`, with the stack pointer the C handler
    returned: 15 pops, the interrupt number and error code dropped, and
    `iretq`. -/
def isrReturn (mem : Mem) (rsp : Word) : Context :=
  let (r15, rsp) := pop mem rsp
  let (r14, rsp) := pop mem rsp
  let (r13, rsp) := pop mem rsp
  let (r12, rsp) := pop mem rsp
  let (r11, rsp) := pop mem rsp
  let (r10, rsp) := pop mem rsp
  let (r9, rsp) := pop mem rsp
  let (r8, rsp) := pop mem rsp
  let (rdi, rsp) := pop mem rsp
  let (rsi, rsp) := pop mem rsp
  let (rbp, rsp) := pop mem rsp
  let (rdx, rsp) := pop mem rsp
  let (rcx, rsp) := pop mem rsp
  let (rbx, rsp) := pop mem rsp
  let (rax, rsp) := pop mem rsp
  let rsp := rsp + 16
  let (rip, rsp) := pop mem rsp
  let (cs, rsp) := pop mem rsp
  let (rflags, rsp) := pop mem rsp
  let (newRsp, rsp) := pop mem rsp
  let (ss, _) := pop mem rsp
  ⟨r15, r14, r13, r12, r11, r10, r9, r8, rdi, rsi, rbp, rdx, rcx, rbx, rax, rip, cs, rflags, newRsp, ss⟩

/-- The stub restores the registers of the frame it is given. -/
theorem isrReturn_eq (mem : Mem) (rsp : Word) : isrReturn mem rsp = (savedFrame mem rsp).context := by
  simp [isrReturn, pop, savedFrame, InterruptFrame.ofWords, InterruptFrame.context, BitVec.add_assoc]

/-- Frames with the same words are the same. -/
theorem ofWords_congr {w w' : Nat → Word} (h : ∀ i < 22, w i = w' i) :
    InterruptFrame.ofWords w = InterruptFrame.ofWords w' := by
  simp [InterruptFrame.ofWords, h]

/-- Only the lowest word differs: that is R15. -/
theorem ofWords_low {w w' : Nat → Word} {v : Word} (h0 : w' 0 = v) (h : ∀ i < 22, i ≠ 0 → w' i = w i) :
    InterruptFrame.ofWords w' = { InterruptFrame.ofWords w with r15 := v } := by
  simp [InterruptFrame.ofWords, h0, h]

/-- A frame with R15 cleared is the frame with RAX cleared if both were 0. -/
theorem context_cleared_iff (f : InterruptFrame) :
    { f with r15 := 0 }.context = { f.context with rax := 0 } ↔ f.r15 = 0 ∧ f.rax = 0 := by
  constructor
  · intro h
    have h15 := congrArg Context.r15 h
    have hax := congrArg Context.rax h
    exact ⟨h15.symm, hax⟩
  · rintro ⟨h15, hax⟩
    simp [InterruptFrame.context, h15, hax]

/-- The bytes of a frame decide what is restored. -/
theorem savedFrame_congr {mem mem' : Mem} {a : Word} (h : Mem.SameBytes a 176 mem mem') :
    savedFrame mem a = savedFrame mem' a := by
  refine ofWords_congr fun i hi => ?_
  refine h.load64 (o := 8 * i) ?_ (by omega) (by decide)
  rw [At, BitVec.add_comm, BitVec.add_sub_cancel, BitVec.toNat_ofNat]
  omega

/-! ## §2. The stack of the child. -/

/-- What `task_fork` does to memory: the parent's stack is copied from its
    saved stack pointer up, and the word at the child's `rsp` is cleared. -/
def taskForkStack (mem : Mem) (parent : Task) (stackBottom : Word) : Mem :=
  let stackTopOffset := parent.kernelRsp - parent.rsp
  let mem := memcpy mem (stackBottom + stackSize - stackTopOffset) parent.rsp stackTopOffset.toNat
  let kernelRsp := stackBottom + stackSize
  let childRsp := kernelRsp - stackTopOffset
  mem.store64 childRsp 0

/-- The task's saved interrupt frame lies at `rsp` on its 16 KiB stack. -/
structure Task.FrameOnStack (t : Task) : Prop where
  top : t.kernelRsp.toNat = t.stackBottom.toNat + 16384
  low : t.stackBottom.toNat ≤ t.rsp.toNat
  high : t.rsp.toNat + 176 ≤ t.kernelRsp.toNat

/-- What `kmalloc` may return for the child's stack: `NULL` or a block, in any
    case 16 KiB that are not the parent's. -/
structure Task.StackApart (t : Task) (stackBottom : Word) : Prop where
  fits : stackBottom.toNat + 16384 < 2 ^ 64
  apart : stackBottom.toNat + 16384 ≤ t.stackBottom.toNat ∨ t.kernelRsp.toNat ≤ stackBottom.toNat

section Child

variable {parent : Task} {stackBottom : Word}

/-- Where the child's frame is. -/
theorem toNat_childRsp (h : parent.FrameOnStack) (ha : parent.StackApart stackBottom) :
    (parent.kernelRsp - parent.rsp).toNat = parent.kernelRsp.toNat - parent.rsp.toNat ∧
      (stackBottom + stackSize - (parent.kernelRsp - parent.rsp)).toNat =
        stackBottom.toNat + 16384 - (parent.kernelRsp.toNat - parent.rsp.toNat) := by
  have htop := h.top
  have hlow := h.low
  have hhigh := h.high
  have hfits := ha.fits
  have hoff : (parent.kernelRsp - parent.rsp).toNat = parent.kernelRsp.toNat - parent.rsp.toNat := by
    bv_omega
  have hsize : (stackBottom + stackSize).toNat = stackBottom.toNat + 16384 := by
    rw [BitVec.toNat_add, show stackSize.toNat = 16384 from rfl, Nat.mod_eq_of_lt hfits]
  refine ⟨hoff, ?_⟩
  rw [BitVec.toNat_sub, hsize, hoff]
  omega

/-- **The child's frame is the parent's with R15 cleared.** -/
theorem savedFrame_fork (mem : Mem) (h : parent.FrameOnStack) (ha : parent.StackApart stackBottom) :
    savedFrame (taskForkStack mem parent stackBottom)
        (stackBottom + stackSize - (parent.kernelRsp - parent.rsp))
      = { savedFrame mem parent.rsp with r15 := 0 } := by
  obtain ⟨hoff, hdst⟩ := toNat_childRsp h ha
  have htop := h.top
  have hlow := h.low
  have hhigh := h.high
  have hfits := ha.fits
  have hapart := ha.apart
  set d := stackBottom + stackSize - (parent.kernelRsp - parent.rsp) with hd
  set n := (parent.kernelRsp - parent.rsp).toNat with hn
  have hcopy : memcpy mem d parent.rsp n
      = Mem.fill mem d n fun k => mem (parent.rsp + BitVec.ofNat 64 k) := by
    refine memcpy_eq_fill mem (by omega) fun j hj => ?_
    rw [BitVec.toNat_sub, BitVec.toNat_add, BitVec.toNat_ofNat]
    omega
  have hstore : taskForkStack mem parent stackBottom = (memcpy mem d parent.rsp n).store64 d 0 := rfl
  rw [hstore, hcopy]
  refine ofWords_low ?_ fun i hi hne => ?_
  · simp only [Nat.mul_zero, BitVec.add_zero]
    exact Mem.load64_store64_same _ d 0
  · have hi8 : (BitVec.ofNat 64 (8 * i)).toNat = 8 * i := by rw [BitVec.toNat_ofNat]; omega
    have hback : 8 ≤ (d + BitVec.ofNat 64 (8 * i) - d).toNat := by
      rw [BitVec.add_comm, BitVec.add_sub_cancel, hi8]
      omega
    have hforth : 8 ≤ (d - (d + BitVec.ofNat 64 (8 * i))).toNat := by
      bv_omega
    rw [Mem.load64_store64_other _ hback hforth]
    exact Mem.load64_fill_copy mem (by omega) (by omega)

/-- The child's frame lies on its stack. -/
theorem Lib.Mem.SameBytes.childFrame {mem mem' : Mem}
    (hsame : Mem.SameBytes stackBottom 16384 mem mem') (h : parent.FrameOnStack)
    (ha : parent.StackApart stackBottom) :
    Mem.SameBytes (stackBottom + stackSize - (parent.kernelRsp - parent.rsp)) 176 mem mem' := by
  obtain ⟨hoff, hdst⟩ := toNat_childRsp h ha
  have htop := h.top
  have hlow := h.low
  have hhigh := h.high
  have hfits := ha.fits
  intro p hp
  apply hsame
  set d := stackBottom + stackSize - (parent.kernelRsp - parent.rsp)
  rw [BitVec.toNat_sub] at hp ⊢
  omega

end Child

/-! ## §3. Waiting tasks. -/

variable {n : Nat}

/-- The stack fields of task `t` are the same. -/
def Sched.SameStack (t : Word) (s s' : Sched n) : Prop :=
  (s'.tasks t).rsp = (s.tasks t).rsp ∧ (s'.tasks t).stackBottom = (s.tasks t).stackBottom

namespace Sched.SameStack

variable {s s' s'' : Sched n} {t x : Word} {c : Fin n}

theorem refl (s : Sched n) : s.SameStack t s := ⟨rfl, rfl⟩

theorem trans (h : SameStack t s s') (h' : SameStack t s' s'') : SameStack t s s'' :=
  ⟨h'.1.trans h.1, h'.2.trans h.2⟩

theorem of_same (h : s.SameTasks s') : SameStack t s s' := by
  unfold SameStack
  rw [h.tasks t]
  exact ⟨rfl, rfl⟩

theorem setTask {f : Task → Task} (h : t ≠ x ∨ (f (s.tasks x)).rsp = (s.tasks x).rsp ∧
    (f (s.tasks x)).stackBottom = (s.tasks x).stackBottom) : SameStack t s (s.setTask x f) := by
  unfold SameStack
  by_cases hx : t = x
  · subst hx
    rw [tasks_setTask_self]
    exact h.resolve_left fun hne => hne rfl
  · rw [tasks_setTask_of_ne hx]
    exact ⟨rfl, rfl⟩

theorem setCpu (g : Cpu → Cpu) : SameStack t s (s.setCpu c g) := ⟨rfl, rfl⟩

theorem stealFrom (self : Fin n) (l : List (Fin n)) (s : Sched n) :
    SameStack t s (taskStealFrom self l s).2 := by
  induction l generalizing s with
  | nil => exact refl s
  | cons v l ih =>
    by_cases hv : v = self
    · rw [taskStealFrom_self l s hv]
      exact ih s
    · by_cases hz : (dequeueTask s v).1 = 0
      · rw [taskStealFrom_empty l hv hz]
        exact (of_same (dequeueTask_same _ _)).trans (ih _)
      · rw [taskStealFrom_found l hv hz]
        have hset : SameStack t (dequeueTask s v).2 ((dequeueTask s v).2.setTask (dequeueTask s v).1
            fun r => { r with cpuId := (dequeueTask s v).2.cpuIdOf self }) :=
          setTask (.inr ⟨rfl, rfl⟩)
        exact (of_same (dequeueTask_same _ _)).trans hset

theorem pull (s : Sched n) (c : Fin n) : SameStack t s (pullTask s c).2 := by
  by_cases hz : (dequeueTask s c).1 = 0
  · rw [pullTask_empty hz]
    exact (of_same (dequeueTask_same _ _)).trans (stealFrom c _ _)
  · rw [pullTask_found hz]
    exact of_same (dequeueTask_same _ _)

/-- The loop of `task_schedule` moves tasks between runqueues. -/
theorem loop {fuel : Nat} {next : Word} (h : taskScheduleLoop c fuel s = some (next, s')) :
    SameStack t s s' := by
  induction fuel generalizing s with
  | zero => cases h
  | succ fuel ih =>
    have hpull := pull (t := t) s c
    cases hp : pullTask s c with
    | mk task s₁ =>
      rw [hp] at hpull
      simp only [taskScheduleLoop, hp] at h
      split at h
      · cases h
        exact hpull
      · split at h
        · have hreap : SameStack t s₁ (taskReap s₁ task) := ⟨rfl, rfl⟩
          exact (hpull.trans hreap).trans (ih h)
        · cases h
          exact hpull
        · exact (hpull.trans (of_same (enqueueTask_same _ _ _))).trans (ih h)

/-- The outgoing task's stack pointer is the only one written. -/
theorem requeue (rsp : Word) (ht : t ≠ s.current c) : SameStack t s (requeueOutgoing s c rsp) := by
  have hsave : SameStack t s (saveOutgoing s c rsp) :=
    (setCpu (c := c) fun cpu => { cpu with needResched := false }).trans (setTask (.inl ht))
  have hready : SameStack t s ((saveOutgoing s c rsp).setTask (s.current c) fun t =>
      { t with state := .ready }) :=
    hsave.trans (setTask (.inr ⟨rfl, rfl⟩))
  by_cases hrun : (s.tasks (s.current c)).state = .running
  · by_cases hid : (s.tasks (s.current c)).id = 0
    · rw [requeueOutgoing_idle hrun hid]
      exact hready
    · rw [requeueOutgoing_kept hrun hid]
      exact hready.trans (of_same (enqueueTask_same _ _ _))
  · rw [requeueOutgoing_stopped hrun]
    exact hsave

theorem switchTo (next : Word) : SameStack t s (switchTo s c next) := by
  unfold ZohoOs.switchTo
  exact (setTask (.inr ⟨rfl, rfl⟩)).trans (setCpu (c := c) _)

/-- `task_schedule` keeps the stack of every task but the outgoing one, and
    returns the stack pointer of the task it makes current. -/
theorem schedule {fuel : Nat} {rsp r : Word} (h0 : s.current c ≠ 0)
    (h : taskSchedule fuel s c rsp = some (r, s')) :
    (t ≠ s.current c → SameStack t s s') ∧ r = (s'.tasks (s'.current c)).rsp := by
  rw [taskSchedule, if_neg h0] at h
  obtain ⟨⟨next, s₁⟩, hloop, heq⟩ := Option.map_eq_some_iff.mp h
  cases heq
  exact ⟨fun ht => ((requeue rsp ht).trans (loop hloop)).trans (switchTo next), rfl⟩

/-- A tick writes no stack pointer. -/
theorem tick (s : Sched n) (c : Fin n) : SameStack t s (taskTimerTick s c) := by
  have hcpu : ∀ (s₁ : Sched n) (g : Cpu → Cpu), SameStack t s s₁ → SameStack t s (s₁.setCpu c g) :=
    fun s₁ g h => h.trans (setCpu (c := c) g)
  unfold taskTimerTick
  dsimp only
  split
  · exact hcpu _ _ (hcpu _ _ (refl s))
  · set s₁ := (s.setCpu c fun cpu => { cpu with totalTicks := cpu.totalTicks + 1 }).setTask
      (s.current c) fun t => { t with totalTicks := t.totalTicks + 1 }
    have h₁ : SameStack t s s₁ := (hcpu s _ (refl s)).trans (setTask (.inr ⟨rfl, rfl⟩))
    set s₂ := if (s₁.tasks (s.current c)).id = 0 then
      s₁.setCpu c fun cpu => { cpu with idleTicks := cpu.idleTicks + 1 } else s₁
    have h₂ : SameStack t s s₂ := by
      by_cases hid : (s₁.tasks (s.current c)).id = 0
      · rw [show s₂ = _ from if_pos hid]
        exact hcpu _ _ h₁
      · rw [show s₂ = _ from if_neg hid]
        exact h₁
    split
    · exact hcpu _ _ h₂
    · split
      · split
        · exact hcpu _ _ h₂
        · exact h₂
      · split
        · exact hcpu _ _ (h₂.trans (setTask (.inr ⟨rfl, rfl⟩)))
        · exact h₂.trans (setTask (.inr ⟨rfl, rfl⟩))

theorem spawn [NeZero n] {s : Sched n} {newTask : Word} (pml4 stackBottom userStackBottom : Word)
    (ht : t ≠ newTask) : SameStack t s (spawnTask s newTask pml4 stackBottom userStackBottom) := by
  unfold spawnTask
  refine SameStack.trans ?_ (of_same (enqueueTask_same _ _ _))
  refine SameStack.trans ?_ (setTask (.inl ht))
  have hids : SameStack t s { s with nextId := s.nextId + 1, created := newTask :: s.created } :=
    ⟨rfl, rfl⟩
  exact hids.trans (setTask (.inl ht))

theorem fork {child : Word} (pml4 stackBottom userStackBottom : Word) (ht : t ≠ child) :
    SameStack t s (taskFork s c child pml4 stackBottom userStackBottom) := by
  unfold taskFork
  refine SameStack.trans ?_ (of_same (enqueueTask_same _ _ _))
  have hids : SameStack t s { s with nextId := s.nextId + 1, created := child :: s.created } :=
    ⟨rfl, rfl⟩
  exact hids.trans (setTask (.inl ht))

/-- The stack of the child. -/
theorem tasks_taskFork (s : Sched n) (c : Fin n) (child pml4 stackBottom userStackBottom : Word) :
    ((taskFork s c child pml4 stackBottom userStackBottom).tasks child).rsp = stackBottom + stackSize -
        ((s.tasks (s.current c)).kernelRsp - (s.tasks (s.current c)).rsp) ∧
      ((taskFork s c child pml4 stackBottom userStackBottom).tasks child).stackBottom
        = stackBottom := by
  unfold taskFork
  have hqueued := fun s₁ : Sched n => of_same (t := child) (enqueueTask_same s₁ c child)
  constructor
  · rw [(hqueued _).1, tasks_setTask_self]
  · rw [(hqueued _).2, tasks_setTask_self]

/-- Entering `task_schedule` writes no stack pointer and switches no task. -/
theorem enters {q : Fin n → List Word} (h : s.Inv q Set.univ) (he : EntersSchedule s c s') :
    SameStack t s s' ∧ s'.current c = s.current c := by
  have hexit : SameStack t s (exitCurrent s c) := setTask (.inr ⟨rfl, rfl⟩)
  cases he with
  | interrupt => exact ⟨refl s, rfl⟩
  | exit => exact ⟨(hexit.trans (setCpu (c := c) _)).trans (tick _ c), (h.sysExit_eq c).1.current c⟩
  | fault => exact ⟨hexit, rfl⟩

/-- So a call of `task_schedule` keeps the stack of every task but the
    outgoing one. -/
theorem selects {q : Fin n → List Word} {s₁ : Sched n} {fuel : Nat} {rsp r : Word}
    (h : s.Inv q Set.univ) (he : EntersSchedule s c s₁)
    (hret : taskSchedule fuel s₁ c rsp = some (r, s')) :
    (t ≠ s.current c → SameStack t s s') ∧ r = (s'.tasks (s'.current c)).rsp := by
  obtain ⟨hsame, hcur⟩ := enters (t := t) h he
  have h0 : s₁.current c ≠ 0 := by
    rw [hcur]
    exact h.current_ne_null c
  obtain ⟨hkeep, hr⟩ := schedule (t := t) h0 hret
  refine ⟨fun ht => hsame.trans (hkeep ?_), hr⟩
  rw [hcur]
  exact ht

/-- **A step keeps the stack of every task that waits.** -/
theorem step [NeZero n] {s s' : Sched n} {q : Fin n → List Word} {a : SchedCall n}
    (h : s.Inv q Set.univ) (ht : t ∈ s.created) (h0 : t ≠ 0) (hw : ∀ c, s.current c ≠ t)
    (hst : SchedStep s a s') : SameStack t s s' := by
  have hnew : ∀ {x : Word}, s.KmallocReturns x → t ≠ x := by
    intro x hx he
    subst he
    exact (h.fresh hx).2.2.2 h0 ht
  cases hst with
  | create cr3 stack hx => exact spawn _ _ _ (hnew hx)
  | createUser pml4 stack ustack hx => exact spawn _ _ _ (hnew hx)
  | exec loaded stack ustack hx =>
    cases loaded with
    | none => exact refl s
    | some pml4 => exact spawn _ _ _ (hnew hx)
  | fork c pml4 stack ustack hx => exact fork _ _ _ (hnew hx)
  | schedule c fuel rsp hret => exact (selects h .interrupt hret).1 (hw c).symm
  | exit c fuel rsp hret =>
    rw [(h.sysExit_eq c).2] at hret
    exact (selects h .exit hret).1 (hw c).symm
  | fault c fuel frame hret => exact (selects h .fault hret).1 (hw c).symm

end Sched.SameStack

/-! ## §4. When the child is selected. -/

/-- Nobody writes the kernel stack of a task that waits for a CPU. -/
def WaitingStacksKept (s : Sched n) (mem mem' : Mem) : Prop :=
  ∀ t ∈ s.created, (∀ c, s.current c ≠ t) →
    Mem.SameBytes (s.tasks t).stackBottom 16384 mem mem'

/-- A step of the scheduler after which task `t` still waits. -/
def WaitStep [NeZero n] (t : Word) (x : Sched n × Mem) (a : SchedCall n) (y : Sched n × Mem) : Prop :=
  SchedStep x.1 a y.1 ∧ WaitingStacksKept x.1 x.2 y.2 ∧ ∀ c, y.1.current c ≠ t

/-- Task `t` waits, with the stack pointer and the stack it has in `s` and
    `mem`. -/
structure Waits (t : Word) (s : Sched n) (mem : Mem) (x : Sched n × Mem) : Prop where
  inv : ∃ q, x.1.Inv q Set.univ
  created : t ∈ x.1.created
  waiting : ∀ c, x.1.current c ≠ t
  stack : s.SameStack t x.1
  bytes : Mem.SameBytes (s.tasks t).stackBottom 16384 mem x.2

section Wait

variable [NeZero n] {s s' : Sched n} {mem mem' : Mem} {t : Word} {a : SchedCall n}

theorem created_step {q : Fin n → List Word} (h : s.Inv q Set.univ) (hst : SchedStep s a s') :
    s.created ⊆ s'.created := by
  cases h.effect hst with
  | spawned _ hs =>
    rw [hs.created]
    exact List.subset_cons_self _ _
  | notLoaded _ => exact List.Subset.refl _
  | switched hs =>
    rw [hs.created]
    exact List.Subset.refl _
  | ended _ hs =>
    rw [hs.created]
    exact List.Subset.refl _

omit [NeZero n] in
/-- What was written after the task's stack was kept. -/
theorem Waits.kept {x : Sched n × Mem} (h : Waits t s mem x)
    (hkept : WaitingStacksKept x.1 x.2 mem') :
    Mem.SameBytes (s.tasks t).stackBottom 16384 mem mem' := by
  intro p hp
  have hlast := hkept t h.created h.waiting
  rw [h.stack.2] at hlast
  exact (h.bytes p hp).trans (hlast p hp)

theorem Waits.step {x y : Sched n × Mem} (h : Waits t s mem x) (h0 : t ≠ 0)
    (hst : WaitStep t x a y) : Waits t s mem y := by
  obtain ⟨hsched, hkept, hwait⟩ := hst
  obtain ⟨q, hq⟩ := h.inv
  exact ⟨hq.step hsched, created_step hq hsched h.created, hwait,
    h.stack.trans (Sched.SameStack.step hq h.created h0 h.waiting hsched), h.kept hkept⟩

/-- Entering `task_schedule` is one of the calls. -/
theorem EntersSchedule.step {q : Fin n → List Word} {s₁ : Sched n} {c : Fin n} {fuel : Nat}
    {rsp r : Word} (h : s.Inv q Set.univ) (he : EntersSchedule s c s₁)
    (hret : taskSchedule fuel s₁ c rsp = some (r, s')) : ∃ a, SchedStep s a s' := by
  cases he with
  | interrupt => exact ⟨_, .schedule c fuel rsp hret⟩
  | exit =>
    rw [← (h.sysExit_eq c).2] at hret
    exact ⟨_, .exit c fuel rsp hret⟩
  | fault => exact ⟨_, .fault c fuel rsp hret⟩

end Wait

/-- A task forks in a reachable state, the scheduler runs on until it first
    selects the child, and `isr_common_stub` finds the memory `mem'` and the
    stack pointer `r`. -/
structure ForkResumes [NeZero n] (s : Sched n) (mem : Mem) (c : Fin n) (child stackBottom : Word)
    (mem' : Mem) (r : Word) : Prop where
  reachable : ∃ s₀ tr, s₀.Initialised ∧ Run SchedStep s₀ tr s
  record : s.KmallocReturns child
  frame : (s.tasks (s.current c)).FrameOnStack
  apart : (s.tasks (s.current c)).StackApart stackBottom
  selected : ∃ pml4 userStackBottom tr s₁ mem₁ c' s₂ fuel rsp s₃,
    Run (WaitStep child)
      (taskFork s c child pml4 stackBottom userStackBottom,
        taskForkStack mem (s.tasks (s.current c)) stackBottom) tr (s₁, mem₁) ∧
      EntersSchedule s₁ c' s₂ ∧ taskSchedule fuel s₂ c' rsp = some (r, s₃) ∧
      WaitingStacksKept s₁ mem₁ mem' ∧ s₃.current c' = child

/-- **What the child resumes with**: the parent's frame with R15 cleared. -/
theorem ForkResumes.isrReturn [NeZero n] {s : Sched n} {mem mem' : Mem} {c : Fin n}
    {child stackBottom r : Word} (h : ForkResumes s mem c child stackBottom mem' r) :
    isrReturn mem' r = { savedFrame mem (s.tasks (s.current c)).rsp with r15 := 0 }.context := by
  obtain ⟨⟨s₀, tr₀, h0, hrun⟩, hchild, hframe, hapart, pml4, userStackBottom, tr, s₁, mem₁, c', s₂,
    fuel, rsp, s₃, hwait, henter, hsel, hkept, hfirst⟩ := h
  obtain ⟨q, hq⟩ := Sched.Inv.run hrun h0
  set parent := s.tasks (s.current c)
  set s' := taskFork s c child pml4 stackBottom userStackBottom with hs'
  set memF := taskForkStack mem parent stackBottom
  have hfork : SchedStep s (.fork c child) s' := .fork c pml4 stackBottom userStackBottom hchild
  -- the child is selected, so its record is not `NULL`
  have hne : child ≠ 0 := by
    have hinv : ∃ q, s₁.Inv q Set.univ := by
      refine hwait.invariant' (I := fun x => ∃ q, x.1.Inv q Set.univ) (fun x a y hx hst => ?_)
        (hq.step hfork)
      obtain ⟨q, hq⟩ := hx
      exact hq.step hst.1
    obtain ⟨q₁, hq₁⟩ := hinv
    obtain ⟨a, hstep⟩ := henter.step hq₁ hsel
    obtain ⟨q₃, hq₃⟩ := hq₁.step hstep
    rw [← hfirst]
    exact hq₃.current_ne_null c'
  have hspawn := hq.fork hchild c pml4 stackBottom userStackBottom
  have hstart : Waits child s' memF (s', memF) := by
    refine ⟨hq.step hfork, ?_, fun c => ?_, .refl s', fun _ _ => rfl⟩
    · show child ∈ s'.created
      rw [hs', hspawn.created]
      exact List.mem_cons_self
    · show s'.current c ≠ child
      rw [hs', hspawn.current]
      exact (hq.fresh hchild).2.1 c
  have hend : Waits child s' memF (s₁, mem₁) :=
    hwait.invariant' (fun x a y hx hst => hx.step hne hst) hstart
  -- the stack pointer `task_schedule` returns, and what lies there
  obtain ⟨q₁, hq₁⟩ := hend.inv
  obtain ⟨hkeep, hr⟩ := Sched.SameStack.selects (t := child) hq₁ henter hsel
  obtain ⟨hrsp, hbottom⟩ := Sched.SameStack.tasks_taskFork s c child pml4 stackBottom userStackBottom
  have hret : r = stackBottom + stackSize - (parent.kernelRsp - parent.rsp) := by
    rw [hr, hfirst, (hkeep (hend.waiting c').symm).1, hend.stack.1]
    exact hrsp
  have hstack : Mem.SameBytes stackBottom 16384 memF mem' := by
    have hbytes := hend.kept hkept
    rw [show (s'.tasks child).stackBottom = stackBottom from hbottom] at hbytes
    exact hbytes
  rw [isrReturn_eq, hret, ← savedFrame_congr (hstack.childFrame hframe hapart),
    savedFrame_fork mem hframe hapart]

/-- **The child resumes like its parent, with RAX 0**, exactly when the parent's
    R15 and RAX were 0. -/
theorem fork_child_resumes_iff [NeZero n] {s : Sched n} {mem mem' : Mem} {c : Fin n}
    {child stackBottom r : Word} (h : ForkResumes s mem c child stackBottom mem' r) :
    isrReturn mem' r = { (savedFrame mem (s.tasks (s.current c)).rsp).context with rax := 0 } ↔
      (savedFrame mem (s.tasks (s.current c)).rsp).r15 = 0 ∧
        (savedFrame mem (s.tasks (s.current c)).rsp).rax = 0 := by
  rw [h.isrReturn]
  exact context_cleared_iff _

/-- The first task of CPU 0 forks, and CPU 0 selects the child next. -/
theorem first_task_forks : ∃ (s : Sched 2) (r : Word), (s.tasks (s.current 0)).rsp = 0xcf50 ∧
    ∀ mem, ForkResumes s mem 0 0xa000 0x10000
      (taskForkStack mem (s.tasks (s.current 0)) 0x10000) r := by
  set s₁ := taskCreate twoCpus 0x8000 0x100000 0x9000 with hs₁
  obtain ⟨q, hq⟩ := twoCpus_initialised.inv.1.step twoCpus_create
  obtain ⟨r₀, s, q', hret, -⟩ := hq.switched 0 0 0xd000
  have hswitch : SchedStep s₁ (.schedule 0) s := .schedule 0 1 0xd000 hret
  have hrun := ((Run.nil twoCpus).snoc twoCpus_create).snoc hswitch
  have hrecord : s.KmallocReturns 0xa000 := by
    have heval : (taskSchedule 1 s₁ 0 0xd000).map (fun x =>
        decide (0xa000 ∉ x.2.created ∧ ∀ c, (0xa000 : Word) ≠ x.2.idle c)) = some true := by
      decide +kernel
    rw [hret] at heval
    obtain ⟨hnew, hidle⟩ := of_decide_eq_true (Option.some.inj heval)
    exact .inr ⟨fun hmem => absurd hmem hnew, hidle⟩
  have hparent : (s.tasks (s.current 0)).rsp = 0xcf50 ∧ (s.tasks (s.current 0)).kernelRsp = 0xd000 ∧
      (s.tasks (s.current 0)).stackBottom = 0x9000 := by
    have heval : (taskSchedule 1 s₁ 0 0xd000).map (fun x =>
        let t := x.2.tasks (x.2.current 0)
        decide (t.rsp = 0xcf50 ∧ t.kernelRsp = 0xd000 ∧ t.stackBottom = 0x9000)) = some true := by
      decide +kernel
    rw [hret] at heval
    exact of_decide_eq_true (Option.some.inj heval)
  obtain ⟨hrsp, htop, hbottom⟩ := hparent
  have hselect : (taskSchedule 1 (taskFork s 0 0xa000 0 0x10000 0) 0 0xd000).map
      (fun x => x.2.current 0) = some 0xa000 := by
    have heval : (taskSchedule 1 s₁ 0 0xd000).bind (fun x =>
        (taskSchedule 1 (taskFork x.2 0 0xa000 0 0x10000 0) 0 0xd000).map
          fun y => y.2.current 0) = some 0xa000 := by decide +kernel
    rw [hret] at heval
    exact heval
  obtain ⟨⟨r, s₃⟩, hsel, hcur⟩ := Option.map_eq_some_iff.mp hselect
  refine ⟨s, r, hrsp, fun mem => ⟨⟨_, _, twoCpus_initialised, hrun⟩, hrecord, ⟨?_, ?_, ?_⟩, ⟨?_, ?_⟩,
    0, 0, [], _, _, 0, _, 1, 0xd000, s₃, .nil _, .interrupt, hsel, fun _ _ _ _ _ => rfl, hcur⟩⟩
  · rw [htop, hbottom]
    decide
  · rw [hrsp, hbottom]
    decide
  · rw [hrsp, htop]
    decide
  · decide
  · right
    rw [htop]
    decide

/-- The child of a parent with nothing but zeros on its stack. -/
theorem fork_child_resumes_iff_first : ∃ (s : Sched 2) (r : Word),
    isrReturn (taskForkStack (fun _ => 0) (s.tasks (s.current 0)) 0x10000) r =
        { (savedFrame (fun _ => 0) (s.tasks (s.current 0)).rsp).context with rax := 0 } ↔
      (savedFrame (fun _ => 0) (s.tasks (s.current 0)).rsp).r15 = 0 ∧
        (savedFrame (fun _ => 0) (s.tasks (s.current 0)).rsp).rax = 0 := by
  obtain ⟨s, r, -, h⟩ := first_task_forks
  exact ⟨s, r, fork_child_resumes_iff (h fun _ => 0)⟩

/-- A parent with 7 in R15: the child has lost it, and its RAX is the
    parent's. -/
theorem fork_clears_r15 : ∃ (s : Sched 2) (r : Word) (mem : Mem),
    ForkResumes s mem 0 0xa000 0x10000 (taskForkStack mem (s.tasks (s.current 0)) 0x10000) r ∧
      (savedFrame mem (s.tasks (s.current 0)).rsp).r15 = 7 ∧
      isrReturn (taskForkStack mem (s.tasks (s.current 0)) 0x10000) r ≠
        { (savedFrame mem (s.tasks (s.current 0)).rsp).context with rax := 0 } := by
  obtain ⟨s, r, hrsp, h⟩ := first_task_forks
  set mem : Mem := Mem.store64 (fun _ => 0) 0xcf50 7
  have hr15 : (savedFrame mem (s.tasks (s.current 0)).rsp).r15 = 7 := by
    rw [hrsp]
    exact Mem.load64_store64_same _ _ _
  refine ⟨s, r, mem, h mem, hr15, fun heq => ?_⟩
  rw [(h mem).isrReturn] at heq
  have hclear := (context_cleared_iff _).mp heq
  rw [hr15] at hclear
  exact absurd hclear.1 (by decide)

end ZohoOs
