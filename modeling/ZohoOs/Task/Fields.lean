/-
  ZohoOs.Task.Fields — what `task_schedule` leaves alone.

  Most fields of a task record are written when the task is created and read
  ever after: its stacks, its address space, its id.  `Steady F` says that `F`
  reads such fields only, and `Sched.Keeps F s s'` that no task's value of `F`
  changed.  `task_schedule` writes one other field, the stack pointer of the
  outgoing task.

  Main results:
    * `task_schedule_fields` — every steady field of every task, and the stack
      pointers;
    * `task_schedule_cpu` — the CPU's `tss.rsp0`, system call stack and `cr3`
      are those of the task it makes current, and other CPUs keep theirs.
-/
import ZohoOs.Task.Runs

namespace ZohoOs

open ZohoOs.Lib

variable {n : Nat} {β : Type}

/-! ## §1. Moving tasks between runqueues. -/

/-- A relation between states that everything the loop of `task_schedule` does
    keeps. -/
structure MovesWithin (R : Sched n → Sched n → Prop) : Prop where
  refl : ∀ s, R s s
  trans : ∀ {s s' s''}, R s s' → R s' s'' → R s s''
  same : ∀ {s s'}, s.SameTasks s' → R s s'
  stolen : ∀ s t v, R s (s.setTask t fun r => { r with cpuId := v })
  reap : ∀ s t, R s (taskReap s t)

namespace MovesWithin

variable {R : Sched n → Sched n → Prop} {s s' : Sched n} {c : Fin n}

theorem stealFrom (h : MovesWithin R) (self : Fin n) (l : List (Fin n)) (s : Sched n) :
    R s (taskStealFrom self l s).2 := by
  induction l generalizing s with
  | nil => exact h.refl s
  | cons v l ih =>
    by_cases hv : v = self
    · rw [taskStealFrom_self l s hv]
      exact ih s
    · by_cases hz : (dequeueTask s v).1 = 0
      · rw [taskStealFrom_empty l hv hz]
        exact h.trans (h.same (dequeueTask_same _ _)) (ih _)
      · rw [taskStealFrom_found l hv hz]
        exact h.trans (h.same (dequeueTask_same _ _)) (h.stolen _ _ _)

theorem pull (h : MovesWithin R) (s : Sched n) (c : Fin n) : R s (pullTask s c).2 := by
  by_cases hz : (dequeueTask s c).1 = 0
  · rw [pullTask_empty hz]
    exact h.trans (h.same (dequeueTask_same _ _)) (h.stealFrom c _ _)
  · rw [pullTask_found hz]
    exact h.same (dequeueTask_same _ _)

/-- **The loop of `task_schedule`**. -/
theorem loop (h : MovesWithin R) {fuel : Nat} {next : Word}
    (hret : taskScheduleLoop c fuel s = some (next, s')) : R s s' := by
  induction fuel generalizing s with
  | zero => cases hret
  | succ fuel ih =>
    have hpull := h.pull s c
    cases hp : pullTask s c with
    | mk task s₁ =>
      rw [hp] at hpull
      simp only [taskScheduleLoop, hp] at hret
      split at hret
      · cases hret
        exact hpull
      · split at hret
        · exact h.trans (h.trans hpull (h.reap s₁ task)) (ih hret)
        · cases hret
          exact hpull
        · exact h.trans (h.trans hpull (h.same (enqueueTask_same _ _ _))) (ih hret)

/-- Requeueing the outgoing task, once its stack pointer is saved. -/
theorem requeue (h : MovesWithin R) (hready : ∀ s t, R s (s.setTask t fun r => { r with state := .ready }))
    (s : Sched n) (c : Fin n) (rsp : Word) : R (saveOutgoing s c rsp) (requeueOutgoing s c rsp) := by
  by_cases hrun : (s.tasks (s.current c)).state = .running
  · by_cases hid : (s.tasks (s.current c)).id = 0
    · rw [requeueOutgoing_idle hrun hid]
      exact hready _ _
    · rw [requeueOutgoing_kept hrun hid]
      exact h.trans (hready _ _) (h.same (enqueueTask_same _ _ _))
  · rw [requeueOutgoing_stopped hrun]
    exact h.refl _

end MovesWithin

/-! ## §2. Fields of the tasks. -/

/-- `F` reads no field of a task that scheduling writes. -/
structure Steady (F : Task → β) : Prop where
  next : ∀ t v, F { t with next := v } = F t
  cpuId : ∀ t v, F { t with cpuId := v } = F t
  state : ∀ t v, F { t with state := v } = F t
  timeslice : ∀ t v, F { t with timeslice := v } = F t
  totalTicks : ∀ t v, F { t with totalTicks := v } = F t

/-- The values of `F` are the same. -/
def Sched.Keeps (F : Task → β) (s s' : Sched n) : Prop := ∀ x, F (s'.tasks x) = F (s.tasks x)

namespace Sched.Keeps

variable {F : Task → β} {s s' s'' : Sched n} {c : Fin n} {t : Word}

theorem trans (h : s.Keeps F s') (h' : s'.Keeps F s'') : s.Keeps F s'' := fun x =>
  (h' x).trans (h x)

theorem setTask {f : Task → Task} (h : F (f (s.tasks t)) = F (s.tasks t)) :
    s.Keeps F (s.setTask t f) :=
  Sched.field_setTask F h

theorem setCpu (g : Cpu → Cpu) : s.Keeps F (s.setCpu c g) := fun _ => rfl

theorem moves (hF : Steady F) : MovesWithin (Sched.Keeps F : Sched n → Sched n → Prop) where
  refl _ _ := rfl
  trans := trans
  same h x := by rw [h.tasks x, hF.next]
  stolen _ _ _ := setTask (hF.cpuId _ _)
  reap _ _ _ := rfl

theorem switchTo (hF : Steady F) (s : Sched n) (c : Fin n) (next : Word) :
    s.Keeps F (switchTo s c next) := by
  unfold ZohoOs.switchTo
  refine (setTask ?_).trans (setCpu (c := c) _)
  rw [hF.timeslice (t := { s.tasks _ with state := .running })]
  exact hF.state _ _

/-- A tick counts, and takes from the time slice. -/
theorem tick (hF : Steady F) (s : Sched n) (c : Fin n) : s.Keeps F (taskTimerTick s c) := by
  unfold taskTimerTick
  dsimp only
  split
  · exact (setCpu (c := c) _).trans (setCpu (c := c) _)
  · set s₁ := (s.setCpu c fun cpu => { cpu with totalTicks := cpu.totalTicks + 1 }).setTask
      (s.current c) fun t => { t with totalTicks := t.totalTicks + 1 }
    have h₁ : s.Keeps F s₁ := (setCpu (c := c) _).trans (setTask (hF.totalTicks _ _))
    set s₂ := if (s₁.tasks (s.current c)).id = 0 then
      s₁.setCpu c fun cpu => { cpu with idleTicks := cpu.idleTicks + 1 } else s₁
    have h₂ : s.Keeps F s₂ := by
      by_cases hid : (s₁.tasks (s.current c)).id = 0
      · rw [show s₂ = _ from if_pos hid]
        exact h₁.trans (setCpu (c := c) _)
      · rw [show s₂ = _ from if_neg hid]
        exact h₁
    have h₃ : s.Keeps F (s₂.setTask (s.current c) fun t =>
        { t with timeslice := if t.timeslice > 0 then t.timeslice - 1 else t.timeslice }) :=
      h₂.trans (setTask (hF.timeslice _ _))
    split
    · exact h₂.trans (setCpu (c := c) _)
    · split
      · split
        · exact h₂.trans (setCpu (c := c) _)
        · exact h₂
      · split
        · exact h₃.trans (setCpu (c := c) _)
        · exact h₃

end Sched.Keeps

/-- Saving the outgoing stack pointer. -/
theorem tasks_saveOutgoing (s : Sched n) (c : Fin n) (rsp x : Word) :
    (saveOutgoing s c rsp).tasks x =
      if x = s.current c then { s.tasks x with rsp := rsp } else s.tasks x := by
  unfold saveOutgoing
  by_cases hx : x = s.current c
  · rw [if_pos hx, hx, Sched.tasks_setTask_self]
    rfl
  · rw [if_neg hx, Sched.tasks_setTask_of_ne hx]
    rfl

/-- **The fields of the tasks after `task_schedule`**. -/
theorem task_schedule_fields {F : Task → β} (hF : Steady F) {s s' : Sched n} {c : Fin n} {fuel : Nat}
    {rsp r : Word} (h0 : s.current c ≠ 0) (h : taskSchedule fuel s c rsp = some (r, s')) (x : Word) :
    F (s'.tasks x) =
      F (if x = s.current c then { s.tasks x with rsp := rsp } else s.tasks x) := by
  rw [taskSchedule, if_neg h0] at h
  obtain ⟨⟨next, s₁⟩, hloop, heq⟩ := Option.map_eq_some_iff.mp h
  cases heq
  have hmoves := Sched.Keeps.moves (n := n) hF
  have hrequeue := hmoves.requeue (fun _ _ => Sched.Keeps.setTask (hF.state _ _)) s c rsp
  rw [← tasks_saveOutgoing]
  exact ((hrequeue.trans (hmoves.loop hloop)).trans (Sched.Keeps.switchTo hF s₁ c next)) x

/-! ## §3. The CPUs. -/

/-- Only the runqueues and the reschedule requests of the CPUs changed. -/
def Sched.KeepsCpus (s s' : Sched n) : Prop :=
  ∀ c, s'.cpus c = { s.cpus c with
    runqueue := s'.queue c, needResched := (s'.cpus c).needResched }

theorem Sched.KeepsCpus.moves : MovesWithin (Sched.KeepsCpus : Sched n → Sched n → Prop) where
  refl _ _ := rfl
  trans h h' c := by rw [h' c, h c]
  same h c := by rw [h.cpus c]
  stolen _ _ _ _ := rfl
  reap _ _ _ := rfl

theorem Sched.KeepsCpus.save (s : Sched n) (c : Fin n) (rsp : Word) :
    s.KeepsCpus (saveOutgoing s c rsp) := by
  intro c'
  unfold saveOutgoing
  rw [Sched.queue_setTask, Sched.cpus_setTask, Sched.queue]
  by_cases hc : c' = c
  · subst hc
    rw [Sched.cpus_setCpu_self]
  · rw [Sched.cpus_setCpu_of_ne hc]

/-- CPU `c` runs on the stacks and in the address space of its current task. -/
def Sched.OnCurrent (s : Sched n) (c : Fin n) : Prop :=
  (s.cpus c).tssRsp0 = (s.tasks (s.current c)).kernelRsp ∧
    (s.cpus c).kernelStack = (s.tasks (s.current c)).kernelRsp ∧
    (s.cpus c).cr3 = (s.tasks (s.current c)).pml4

/-- **The CPUs after `task_schedule`**. -/
theorem task_schedule_cpu {s s' : Sched n} {c : Fin n} {fuel : Nat} {rsp r : Word}
    (h0 : s.current c ≠ 0) (h : taskSchedule fuel s c rsp = some (r, s')) :
    s'.OnCurrent c ∧ ∀ c' ≠ c, s'.cpus c' = { s.cpus c' with
      runqueue := s'.queue c', needResched := (s'.cpus c').needResched } := by
  rw [taskSchedule, if_neg h0] at h
  obtain ⟨⟨next, s₁⟩, hloop, heq⟩ := Option.map_eq_some_iff.mp h
  cases heq
  have hmoves := Sched.KeepsCpus.moves (n := n)
  have hready : ∀ (s : Sched n) (t : Word), s.KeepsCpus (s.setTask t fun r => { r with state := .ready }) :=
    fun _ _ _ => rfl
  have hcpus : s.KeepsCpus s₁ := hmoves.trans (Sched.KeepsCpus.save s c rsp)
    (hmoves.trans (hmoves.requeue hready s c rsp) (hmoves.loop hloop))
  refine ⟨?_, fun c' hc => ?_⟩
  · unfold switchTo Sched.OnCurrent Sched.current
    simp only [Sched.cpus_setCpu_self, Sched.tasks_setCpu, and_self]
  · have hkeep : (switchTo s₁ c next).cpus c' = s₁.cpus c' := by
      unfold switchTo
      rw [Sched.cpus_setCpu_of_ne hc]
      rfl
    show (switchTo s₁ c next).cpus c' = _
    rw [Sched.queue, hkeep]
    exact hcpus c'

end ZohoOs
