/-
  ZohoOs.Task.Calls — runs of the scheduler's callers.

  A run starts when `task_init_per_cpu` has run on every CPU.  Its steps are
  the calls that create tasks, `task_schedule`, `sys_exit` and the faults that
  terminate a task, each on any CPU and each as one step.

  Every call keeps `Sched.Inv`, also when `kmalloc` returns `NULL` for the new
  task.
-/
import ZohoOs.Lib.Transition
import ZohoOs.Lib.Loop
import ZohoOs.Task.Schedule

namespace ZohoOs

open ZohoOs.Lib

variable {n : Nat}

/-! ## §1. The steps. -/

/-- What `kmalloc` may return for a task record: `NULL`, or memory that no live
    task has. -/
def Sched.KmallocReturns (s : Sched n) (t : Word) : Prop :=
  t = 0 ∨ (t ∈ s.created → t ∈ s.reaped) ∧ ∀ c, t ≠ s.idle c

/-- A call, with the pointer `kmalloc` returned for the new task, or the CPU it
    runs on. -/
inductive SchedCall (n : Nat) where
  | create (t : Word)
  | createUser (t : Word)
  | exec (loaded : Option Word) (t : Word)
  | fork (c : Fin n) (t : Word)
  | schedule (c : Fin n)
  | exit (c : Fin n)
  | fault (c : Fin n)

/-- **The calls as steps.** -/
inductive SchedStep [NeZero n] : Sched n → SchedCall n → Sched n → Prop
  | create {s : Sched n} {t : Word} (cr3 stack : Word) :
      s.KmallocReturns t → SchedStep s (.create t) (taskCreate s t cr3 stack)
  | createUser {s : Sched n} {t : Word} (pml4 stack ustack : Word) :
      s.KmallocReturns t → SchedStep s (.createUser t) (taskCreateUser s t pml4 stack ustack)
  | exec {s : Sched n} {t : Word} (loaded : Option Word) (stack ustack : Word) :
      s.KmallocReturns t → SchedStep s (.exec loaded t) (taskExec s loaded t stack ustack)
  | fork {s : Sched n} {t : Word} (c : Fin n) (pml4 stack ustack : Word) :
      s.KmallocReturns t → SchedStep s (.fork c t) (taskFork s c t pml4 stack ustack)
  | schedule {s s' : Sched n} {r : Word} (c : Fin n) (fuel : Nat) (rsp : Word) :
      taskSchedule fuel s c rsp = some (r, s') → SchedStep s (.schedule c) s'
  | exit {s s' : Sched n} {r : Word} (c : Fin n) (fuel : Nat) (rsp : Word) :
      sysExit fuel s c rsp = some (r, s') → SchedStep s (.exit c) s'
  | fault {s s' : Sched n} {r : Word} (c : Fin n) (fuel : Nat) (frame : Word) :
      terminateFault fuel s c frame = some (r, s') → SchedStep s (.fault c) s'

/-- `task_init_global` and then `task_init_per_cpu` on every CPU, with the
    records `idle c` for the idle tasks. -/
def taskInit (s : Sched n) (idle cr3 : Fin n → Word) : Sched n :=
  (List.finRange n).foldl (fun s c => taskInitPerCpu s c (idle c) (cr3 c)) { s with nextId := 1 }

/-- **Every CPU is initialised**, and no task was created yet. -/
def Sched.Initialised (s : Sched n) : Prop :=
  ∃ (s₀ : Sched n) (idle cr3 : Fin n → Word), s = taskInit s₀ idle cr3 ∧ s₀.created = [] ∧
    s₀.reaped = [] ∧ (∀ c, idle c ≠ 0) ∧ ∀ c c', idle c = idle c' → c = c'

/-! ## §2. The initial state. -/

/-- What `task_init_per_cpu` sets up. -/
structure Sched.CpuReady (s : Sched n) (c : Fin n) (task : Word) : Prop where
  queue : s.queue c = ⟨0, 0, 0⟩
  current : s.current c = task
  idle : s.idle c = task
  id : (s.tasks task).id = 0
  state : (s.tasks task).state = .running
  cpuId : (s.tasks task).cpuId = s.cpuIdOf c

theorem taskInitPerCpu_ready (s : Sched n) (c : Fin n) (idle cr3 : Word) :
    (taskInitPerCpu s c idle cr3).CpuReady c idle := by
  unfold taskInitPerCpu
  refine ⟨?_, ?_, ?_, ?_, ?_, ?_⟩ <;>
    simp [Sched.queue, Sched.current, Sched.idle, Sched.cpuIdOf, Sched.setQueue]

/-- Initialising another CPU leaves an initialised one alone. -/
theorem taskInitPerCpu_other {s : Sched n} {c c' : Fin n} {idle idle' cr3 : Word}
    (h : s.CpuReady c' idle') (hc : c' ≠ c) (hidle : idle' ≠ idle) :
    (taskInitPerCpu s c idle cr3).CpuReady c' idle' := by
  have hcpu : (taskInitPerCpu s c idle cr3).cpus c' = s.cpus c' := by
    unfold taskInitPerCpu
    simp only [Sched.setQueue]
    rw [Sched.cpus_setCpu_of_ne hc, Sched.cpus_setTask, Sched.cpus_setCpu_of_ne hc]
  have htask : (taskInitPerCpu s c idle cr3).tasks idle' = s.tasks idle' := by
    unfold taskInitPerCpu
    simp only [Sched.tasks_setCpu]
    rw [Sched.tasks_setTask_of_ne hidle]
    rfl
  refine ⟨?_, ?_, ?_, ?_, ?_, ?_⟩
  · rw [Sched.queue, hcpu]
    exact h.queue
  · rw [Sched.current, hcpu]
    exact h.current
  · rw [Sched.idle, hcpu]
    exact h.idle
  · rw [htask]
    exact h.id
  · rw [htask]
    exact h.state
  · rw [htask, Sched.cpuIdOf, hcpu]
    exact h.cpuId

/-- After the initialisation no task is queued and every CPU idles. -/
theorem Sched.Initialised.inv {s : Sched n} (h : s.Initialised) :
    s.Inv (fun _ => []) Set.univ ∧ s.created = [] := by
  obtain ⟨s₀, idle, cr3, rfl, hcreated, hreaped, hnz, hinj⟩ := h
  have hloop : (∀ c ∈ List.finRange n, (taskInit s₀ idle cr3).CpuReady c (idle c)) ∧
      (taskInit s₀ idle cr3).created = [] ∧ (taskInit s₀ idle cr3).reaped = [] ∧
      (taskInit s₀ idle cr3).nextId = 1 := by
    unfold taskInit
    refine foldl_invariant (fun done (s : Sched n) => (∀ c ∈ done, s.CpuReady c (idle c)) ∧
      s.created = [] ∧ s.reaped = [] ∧ s.nextId = 1)
      ⟨fun c hc => (List.not_mem_nil hc).elim, hcreated, hreaped, rfl⟩ ?_
    intro done c rest s hl ⟨hready, hcr, hre, hid⟩
    refine ⟨fun c' hc' => ?_, hcr, hre, hid⟩
    by_cases hcc : c' = c
    · subst hcc
      exact taskInitPerCpu_ready s c' _ _
    · have hdone : c' ∈ done := (List.mem_append.mp hc').resolve_right fun hmem =>
        hcc (List.mem_singleton.mp hmem)
      exact taskInitPerCpu_other (hready c' hdone) hcc fun he => hcc (hinj _ _ he)
  obtain ⟨hready, hcr, hre, hid⟩ := hloop
  set s := taskInit s₀ idle cr3 with hs
  have hall : ∀ c, s.CpuReady c (idle c) := fun c => hready c (List.mem_finRange c)
  refine ⟨⟨⟨fun c => ?_, fun c => ?_, fun _ => List.nodup_nil, fun c c' t ht => ?_⟩, fun c t ht => ?_,
    fun c _ => ?_, fun c => ?_, fun c c' he => ?_, fun t ht => ?_, ?_, hre⟩, hcr⟩
  · rw [(hall c).queue]
    rfl
  · rw [(hall c).queue]
    exact .inl rfl
  · exact (List.not_mem_nil ht).elim
  · exact (List.not_mem_nil ht).elim
  · rw [(hall c).current]
    refine ⟨(hall c).state, hnz c, .inr (hall c).idle.symm, (hall c).cpuId,
      fun _ hmem => (List.not_mem_nil hmem).elim, fun c' hc' he => hc'.2 ?_⟩
    rw [(hall c').current] at he
    exact hinj _ _ he
  · rw [(hall c).idle, hcr]
    exact ⟨hnz c, fun hmem => (List.not_mem_nil hmem).elim, (hall c).id, (hall c).cpuId⟩
  · rw [(hall c).idle, (hall c').idle] at he
    exact hinj c c' he
  · rw [hcr] at ht
    exact (List.not_mem_nil ht).elim
  · rw [hid, hcr]
    rfl

/-! ## §3. Creating a task. -/

namespace Sched.Inv

variable {s s' : Sched n} {q : Fin n → List Word} {c : Fin n} {t : Word} {f : Task → Task}

/-- A record nobody has is queued and current nowhere. -/
theorem fresh (h : s.Inv q Set.univ) (ht : s.KmallocReturns t) :
    (∀ c, t ∉ q c) ∧ (∀ c, s.current c ≠ t) ∧ (∀ c, s.idle c ≠ t) ∧ (t ≠ 0 → t ∉ s.created) := by
  rcases ht with rfl | ⟨hlive, hidle⟩
  · exact ⟨fun c hmem => h.queues.ne_null hmem rfl,
      fun c he => (h.settled c (Set.mem_univ c)).2.ne_null he, fun c => (h.idle c).1,
      fun hne => absurd rfl hne⟩
  · have hnot : t ∉ s.created := by
      intro hmem
      have hgone := hlive hmem
      rw [h.reaped] at hgone
      cases hgone
    refine ⟨fun c hmem => hnot (h.queued c t hmem).1, fun c he => ?_, fun c he => hidle c he.symm,
      fun _ => hnot⟩
    rcases (h.settled c (Set.mem_univ c)).2.known with hk | hk
    · exact hnot (he ▸ hk)
    · exact hidle c (he ▸ hk)

/-- **A new record**, with the next id, before it is queued. -/
theorem introduce (h : s.Inv q Set.univ) (ht : s.KmallocReturns t)
    (hid : (f (s.tasks t)).id = s.nextId) :
    (Sched.setTask { s with nextId := s.nextId + 1, created := t :: s.created } t f).Inv q
      Set.univ := by
  obtain ⟨hq, hcur, hidle, hnew⟩ := h.fresh ht
  set s₁ := Sched.setTask { s with nextId := s.nextId + 1, created := t :: s.created } t f with hs₁
  have hkeep : ∀ x, x ≠ t → s₁.tasks x = s.tasks x := fun x hx => Sched.tasks_setTask_of_ne hx
  have hcreated : s₁.created = t :: s.created := rfl
  -- the record is new, so it is nobody's task: every other record is as before
  refine ⟨?_, fun c x hx => ?_, fun c _ => ?_, fun c => ?_, h.idle_inj, fun x hx hx0 => ?_, ?_,
    h.reaped⟩
  · refine h.queues.congr (fun c x hx => ?_) fun _ => rfl
    have hne : x ≠ t := fun he => hq c (he ▸ hx)
    show (s₁.tasks x).next = (s.tasks x).next
    rw [hkeep x hne]
  · have hne : x ≠ t := fun he => hq c (he ▸ hx)
    rw [hkeep x hne]
    obtain ⟨hmem, hfacts⟩ := h.queued c x hx
    exact ⟨List.mem_cons_of_mem _ hmem, hfacts⟩
  · obtain ⟨hrun, hheld⟩ := h.settled c (Set.mem_univ c)
    have hsame : s₁.tasks (s₁.current c) = s.tasks (s.current c) := hkeep _ (hcur c)
    rw [hsame]
    refine ⟨hrun, hheld.ne_null, hheld.known.imp_left fun hk => List.mem_cons_of_mem _ hk, ?_,
      hheld.notQueued, hheld.notCurrent⟩
    rw [hsame]
    exact hheld.cpuId
  · obtain ⟨h0, hcr, hid0, hcpu⟩ := h.idle c
    have hsame : s₁.tasks (s₁.idle c) = s.tasks (s.idle c) := hkeep _ (hidle c)
    rw [hsame, hcreated]
    refine ⟨h0, fun hmem => ?_, hid0, hcpu⟩
    rcases List.mem_cons.mp hmem with he | hmem
    · exact hidle c he
    · exact hcr hmem
  · by_cases hxt : x = t
    · subst hxt
      refine ⟨s.created.length + 1, by omega, ?_, ?_⟩
      · rw [hcreated, List.length_cons]
      · rw [hs₁, Sched.tasks_setTask_self]
        exact hid.trans h.nextId
    · have hmem : x ∈ s.created := (List.mem_cons.mp hx).resolve_left hxt
      obtain ⟨k, h1, hk, hidk⟩ := h.ids x hmem hx0
      refine ⟨k, h1, ?_, ?_⟩
      · rw [hcreated, List.length_cons]
        omega
      · rw [hkeep x hxt]
        exact hidk
  · show s.nextId + 1 = BitVec.ofNat 64 ((t :: s.created).length + 1)
    rw [h.nextId, List.length_cons, BitVec.ofNat_add (s.created.length + 1) 1]
    rfl

/-- Queueing the new record on a CPU. -/
theorem queueNew (h : s.Inv q Set.univ) (hq : ∀ c, t ∉ q c) (hcur : ∀ c, s.current c ≠ t)
    (hmem : t ∈ s.created) (hready : (s.tasks t).state = .ready)
    (hcpu : (s.tasks t).cpuId = s.cpuIdOf c) :
    (enqueueTask s c t).Inv (Function.update q c (pushed (s.queue c).tail (q c) t)) Set.univ :=
  h.enqueue hq fun _ => ⟨⟨hmem, hready, hcpu⟩, fun c' _ => hcur c'⟩

end Sched.Inv

/-- What a created task does to the state: it is recorded and appended to one
    runqueue. -/
structure Spawned (s : Sched n) (q : Fin n → List Word) (t : Word) (s' : Sched n) : Prop where
  created : s'.created = t :: s.created
  current : ∀ c, s'.current c = s.current c
  idle : ∀ c, s'.idle c = s.idle c
  queued : ∃ c, s'.Inv (Function.update q c (pushed (s.queue c).tail (q c) t)) Set.univ ∧
    (s.TailsSet q → t ≠ 0 →
      s'.TailsSet (Function.update q c (pushed (s.queue c).tail (q c) t)))

namespace Sched.Inv

variable {s s' : Sched n} {q : Fin n → List Word} {t : Word}

/-- **The creating functions.** -/
theorem spawn [NeZero n] (h : s.Inv q Set.univ) (ht : s.KmallocReturns t)
    (pml4 stack ustack : Word) : Spawned s q t (spawnTask s t pml4 stack ustack) := by
  obtain ⟨hq, hcur, -, -⟩ := h.fresh ht
  set s₁ := Sched.setTask { s with nextId := s.nextId + 1, created := t :: s.created } t fun r =>
    { r with
      id := s.nextId, pml4 := pml4, stackBottom := stack, userStackBottom := ustack,
      kernelRsp := stack + stackSize, rsp := stack + stackSize - 22 * 8, state := .ready,
      timeslice := taskDefaultTimeslice, totalTicks := 0 } with hs₁
  have h₁ : s₁.Inv q Set.univ := h.introduce ht rfl
  set target := pickLeastLoadedCpu s₁ with htarget
  set s₂ := s₁.setTask t fun r => { r with cpuId := s₁.cpuIdOf target } with hs₂
  have h₂ : s₂.Inv q Set.univ :=
    h₁.setTask hq (fun c _ => hcur c) rfl (.inr List.mem_cons_self)
  have heq : spawnTask s t pml4 stack ustack = enqueueTask s₂ target t := rfl
  have hsame := enqueueTask_same s₂ target t
  have hready : (s₂.tasks t).state = .ready := by
    rw [hs₂, Sched.tasks_setTask_self, hs₁, Sched.tasks_setTask_self]
  have hcpu : (s₂.tasks t).cpuId = s₂.cpuIdOf target := by
    rw [hs₂, Sched.tasks_setTask_self]
    rfl
  rw [heq]
  refine ⟨hsame.created, fun c => hsame.current c, fun c => hsame.idle c, target,
    h₂.queueNew hq hcur List.mem_cons_self hready hcpu, fun htails ht0 => ?_⟩
  exact Sched.Queues.tailsSet_enqueue htails ht0

/-- **`task_fork`**: the child goes to the parent's CPU. -/
theorem fork (h : s.Inv q Set.univ) (ht : s.KmallocReturns t) (c : Fin n)
    (pml4 stack ustack : Word) : Spawned s q t (taskFork s c t pml4 stack ustack) := by
  obtain ⟨hq, hcur, -, -⟩ := h.fresh ht
  set parent := s.tasks (s.current c) with hparent
  set s₁ := Sched.setTask { s with nextId := s.nextId + 1, created := t :: s.created } t fun r =>
    { r with
      id := s.nextId, pml4 := pml4, stackBottom := stack
      userStackBottom := if parent.userStackBottom ≠ 0 then ustack else 0
      kernelRsp := stack + stackSize
      rsp := stack + stackSize - (parent.kernelRsp - parent.rsp), state := .ready
      cpuId := parent.cpuId, timeslice := taskDefaultTimeslice, totalTicks := 0 } with hs₁
  have h₁ : s₁.Inv q Set.univ := h.introduce ht rfl
  have heq : taskFork s c t pml4 stack ustack = enqueueTask s₁ c t := rfl
  have hsame := enqueueTask_same s₁ c t
  have hready : (s₁.tasks t).state = .ready := by
    rw [hs₁, Sched.tasks_setTask_self]
  have hcpu : (s₁.tasks t).cpuId = s₁.cpuIdOf c := by
    rw [hs₁, Sched.tasks_setTask_self]
    exact (h.settled c (Set.mem_univ c)).2.cpuId
  rw [heq]
  refine ⟨hsame.created, fun c => hsame.current c, fun c => hsame.idle c, c,
    h₁.queueNew hq hcur List.mem_cons_self hready hcpu, fun htails ht0 => ?_⟩
  exact Sched.Queues.tailsSet_enqueue htails ht0

end Sched.Inv

/-! ## §4. Ticks and exits. -/

/-- `s'` differs from `s` in clocks, time slices and reschedule requests only. -/
structure Sched.Alike (s s' : Sched n) : Prop where
  id : ∀ x, (s'.tasks x).id = (s.tasks x).id
  state : ∀ x, (s'.tasks x).state = (s.tasks x).state
  cpuId : ∀ x, (s'.tasks x).cpuId = (s.tasks x).cpuId
  next : ∀ x, s'.next x = s.next x
  cpuIdOf : ∀ c, s'.cpuIdOf c = s.cpuIdOf c
  current : ∀ c, s'.current c = s.current c
  idle : ∀ c, s'.idle c = s.idle c
  queue : ∀ c, s'.queue c = s.queue c
  nextId : s'.nextId = s.nextId
  created : s'.created = s.created
  reaped : s'.reaped = s.reaped

namespace Sched.Alike

variable {s s' s'' : Sched n} {q : Fin n → List Word} {A : Set (Fin n)} {c : Fin n} {t : Word}

theorem refl (s : Sched n) : s.Alike s :=
  ⟨fun _ => rfl, fun _ => rfl, fun _ => rfl, fun _ => rfl, fun _ => rfl, fun _ => rfl, fun _ => rfl,
    fun _ => rfl, rfl, rfl, rfl⟩

theorem trans (h : s.Alike s') (h' : s'.Alike s'') : s.Alike s'' :=
  ⟨fun x => (h'.id x).trans (h.id x), fun x => (h'.state x).trans (h.state x),
    fun x => (h'.cpuId x).trans (h.cpuId x), fun x => (h'.next x).trans (h.next x),
    fun c => (h'.cpuIdOf c).trans (h.cpuIdOf c), fun c => (h'.current c).trans (h.current c),
    fun c => (h'.idle c).trans (h.idle c), fun c => (h'.queue c).trans (h.queue c),
    h'.nextId.trans h.nextId, h'.created.trans h.created, h'.reaped.trans h.reaped⟩

theorem held (h : s.Alike s') (hh : s.Held q A c t) : s'.Held q A c t := by
  refine ⟨hh.ne_null, ?_, ?_, hh.notQueued, fun c' hc' => ?_⟩
  · rw [h.created, h.idle]
    exact hh.known
  · rw [h.cpuId, h.cpuIdOf]
    exact hh.cpuId
  · rw [h.current]
    exact hh.notCurrent c' hc'

theorem inv (h : s.Alike s') (hi : s.Inv q A) : s'.Inv q A := by
  refine ⟨hi.queues.congr (fun _ x _ => h.next x) h.queue, fun c t ht => ?_, fun c hc => ?_,
    fun c => ?_, fun c c' he => ?_, fun t ht ht0 => ?_, ?_, ?_⟩
  · rw [h.created, h.state, h.cpuId, h.cpuIdOf]
    exact hi.queued c t ht
  · rw [h.current, h.state]
    exact ⟨(hi.settled c hc).1, h.held (hi.settled c hc).2⟩
  · rw [h.idle, h.created, h.id, h.cpuId, h.cpuIdOf]
    exact hi.idle c
  · rw [h.idle, h.idle] at he
    exact hi.idle_inj c c' he
  · rw [h.created] at ht ⊢
    rw [h.id]
    exact hi.ids t ht ht0
  · rw [h.nextId, h.created]
    exact hi.nextId
  · rw [h.reaped]
    exact hi.reaped

theorem setTask {f : Task → Task} (hid : (f (s.tasks t)).id = (s.tasks t).id)
    (hstate : (f (s.tasks t)).state = (s.tasks t).state)
    (hcpu : (f (s.tasks t)).cpuId = (s.tasks t).cpuId)
    (hnext : (f (s.tasks t)).next = (s.tasks t).next) : s.Alike (s.setTask t f) :=
  ⟨Sched.field_setTask Task.id hid, Sched.field_setTask Task.state hstate,
    Sched.field_setTask Task.cpuId hcpu, Sched.field_setTask Task.next hnext, fun _ => rfl,
    fun _ => rfl, fun _ => rfl, fun _ => rfl, rfl, rfl, rfl⟩

theorem setCpu {g : Cpu → Cpu}
    (hg : g (s.cpus c) = { g (s.cpus c) with
      id := (s.cpus c).id, currentTask := s.current c, idleTask := s.idle c,
      runqueue := s.queue c }) : s.Alike (s.setCpu c g) := by
  have hcur : ∀ c', (s.setCpu c g).current c' = s.current c' :=
    Sched.field_setCpu Cpu.currentTask (by rw [hg]; rfl)
  have hidle : ∀ c', (s.setCpu c g).idle c' = s.idle c' :=
    Sched.field_setCpu Cpu.idleTask (by rw [hg]; rfl)
  have hqueue : ∀ c', (s.setCpu c g).queue c' = s.queue c' :=
    Sched.field_setCpu Cpu.runqueue (by rw [hg]; rfl)
  have hid : ∀ c', (s.setCpu c g).cpuIdOf c' = s.cpuIdOf c' :=
    fun c' => Sched.field_setCpu (fun cpu => cpu.id.setWidth 32) (by rw [hg]) c'
  exact ⟨fun _ => rfl, fun _ => rfl, fun _ => rfl, fun _ => rfl, hid, hcur, hidle, hqueue, rfl, rfl,
    rfl⟩

end Sched.Alike

/-- A tick of a CPU whose current task has stopped asks for a reschedule. -/
theorem taskTimerTick_stopped {s : Sched n} {c : Fin n} (h0 : s.current c ≠ 0)
    (hstop : (s.tasks (s.current c)).state ≠ .running) :
    s.Alike (taskTimerTick s c) ∧ ((taskTimerTick s c).cpus c).needResched = true := by
  set cur := s.current c with hcur
  set s₁ := (s.setCpu c fun cpu => { cpu with totalTicks := cpu.totalTicks + 1 }).setTask cur fun t =>
    { t with totalTicks := t.totalTicks + 1 } with hs₁
  set s₂ := if (s₁.tasks cur).id = 0 then
    s₁.setCpu c fun cpu => { cpu with idleTicks := cpu.idleTicks + 1 } else s₁ with hs₂
  have h₁ : s.Alike s₁ := by
    have hcpu : s.Alike (s.setCpu c fun cpu => { cpu with totalTicks := cpu.totalTicks + 1 }) :=
      Sched.Alike.setCpu rfl
    exact hcpu.trans (Sched.Alike.setTask rfl rfl rfl rfl)
  have h₂ : s.Alike s₂ := by
    by_cases hid : (s₁.tasks cur).id = 0
    · rw [hs₂, if_pos hid]
      exact h₁.trans (Sched.Alike.setCpu rfl)
    · rw [hs₂, if_neg hid]
      exact h₁
  have hstop₂ : (s₂.tasks cur).state ≠ .running := by
    rw [h₂.state]
    exact hstop
  have heq : taskTimerTick s c = s₂.setCpu c fun cpu => { cpu with needResched := true } := by
    unfold taskTimerTick
    exact (if_neg h0).trans (if_pos hstop₂)
  rw [heq]
  refine ⟨h₂.trans (Sched.Alike.setCpu rfl), ?_⟩
  rw [Sched.cpus_setCpu_self]

/-- Where the yield of `sys_exit` calls `task_schedule`. -/
def exitTicked (s : Sched n) (c : Fin n) : Sched n :=
  taskTimerTick ((exitCurrent s c).setCpu c fun cpu => { cpu with needResched := true }) c

/-- What the calls that end the current task of CPU `c` do. -/
structure Ended (s : Sched n) (q : Fin n → List Word) (c : Fin n) (s' : Sched n)
    (q' : Fin n → List Word) : Prop where
  inv : s'.Inv q' Set.univ
  created : s'.created = s.created
  placed : s.TailsSet q → s'.TailsSet q' ∧ ∀ t, t ≠ s.idle c →
    ((∃ c', s'.current c' = t) ∨ (∃ c', t ∈ q' c') ↔
      (∃ c' ≠ c, s.current c' = t) ∨ (∃ c', t ∈ q c'))

namespace Sched.Inv

variable {s s' : Sched n} {q : Fin n → List Word} {c : Fin n} {t : Word}

/-- Marking the current task dead. -/
theorem exitCurrent (h : s.Inv q Set.univ) (c : Fin n) :
    (ZohoOs.exitCurrent s c).Inv q {c}ᶜ ∧
      (ZohoOs.exitCurrent s c).Held q {c}ᶜ c (s.current c) ∧
      ((ZohoOs.exitCurrent s c).tasks (s.current c)).state = .exited := by
  have hheld := h.current_held c
  refine ⟨(h.mono (Set.subset_univ _)).setTask hheld.notQueued hheld.notCurrent rfl (.inl rfl),
    ⟨hheld.ne_null, hheld.known, ?_, hheld.notQueued, hheld.notCurrent⟩, ?_⟩
  · rw [ZohoOs.exitCurrent, Sched.tasks_setTask_self]
    exact hheld.cpuId
  · rw [ZohoOs.exitCurrent, Sched.tasks_setTask_self]

/-- `task_schedule` after the current task was marked dead. -/
theorem scheduleEnded {s₁ : Sched n} (h : s.Inv q Set.univ)
    (hlike : (ZohoOs.exitCurrent s c).Alike s₁) (fuel : Nat) (rsp : Word) :
    ∃ r s' q', taskSchedule (fuel + 1) s₁ c rsp = some (r, s') ∧ Ended s q c s' q' := by
  obtain ⟨hexit, hheld, hdead⟩ := h.exitCurrent c
  have hheld₁ : s₁.Held q {c}ᶜ c (s₁.current c) := by
    rw [hlike.current]
    exact hlike.held hheld
  obtain ⟨r, s', q', hret, hinv, hcr, hplaced⟩ := (hlike.inv hexit).schedule hheld₁ fuel rsp
  refine ⟨r, s', q', hret, hinv, hcr.trans hlike.created, fun htails => ?_⟩
  have htails₁ : s₁.TailsSet q := by
    intro c' hne
    rw [hlike.queue]
    exact htails c' hne
  obtain ⟨htails', hiff⟩ := hplaced htails₁
  refine ⟨htails', fun t ht => ?_⟩
  have hnot : ¬ (t = s₁.current c ∧ (s₁.tasks (s₁.current c)).state = .running ∧
      (s₁.tasks (s₁.current c)).id ≠ 0) := by
    rintro ⟨-, hrun, -⟩
    rw [hlike.state, hlike.current] at hrun
    have hdead' : ((ZohoOs.exitCurrent s c).tasks ((ZohoOs.exitCurrent s c).current c)).state
        = .exited := hdead
    rw [hdead'] at hrun
    cases hrun
  rw [hiff t (by rw [hlike.idle]; exact ht), or_iff_left hnot]
  have hcur : ∀ c', s₁.current c' = s.current c' := hlike.current
  simp only [hcur]

/-- **`sys_exit`** yields, and the tick of the yield reschedules. -/
theorem sysExit_eq (h : s.Inv q Set.univ) (c : Fin n) :
    (ZohoOs.exitCurrent s c).Alike (exitTicked s c) ∧ ∀ fuel rsp,
      ZohoOs.sysExit fuel s c rsp = taskSchedule fuel (exitTicked s c) c rsp := by
  obtain ⟨-, hheld, hdead⟩ := h.exitCurrent c
  set s₁ := (ZohoOs.exitCurrent s c).setCpu c fun cpu => { cpu with needResched := true } with hs₁
  have h₁ : (ZohoOs.exitCurrent s c).Alike s₁ := Sched.Alike.setCpu rfl
  have h0 : s₁.current c ≠ 0 := by
    rw [h₁.current]
    exact hheld.ne_null
  have hstop : (s₁.tasks (s₁.current c)).state ≠ .running := by
    have hdead' : ((ZohoOs.exitCurrent s c).tasks ((ZohoOs.exitCurrent s c).current c)).state
        = .exited := hdead
    rw [h₁.state, h₁.current, hdead']
    exact fun he => nomatch he
  obtain ⟨htick, hneed⟩ := taskTimerTick_stopped h0 hstop
  refine ⟨h₁.trans htick, fun fuel rsp => ?_⟩
  unfold ZohoOs.sysExit taskYield timerInterrupt
  exact if_pos hneed

end Sched.Inv

end ZohoOs
