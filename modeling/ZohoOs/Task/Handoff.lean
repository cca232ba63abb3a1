/-
  ZohoOs.Task.Handoff — `task_schedule` on several CPUs at once.

  Here `task_schedule` is a sequence of statements, and the statements of all
  CPUs interleave freely; only the bodies of `enqueue_task` and
  `dequeue_task`, which hold the runqueue lock, are one step.  A CPU leaves
  the kernel stack of the outgoing task when `isr_common_stub` loads the
  stack pointer that `task_schedule` returned.

  The outgoing task is in the runqueue before its CPU has left its stack.
  Main results:
    * `Smp.alone_taskSchedule` — a CPU that nobody gets in the way of computes
      `taskSchedule`;
    * `Smp.exclusive_of_safe` — as long as no CPU steals a task whose stack
      another CPU still executes on, no task is current on two CPUs and no
      stack is used by two;
    * `steal_before_leave` — the steal that breaks this, on two CPUs.
-/
import ZohoOs.Task.Runs

namespace ZohoOs

open ZohoOs.Lib

variable {n : Nat}

/-! ## §1. Statements and CPUs. -/

/-- The statement of `task_schedule` a CPU executes next, with the value of
    its local `next`. -/
inductive SchedPc where
  /-- The CPU runs its current task. -/
  | running
  /-- `if (cpu->current_task->state == TASK_RUNNING)`. -/
  | markReady
  /-- `if (cpu->current_task->id != 0) enqueue_task(..)`. -/
  | publish
  /-- The `while (1)`. -/
  | pull
  /-- The loop of `task_steal`, at index `i`. -/
  | steal (i : Nat)
  /-- `task->cpu_id = self->id`. -/
  | stolen (task : Word)
  /-- The tests of `next->state`. -/
  | check (next : Word)
  /-- `cpu->current_task = next`; `0` stands for the idle task. -/
  | pick (next : Word)
  /-- `cpu->current_task->state = TASK_RUNNING`. -/
  | setRunning
  /-- The time slice, the kernel stack and `cr3`. -/
  | load
  /-- `return cpu->current_task->rsp` and `mov rsp, rax`. -/
  | leave

/-- The multiprocessor: the memory that task.c works on, and of every CPU the
    statement it executes next, its stack pointer and the task whose kernel
    stack that pointer is in. -/
structure Smp (n : Nat) where
  sched : Sched n
  pc : Fin n → SchedPc
  rsp : Fin n → Word
  stack : Fin n → Word

/-- CPU `c` has written `s` and goes on at `p`. -/
def Smp.goto (m : Smp n) (c : Fin n) (p : SchedPc) (s : Sched n) : Smp n :=
  { m with sched := s, pc := Function.update m.pc c p }

/-- **One statement of `task_schedule`** on CPU `c`; `currentRsp` is the frame
    it is entered with. -/
def Smp.stmt (m : Smp n) (c : Fin n) (currentRsp : Word) : Smp n :=
  let s := m.sched
  match m.pc c with
  | .running => if s.current c = 0 then m else m.goto c .markReady (saveOutgoing s c currentRsp)
  | .markReady =>
      if (s.tasks (s.current c)).state = .running then
        m.goto c .publish (s.setTask (s.current c) fun t => { t with state := .ready })
      else m.goto c .pull s
  | .publish =>
      m.goto c .pull
        (if (s.tasks (s.current c)).id ≠ 0 then enqueueTask s c (s.current c) else s)
  | .pull =>
      let (next, s) := dequeueTask s c
      m.goto c (if next = 0 then .steal 0 else .check next) s
  | .steal i =>
      if h : i < n then
        if ⟨i, h⟩ = c then m.goto c (.steal (i + 1)) s
        else
          let (task, s) := dequeueTask s ⟨i, h⟩
          m.goto c (if task ≠ 0 then .stolen task else .steal (i + 1)) s
      else m.goto c (.pick 0) s
  | .stolen task =>
      m.goto c (.check task) (s.setTask task fun t => { t with cpuId := s.cpuIdOf c })
  | .check next =>
      match (s.tasks next).state with
      | .exited => m.goto c .pull (taskReap s next)
      | .ready => m.goto c (.pick next) s
      | .running => m.goto c .pull (enqueueTask s c next)
  | .pick next =>
      m.goto c .setRunning (s.setCpu c fun cpu =>
        { cpu with currentTask := if next = 0 then s.idle c else next })
  | .setRunning =>
      m.goto c .load (s.setTask (s.current c) fun t => { t with state := .running })
  | .load =>
      let s := s.setTask (s.current c) fun t =>
        { t with timeslice := if t.id = 0 then 0 else taskDefaultTimeslice }
      m.goto c .leave (s.setCpu c fun cpu =>
        { cpu with
          tssRsp0 := (s.tasks (s.current c)).kernelRsp
          kernelStack := (s.tasks (s.current c)).kernelRsp
          cr3 := (s.tasks (s.current c)).pml4 })
  | .leave =>
      { m.goto c .running s with
        rsp := Function.update m.rsp c (s.tasks (s.current c)).rsp
        stack := Function.update m.stack c (s.current c) }

/-- What a CPU may do: execute a statement of `task_schedule`, or mark its
    current task dead, as `sys_exit` and the fault handlers do. -/
inductive CpuAct (n : Nat) where
  | stmt (c : Fin n)
  | exit (c : Fin n)

/-- **The steps of the CPUs**, of any CPU in any order. -/
inductive SmpStep : Smp n → CpuAct n → Smp n → Prop
  | stmt {m : Smp n} (c : Fin n) (currentRsp : Word) :
      SmpStep m (.stmt c) (m.stmt c currentRsp)
  | exit {m : Smp n} (c : Fin n) :
      m.pc c = .running → SmpStep m (.exit c) { m with sched := exitCurrent m.sched c }

/-- **Exclusive execution**: no task is current on two CPUs, and no two CPUs
    execute on one kernel stack. -/
def Smp.Exclusive (m : Smp n) : Prop :=
  ∀ c c', c ≠ c' → m.sched.current c ≠ m.sched.current c' ∧ m.stack c ≠ m.stack c'

/-- **A safe step**: when the loop of `task_steal` looks at a CPU, the first
    task of that CPU's runqueue is not one whose kernel stack another CPU than
    the thief still executes on. -/
def Smp.Safe (m : Smp n) : CpuAct n → Prop
  | .stmt c => ∀ v : Fin n, m.pc c = .steal v → v ≠ c → (m.sched.queue v).head ≠ 0 →
      ∀ c' ≠ c, m.stack c' ≠ (m.sched.queue v).head
  | .exit _ => True

/-! ## §2. Who has a task. -/

/-- `s'` has the current tasks, the idle tasks, the records and the ids of
    `s`. -/
structure Sched.SameHolders (s s' : Sched n) : Prop where
  current : ∀ c, s'.current c = s.current c
  idle : ∀ c, s'.idle c = s.idle c
  created : s'.created = s.created
  id : ∀ t, (s'.tasks t).id = (s.tasks t).id

namespace Sched.SameHolders

variable {s s' : Sched n} {c : Fin n} {t : Word}

theorem refl (s : Sched n) : s.SameHolders s := ⟨fun _ => rfl, fun _ => rfl, rfl, fun _ => rfl⟩

theorem of_same (h : s.SameTasks s') : s.SameHolders s' := ⟨h.current, h.idle, h.created, h.id⟩

theorem setTask {f : Task → Task} (hf : (f (s.tasks t)).id = (s.tasks t).id) :
    s.SameHolders (s.setTask t f) :=
  ⟨fun _ => rfl, fun _ => rfl, rfl, Sched.field_setTask Task.id hf⟩

end Sched.SameHolders

/-- Writing to a task record leaves the links alone, unless it writes `next`. -/
theorem Sched.Queues.setTask {s : Sched n} {q : Fin n → List Word} {t : Word} {f : Task → Task}
    (h : s.Queues q) (hf : (f (s.tasks t)).next = (s.tasks t).next) : (s.setTask t f).Queues q :=
  h.congr (fun _ x _ => Sched.field_setTask Task.next hf x) fun _ => rfl

/-- The task the local `next` holds, or `0`. -/
def SchedPc.hand : SchedPc → Word
  | .stolen task => task
  | .check next => next
  | .pick next => next
  | _ => 0

/-- `current_task` is the incoming task already. -/
def SchedPc.Switched : SchedPc → Prop
  | .setRunning => True
  | .load => True
  | .leave => True
  | _ => False

/-- The outgoing task may be in the runqueue. -/
def SchedPc.Requeued : SchedPc → Prop
  | .running => False
  | .markReady => False
  | .publish => False
  | _ => True

/-- CPU `c` works with task `t`. -/
def Smp.Has (m : Smp n) (c : Fin n) (t : Word) : Prop :=
  t = m.sched.current c ∨ t = m.stack c ∨ t = (m.pc c).hand ∧ t ≠ 0

/-- CPU `c` is leaving task `t` behind. -/
def Smp.Leaving (m : Smp n) (c : Fin n) (t : Word) : Prop :=
  (m.pc c).Requeued ∧ t = m.stack c ∧ ((m.pc c).Switched → t ≠ m.sched.current c) ∧
    t ≠ (m.pc c).hand

/-- **The invariant**: every task is with one CPU only; a queued task is with
    no CPU, except that it may be the task the CPU of the runqueue is
    leaving. -/
structure Smp.Owned (m : Smp n) (q : Fin n → List Word) : Prop where
  queues : m.sched.Queues q
  queued : ∀ v, ∀ t ∈ q v, t ∈ m.sched.created
  known : ∀ c t, m.Has c t → t ≠ 0 ∧ (t ∈ m.sched.created ∨ t = m.sched.idle c)
  apart : ∀ c c' t, m.Has c t → m.Has c' t → c = c'
  leaving : ∀ v c, ∀ t ∈ q v, m.Has c t → c = v ∧ m.Leaving c t
  unswitched : ∀ c, ¬ (m.pc c).Switched → m.sched.current c = m.stack c
  hand : ∀ c, (m.pc c).hand ≠ 0 → (m.pc c).hand ∈ m.sched.created
  idle : ∀ c, m.sched.idle c ≠ 0 ∧ m.sched.idle c ∉ m.sched.created ∧
    (m.sched.tasks (m.sched.idle c)).id = 0
  idle_inj : ∀ c c', m.sched.idle c = m.sched.idle c' → c = c'

namespace Smp.Owned

variable {m m' : Smp n} {q q' : Fin n → List Word} {c : Fin n} {t : Word}

/-- The property the invariant is for. -/
theorem exclusive (h : m.Owned q) : m.Exclusive := by
  intro c c' hne
  refine ⟨fun he => hne ?_, fun he => hne ?_⟩
  · exact h.apart c c' (m.sched.current c) (.inl rfl) (.inl he)
  · exact h.apart c c' (m.stack c) (.inr (.inl rfl)) (.inr (.inl he))

theorem idle_notQueued (h : m.Owned q) (c v : Fin n) : m.sched.idle c ∉ q v := by
  intro hmem
  exact (h.idle c).2.1 (h.queued v _ hmem)

/-- No other CPU has the idle task of `c`. -/
theorem idle_notHad (h : m.Owned q) {c' : Fin n} (hne : c' ≠ c) : ¬ m.Has c' (m.sched.idle c) := by
  intro hhas
  rcases (h.known c' _ hhas).2 with hk | hk
  · exact (h.idle c).2.1 hk
  · exact hne (h.idle_inj c c' hk).symm

/-- **The rule for a step of one CPU**: the others stand still, and what CPU
    `c` has afterwards no other CPU has. -/
theorem of_cpu (h : m.Owned q) (hcur : ∀ c' ≠ c, m'.sched.current c' = m.sched.current c')
    (hstack : ∀ c' ≠ c, m'.stack c' = m.stack c') (hpc : ∀ c' ≠ c, m'.pc c' = m.pc c')
    (hidle : ∀ c', m'.sched.idle c' = m.sched.idle c')
    (hcreated : m'.sched.created = m.sched.created)
    (hid : ∀ t, (m'.sched.tasks t).id = (m.sched.tasks t).id) (hqueues : m'.sched.Queues q')
    (hqueued : ∀ v, ∀ t ∈ q' v, t ∈ m.sched.created)
    (hhas : ∀ t, m'.Has c t → (t ≠ 0 ∧ (t ∈ m.sched.created ∨ t = m.sched.idle c)) ∧
      ∀ c' ≠ c, ¬ m.Has c' t)
    (hleaving : ∀ v, ∀ t ∈ q' v, m'.Has c t → c = v ∧ m'.Leaving c t)
    (hothers : ∀ v, ∀ t ∈ q' v, ∀ c' ≠ c, m.Has c' t → t ∈ q v)
    (hself : ¬ (m'.pc c).Switched → m'.sched.current c = m'.stack c)
    (hhand : (m'.pc c).hand ≠ 0 → (m'.pc c).hand ∈ m.sched.created) : m'.Owned q' := by
  -- what the other CPUs have and leave is as before
  have hhas' : ∀ c' ≠ c, ∀ t, m'.Has c' t ↔ m.Has c' t := by
    intro c' hne t
    unfold Smp.Has
    rw [hcur c' hne, hstack c' hne, hpc c' hne]
  have hleaving' : ∀ c' ≠ c, ∀ t, m'.Leaving c' t ↔ m.Leaving c' t := by
    intro c' hne t
    unfold Smp.Leaving
    rw [hcur c' hne, hstack c' hne, hpc c' hne]
  refine ⟨hqueues, fun v t ht => ?_, fun c' t ht => ?_, fun c₁ c₂ t h₁ h₂ => ?_,
    fun v c' t hq ht => ?_, fun c' hns => ?_, fun c' h0 => ?_, fun c' => ?_, fun c₁ c₂ he => ?_⟩
  · rw [hcreated]
    exact hqueued v t ht
  · rw [hcreated, hidle]
    by_cases hc : c' = c
    · subst hc
      exact (hhas t ht).1
    · exact h.known c' t ((hhas' c' hc t).mp ht)
  · by_cases hc₁ : c₁ = c
    · by_cases hc₂ : c₂ = c
      · exact hc₁.trans hc₂.symm
      · subst hc₁
        exact absurd ((hhas' c₂ hc₂ t).mp h₂) ((hhas t h₁).2 c₂ hc₂)
    · by_cases hc₂ : c₂ = c
      · subst hc₂
        exact absurd ((hhas' c₁ hc₁ t).mp h₁) ((hhas t h₂).2 c₁ hc₁)
      · exact h.apart c₁ c₂ t ((hhas' c₁ hc₁ t).mp h₁) ((hhas' c₂ hc₂ t).mp h₂)
  · by_cases hc : c' = c
    · subst hc
      exact hleaving v t hq ht
    · have hold := (hhas' c' hc t).mp ht
      obtain ⟨he, hleave⟩ := h.leaving v c' t (hothers v t hq c' hc hold) hold
      exact ⟨he, (hleaving' c' hc t).mpr hleave⟩
  · by_cases hc : c' = c
    · subst hc
      exact hself hns
    · rw [hcur c' hc, hstack c' hc]
      rw [hpc c' hc] at hns
      exact h.unswitched c' hns
  · rw [hcreated]
    by_cases hc : c' = c
    · subst hc
      exact hhand h0
    · rw [hpc c' hc] at h0 ⊢
      exact h.hand c' h0
  · rw [hidle, hcreated, hid]
    exact h.idle c'
  · rw [hidle, hidle] at he
    exact h.idle_inj c₁ c₂ he

/-! ## §3. The statements. -/

/-- A statement that moves no task between CPUs and runqueues. -/
theorem quiet {s' : Sched n} {p : SchedPc} (h : m.Owned q) (hs : m.sched.SameHolders s')
    (hqueues : s'.Queues q) (hhand : p.hand = 0 ∨ p.hand = (m.pc c).hand)
    (hreq : (m.pc c).Requeued → p.Requeued) (hsw : p.Switched ↔ (m.pc c).Switched) :
    (m.goto c p s').Owned q := by
  have hpc : (m.goto c p s').pc c = p := Function.update_self _ _ _
  have hhas : ∀ t, (m.goto c p s').Has c t → m.Has c t := by
    intro t ht
    unfold Smp.Has at ht
    rw [hpc] at ht
    rcases ht with he | he | ⟨he, h0⟩
    · exact .inl (he.trans (hs.current c))
    · exact .inr (.inl he)
    · rcases hhand with hz | hold
      · exact absurd (he.trans hz) h0
      · exact .inr (.inr ⟨he.trans hold, h0⟩)
  refine h.of_cpu (fun c' _ => hs.current c') (fun _ _ => rfl)
    (fun c' hne => Function.update_of_ne hne _ _) hs.idle hs.created hs.id hqueues h.queued
    (fun t ht => ⟨h.known c t (hhas t ht), fun c' hne hc' => hne (h.apart c' c t hc' (hhas t ht))⟩)
    (fun v t hq ht => ?_) (fun v t hq c' hne _ => hq) (fun hns => ?_) fun h0 => ?_
  · obtain ⟨he, hr, hstack, hcur, hne⟩ := h.leaving v c t hq (hhas t ht)
    refine ⟨he, ?_⟩
    unfold Smp.Leaving
    rw [hpc]
    refine ⟨hreq hr, hstack, fun hp => ?_, ?_⟩
    · show t ≠ s'.current c
      rw [hs.current]
      exact hcur (hsw.mp hp)
    · rcases hhand with hz | hold
      · rw [hz]
        exact h.queues.ne_null hq
      · rw [hold]
        exact hne
  · rw [hpc] at hns
    show s'.current c = m.stack c
    rw [hs.current]
    exact h.unswitched c fun hp => hns (hsw.mpr hp)
  · rw [hpc] at h0 ⊢
    rcases hhand with hz | hold
    · exact absurd hz h0
    · rw [hold] at h0 ⊢
      exact h.hand c h0

/-- **`enqueue_task`** on the own runqueue, of a task the CPU has or of
    `NULL`. -/
theorem enqueue {x : Word} (h : m.Owned q) (hx : x ≠ 0 → m.Has c x ∧ x ∈ m.sched.created)
    (hq : ∀ v, x ∉ q v) (hns : ¬ (m.pc c).Switched) :
    (m.goto c .pull (enqueueTask m.sched c x)).Owned
      (Function.update q c (pushed (m.sched.queue c).tail (q c) x)) := by
  set m' := m.goto c .pull (enqueueTask m.sched c x) with hm'
  have hpc : m'.pc c = .pull := Function.update_self _ _ _
  have hsame := enqueueTask_same m.sched c x
  have hcur : m'.sched.current c = m.stack c := (hsame.current c).trans (h.unswitched c hns)
  have hhas : ∀ t, m'.Has c t → t = m.stack c := by
    intro t ht
    unfold Smp.Has at ht
    rw [hpc, hcur] at ht
    rcases ht with he | he | ⟨he, h0⟩
    · exact he
    · exact he
    · exact absurd he h0
  -- what the queues hold now: what they held, and `x` in this CPU's
  have hold : ∀ v, ∀ t ∈ Function.update q c (pushed (m.sched.queue c).tail (q c) x) v,
      t ∈ q v ∨ v = c ∧ t = x ∧ x ≠ 0 := by
    intro v t ht
    by_cases hv : v = c
    · subst hv
      rw [Function.update_self] at ht
      exact (mem_pushed ht).imp_right fun he => ⟨rfl, he⟩
    · rw [Function.update_of_ne hv] at ht
      exact .inl ht
  refine h.of_cpu (fun c' _ => hsame.current c') (fun _ _ => rfl)
    (fun c' hne => Function.update_of_ne hne _ _) hsame.idle hsame.created hsame.id
    (h.queues.enqueue hq) (fun v t ht => ?_) (fun t ht => ?_) (fun v t ht hmine => ?_)
    (fun v t ht c' hne hother => ?_) (fun _ => hcur) fun h0 => ?_
  · rcases hold v t ht with hmem | ⟨-, rfl, h0⟩
    · exact h.queued v t hmem
    · exact (hx h0).2
  · have hstack : m.Has c t := .inr (.inl (hhas t ht))
    exact ⟨h.known c t hstack, fun c' hne hc' => hne (h.apart c' c t hc' hstack)⟩
  · have hstack := hhas t hmine
    have hin : c = v := by
      rcases hold v t ht with hmem | ⟨hv, -⟩
      · exact (h.leaving v c t hmem (.inr (.inl hstack))).1
      · exact hv.symm
    refine ⟨hin, ?_⟩
    unfold Smp.Leaving
    rw [hpc]
    exact ⟨trivial, hstack, fun hp => hp.elim, (h.known c t (.inr (.inl hstack))).1⟩
  · rcases hold v t ht with hmem | ⟨-, rfl, h0⟩
    · exact hmem
    · exact absurd (h.apart c' c t hother (hx h0).1) hne
  · rw [hpc] at h0
    exact absurd rfl h0

/-- **`dequeue_task`** on the runqueue of `v`, when the task taken is not on
    another CPU's stack. -/
theorem take {x : Word} {l : List Word} {v : Fin n} {p : SchedPc} {s' : Sched n} (h : m.Owned q)
    (hq : q v = x :: l) (hs : m.sched.SameHolders s') (hqueues : s'.Queues (Function.update q v l))
    (hsafe : ∀ c' ≠ c, m.stack c' ≠ x) (hns : ¬ (m.pc c).Switched)
    (hp : p.hand = x) (hpr : p.Requeued) (hps : ¬ p.Switched) :
    (m.goto c p s').Owned (Function.update q v l) := by
  set m' := m.goto c p s' with hm'
  have hpc : m'.pc c = p := Function.update_self _ _ _
  have hxmem : x ∈ q v := by
    rw [hq]
    exact List.mem_cons_self
  have hold : ∀ w, ∀ t ∈ Function.update q v l w, t ∈ q w ∧ t ≠ x := by
    intro w t ht
    by_cases hw : w = v
    · subst hw
      rw [Function.update_self] at ht
      have hnd := h.queues.nodup w
      rw [hq] at hnd ⊢
      exact ⟨List.mem_cons_of_mem _ ht, fun he => (List.nodup_cons.mp hnd).1 (he ▸ ht)⟩
    · rw [Function.update_of_ne hw] at ht
      exact ⟨ht, fun he => hw (h.queues.apart w v x (he ▸ ht) hxmem)⟩
  have hcur : m'.sched.current c = m.stack c := (hs.current c).trans (h.unswitched c hns)
  have hhas : ∀ t, m'.Has c t → t = m.stack c ∨ t = x := by
    intro t ht
    unfold Smp.Has at ht
    rw [hpc, hcur, hp] at ht
    rcases ht with he | he | ⟨he, -⟩
    · exact .inl he
    · exact .inl he
    · exact .inr he
  refine h.of_cpu (fun c' _ => hs.current c') (fun _ _ => rfl)
    (fun c' hne => Function.update_of_ne hne _ _) hs.idle hs.created hs.id hqueues
    (fun w t ht => h.queued w t (hold w t ht).1) (fun t ht => ?_) (fun w t ht hmine => ?_)
    (fun w t ht c' _ _ => (hold w t ht).1) (fun _ => hcur) fun _ => ?_
  · rcases hhas t ht with he | rfl
    · have hstack : m.Has c t := .inr (.inl he)
      exact ⟨h.known c t hstack, fun c' hne hc' => hne (h.apart c' c t hc' hstack)⟩
    · refine ⟨⟨h.queues.ne_null hxmem, .inl (h.queued v t hxmem)⟩, fun c' hne hc' => ?_⟩
      -- whoever has a queued task is leaving its stack
      obtain ⟨-, -, hstack, -⟩ := h.leaving v c' t hxmem hc'
      exact hsafe c' hne hstack.symm
  · obtain ⟨hmem, hne⟩ := hold w t ht
    have hstack : t = m.stack c := (hhas t hmine).resolve_right hne
    refine ⟨(h.leaving w c t hmem (.inr (.inl hstack))).1, ?_⟩
    unfold Smp.Leaving
    rw [hpc, hp]
    exact ⟨hpr, hstack, fun hsw => absurd hsw hps, hne⟩
  · rw [hpc, hp]
    exact h.queued v x hxmem

/-- **`cpu->current_task = next`**, or the idle task. -/
theorem pick {x next : Word} {g : Cpu → Cpu} (h : m.Owned q) (hpick : m.pc c = .pick next)
    (hx : x = if next = 0 then m.sched.idle c else next)
    (hg : g (m.sched.cpus c) = { g (m.sched.cpus c) with
      currentTask := x, idleTask := m.sched.idle c, runqueue := m.sched.queue c }) :
    (m.goto c .setRunning (m.sched.setCpu c g)).Owned q := by
  set m' := m.goto c .setRunning (m.sched.setCpu c g) with hm'
  have hpc : m'.pc c = .setRunning := Function.update_self _ _ _
  have hcur : m'.sched.current c = x := by
    show (m.sched.setCpu c g).current c = x
    rw [Sched.current, Sched.cpus_setCpu_self, hg]
  have hidle : ∀ c', m'.sched.idle c' = m.sched.idle c' :=
    Sched.field_setCpu Cpu.idleTask (by rw [hg]; rfl)
  have hqueue : ∀ c', m'.sched.queue c' = m.sched.queue c' :=
    Sched.field_setCpu Cpu.runqueue (by rw [hg]; rfl)
  -- the task picked was in hand, or is the idle task
  have hpicked : (x ≠ 0 ∧ (x ∈ m.sched.created ∨ x = m.sched.idle c)) ∧
      (∀ c' ≠ c, ¬ m.Has c' x) ∧ ∀ v, x ∉ q v := by
    by_cases hz : next = 0
    · rw [if_pos hz] at hx
      rw [hx]
      exact ⟨⟨(h.idle c).1, .inr rfl⟩, fun c' hne => h.idle_notHad hne, h.idle_notQueued c⟩
    · rw [if_neg hz] at hx
      have hhand : m.Has c x := by
        refine .inr (.inr ⟨?_, hx ▸ hz⟩)
        rw [hpick]
        exact hx
      refine ⟨h.known c x hhand, fun c' hne hc' => hne (h.apart c' c x hc' hhand), fun v hmem => ?_⟩
      obtain ⟨-, -, -, -, hne⟩ := h.leaving v c x hmem hhand
      rw [hpick] at hne
      exact hne hx
  have hhas : ∀ t, m'.Has c t → t = x ∨ t = m.stack c := by
    intro t ht
    unfold Smp.Has at ht
    rw [hpc, hcur] at ht
    rcases ht with he | he | ⟨he, h0⟩
    · exact .inl he
    · exact .inr he
    · exact absurd he h0
  refine h.of_cpu (fun c' hne => Sched.current_setCpu_of_ne hne) (fun _ _ => rfl)
    (fun c' hne => Function.update_of_ne hne _ _) hidle rfl (fun _ => rfl)
    (h.queues.congr (fun _ _ _ => rfl) hqueue) h.queued (fun t ht => ?_) (fun v t hmem hmine => ?_)
    (fun v t hmem _ _ _ => hmem) (fun hns => ?_) fun h0 => ?_
  · rcases hhas t ht with rfl | he
    · exact ⟨hpicked.1, hpicked.2.1⟩
    · have hstack : m.Has c t := .inr (.inl he)
      exact ⟨h.known c t hstack, fun c' hne hc' => hne (h.apart c' c t hc' hstack)⟩
  · have hne : t ≠ x := fun he => hpicked.2.2 v (he ▸ hmem)
    have hstack : t = m.stack c := (hhas t hmine).resolve_left hne
    refine ⟨(h.leaving v c t hmem (.inr (.inl hstack))).1, ?_⟩
    unfold Smp.Leaving
    rw [hpc, hcur]
    exact ⟨trivial, hstack, fun _ => hne, h.queues.ne_null hmem⟩
  · rw [hpc] at hns
    exact absurd trivial hns
  · rw [hpc] at h0
    exact absurd rfl h0

/-- **`mov rsp, rax`**: the CPU leaves the old stack. -/
theorem leave {rsp : Fin n → Word} (h : m.Owned q) (hsw : (m.pc c).Switched) :
    Smp.Owned { m.goto c .running m.sched with
      rsp := rsp, stack := Function.update m.stack c (m.sched.current c) } q := by
  set m' : Smp n := { m.goto c .running m.sched with
    rsp := rsp, stack := Function.update m.stack c (m.sched.current c) } with hm'
  have hpc : m'.pc c = .running := Function.update_self _ _ _
  have hstack : m'.stack c = m.sched.current c := Function.update_self _ _ _
  have hhas : ∀ t, m'.Has c t → t = m.sched.current c := by
    intro t ht
    unfold Smp.Has at ht
    rw [hpc, hstack] at ht
    rcases ht with he | he | ⟨he, h0⟩
    · exact he
    · exact he
    · exact absurd he h0
  refine h.of_cpu (fun _ _ => rfl) (fun c' hne => Function.update_of_ne hne _ _)
    (fun c' hne => Function.update_of_ne hne _ _) (fun _ => rfl) rfl (fun _ => rfl) h.queues h.queued
    (fun t ht => ?_) (fun v t hmem hmine => ?_) (fun v t hmem _ _ _ => hmem) (fun _ => hstack.symm)
    fun h0 => ?_
  · have hcur : m.Has c t := .inl (hhas t ht)
    exact ⟨h.known c t hcur, fun c' hne hc' => hne (h.apart c' c t hc' hcur)⟩
  · -- the incoming task is in no runqueue
    have hcur := hhas t hmine
    obtain ⟨-, -, -, hne, -⟩ := h.leaving v c t hmem (.inl hcur)
    exact absurd hcur (hne hsw)
  · rw [hpc] at h0
    exact absurd rfl h0

/-- A CPU marks its current task ready, running or dead, or notes something
    else in its record. -/
theorem note {p : SchedPc} {t : Word} {f : Task → Task} (h : m.Owned q)
    (hid : (f (m.sched.tasks t)).id = (m.sched.tasks t).id)
    (hnext : (f (m.sched.tasks t)).next = (m.sched.tasks t).next)
    (hhand : p.hand = 0 ∨ p.hand = (m.pc c).hand) (hreq : (m.pc c).Requeued → p.Requeued)
    (hsw : p.Switched ↔ (m.pc c).Switched) : (m.goto c p (m.sched.setTask t f)).Owned q :=
  h.quiet (.setTask hid) (h.queues.setTask hnext) hhand hreq hsw

/-- A CPU goes on without writing anything. -/
theorem skip {p : SchedPc} (h : m.Owned q) (hhand : p.hand = 0 ∨ p.hand = (m.pc c).hand)
    (hreq : (m.pc c).Requeued → p.Requeued) (hsw : p.Switched ↔ (m.pc c).Switched) :
    (m.goto c p m.sched).Owned q :=
  h.quiet (.refl _) h.queues hhand hreq hsw

/-- Entering `task_schedule`. -/
theorem enter (h : m.Owned q) (hpc : m.pc c = .running) (rsp : Word) :
    (m.goto c .markReady (saveOutgoing m.sched c rsp)).Owned q := by
  obtain ⟨hcreated, hcur, hidle, hqueue, -⟩ := Sched.Inv.frame_saveOutgoing m.sched c rsp
  have hid : ∀ t, ((saveOutgoing m.sched c rsp).tasks t).id = (m.sched.tasks t).id :=
    Sched.field_setTask Task.id rfl
  have hnext : ∀ t, (saveOutgoing m.sched c rsp).next t = m.sched.next t :=
    Sched.field_setTask Task.next rfl
  refine h.quiet ⟨hcur, hidle, hcreated, hid⟩ (h.queues.congr (fun _ t _ => hnext t) hqueue) (.inl rfl)
    ?_ ?_
  · rw [hpc]
    exact fun hr => hr.elim
  · rw [hpc]
    exact Iff.rfl

/-- Requeueing the outgoing task. -/
theorem publish (h : m.Owned q) (hpc : m.pc c = .publish) :
    ∃ q', (m.goto c .pull (if (m.sched.tasks (m.sched.current c)).id ≠ 0 then
      enqueueTask m.sched c (m.sched.current c) else m.sched)).Owned q' := by
  have hns : ¬ (m.pc c).Switched := by
    rw [hpc]
    exact fun hp => hp
  by_cases hid : (m.sched.tasks (m.sched.current c)).id = 0
  · rw [if_neg fun hne => hne hid]
    refine ⟨q, h.skip (.inl rfl) (fun _ => trivial) ?_⟩
    exact ⟨fun hp => hp.elim, fun hp => absurd hp hns⟩
  · rw [if_pos hid]
    have hcur : m.Has c (m.sched.current c) := .inl rfl
    have hcreated : m.sched.current c ∈ m.sched.created := by
      refine (h.known c _ hcur).2.resolve_right fun he => hid ?_
      rw [he]
      exact (h.idle c).2.2
    refine ⟨_, h.enqueue (fun _ => ⟨hcur, hcreated⟩) (fun v hmem => ?_) hns⟩
    obtain ⟨-, hr, -⟩ := h.leaving v c _ hmem hcur
    rw [hpc] at hr
    exact hr

/-- Looking at the runqueue of `v`. -/
theorem look {v : Fin n} {p : Word → SchedPc} (h : m.Owned q)
    (hsafe : (m.sched.queue v).head ≠ 0 → ∀ c' ≠ c, m.stack c' ≠ (m.sched.queue v).head)
    (hns : ¬ (m.pc c).Switched) (h0 : (p 0).hand = 0) (hp : ∀ t, t ≠ 0 → (p t).hand = t)
    (hpr : ∀ t, (p t).Requeued) (hps : ∀ t, ¬ (p t).Switched) :
    ∃ q', (m.goto c (p (dequeueTask m.sched v).1) (dequeueTask m.sched v).2).Owned q' := by
  have hsame := Sched.SameHolders.of_same (dequeueTask_same m.sched v)
  cases hq : q v with
  | nil =>
    rw [h.queues.dequeue_nil hq] at hsame ⊢
    refine ⟨q, h.quiet hsame (h.queues.congr (fun _ _ _ => rfl) fun _ => rfl) (.inl h0)
      (fun _ => hpr 0) ?_⟩
    exact ⟨fun hp => absurd hp (hps 0), fun hp => absurd hp hns⟩
  | cons x l =>
    have hx : x ≠ 0 := by
      refine h.queues.ne_null (c := v) ?_
      rw [hq]
      exact List.mem_cons_self
    have hhead : (m.sched.queue v).head = x := by
      rw [h.queues.head_eq, hq]
      rfl
    rw [hhead] at hsafe
    obtain ⟨hret, hqueues, -⟩ := h.queues.dequeue_cons hq
    rw [hret]
    exact ⟨_, h.take hq hsame hqueues (hsafe hx) hns (hp x hx) (hpr x) (hps x)⟩

/-- Requeueing a task that was pulled. -/
theorem requeue {next : Word} (h : m.Owned q) (hpc : m.pc c = .check next) :
    ∃ q', (m.goto c .pull (enqueueTask m.sched c next)).Owned q' := by
  have hns : ¬ (m.pc c).Switched := by
    rw [hpc]
    exact fun hp => hp
  have hhand : (m.pc c).hand = next := by
    rw [hpc]
    rfl
  have hhas : next ≠ 0 → m.Has c next := fun h0 => .inr (.inr ⟨hhand.symm, h0⟩)
  refine ⟨_, h.enqueue (fun h0 => ⟨hhas h0, ?_⟩) (fun v hmem => ?_) hns⟩
  · rw [← hhand] at h0 ⊢
    exact h.hand c h0
  · obtain ⟨-, -, -, -, hne⟩ := h.leaving v c next hmem (hhas (h.queues.ne_null hmem))
    exact hne hhand.symm

/-- The last statements before `task_schedule` returns. -/
theorem load {f : Task → Task} {g : Cpu → Cpu} {t : Word} (h : m.Owned q) (hsw : (m.pc c).Switched)
    (hid : (f (m.sched.tasks t)).id = (m.sched.tasks t).id)
    (hnext : (f (m.sched.tasks t)).next = (m.sched.tasks t).next)
    (hg : g (m.sched.cpus c) = { g (m.sched.cpus c) with
      currentTask := m.sched.current c, idleTask := m.sched.idle c, runqueue := m.sched.queue c }) :
    (m.goto c .leave ((m.sched.setTask t f).setCpu c g)).Owned q := by
  have hcur : ∀ c', ((m.sched.setTask t f).setCpu c g).current c' = m.sched.current c' :=
    Sched.field_setCpu Cpu.currentTask (by
      show (g (m.sched.cpus c)).currentTask = _
      rw [hg]
      rfl)
  have hidle : ∀ c', ((m.sched.setTask t f).setCpu c g).idle c' = m.sched.idle c' :=
    Sched.field_setCpu Cpu.idleTask (by
      show (g (m.sched.cpus c)).idleTask = _
      rw [hg]
      rfl)
  have hqueue : ∀ c', ((m.sched.setTask t f).setCpu c g).queue c' = m.sched.queue c' :=
    Sched.field_setCpu Cpu.runqueue (by
      show (g (m.sched.cpus c)).runqueue = _
      rw [hg]
      rfl)
  refine h.quiet ⟨hcur, hidle, rfl, Sched.field_setTask Task.id hid⟩
    ((h.queues.setTask hnext).congr (fun _ _ _ => rfl) hqueue) (.inl rfl) (fun _ => trivial) ?_
  exact ⟨fun _ => hsw, fun _ => trivial⟩

/-- **The step lemma**: a safe statement keeps the invariant. -/
theorem stmt (h : m.Owned q) (hsafe : m.Safe (.stmt c)) (rsp : Word) :
    ∃ q', (m.stmt c rsp).Owned q' := by
  unfold Smp.stmt
  cases hpc : m.pc c with
  | running =>
    dsimp only
    by_cases h0 : m.sched.current c = 0
    · rw [if_pos h0]
      exact ⟨q, h⟩
    · rw [if_neg h0]
      exact ⟨q, h.enter hpc rsp⟩
  | markReady =>
    dsimp only
    by_cases hrun : (m.sched.tasks (m.sched.current c)).state = .running
    · rw [if_pos hrun]
      refine ⟨q, h.note rfl rfl (.inl rfl) ?_ ?_⟩ <;> rw [hpc]
      · exact fun hr => hr.elim
      · exact Iff.rfl
    · rw [if_neg hrun]
      refine ⟨q, h.skip (.inl rfl) (fun _ => trivial) ?_⟩
      rw [hpc]
      exact Iff.rfl
  | publish => exact h.publish hpc
  | pull =>
    dsimp only
    -- the head of the own queue is taken; an empty queue sends the CPU to steal
    have hns : ¬ (m.pc c).Switched := by
      rw [hpc]
      exact fun hp => hp
    refine h.look (p := fun t => if t = 0 then .steal 0 else .check t) (fun hne c' hc' he => ?_) hns
      rfl ?_ ?_ ?_
    · -- a CPU leaves its tasks in its own runqueue only
      have hmem : (m.sched.queue c).head ∈ q c := by
        rw [h.queues.head_eq] at hne ⊢
        cases hq : q c with
        | nil =>
          rw [hq] at hne
          exact absurd rfl hne
        | cons x l => exact List.mem_cons_self
      exact hc' (h.leaving c c' _ hmem (.inr (.inl he.symm))).1
    · intro t ht
      rw [if_neg ht]
      rfl
    · intro t
      by_cases ht : t = 0
      · rw [if_pos ht]
        trivial
      · rw [if_neg ht]
        trivial
    · intro t hp
      by_cases ht : t = 0
      · rw [if_pos ht] at hp
        exact hp
      · rw [if_neg ht] at hp
        exact hp
  | steal i =>
    dsimp only
    have hns : ¬ (m.pc c).Switched := by
      rw [hpc]
      exact fun hp => hp
    -- the loop over the other CPUs: taking a task from one is what `hsafe` is about
    by_cases hi : i < n
    · simp only [hi, dite_true]
      by_cases hself : (⟨i, hi⟩ : Fin n) = c
      · rw [if_pos hself]
        refine ⟨q, h.skip (.inl rfl) (fun _ => trivial) ?_⟩
        rw [hpc]
        exact Iff.rfl
      · rw [if_neg hself]
        refine h.look (p := fun t => if t ≠ 0 then .stolen t else .steal (i + 1))
          (fun hne => hsafe ⟨i, hi⟩ hpc hself hne) hns rfl ?_ ?_ ?_
        · intro t ht
          rw [if_pos ht]
          rfl
        · intro t
          by_cases ht : t = 0
          · rw [if_neg fun hne => hne ht]
            trivial
          · rw [if_pos ht]
            trivial
        · intro t hp
          by_cases ht : t = 0
          · rw [if_neg fun hne => hne ht] at hp
            exact hp
          · rw [if_pos ht] at hp
            exact hp
    · simp only [hi, dite_false]
      refine ⟨q, h.skip (.inl rfl) (fun _ => trivial) ?_⟩
      rw [hpc]
      exact Iff.rfl
  | stolen task =>
    refine ⟨q, h.note rfl rfl (.inr ?_) (fun _ => trivial) ?_⟩ <;> rw [hpc]
    · rfl
    · exact Iff.rfl
  | check next =>
    dsimp only
    have hns : ¬ (m.pc c).Switched := by
      rw [hpc]
      exact fun hp => hp
    -- the task that was taken, by its state: only a ready one goes on to be run
    cases (m.sched.tasks next).state with
    | exited =>
      have hsame : m.sched.SameHolders (taskReap m.sched next) :=
        ⟨fun _ => rfl, fun _ => rfl, rfl, fun _ => rfl⟩
      refine ⟨q, h.quiet hsame ?_ (.inl rfl) (fun _ => trivial) ?_⟩
      · exact h.queues.congr (fun _ _ _ => rfl) fun _ => rfl
      · rw [hpc]
        exact Iff.rfl
    | ready =>
      refine ⟨q, h.skip (.inr ?_) (fun _ => trivial) ?_⟩ <;> rw [hpc]
      · rfl
      · exact Iff.rfl
    | running => exact h.requeue hpc
  | pick next => exact ⟨q, h.pick hpc rfl rfl⟩
  | setRunning =>
    refine ⟨q, h.note rfl rfl (.inl rfl) (fun _ => trivial) ?_⟩
    rw [hpc]
    exact Iff.rfl
  | load =>
    refine ⟨q, h.load ?_ rfl rfl rfl⟩
    rw [hpc]
    trivial
  | leave =>
    refine ⟨q, h.leave ?_⟩
    rw [hpc]
    trivial

/-- The current task is marked dead. -/
theorem exit (h : m.Owned q) (c : Fin n) :
    Smp.Owned { m with sched := exitCurrent m.sched c } q := by
  have hsame : m.goto c (m.pc c) (exitCurrent m.sched c) =
      { m with sched := exitCurrent m.sched c } := by
    unfold Smp.goto
    rw [Function.update_eq_self]
  rw [← hsame]
  exact h.note rfl rfl (.inr rfl) (fun hr => hr) Iff.rfl

end Smp.Owned

/-! ## §4. One CPU alone. -/

/-- CPUs taking turns: the statements of `l`, one after the other. -/
def Smp.stmts (m : Smp n) (l : List (Fin n × Word)) : Smp n :=
  l.foldl (fun m x => m.stmt x.1 x.2) m

theorem Smp.run_stmts (m : Smp n) (l : List (Fin n × Word)) :
    ∃ tr, Run SmpStep m tr (m.stmts l) ∧ Run.labels tr = l.map fun x => .stmt x.1 := by
  induction l generalizing m with
  | nil => exact ⟨[], .nil m, rfl⟩
  | cons x l ih =>
    obtain ⟨tr, hrun, hlabels⟩ := ih (m.stmt x.1 x.2)
    have hfirst : Run SmpStep m ([] ++ [(m, .stmt x.1, m.stmt x.1 x.2)]) (m.stmt x.1 x.2) :=
      (Run.nil m).snoc (.stmt x.1 x.2)
    refine ⟨_, hfirst.append hrun, ?_⟩
    rw [Run.labels_append, hlabels]
    rfl

theorem Smp.goto_goto (m : Smp n) (c : Fin n) (p p' : SchedPc) (s s' : Sched n) :
    (m.goto c p s).goto c p' s' = m.goto c p' s' := by
  unfold Smp.goto
  rw [Function.update_idem]

theorem Smp.sched_goto (m : Smp n) (c : Fin n) (p : SchedPc) (s : Sched n) :
    (m.goto c p s).sched = s := rfl

theorem Smp.pc_goto (m : Smp n) (c : Fin n) (p : SchedPc) (s : Sched n) :
    (m.goto c p s).pc c = p := Function.update_self _ _ _

/-- CPU `c` gets from `m` to `m'` while the other CPUs stand still. -/
def Smp.Alone (c : Fin n) (currentRsp : Word) (m m' : Smp n) : Prop :=
  ∃ k, m.stmts (List.replicate k (c, currentRsp)) = m'

namespace Smp.Alone

variable {c : Fin n} {rsp : Word} {m m' m'' : Smp n}

theorem refl (m : Smp n) : Smp.Alone c rsp m m := ⟨0, rfl⟩

theorem head (h : Smp.Alone c rsp (m.stmt c rsp) m') : Smp.Alone c rsp m m' := by
  obtain ⟨k, hk⟩ := h
  exact ⟨k + 1, hk⟩

theorem one (h : m.stmt c rsp = m') : Smp.Alone c rsp m m' := ⟨1, h⟩

theorem trans (h : Smp.Alone c rsp m m') (h' : Smp.Alone c rsp m' m'') : Smp.Alone c rsp m m'' := by
  obtain ⟨k, hk⟩ := h
  obtain ⟨k', hk'⟩ := h'
  refine ⟨k + k', ?_⟩
  unfold Smp.stmts at hk ⊢
  rw [List.replicate_add, List.foldl_append, hk]
  exact hk'

/-- **`task_steal`**, from index `i` on. -/
theorem steal (m : Smp n) (s : Sched n) (i : Nat) :
    Smp.Alone c rsp (m.goto c (.steal i) s)
      (m.goto c (if (taskStealFrom c ((List.finRange n).drop i) s).1 = 0 then .pick 0
          else .check (taskStealFrom c ((List.finRange n).drop i) s).1)
        (taskStealFrom c ((List.finRange n).drop i) s).2) := by
  by_cases hi : i < n
  · have hdrop : (List.finRange n).drop i = ⟨i, hi⟩ :: (List.finRange n).drop (i + 1) := by
      rw [List.drop_eq_getElem_cons (by simpa using hi)]
      simp
    rw [hdrop]
    by_cases hself : (⟨i, hi⟩ : Fin n) = c
    · -- the own queue is passed over
      rw [taskStealFrom_self _ _ hself]
      refine .head ?_
      have hst : (m.goto c (.steal i) s).stmt c rsp = m.goto c (.steal (i + 1)) s := by
        unfold Smp.stmt
        rw [pc_goto]
        simp only [hi, dite_true, if_pos hself]
        exact m.goto_goto c _ _ _ _
      rw [hst]
      exact steal m s (i + 1)
    · by_cases hz : (dequeueTask s ⟨i, hi⟩).1 = 0
      · -- an empty queue: on to the next CPU
        rw [taskStealFrom_empty _ hself hz]
        refine .head ?_
        have hst : (m.goto c (.steal i) s).stmt c rsp =
            m.goto c (.steal (i + 1)) (dequeueTask s ⟨i, hi⟩).2 := by
          unfold Smp.stmt
          rw [pc_goto]
          simp only [hi, dite_true, if_neg hself]
          show (m.goto c (.steal i) s).goto c (if (dequeueTask s ⟨i, hi⟩).1 ≠ 0 then _ else _)
            (dequeueTask s ⟨i, hi⟩).2 = _
          rw [if_neg fun hne => hne hz, goto_goto]
        rw [hst]
        exact steal m _ (i + 1)
      · rw [taskStealFrom_found _ hself hz, if_neg hz]
        -- the head of that queue is taken
        refine .head (.one ?_)
        have hst : (m.goto c (.steal i) s).stmt c rsp =
            m.goto c (.stolen (dequeueTask s ⟨i, hi⟩).1) (dequeueTask s ⟨i, hi⟩).2 := by
          unfold Smp.stmt
          rw [pc_goto]
          simp only [hi, dite_true, if_neg hself]
          show (m.goto c (.steal i) s).goto c (if (dequeueTask s ⟨i, hi⟩).1 ≠ 0 then
            .stolen (dequeueTask s ⟨i, hi⟩).1 else _) (dequeueTask s ⟨i, hi⟩).2 = _
          rw [if_pos hz, goto_goto]
        rw [hst]
        unfold Smp.stmt
        rw [pc_goto]
        exact m.goto_goto c _ _ _ _
  · have hdrop : (List.finRange n).drop i = [] := by
      -- no CPU is left
      apply List.drop_eq_nil_of_le
      simpa using Nat.le_of_not_lt hi
    rw [hdrop]
    refine .one ?_
    unfold Smp.stmt
    rw [pc_goto]
    simp only [hi, dite_false]
    exact m.goto_goto c _ _ _ _
termination_by n - i

/-- **The `while (1)`** of `task_schedule`. -/
theorem loop {next : Word} {s' : Sched n} (m : Smp n) (s : Sched n) (fuel : Nat)
    (h : taskScheduleLoop c fuel s = some (next, s')) :
    Smp.Alone c rsp (m.goto c .pull s) (m.goto c (.pick next) s') := by
  induction fuel generalizing s with
  | zero => cases h
  | succ fuel ih =>
    -- the pull ends at a test or without a task
    have hpull : Smp.Alone c rsp (m.goto c .pull s)
        (m.goto c (if (pullTask s c).1 = 0 then .pick 0 else .check (pullTask s c).1)
          (pullTask s c).2) := by
      have hst : (m.goto c .pull s).stmt c rsp = m.goto c
          (if (dequeueTask s c).1 = 0 then .steal 0 else .check (dequeueTask s c).1)
          (dequeueTask s c).2 := by
        unfold Smp.stmt
        rw [pc_goto]
        exact m.goto_goto c _ _ _ _
      refine .head ?_
      rw [hst]
      by_cases hz : (dequeueTask s c).1 = 0
      · rw [if_pos hz, pullTask_empty hz]
        exact steal m _ 0
      · rw [if_neg hz, pullTask_found hz, if_neg hz]
        exact .refl _
    refine hpull.trans ?_
    unfold taskScheduleLoop at h
    by_cases hz : (pullTask s c).1 = 0
    · simp only [hz, if_true, Option.some.injEq, Prod.mk.injEq] at h
      rw [if_pos hz, ← h.1, ← h.2]
      exact .refl _
    · simp only [hz, if_false] at h
      rw [if_neg hz]
      refine .head ?_
      unfold Smp.stmt
      rw [pc_goto]
      show Smp.Alone c rsp (match ((pullTask s c).2.tasks (pullTask s c).1).state with
        | .exited => _
        | .ready => _
        | .running => _) _
      cases hstate : ((pullTask s c).2.tasks (pullTask s c).1).state with
      | exited =>
        rw [hstate] at h
        simp only [goto_goto]
        exact ih _ h
      | ready =>
        rw [hstate] at h
        obtain ⟨hn, hs⟩ := Prod.mk.inj (Option.some.inj h)
        simp only [goto_goto]
        rw [hn, hs]
        exact .refl _
      | running =>
        rw [hstate] at h
        simp only [goto_goto]
        exact ih _ h

/-- Saving and requeueing the outgoing task. -/
theorem outgoing (hpc : m.pc c = .running) (h0 : m.sched.current c ≠ 0) :
    Smp.Alone c rsp m (m.goto c .pull (requeueOutgoing m.sched c rsp)) := by
  have henter : m.stmt c rsp = m.goto c .markReady (saveOutgoing m.sched c rsp) := by
    unfold Smp.stmt
    rw [hpc]
    exact if_neg h0
  have hcur : (saveOutgoing m.sched c rsp).current c = m.sched.current c :=
    (Sched.Inv.frame_saveOutgoing m.sched c rsp).2.1 c
  have htask : (saveOutgoing m.sched c rsp).tasks (m.sched.current c) =
      { m.sched.tasks (m.sched.current c) with rsp := rsp } := by
    rw [saveOutgoing, Sched.tasks_setTask_self]
    rfl
  refine .head ?_
  rw [henter]
  have hmark : (m.goto c .markReady (saveOutgoing m.sched c rsp)).stmt c rsp =
      if (m.sched.tasks (m.sched.current c)).state = .running then
        m.goto c .publish ((saveOutgoing m.sched c rsp).setTask (m.sched.current c) fun t =>
          { t with state := .ready })
      else m.goto c .pull (saveOutgoing m.sched c rsp) := by
    unfold Smp.stmt
    rw [pc_goto]
    simp only [sched_goto, goto_goto, hcur, htask]
  refine .head ?_
  rw [hmark]
  by_cases hrun : (m.sched.tasks (m.sched.current c)).state = .running
  · rw [if_pos hrun]
    refine .one ?_
    unfold Smp.stmt
    rw [pc_goto]
    show (m.goto c .publish _).goto c .pull (if (((saveOutgoing m.sched c rsp).setTask
      (m.sched.current c) fun t => { t with state := .ready }).tasks
        ((saveOutgoing m.sched c rsp).current c)).id ≠ 0 then
      enqueueTask _ c ((saveOutgoing m.sched c rsp).current c) else _) = _
    rw [hcur, Sched.tasks_setTask_self, htask, goto_goto]
    by_cases hid : (m.sched.tasks (m.sched.current c)).id = 0
    · rw [requeueOutgoing_idle hrun hid]
      exact congrArg _ (if_neg fun hne => hne hid)
    · rw [requeueOutgoing_kept hrun hid]
      exact congrArg _ (if_pos hid)
  · rw [if_neg hrun, requeueOutgoing_stopped hrun]
    exact .refl _

/-- **The last statements** make the task picked current and leave the old
    stack. -/
theorem incoming {next : Word} (m : Smp n) (s : Sched n) :
    Smp.Alone c rsp (m.goto c (.pick next) s)
      { m.goto c .running (switchTo s c next) with
        rsp := Function.update m.rsp c
          ((switchTo s c next).tasks ((switchTo s c next).current c)).rsp
        stack := Function.update m.stack c ((switchTo s c next).current c) } := by
  set x := if next = 0 then s.idle c else next with hx
  set s₁ := s.setCpu c fun cpu => { cpu with currentTask := x } with hs₁
  have hcur₁ : s₁.current c = x := by
    rw [hs₁, Sched.current, Sched.cpus_setCpu_self]
  set s₂ := s₁.setTask x fun t => { t with state := .running } with hs₂
  set s₃ := s₂.setTask x fun t =>
    { t with timeslice := if t.id = 0 then 0 else taskDefaultTimeslice } with hs₃
  set s₄ := s₃.setCpu c fun cpu =>
    { cpu with
      tssRsp0 := (s₃.tasks x).kernelRsp, kernelStack := (s₃.tasks x).kernelRsp
      cr3 := (s₃.tasks x).pml4 } with hs₄
  have hpick : (m.goto c (.pick next) s).stmt c rsp = m.goto c .setRunning s₁ := by
    unfold Smp.stmt
    rw [pc_goto]
    simp only [sched_goto, goto_goto, ← hx, ← hs₁]
  have hrun : (m.goto c .setRunning s₁).stmt c rsp = m.goto c .load s₂ := by
    unfold Smp.stmt
    rw [pc_goto]
    simp only [sched_goto, goto_goto, hcur₁, ← hs₂]
  have hload : (m.goto c .load s₂).stmt c rsp = m.goto c .leave s₄ := by
    have hcur₂ : s₂.current c = x := hcur₁
    have hcur₃ : s₃.current c = x := hcur₁
    unfold Smp.stmt
    rw [pc_goto]
    simp only [sched_goto, goto_goto, hcur₂, ← hs₃, hcur₃, ← hs₄]
  have hswitch : switchTo s c next = s₄ := by
    rw [hs₄, hs₃, hs₂, hs₁]
    unfold switchTo Sched.setCpu Sched.setTask
    simp only [Function.update_idem, Function.update_self, ← hx]
  refine .head (hpick ▸ .head (hrun ▸ .head (hload ▸ .one ?_)))
  unfold Smp.stmt
  rw [pc_goto, hswitch]
  simp only [sched_goto, goto_goto]
  rfl

end Smp.Alone

/-- **A CPU that nobody gets in the way of** computes `task_schedule`. -/
theorem Smp.alone_taskSchedule {m : Smp n} {c : Fin n} (hpc : m.pc c = .running)
    (h0 : m.sched.current c ≠ 0) {fuel : Nat} {rsp r : Word} {s' : Sched n}
    (h : taskSchedule fuel m.sched c rsp = some (r, s')) :
    Smp.Alone c rsp m
      { sched := s', pc := m.pc, rsp := Function.update m.rsp c r,
        stack := Function.update m.stack c (s'.current c) } := by
  rw [taskSchedule, if_neg h0] at h
  obtain ⟨⟨next, s₁⟩, hloop, hret⟩ := Option.map_eq_some_iff.mp h
  obtain ⟨hr, hs⟩ := Prod.mk.inj hret
  have hgo := ((Smp.Alone.outgoing hpc h0).trans (.loop m _ fuel hloop)).trans
    (.incoming m s₁)
  rw [← hr, ← hs]
  have hsame : (m.goto c .running (switchTo s₁ c next)).pc = m.pc := by
    show Function.update m.pc c .running = m.pc
    rw [← hpc, Function.update_eq_self]
  rw [← hsame]
  exact hgo

/-! ## §5. Runs. -/

/-- Every CPU runs its current task, on that task's kernel stack. -/
def Smp.ofSched (s : Sched n) (rsp : Fin n → Word) : Smp n :=
  { sched := s, pc := fun _ => .running, rsp := rsp, stack := s.current }

/-- Between calls the invariant holds. -/
theorem Smp.Owned.ofSched {s : Sched n} {q : Fin n → List Word} (h : s.Inv q Set.univ)
    (rsp : Fin n → Word) : (Smp.ofSched s rsp).Owned q := by
  have hheld : ∀ c, s.Held q (Set.univ \ {c}) c (s.current c) := fun c =>
    (h.settled c (Set.mem_univ c)).2
  have hhas : ∀ c t, (Smp.ofSched s rsp).Has c t → t = s.current c := by
    intro c t ht
    rcases ht with he | he | ⟨he, h0⟩
    · exact he
    · exact he
    · exact absurd he h0
  refine ⟨h.queues, fun v t ht => (h.queued v t ht).1, fun c t ht => ?_, fun c c' t ht ht' => ?_,
    fun v c t hq ht => ?_, fun _ _ => rfl, fun _ h0 => absurd rfl h0,
    fun c => ⟨(h.idle c).1, (h.idle c).2.1, (h.idle c).2.2.1⟩, h.idle_inj⟩
  · rw [hhas c t ht]
    exact ⟨(hheld c).ne_null, (hheld c).known⟩
  · by_contra hne
    refine (hheld c').notCurrent c ⟨Set.mem_univ c, hne⟩ ?_
    exact (hhas c t ht).symm.trans (hhas c' t ht')
  · rw [hhas c t ht] at hq
    exact absurd hq ((hheld c).notQueued v)

/-- **Exclusive execution**: in every run of the CPUs whose steps are safe, no
    task is ever current on two CPUs, and no two CPUs execute on one stack. -/
theorem Smp.exclusive_of_safe [NeZero n] {s₀ s : Sched n}
    {tr₀ : List (Transition (Sched n) (SchedCall n))} (hcalls : Run SchedStep s₀ tr₀ s)
    (h0 : s₀.Initialised) {m : Smp n} {rsp : Fin n → Word}
    {tr : List (Transition (Smp n) (CpuAct n))} (hrun : Run SmpStep (.ofSched s rsp) tr m)
    (hsafe : ∀ x ∈ tr, x.1.Safe x.2.1) : m.Exclusive := by
  have hstart : ∃ q, (Smp.ofSched s rsp).Owned q := by
    obtain ⟨q, hinv⟩ := Sched.Inv.run hcalls h0
    exact ⟨q, .ofSched hinv rsp⟩
  obtain ⟨q, hm⟩ : ∃ q, m.Owned q := by
    refine hrun.invariant (I := fun m => ∃ q, m.Owned q) (C := fun m a => m.Safe a) ?_ hsafe hstart
    intro m a m' hm hs hst
    obtain ⟨q, hq⟩ := hm
    cases hst with
    | stmt c currentRsp => exact hq.stmt hs currentRsp
    | exit c _ => exact ⟨q, hq.exit c⟩
  exact hm.exclusive

/-- `Smp.exclusive_of_safe` when CPU 0 enters `task_schedule` from its idle
    task. -/
theorem Smp.exclusive_of_safe_enter :
    ((Smp.ofSched twoCpus fun _ => 0).stmt 0 0xcf00).Exclusive := by
  have hst : SmpStep (Smp.ofSched twoCpus fun _ => 0) (.stmt 0)
      ((Smp.ofSched twoCpus fun _ => 0).stmt 0 0xcf00) := .stmt 0 0xcf00
  refine Smp.exclusive_of_safe (Run.nil twoCpus) twoCpus_initialised ((Run.nil _).snoc hst)
    fun x hx => ?_
  rw [List.mem_singleton.mp hx]
  exact fun v hsteal => nomatch hsteal

/-- CPU 0 runs a task and enters `task_schedule`, up to publishing the task;
    then CPU 1 enters, steals the task and returns into it. -/
def stealEarly : List (Fin 2 × Word) :=
  List.replicate 3 (0, 0xcf00) ++ List.replicate 11 (1, 0x2000)

/-- The state after `stealEarly`: both CPUs have the task as their current one
    and execute on its kernel stack. -/
theorem steal_before_leave : ∃ (s : Sched 2) (tr₀ : List (Transition (Sched 2) (SchedCall 2)))
    (m : Smp 2) (tr : List (Transition (Smp 2) (CpuAct 2))),
    Run SchedStep twoCpus tr₀ s ∧ Run.labels tr₀ = [.create 0x8000, .schedule 0] ∧
      Run SmpStep (.ofSched s fun _ => 0) tr m ∧
      Run.labels tr = stealEarly.map (fun x => .stmt x.1) ∧ m.sched.current 0 = 0x8000 ∧
      m.sched.current 1 = 0x8000 ∧ m.stack 0 = 0x8000 ∧ m.stack 1 = 0x8000 ∧ ¬ m.Exclusive := by
  set s := taskCreate twoCpus 0x8000 0x100000 0x9000 with hs
  have hinv : ∃ q, s.Inv q Set.univ := twoCpus_initialised.inv.1.step twoCpus_create
  obtain ⟨q, hq⟩ := hinv
  obtain ⟨r₁, s₁, q₁, hret₁, -⟩ := hq.switched 0 0 0xd000
  have hswitch : SchedStep s (.schedule 0) s₁ := .schedule 0 1 0xd000 hret₁
  obtain ⟨tr, hrun, hlabels⟩ := Smp.run_stmts (.ofSched s₁ fun _ => 0) stealEarly
  have heval : (taskSchedule 1 s 0 0xd000).map (fun x =>
      let m := (Smp.ofSched x.2 fun _ => 0).stmts stealEarly
      (m.sched.current 0, m.sched.current 1, m.stack 0, m.stack 1)) =
        some (0x8000, 0x8000, 0x8000, 0x8000) := by decide +kernel
  rw [hret₁] at heval
  obtain ⟨h0, hrest⟩ := Prod.mk.inj (Option.some.inj heval)
  obtain ⟨h1, hrest⟩ := Prod.mk.inj hrest
  obtain ⟨h2, h3⟩ := Prod.mk.inj hrest
  refine ⟨s₁, _, _, tr, ((Run.nil twoCpus).snoc twoCpus_create).snoc hswitch, rfl, hrun, hlabels, h0,
    h1, h2, h3, fun hexcl => ?_⟩
  exact (hexcl 0 1 (by decide)).1 (h0.trans h1.symm)

end ZohoOs
