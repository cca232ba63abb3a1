/-
  ZohoOs.Task.Schedule — what `task_schedule` does.

  The outgoing task is appended to the CPU's own runqueue, then one task is
  pulled: from the own runqueue, or from the first other CPU that has one.
  Queued tasks are ready, so the first task pulled is the one to run and the
  `while (1)` ends in its first round.

  `Pulled` says what a sequence of `dequeue_task` calls did: which task it
  took, if any, and that no runqueue was looked at twice.
-/
import ZohoOs.Task.Invariant

namespace ZohoOs

open ZohoOs.Lib

variable {n : Nat}

/-! ## §1. Pulling a task. -/

/-- **A pull** by CPU `c` with the result `r`, over the runqueues `q`, leaving
    `q'`: it found nothing, or it took the first task of one runqueue. -/
structure Pulled (s : Sched n) (q : Fin n → List Word) (A : Set (Fin n)) (c : Fin n)
    (r : Word × Sched n) (q' : Fin n → List Word) : Prop where
  inv : r.2.Inv q' A
  task : r.1 = 0 ∧ q' = q ∨
    (r.2.InTransit q' A r.1 ∧ (r.2.tasks r.1).cpuId = r.2.cpuIdOf c) ∧
      ∃ v l, q v = r.1 :: l ∧ q' = Function.update q v l
  tails : s.TailsSet q → r.2.TailsSet q'
  created : r.2.created = s.created
  current : ∀ c', r.2.current c' = s.current c'
  idle : ∀ c', r.2.idle c' = s.idle c'

/-- The runqueues looked at between `s` and `s'`, newest first. -/
def Polled (s s' : Sched n) (l : List (Fin n)) : Prop := s'.dequeues = l ++ s.dequeues

/-- Appending one task to one of several lists. -/
theorem mem_update_append (q : Fin n → List Word) (c : Fin n) (t x : Word) {P : Prop} (hP : P) :
    (∃ c', t ∈ Function.update q c (q c ++ [x]) c') ↔ (∃ c', t ∈ q c') ∨ t = x ∧ P := by
  constructor
  · rintro ⟨c', ht⟩
    by_cases hc : c' = c
    · subst hc
      rw [Function.update_self] at ht
      rcases List.mem_append.mp ht with ht | ht
      · exact .inl ⟨c', ht⟩
      · exact .inr ⟨List.mem_singleton.mp ht, hP⟩
    · rw [Function.update_of_ne hc] at ht
      exact .inl ⟨c', ht⟩
  · rintro (⟨c', ht⟩ | ⟨rfl, -⟩)
    · refine ⟨c', ?_⟩
      by_cases hc : c' = c
      · subst hc
        rw [Function.update_self]
        exact List.mem_append_left _ ht
      · rw [Function.update_of_ne hc]
        exact ht
    · refine ⟨c, ?_⟩
      rw [Function.update_self]
      exact List.mem_append_right _ (List.mem_singleton_self _)

/-- Taking the first task of one of several lists. -/
theorem mem_update_tail {q : Fin n → List Word} {v : Fin n} {x : Word} {l : List Word}
    (hq : q v = x :: l) (t : Word) :
    (∃ c, t ∈ q c) ↔ (∃ c, t ∈ Function.update q v l c) ∨ t = x := by
  constructor
  · rintro ⟨c, ht⟩
    by_cases hc : c = v
    · subst hc
      rw [hq] at ht
      rcases List.mem_cons.mp ht with rfl | ht
      · exact .inr rfl
      · refine .inl ⟨c, ?_⟩
        rw [Function.update_self]
        exact ht
    · refine .inl ⟨c, ?_⟩
      rw [Function.update_of_ne hc]
      exact ht
  · rintro (⟨c, ht⟩ | rfl)
    · refine ⟨c, ?_⟩
      by_cases hc : c = v
      · subst hc
        rw [Function.update_self] at ht
        rw [hq]
        exact List.mem_cons_of_mem _ ht
      · rw [Function.update_of_ne hc] at ht
        exact ht
    · refine ⟨v, ?_⟩
      rw [hq]
      exact List.mem_cons_self

section Unfold

variable {s : Sched n} {c self v : Fin n} (l : List (Fin n))

theorem taskStealFrom_self (s : Sched n) (hv : v = self) :
    taskStealFrom self (v :: l) s = taskStealFrom self l s :=
  if_pos hv

theorem taskStealFrom_found (hv : v ≠ self) (hne : (dequeueTask s v).1 ≠ 0) :
    taskStealFrom self (v :: l) s = ((dequeueTask s v).1,
      (dequeueTask s v).2.setTask (dequeueTask s v).1 fun r =>
        { r with cpuId := (dequeueTask s v).2.cpuIdOf self }) :=
  (if_neg hv).trans (if_pos hne)

theorem taskStealFrom_empty (hv : v ≠ self) (hz : (dequeueTask s v).1 = 0) :
    taskStealFrom self (v :: l) s = taskStealFrom self l (dequeueTask s v).2 :=
  (if_neg hv).trans (if_neg fun hne => hne hz)

theorem pullTask_found (hne : (dequeueTask s c).1 ≠ 0) : pullTask s c = dequeueTask s c :=
  if_neg hne

theorem pullTask_empty (hz : (dequeueTask s c).1 = 0) :
    pullTask s c = taskSteal (dequeueTask s c).2 c :=
  if_pos hz

theorem requeueOutgoing_kept {rsp : Word} (hrun : (s.tasks (s.current c)).state = .running)
    (hid : (s.tasks (s.current c)).id ≠ 0) :
    requeueOutgoing s c rsp = enqueueTask ((saveOutgoing s c rsp).setTask (s.current c) fun t =>
      { t with state := .ready }) c (s.current c) := by
  have hrun' : ((saveOutgoing s c rsp).tasks (s.current c)).state = .running := by
    rw [saveOutgoing, Sched.tasks_setTask_self]
    exact hrun
  have hid' : (((saveOutgoing s c rsp).setTask (s.current c) fun t =>
      { t with state := .ready }).tasks (s.current c)).id ≠ 0 := by
    rw [Sched.tasks_setTask_self, saveOutgoing, Sched.tasks_setTask_self]
    exact hid
  exact (if_pos hrun').trans (if_pos hid')

theorem requeueOutgoing_idle {rsp : Word} (hrun : (s.tasks (s.current c)).state = .running)
    (hid : (s.tasks (s.current c)).id = 0) :
    requeueOutgoing s c rsp = (saveOutgoing s c rsp).setTask (s.current c) fun t =>
      { t with state := .ready } := by
  have hrun' : ((saveOutgoing s c rsp).tasks (s.current c)).state = .running := by
    rw [saveOutgoing, Sched.tasks_setTask_self]
    exact hrun
  have hid' : (((saveOutgoing s c rsp).setTask (s.current c) fun t =>
      { t with state := .ready }).tasks (s.current c)).id = 0 := by
    rw [Sched.tasks_setTask_self, saveOutgoing, Sched.tasks_setTask_self]
    exact hid
  exact (if_pos hrun').trans (if_neg fun hne => hne hid')

theorem requeueOutgoing_stopped {rsp : Word} (hrun : (s.tasks (s.current c)).state ≠ .running) :
    requeueOutgoing s c rsp = saveOutgoing s c rsp := by
  apply if_neg
  rw [saveOutgoing, Sched.tasks_setTask_self]
  exact hrun

end Unfold

namespace Sched.Inv

variable {s s' : Sched n} {q q' : Fin n → List Word} {A : Set (Fin n)} {c self : Fin n} {t : Word}

/-- Looking at an empty runqueue. -/
theorem poll (h : s.Inv q A) (c : Fin n) :
    Sched.Inv { s with dequeues := c :: s.dequeues } q A :=
  h.relink ⟨fun _ => rfl, fun _ => rfl, rfl, rfl, rfl⟩ (h.queues.congr (fun _ _ _ => rfl) fun _ => rfl)
    fun _ _ hx => .inl hx

/-- One `dequeue_task`, when it finds a task. -/
theorem pulled_dequeue (h : s.Inv q A) {l : List Word} (hq : q c = t :: l) :
    Pulled s q A c (dequeueTask s c) (Function.update q c l) := by
  have hsame := dequeueTask_same s c
  obtain ⟨hret, hinv, htransit, hcpu⟩ := h.dequeue hq
  refine ⟨hinv, .inr ⟨⟨?_, ?_⟩, c, l, ?_, rfl⟩, (h.queues.dequeue_cons hq).2.2, hsame.created,
    hsame.current, hsame.idle⟩
  · rw [hret]
    exact htransit
  · rw [hret, hsame.cpuIdOf]
    exact hcpu
  · rw [hret]
    exact hq

/-- A stolen task is given the thief's `cpu_id`. -/
theorem pulled_steal (h : s.Inv q A) {v : Fin n} {l : List Word} (hq : q v = t :: l)
    (self : Fin n) :
    Pulled s q A self ((dequeueTask s v).1,
      (dequeueTask s v).2.setTask (dequeueTask s v).1 fun r =>
        { r with cpuId := (dequeueTask s v).2.cpuIdOf self }) (Function.update q v l) := by
  have hsame := dequeueTask_same s v
  obtain ⟨hret, hinv, htransit, -⟩ := h.dequeue hq
  rw [hret]
  have hstolen : ((dequeueTask s v).2.setTask t fun r =>
      { r with cpuId := (dequeueTask s v).2.cpuIdOf self }).Inv (Function.update q v l) A :=
    hinv.setTask htransit.notQueued htransit.notCurrent rfl (.inr htransit.created)
  refine ⟨hstolen,
    .inr ⟨⟨⟨htransit.ne_null, htransit.created, ?_, htransit.notQueued, htransit.notCurrent⟩, ?_⟩,
      v, l, hq, rfl⟩, fun htails => (h.queues.dequeue_cons hq).2.2 htails, hsame.created,
    hsame.current, hsame.idle⟩
  · rw [Sched.tasks_setTask_self]
    exact htransit.ready
  · rw [Sched.tasks_setTask_self]
    rfl

/-- **`task_steal`** over the CPUs `l`: each other CPU is asked at most once,
    in order, and the first task found is taken. -/
theorem stealFrom (h : s.Inv q A) (self : Fin n) (l : List (Fin n)) :
    ∃ q', Pulled s q A self (taskStealFrom self l s) q' ∧
      ∃ p, Polled s (taskStealFrom self l s).2 p ∧
        p.reverse.Sublist (l.filter fun i => i ≠ self) := by
  induction l generalizing s with
  | nil =>
    refine ⟨q, ⟨h, .inl ⟨rfl, rfl⟩, fun ht => ht, rfl, fun _ => rfl, fun _ => rfl⟩, [], rfl, ?_⟩
    exact List.nil_sublist _
  | cons v l ih =>
    by_cases hv : v = self
    · -- the thief skips itself
      rw [taskStealFrom_self l s hv, List.filter_cons_of_neg (by simp [hv])]
      exact ih h
    · rw [List.filter_cons_of_pos (by simp [hv])]
      cases hq : q v with
      | nil =>
        obtain ⟨q', hpull, p, hp, hsub⟩ := ih (h.poll v)
        have hnil := h.queues.dequeue_nil hq
        have hret : (dequeueTask s v).1 = 0 := by rw [hnil]
        rw [taskStealFrom_empty l hv hret, hnil]
        refine ⟨q', ⟨hpull.inv, hpull.task, hpull.tails, hpull.created, hpull.current, hpull.idle⟩,
          p ++ [v], ?_, ?_⟩
        · show _ = p ++ [v] ++ s.dequeues
          rw [List.append_assoc]
          exact hp
        · rw [List.reverse_append]
          exact hsub.cons_cons v
      | cons t l' =>
        obtain ⟨hret, -, htransit, -⟩ := h.dequeue hq
        have hne : (dequeueTask s v).1 ≠ 0 := by
          rw [hret]
          exact htransit.ne_null
        rw [taskStealFrom_found l hv hne]
        refine ⟨_, h.pulled_steal hq self, [v], dequeues_dequeueTask s v, ?_⟩
        exact (List.nil_sublist _).cons_cons v

/-- **The pull of `task_schedule`**: the own runqueue first, then the others;
    no runqueue is looked at twice. -/
theorem pull (h : s.Inv q A) (c : Fin n) :
    ∃ q', Pulled s q A c (pullTask s c) q' ∧ ∃ p, Polled s (pullTask s c).2 p ∧ p.Nodup := by
  cases hq : q c with
  | nil =>
    have hnil := h.queues.dequeue_nil hq
    have hret : (dequeueTask s c).1 = 0 := by rw [hnil]
    obtain ⟨q', hpull, p, hp, hsub⟩ := (h.poll c).stealFrom c (List.finRange n)
    rw [pullTask_empty hret, hnil]
    refine ⟨q', ⟨hpull.inv, hpull.task, hpull.tails, hpull.created, hpull.current, hpull.idle⟩,
      p ++ [c], ?_, ?_⟩
    · show _ = p ++ [c] ++ s.dequeues
      rw [List.append_assoc]
      exact hp
    · have hnd : p.reverse.Nodup := ((List.nodup_finRange n).filter _).sublist hsub
      have hc : c ∉ p.reverse := by
        intro hmem
        have hfilter := (List.mem_filter.mp (hsub.subset hmem)).2
        simp at hfilter
      rw [← List.nodup_reverse, List.reverse_append]
      exact List.nodup_cons.mpr ⟨hc, hnd⟩
  | cons t l =>
    obtain ⟨hret, -, htransit, -⟩ := h.dequeue hq
    have hne : (dequeueTask s c).1 ≠ 0 := by
      rw [hret]
      exact htransit.ne_null
    rw [pullTask_found hne]
    exact ⟨_, h.pulled_dequeue hq, [c], dequeues_dequeueTask s c, List.nodup_singleton c⟩

/-- **The loop ends in its first round**, with the task pulled. -/
theorem loop (h : s.Inv q A) (c : Fin n) (fuel : Nat) :
    taskScheduleLoop c (fuel + 1) s = some (pullTask s c) := by
  obtain ⟨q', hpull, -⟩ := h.pull c
  unfold taskScheduleLoop
  rcases hpull.task with ⟨hz, -⟩ | ⟨⟨htransit, -⟩, -⟩
  · simp only [hz, if_true]
    rw [← hz]
  · simp only [htransit.ne_null, if_false, htransit.ready]

/-! ## §2. The outgoing task. -/

/-- Saving the outgoing task's stack pointer. -/
theorem save (h : s.Inv q {c}ᶜ) (hheld : s.Held q {c}ᶜ c (s.current c)) (rsp : Word) :
    (saveOutgoing s c rsp).Inv q {c}ᶜ := by
  have hcpu : (s.setCpu c fun cpu => { cpu with needResched := false }).Inv q {c}ᶜ := h.setCpu rfl
  refine hcpu.setTask hheld.notQueued (fun c' hc' => ?_) rfl (.inl rfl)
  rw [Sched.current_setCpu_of_ne hc']
  exact hheld.notCurrent c' hc'

/-- What saving and requeueing leave alone. -/
theorem frame_saveOutgoing (s : Sched n) (c : Fin n) (rsp : Word) :
    (saveOutgoing s c rsp).created = s.created ∧
      (∀ c', (saveOutgoing s c rsp).current c' = s.current c') ∧
      (∀ c', (saveOutgoing s c rsp).idle c' = s.idle c') ∧
      (∀ c', (saveOutgoing s c rsp).queue c' = s.queue c') ∧
      ∀ c', (saveOutgoing s c rsp).cpuIdOf c' = s.cpuIdOf c' := by
  set s₁ := s.setCpu c fun cpu => { cpu with needResched := false } with hs₁
  have hcur : ∀ c', s₁.current c' = s.current c' := Sched.field_setCpu Cpu.currentTask rfl
  have hidle : ∀ c', s₁.idle c' = s.idle c' := Sched.field_setCpu Cpu.idleTask rfl
  have hqueue : ∀ c', s₁.queue c' = s.queue c' := Sched.field_setCpu Cpu.runqueue rfl
  have hid : ∀ c', s₁.cpuIdOf c' = s.cpuIdOf c' :=
    fun c' => Sched.field_setCpu (fun cpu => cpu.id.setWidth 32) rfl c'
  exact ⟨rfl, hcur, hidle, hqueue, hid⟩

/-- **Requeueing the outgoing task** of CPU `c`: a running task that is not
    idle goes to the end of the runqueue, any other stays out of it. -/
theorem requeue (h : s.Inv q {c}ᶜ) (hheld : s.Held q {c}ᶜ c (s.current c)) (rsp : Word) :
    ∃ q', (requeueOutgoing s c rsp).Inv q' {c}ᶜ ∧
      ((requeueOutgoing s c rsp).created = s.created ∧
        (∀ c', (requeueOutgoing s c rsp).current c' = s.current c') ∧
        (∀ c', (requeueOutgoing s c rsp).idle c' = s.idle c') ∧
        (requeueOutgoing s c rsp).dequeues = s.dequeues) ∧
      (s.TailsSet q → (requeueOutgoing s c rsp).TailsSet q' ∧
        ∀ t, (∃ c', t ∈ q' c') ↔ (∃ c', t ∈ q c') ∨ t = s.current c ∧
          (s.tasks (s.current c)).state = .running ∧ (s.tasks (s.current c)).id ≠ 0) := by
  have hsave := h.save hheld rsp
  obtain ⟨hcreated, hcur, hidle, hqueue, hcpuId⟩ := frame_saveOutgoing s c rsp
  have hnot : ∀ c' ∈ ({c}ᶜ : Set (Fin n)), (saveOutgoing s c rsp).current c' ≠ s.current c := by
    intro c' hc'
    rw [hcur]
    exact hheld.notCurrent c' hc'
  by_cases hrun : (s.tasks (s.current c)).state = .running
  · have hready : ((saveOutgoing s c rsp).setTask (s.current c) fun t =>
        { t with state := .ready }).Inv q {c}ᶜ :=
      hsave.setTask hheld.notQueued hnot rfl (.inl rfl)
    by_cases hid : (s.tasks (s.current c)).id = 0
    · -- the idle task is not queued
      rw [requeueOutgoing_idle hrun hid]
      refine ⟨q, hready, ⟨hcreated, hcur, hidle, rfl⟩, fun htails => ⟨fun c' hne => ?_, fun t => ?_⟩⟩
      · rw [Sched.queue_setTask, hqueue]
        exact htails c' hne
      · rw [or_iff_left fun hc => hc.2.2 hid]
    · rw [requeueOutgoing_kept hrun hid]
      -- a task that was running goes to the tail of this CPU's queue
      have hsame := enqueueTask_same ((saveOutgoing s c rsp).setTask (s.current c) fun t =>
        { t with state := .ready }) c (s.current c)
      have hmem : s.current c ∈ s.created := by
        refine hheld.known.resolve_right fun he => hid ?_
        rw [he]
        exact (h.idle c).2.2.1
      have hcpu : ((saveOutgoing s c rsp).tasks (s.current c)).cpuId = s.cpuIdOf c := by
        rw [saveOutgoing, Sched.tasks_setTask_self]
        exact hheld.cpuId
      refine ⟨_, hready.enqueue hheld.notQueued fun _ => ⟨⟨?_, ?_, ?_⟩, hnot⟩, ⟨?_, fun c' => ?_,
        fun c' => ?_, ?_⟩, fun htails => ?_⟩
      · exact hmem
      · rw [Sched.tasks_setTask_self]
      · rw [Sched.tasks_setTask_self, Sched.cpuIdOf_setTask, hcpuId]
        exact hcpu
      · exact hsame.created.trans hcreated
      · exact (hsame.current c').trans (hcur c')
      · exact (hsame.idle c').trans (hidle c')
      · rw [dequeues_enqueueTask]
        rfl
      · have htails' : ((saveOutgoing s c rsp).setTask (s.current c) fun t =>
            { t with state := .ready }).TailsSet q := by
          intro c' hne
          rw [Sched.queue_setTask, hqueue]
          exact htails c' hne
        refine ⟨Sched.Queues.tailsSet_enqueue htails' hheld.ne_null, fun t => ?_⟩
        rw [Sched.queue_setTask, hqueue, pushed_eq hheld.ne_null (htails c)]
        exact mem_update_append q c t (s.current c) ⟨hrun, hid⟩
  · -- a task that has exited is not queued either
    rw [requeueOutgoing_stopped hrun]
    refine ⟨q, hsave, ⟨hcreated, hcur, hidle, rfl⟩, fun htails => ⟨fun c' hne => ?_, fun t => ?_⟩⟩
    · rw [hqueue]
      exact htails c' hne
    · rw [or_iff_left fun hc => hrun hc.2.1]

end Sched.Inv

/-! ## §3. The incoming task. -/

namespace Sched.Inv

variable {s : Sched n} {q : Fin n → List Word} {c : Fin n} {x next : Word} {g : Cpu → Cpu}

/-- Making a task that CPU `c` has to itself its current task. -/
theorem settle (h : s.Inv q {c}ᶜ) (hx : s.Held q {c}ᶜ c x) (hrun : (s.tasks x).state = .running)
    (hg : g (s.cpus c) = { g (s.cpus c) with
      id := (s.cpus c).id, currentTask := x, idleTask := s.idle c, runqueue := s.queue c }) :
    (s.setCpu c g).Inv q Set.univ := by
  have hself : (s.setCpu c g).current c = x := by
    rw [Sched.current, Sched.cpus_setCpu_self, hg]
  have hother : ∀ c' ≠ c, (s.setCpu c g).current c' = s.current c' := fun c' hc =>
    Sched.current_setCpu_of_ne hc
  have hidle : ∀ c', (s.setCpu c g).idle c' = s.idle c' :=
    Sched.field_setCpu Cpu.idleTask (by rw [hg]; rfl)
  have hqueue : ∀ c', (s.setCpu c g).queue c' = s.queue c' :=
    Sched.field_setCpu Cpu.runqueue (by rw [hg]; rfl)
  have hcpuId : ∀ c', (s.setCpu c g).cpuIdOf c' = s.cpuIdOf c' :=
    fun c' => Sched.field_setCpu (fun cpu => cpu.id.setWidth 32) (by rw [hg]) c'
  -- the CPU record is the only one written: the queues and the tasks are as before
  refine ⟨h.queues.congr (fun _ _ _ => rfl) hqueue, fun c' t ht => ?_, fun c' _ => ?_, fun c' => ?_,
    fun c₁ c₂ he => ?_, h.ids, h.nextId, h.reaped⟩
  · rw [hcpuId]
    exact h.queued c' t ht
  · by_cases hc : c' = c
    · subst hc
      rw [hself]
      refine ⟨hrun, hx.ne_null, ?_, ?_, hx.notQueued, fun c₂ hc₂ => ?_⟩
      · rw [hidle]
        exact hx.known
      · rw [hcpuId]
        exact hx.cpuId
      · rw [hother c₂ hc₂.2]
        exact hx.notCurrent c₂ hc₂.2
    · obtain ⟨hrun', hheld⟩ := h.settled c' hc
      rw [hother c' hc]
      refine ⟨hrun', hheld.ne_null, ?_, ?_, hheld.notQueued, fun c₂ hc₂ => ?_⟩
      · rw [hidle]
        exact hheld.known
      · rw [hcpuId]
        exact hheld.cpuId
      · by_cases hc₂' : c₂ = c
        · subst hc₂'
          rw [hself]
          exact fun he => hx.notCurrent c' hc he.symm
        · rw [hother c₂ hc₂']
          exact hheld.notCurrent c₂ ⟨hc₂', hc₂.2⟩
  · rw [hidle, hcpuId]
    exact h.idle c'
  · rw [hidle, hidle] at he
    exact h.idle_inj c₁ c₂ he

/-- **Making a task current**: the one pulled, or the idle task. -/
theorem switch (h : s.Inv q {c}ᶜ)
    (hnext : next ≠ 0 → s.InTransit q {c}ᶜ next ∧ (s.tasks next).cpuId = s.cpuIdOf c) :
    (switchTo s c next).Inv q Set.univ ∧ (switchTo s c next).created = s.created ∧
      (switchTo s c next).current c = (if next = 0 then s.idle c else next) ∧
      (∀ c' ≠ c, (switchTo s c next).current c' = s.current c') ∧
      (∀ c', (switchTo s c next).idle c' = s.idle c') ∧
      ∀ c', (switchTo s c next).queue c' = s.queue c' := by
  set x := if next = 0 then s.idle c else next with hxdef
  have hx : s.Held q {c}ᶜ c x := by
    by_cases hz : next = 0
    · rw [hxdef, if_pos hz]
      exact h.idle_held fun hc => hc rfl
    · obtain ⟨htransit, hcpu⟩ := hnext hz
      rw [hxdef, if_neg hz]
      exact ⟨hz, .inl htransit.created, hcpu, htransit.notQueued, htransit.notCurrent⟩
  set s₁ := s.setTask x fun t =>
    { t with
      state := .running
      timeslice := if t.id = 0 then 0 else taskDefaultTimeslice } with hs₁
  have h₁ : s₁.Inv q {c}ᶜ := h.setTask hx.notQueued hx.notCurrent rfl (.inl rfl)
  have hrun : (s₁.tasks x).state = .running := by rw [hs₁, Sched.tasks_setTask_self]
  have hx₁ : s₁.Held q {c}ᶜ c x := by
    refine ⟨hx.ne_null, hx.known, ?_, hx.notQueued, hx.notCurrent⟩
    rw [hs₁, Sched.tasks_setTask_self]
    exact hx.cpuId
  have heq : switchTo s c next = s₁.setCpu c fun cpu =>
      { cpu with
        currentTask := x
        tssRsp0 := (s₁.tasks x).kernelRsp
        kernelStack := (s₁.tasks x).kernelRsp
        cr3 := (s₁.tasks x).pml4 } := rfl
  rw [heq]
  refine ⟨h₁.settle hx₁ hrun rfl, rfl, ?_, fun c' hc => Sched.current_setCpu_of_ne hc,
    Sched.field_setCpu Cpu.idleTask rfl, Sched.field_setCpu Cpu.runqueue rfl⟩
  rw [Sched.current, Sched.cpus_setCpu_self]

end Sched.Inv

/-! ## §4. `task_schedule`. -/

namespace Sched.Inv

variable {s : Sched n} {q : Fin n → List Word} {c : Fin n}

/-- **What `task_schedule` does**, for a CPU whose current task is held by it
    alone, running or not: it returns, all CPUs are settled, and, where no tail
    pointer is lost, a task is somewhere afterwards exactly if it was somewhere
    else before or was the outgoing task, running and not idle. -/
theorem schedule (h : s.Inv q {c}ᶜ) (hheld : s.Held q {c}ᶜ c (s.current c)) (fuel : Nat)
    (rsp : Word) :
    ∃ r s' q', taskSchedule (fuel + 1) s c rsp = some (r, s') ∧ s'.Inv q' Set.univ ∧
      s'.created = s.created ∧
      (s.TailsSet q → s'.TailsSet q' ∧ ∀ t, t ≠ s.idle c →
        ((∃ c', s'.current c' = t) ∨ (∃ c', t ∈ q' c') ↔
          (∃ c' ≠ c, s.current c' = t) ∨ (∃ c', t ∈ q c') ∨ t = s.current c ∧
            (s.tasks (s.current c)).state = .running ∧ (s.tasks (s.current c)).id ≠ 0)) := by
  obtain ⟨q₁, h₁, ⟨hcreated, hcur, hidle, -⟩, hmem⟩ := h.requeue hheld rsp
  -- the outgoing task is queued, a task is pulled, and the CPU switches to it
  set s₁ := requeueOutgoing s c rsp with hs₁
  obtain ⟨q₂, hpull, -⟩ := h₁.pull c
  have hnext : (pullTask s₁ c).1 ≠ 0 → (pullTask s₁ c).2.InTransit q₂ {c}ᶜ (pullTask s₁ c).1 ∧
      ((pullTask s₁ c).2.tasks (pullTask s₁ c).1).cpuId = (pullTask s₁ c).2.cpuIdOf c := fun hne =>
    (hpull.task.resolve_left fun hz => hne hz.1).1
  obtain ⟨h₃, hcreated₃, hself, hother, hidle₃, hqueue₃⟩ := hpull.inv.switch hnext
  set s₃ := switchTo (pullTask s₁ c).2 c (pullTask s₁ c).1 with hs₃
  refine ⟨(s₃.tasks (s₃.current c)).rsp, s₃, q₂, ?_, h₃, ?_, fun htails => ⟨fun c' hne => ?_,
    fun t ht => ?_⟩⟩
  · rw [taskSchedule, if_neg hheld.ne_null, ← hs₁, h₁.loop c fuel]
    rfl
  · rw [hcreated₃, hpull.created, hcreated]
  · rw [hqueue₃]
    exact hpull.tails (hmem htails).1 c' hne
  · -- where the task pulled came from
    have hpulled : (∃ c', t ∈ q₁ c') ↔ (∃ c', t ∈ q₂ c') ∨ s₃.current c = t := by
      rcases hpull.task with ⟨hz, rfl⟩ | ⟨⟨htransit, -⟩, v, l, hq, rfl⟩
      · have hnot : s₃.current c ≠ t := by
          rw [hself, if_pos hz, hpull.idle, hidle]
          exact fun he => ht he.symm
        rw [or_iff_left hnot]
      · rw [hself, if_neg htransit.ne_null, mem_update_tail hq]
        exact or_congr_right ⟨fun he => he.symm, fun he => he.symm⟩
    have hcurrents : (∃ c', s₃.current c' = t) ↔ (∃ c' ≠ c, s.current c' = t) ∨ s₃.current c = t := by
      constructor
      · rintro ⟨c', he⟩
        by_cases hc : c' = c
        · exact .inr (hc ▸ he)
        · rw [hother c' hc, hpull.current, hcur] at he
          exact .inl ⟨c', hc, he⟩
      · rintro (⟨c', hc, he⟩ | he)
        · refine ⟨c', ?_⟩
          rw [hother c' hc, hpull.current, hcur]
          exact he
        · exact ⟨c, he⟩
    rw [hcurrents, or_assoc, or_comm (a := s₃.current c = t), ← hpulled, (hmem htails).2 t]

end Sched.Inv

end ZohoOs
