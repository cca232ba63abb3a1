/-
  ZohoOs.Task.Queues — the lists the runqueues stand for.

  `Sched.Queues s q` says that the chain of CPU `c`'s runqueue is the list
  `q c`, that no task is linked twice, and that a tail pointer which is set
  points to the last task.  `enqueue_task` appends and `dequeue_task` takes
  the first task; nothing else about tasks and CPUs changes.

  A tail pointer can be lost while tasks are queued: that is what enqueueing a
  `NULL` task does.  `Sched.TailsSet` says that it has not happened.
-/
import ZohoOs.Lib.Chain
import ZohoOs.Task.Basic

namespace ZohoOs

open ZohoOs.Lib

/-! ## §1. Reading a record after a write. -/

namespace Sched

variable {n : Nat} {s : Sched n} {c c' : Fin n} {t x : Word} {f : Task → Task} {g : Cpu → Cpu}

@[simp] theorem tasks_setTask_self : (s.setTask t f).tasks t = f (s.tasks t) :=
  Function.update_self _ _ _

theorem tasks_setTask_of_ne (h : x ≠ t) : (s.setTask t f).tasks x = s.tasks x :=
  Function.update_of_ne h _ _

@[simp] theorem cpus_setTask : (s.setTask t f).cpus = s.cpus := rfl
@[simp] theorem queue_setTask : (s.setTask t f).queue c = s.queue c := rfl
@[simp] theorem current_setTask : (s.setTask t f).current c = s.current c := rfl
@[simp] theorem idle_setTask : (s.setTask t f).idle c = s.idle c := rfl
@[simp] theorem cpuIdOf_setTask : (s.setTask t f).cpuIdOf c = s.cpuIdOf c := rfl
@[simp] theorem created_setTask : (s.setTask t f).created = s.created := rfl
@[simp] theorem reaped_setTask : (s.setTask t f).reaped = s.reaped := rfl
@[simp] theorem nextId_setTask : (s.setTask t f).nextId = s.nextId := rfl
@[simp] theorem dequeues_setTask : (s.setTask t f).dequeues = s.dequeues := rfl

@[simp] theorem tasks_setCpu : (s.setCpu c g).tasks = s.tasks := rfl
@[simp] theorem next_setCpu : (s.setCpu c g).next = s.next := rfl
@[simp] theorem created_setCpu : (s.setCpu c g).created = s.created := rfl
@[simp] theorem reaped_setCpu : (s.setCpu c g).reaped = s.reaped := rfl
@[simp] theorem nextId_setCpu : (s.setCpu c g).nextId = s.nextId := rfl
@[simp] theorem dequeues_setCpu : (s.setCpu c g).dequeues = s.dequeues := rfl

@[simp] theorem cpus_setCpu_self : (s.setCpu c g).cpus c = g (s.cpus c) := Function.update_self _ _ _

theorem cpus_setCpu_of_ne (h : c' ≠ c) : (s.setCpu c g).cpus c' = s.cpus c' :=
  Function.update_of_ne h _ _

/-- A write that keeps a field of the CPU record. -/
theorem field_setCpu {β : Type} (F : Cpu → β) (hF : F (g (s.cpus c)) = F (s.cpus c)) (c' : Fin n) :
    F ((s.setCpu c g).cpus c') = F (s.cpus c') := by
  by_cases h : c' = c
  · subst h
    rw [cpus_setCpu_self, hF]
  · rw [cpus_setCpu_of_ne h]

/-- A write that keeps a field of the task record. -/
theorem field_setTask {β : Type} (F : Task → β) (hF : F (f (s.tasks t)) = F (s.tasks t)) (x : Word) :
    F ((s.setTask t f).tasks x) = F (s.tasks x) := by
  by_cases h : x = t
  · subst h
    rw [tasks_setTask_self, hF]
  · rw [tasks_setTask_of_ne h]

theorem current_setCpu_of_ne (h : c' ≠ c) : (s.setCpu c g).current c' = s.current c' := by
  rw [current, cpus_setCpu_of_ne h]
  rfl

end Sched

/-! ## §2. What a runqueue operation leaves alone. -/

/-- `s'` differs from `s` in links, runqueues and the record of `dequeue_task`
    calls only. -/
structure Sched.SameTasks {n : Nat} (s s' : Sched n) : Prop where
  tasks : ∀ x, s'.tasks x = { s.tasks x with next := s'.next x }
  cpus : ∀ c, s'.cpus c = { s.cpus c with runqueue := s'.queue c }
  nextId : s'.nextId = s.nextId
  created : s'.created = s.created
  reaped : s'.reaped = s.reaped

namespace Sched.SameTasks

variable {n : Nat} {s s' s'' : Sched n}

theorem refl (s : Sched n) : s.SameTasks s := ⟨fun _ => rfl, fun _ => rfl, rfl, rfl, rfl⟩

theorem trans (h : s.SameTasks s') (h' : s'.SameTasks s'') : s.SameTasks s'' :=
  ⟨fun x => by rw [h'.tasks x, h.tasks x], fun c => by rw [h'.cpus c, h.cpus c],
    h'.nextId.trans h.nextId, h'.created.trans h.created, h'.reaped.trans h.reaped⟩

theorem state (h : s.SameTasks s') (x : Word) : (s'.tasks x).state = (s.tasks x).state := by
  rw [h.tasks x]

theorem cpuId (h : s.SameTasks s') (x : Word) : (s'.tasks x).cpuId = (s.tasks x).cpuId := by
  rw [h.tasks x]

theorem id (h : s.SameTasks s') (x : Word) : (s'.tasks x).id = (s.tasks x).id := by
  rw [h.tasks x]

theorem current (h : s.SameTasks s') (c : Fin n) : s'.current c = s.current c := by
  unfold Sched.current
  rw [h.cpus c]

theorem idle (h : s.SameTasks s') (c : Fin n) : s'.idle c = s.idle c := by
  unfold Sched.idle
  rw [h.cpus c]

theorem cpuIdOf (h : s.SameTasks s') (c : Fin n) : s'.cpuIdOf c = s.cpuIdOf c := by
  unfold Sched.cpuIdOf
  rw [h.cpus c]

end Sched.SameTasks

section Relink

variable {n : Nat} (s : Sched n)

theorem Sched.next_setNext (t v : Word) : (s.setNext t v).next = Function.update s.next t v := by
  funext x
  by_cases hx : x = t
  · subst hx
    simp [Sched.next, Sched.setNext]
  · simp only [Sched.next, Sched.setNext, Sched.tasks_setTask_of_ne hx, Function.update_of_ne hx]

theorem Sched.queue_setQueue (c : Fin n) (rq : Runqueue) : (s.setQueue c rq).queue c = rq := by
  simp [Sched.queue, Sched.setQueue]

theorem Sched.queue_setQueue_of_ne {c c' : Fin n} (h : c' ≠ c) (rq : Runqueue) :
    (s.setQueue c rq).queue c' = s.queue c' := by
  simp only [Sched.queue, Sched.setQueue, Sched.cpus_setCpu_of_ne h]

theorem Sched.sameTasks_setNext (t v : Word) : s.SameTasks (s.setNext t v) := by
  refine ⟨fun x => ?_, fun _ => rfl, rfl, rfl, rfl⟩
  by_cases h : x = t
  · subst h
    simp [Sched.next, Sched.setNext]
  · simp only [Sched.next, Sched.setNext, Sched.tasks_setTask_of_ne h]

theorem Sched.sameTasks_setQueue (c : Fin n) (rq : Runqueue) : s.SameTasks (s.setQueue c rq) := by
  refine ⟨fun _ => rfl, fun c' => ?_, rfl, rfl, rfl⟩
  by_cases h : c' = c
  · subst h
    simp [Sched.queue, Sched.setQueue]
  · simp only [Sched.queue, Sched.setQueue, Sched.cpus_setCpu_of_ne h]

end Relink

section Operations

variable {n : Nat} (s : Sched n) (c : Fin n) (t : Word)

theorem enqueueTask_of_tail (h : (s.queue c).tail ≠ 0) :
    enqueueTask s c t = ((s.setNext t 0).setNext (s.queue c).tail t).setQueue c
      { s.queue c with tail := t, count := (s.queue c).count + 1 } :=
  if_pos h

theorem enqueueTask_of_no_tail (h : (s.queue c).tail = 0) :
    enqueueTask s c t = (s.setNext t 0).setQueue c ⟨t, t, (s.queue c).count + 1⟩ :=
  if_neg fun hne => hne h

theorem dequeueTask_of_empty (h : (s.queue c).head = 0) :
    dequeueTask s c = (0, { s with dequeues := c :: s.dequeues }) :=
  if_pos h

theorem dequeueTask_of_head (h : (s.queue c).head ≠ 0) :
    dequeueTask s c = ((s.queue c).head, Sched.setQueue { s with dequeues := c :: s.dequeues } c
      ⟨s.next (s.queue c).head, if s.next (s.queue c).head = 0 then 0 else (s.queue c).tail,
        (s.queue c).count - 1⟩) :=
  if_neg h

theorem enqueueTask_same : s.SameTasks (enqueueTask s c t) := by
  by_cases h : (s.queue c).tail = 0
  · rw [enqueueTask_of_no_tail s c t h]
    exact (s.sameTasks_setNext t 0).trans (Sched.sameTasks_setQueue _ c _)
  · rw [enqueueTask_of_tail s c t h]
    exact ((s.sameTasks_setNext t 0).trans (Sched.sameTasks_setNext _ _ t)).trans
      (Sched.sameTasks_setQueue _ c _)

theorem dequeueTask_same : s.SameTasks (dequeueTask s c).2 := by
  have hghost : s.SameTasks { s with dequeues := c :: s.dequeues } :=
    ⟨fun _ => rfl, fun _ => rfl, rfl, rfl, rfl⟩
  by_cases h : (s.queue c).head = 0
  · rw [dequeueTask_of_empty s c h]
    exact hghost
  · rw [dequeueTask_of_head s c h]
    exact hghost.trans (Sched.sameTasks_setQueue _ c _)

theorem dequeues_enqueueTask : (enqueueTask s c t).dequeues = s.dequeues := by
  by_cases h : (s.queue c).tail = 0
  · rw [enqueueTask_of_no_tail s c t h]
    rfl
  · rw [enqueueTask_of_tail s c t h]
    rfl

theorem dequeues_dequeueTask : (dequeueTask s c).2.dequeues = c :: s.dequeues := by
  by_cases h : (s.queue c).head = 0
  · rw [dequeueTask_of_empty s c h]
  · rw [dequeueTask_of_head s c h]
    rfl

end Operations

/-! ## §3. The lists. -/

/-- **The runqueues as lists**: `q c` is the chain of CPU `c`'s runqueue, no
    task is linked twice, and a tail pointer that is set is right. -/
structure Sched.Queues {n : Nat} (s : Sched n) (q : Fin n → List Word) : Prop where
  chain : ∀ c, Chain s.next 0 (s.queue c).head (q c)
  tail : ∀ c, (s.queue c).tail = 0 ∨ (q c).getLast? = some (s.queue c).tail
  nodup : ∀ c, (q c).Nodup
  apart : ∀ c c' t, t ∈ q c → t ∈ q c' → c = c'

/-- Every nonempty runqueue has its tail pointer. -/
def Sched.TailsSet {n : Nat} (s : Sched n) (q : Fin n → List Word) : Prop :=
  ∀ c, q c ≠ [] → (s.queue c).tail ≠ 0

/-- The list after `enqueue_task`: without a tail pointer the queue starts
    over, and a `NULL` task does not show in it. -/
def pushed (tail : Word) (l : List Word) (t : Word) : List Word :=
  if tail = 0 then if t = 0 then [] else [t]
  else if t = 0 then l else l ++ [t]

theorem mem_pushed {tail t x : Word} {l : List Word} (h : x ∈ pushed tail l t) :
    x ∈ l ∨ x = t ∧ t ≠ 0 := by
  unfold pushed at h
  split at h <;> split at h
  · cases h
  · rename_i ht
    exact .inr ⟨List.mem_singleton.mp h, ht⟩
  · exact .inl h
  · rename_i ht
    rcases List.mem_append.mp h with h | h
    · exact .inl h
    · exact .inr ⟨List.mem_singleton.mp h, ht⟩

/-- With its tail pointer a queue is appended to. -/
theorem pushed_eq {tail t : Word} {l : List Word} (ht : t ≠ 0) (hl : l ≠ [] → tail ≠ 0) :
    pushed tail l t = l ++ [t] := by
  unfold pushed
  by_cases htail : tail = 0
  · have hnil : l = [] := by
      by_contra hne
      exact hl hne htail
    rw [if_pos htail, if_neg ht, hnil, List.nil_append]
  · rw [if_neg htail, if_neg ht]

namespace Sched.Queues

variable {n : Nat} {s s' : Sched n} {q q' : Fin n → List Word} {c c' : Fin n} {t x : Word}

/-- A state stands for one family of lists. -/
theorem unique (h : s.Queues q) (hc : ∀ c, Chain s.next 0 (s.queue c).head (q' c)) : q' = q :=
  funext fun c => (hc c).unique (h.chain c)

theorem ne_null (h : s.Queues q) (ht : t ∈ q c) : t ≠ 0 := (h.chain c).ne_null t ht

theorem head_eq (h : s.Queues q) : (s.queue c).head = ((q c).head?).getD 0 := by
  have hc := h.chain c
  cases hq : q c with
  | nil =>
    rw [hq] at hc
    exact hc
  | cons x l =>
    rw [hq] at hc
    exact hc.1

/-- The lists depend on the links of queued tasks and on the runqueues. -/
theorem congr (h : s.Queues q) (hn : ∀ c, ∀ x ∈ q c, s'.next x = s.next x)
    (hq : ∀ c, s'.queue c = s.queue c) : s'.Queues q := by
  refine ⟨fun c => ?_, fun c => ?_, h.nodup, h.apart⟩
  · rw [hq c]
    exact (h.chain c).congr (hn c)
  · rw [hq c]
    exact h.tail c

/-! ## §4. `enqueue_task`. -/

theorem next_enqueueTask (s : Sched n) (c : Fin n) (t : Word) :
    (enqueueTask s c t).next =
      if (s.queue c).tail = 0 then Function.update s.next t 0
      else Function.update (Function.update s.next t 0) (s.queue c).tail t := by
  by_cases h : (s.queue c).tail = 0
  · rw [enqueueTask_of_no_tail s c t h, if_pos h]
    exact s.next_setNext t 0
  · rw [enqueueTask_of_tail s c t h, if_neg h]
    show ((s.setNext t 0).setNext (s.queue c).tail t).next = _
    rw [next_setNext, next_setNext]

theorem queue_enqueueTask (s : Sched n) (c : Fin n) (t : Word) :
    (enqueueTask s c t).queue c =
      ⟨if (s.queue c).tail = 0 then t else (s.queue c).head, t, (s.queue c).count + 1⟩ := by
  by_cases h : (s.queue c).tail = 0
  · rw [enqueueTask_of_no_tail s c t h, if_pos h, queue_setQueue]
  · rw [enqueueTask_of_tail s c t h, if_neg h, queue_setQueue]

theorem queue_enqueueTask_of_ne (s : Sched n) (t : Word) (hc : c' ≠ c) :
    (enqueueTask s c t).queue c' = s.queue c' := by
  by_cases h : (s.queue c).tail = 0
  · rw [enqueueTask_of_no_tail s c t h, queue_setQueue_of_ne _ hc]
    rfl
  · rw [enqueueTask_of_tail s c t h, queue_setQueue_of_ne _ hc]
    rfl

/-- **`enqueue_task` appends** a task that is queued nowhere. -/
theorem enqueue (h : s.Queues q) (ht : ∀ c, t ∉ q c) :
    (enqueueTask s c t).Queues (Function.update q c (pushed (s.queue c).tail (q c) t)) := by
  have hnull : ∀ c', (0 : Word) ∉ q c' := fun c' hz => h.ne_null hz rfl
  -- the other queues do not run through the tasks whose links change
  have hother : ∀ c' ≠ c, Chain (enqueueTask s c t).next 0 (s.queue c').head (q c') := by
    intro c' hc'
    rw [next_enqueueTask]
    have hfirst := (h.chain c').update_of_notMem (ht c') 0
    by_cases htail : (s.queue c).tail = 0
    · rw [if_pos htail]
      exact hfirst
    · have hlast := (h.tail c).resolve_left htail
      rw [if_neg htail]
      refine hfirst.update_of_notMem (fun hmem => hc' ?_) t
      exact h.apart c' c _ hmem (List.mem_of_getLast? hlast)
  have hself : Chain (enqueueTask s c t).next 0 ((enqueueTask s c t).queue c).head
      (pushed (s.queue c).tail (q c) t) ∧
      (((enqueueTask s c t).queue c).tail = 0 ∨
        (pushed (s.queue c).tail (q c) t).getLast? = some ((enqueueTask s c t).queue c).tail) ∧
      (pushed (s.queue c).tail (q c) t).Nodup := by
    rw [next_enqueueTask, queue_enqueueTask]
    unfold pushed
    by_cases htail : (s.queue c).tail = 0
    · simp only [htail, if_true]
      by_cases ht0 : t = 0
      · rw [if_pos ht0]
        exact ⟨ht0, .inl ht0, List.nodup_nil⟩
      · rw [if_neg ht0]
        exact ⟨Chain.singleton ht0, .inr rfl, List.nodup_singleton t⟩
    · have hlast := (h.tail c).resolve_left htail
      simp only [htail, if_false]
      by_cases ht0 : t = 0
      · -- the last task's link is cleared, which it was already
        subst ht0
        rw [if_pos rfl]
        refine ⟨?_, .inl rfl, h.nodup c⟩
        have hz := (h.chain c).update_of_notMem (hnull c) 0
        exact hz.clear_last (h.nodup c) hlast
      · rw [if_neg ht0]
        refine ⟨(h.chain c).snoc (h.nodup c) (ht c) ht0 hlast, .inr (by simp), ?_⟩
        exact List.nodup_append.mpr ⟨h.nodup c, List.nodup_singleton t, fun x hx y hy he => ht c
          (by rw [List.mem_singleton.mp hy] at he; exact he ▸ hx)⟩
  obtain ⟨hchain, hlast, hnd⟩ := hself
  refine ⟨fun c' => ?_, fun c' => ?_, fun c' => ?_, fun c₁ c₂ x h₁ h₂ => ?_⟩
  · by_cases hc' : c' = c
    · subst hc'
      rw [Function.update_self]
      exact hchain
    · rw [Function.update_of_ne hc', queue_enqueueTask_of_ne s t hc']
      exact hother c' hc'
  · by_cases hc' : c' = c
    · subst hc'
      rw [Function.update_self]
      exact hlast
    · rw [Function.update_of_ne hc', queue_enqueueTask_of_ne s t hc']
      exact h.tail c'
  · by_cases hc' : c' = c
    · subst hc'
      rw [Function.update_self]
      exact hnd
    · rw [Function.update_of_ne hc']
      exact h.nodup c'
  · have hold : ∀ c', x ∈ Function.update q c (pushed (s.queue c).tail (q c) t) c' →
        x ∈ q c' ∨ c' = c ∧ x = t := by
      intro c' hx
      by_cases hc' : c' = c
      · subst hc'
        rw [Function.update_self] at hx
        exact (mem_pushed hx).imp_right fun hx => ⟨rfl, hx.1⟩
      · rw [Function.update_of_ne hc'] at hx
        exact .inl hx
    rcases hold c₁ h₁ with hold₁ | ⟨rfl, rfl⟩
    · rcases hold c₂ h₂ with hold₂ | ⟨-, rfl⟩
      · exact h.apart c₁ c₂ x hold₁ hold₂
      · exact absurd hold₁ (ht c₁)
    · rcases hold c₂ h₂ with hold₂ | ⟨rfl, -⟩
      · exact absurd hold₂ (ht c₂)
      · rfl

theorem tailsSet_enqueue (htails : s.TailsSet q) (ht : t ≠ 0) :
    (enqueueTask s c t).TailsSet (Function.update q c (pushed (s.queue c).tail (q c) t)) := by
  intro c' hne
  by_cases hc' : c' = c
  · subst hc'
    rw [queue_enqueueTask]
    exact ht
  · rw [Function.update_of_ne hc'] at hne
    rw [queue_enqueueTask_of_ne s t hc']
    exact htails c' hne

/-! ## §5. `dequeue_task`. -/

/-- `dequeue_task` on an empty queue. -/
theorem dequeue_nil (h : s.Queues q) (hq : q c = []) :
    dequeueTask s c = (0, { s with dequeues := c :: s.dequeues }) := by
  apply dequeueTask_of_empty
  rw [h.head_eq, hq]
  rfl

theorem queue_dequeueTask_of_ne (s : Sched n) (hc : c' ≠ c) :
    (dequeueTask s c).2.queue c' = s.queue c' := by
  by_cases h : (s.queue c).head = 0
  · rw [dequeueTask_of_empty s c h]
    rfl
  · rw [dequeueTask_of_head s c h]
    exact queue_setQueue_of_ne _ hc _

theorem next_dequeueTask (s : Sched n) (c : Fin n) : (dequeueTask s c).2.next = s.next := by
  by_cases h : (s.queue c).head = 0
  · rw [dequeueTask_of_empty s c h]
    rfl
  · rw [dequeueTask_of_head s c h]
    rfl

/-- **`dequeue_task` takes the first task.** -/
theorem dequeue_cons (h : s.Queues q) {l : List Word} (hq : q c = t :: l) :
    (dequeueTask s c).1 = t ∧ (dequeueTask s c).2.Queues (Function.update q c l) ∧
      (s.TailsSet q → (dequeueTask s c).2.TailsSet (Function.update q c l)) := by
  have hchain := h.chain c
  rw [hq] at hchain
  obtain ⟨hhead, ht, hrest⟩ := hchain
  have hnd := h.nodup c
  rw [hq] at hnd
  have hdeq : (dequeueTask s c).1 = t ∧ (dequeueTask s c).2.queue c =
      ⟨s.next t, if s.next t = 0 then 0 else (s.queue c).tail, (s.queue c).count - 1⟩ := by
    rw [dequeueTask_of_head s c (by rw [hhead]; exact ht), hhead]
    exact ⟨rfl, queue_setQueue _ _ _⟩
  obtain ⟨hret, hqueue⟩ := hdeq
  -- the queue that is left is empty when the head had no successor
  have hlnil : l = [] ↔ s.next t = 0 := hrest.eq_nil_iff
  refine ⟨hret, ⟨fun c' => ?_, fun c' => ?_, fun c' => ?_, fun c₁ c₂ x h₁ h₂ => ?_⟩,
    fun htails c' hne => ?_⟩
  · rw [next_dequeueTask]
    by_cases hc' : c' = c
    · subst hc'
      rw [Function.update_self, hqueue]
      exact hrest
    · rw [Function.update_of_ne hc', queue_dequeueTask_of_ne s hc']
      exact h.chain c'
  · by_cases hc' : c' = c
    · subst hc'
      rw [Function.update_self, hqueue]
      by_cases hl : s.next t = 0
      · exact .inl (if_pos hl)
      · -- a queue that still has a task keeps its tail, which is the last task
        have hlast := h.tail c'
        rw [hq] at hlast
        obtain ⟨y, l', rfl⟩ := List.exists_cons_of_ne_nil fun hnil => hl (hlnil.mp hnil)
        rw [List.getLast?_cons_cons] at hlast
        simp only [if_neg hl]
        exact hlast
    · rw [Function.update_of_ne hc', queue_dequeueTask_of_ne s hc']
      exact h.tail c'
  · by_cases hc' : c' = c
    · subst hc'
      rw [Function.update_self]
      exact (List.nodup_cons.mp hnd).2
    · rw [Function.update_of_ne hc']
      exact h.nodup c'
  · have hold : ∀ c', x ∈ Function.update q c l c' → x ∈ q c' := by
      intro c' hx
      by_cases hc' : c' = c
      · subst hc'
        rw [Function.update_self] at hx
        rw [hq]
        exact List.mem_cons_of_mem _ hx
      · rw [Function.update_of_ne hc'] at hx
        exact hx
    exact h.apart c₁ c₂ x (hold c₁ h₁) (hold c₂ h₂)
  · by_cases hc' : c' = c
    · subst hc'
      rw [Function.update_self] at hne
      rw [hqueue]
      show (if s.next t = 0 then 0 else (s.queue c').tail) ≠ 0
      rw [if_neg fun hz => hne (hlnil.mpr hz)]
      exact htails c' (by rw [hq]; exact List.cons_ne_nil _ _)
    · rw [Function.update_of_ne hc'] at hne
      rw [queue_dequeueTask_of_ne s hc']
      exact htails c' hne

end Sched.Queues

end ZohoOs
