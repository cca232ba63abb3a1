/-
  ZohoOs.Task.Invariant — what the scheduler keeps.

  `Sched.Inv s q A` is the invariant of all CPUs: `q` are the runqueues, and
  `A` are the CPUs whose current task is settled.  In the middle of
  `task_schedule` the acting CPU is not in `A`: its current task may be queued
  again, or exited.

  The lemmas follow the statements of task.c: writing to a task nobody has
  queued, appending a task, taking one from the own queue or from another
  CPU's, and making a task current.
-/
import ZohoOs.Task.Queues
import Mathlib.Data.Set.Insert
import Mathlib.Data.List.Nodup

namespace ZohoOs

open ZohoOs.Lib

/-! ## §1. The invariant. -/

variable {n : Nat}

/-- CPU `c` has task `t` to itself: no runqueue holds it, and no other CPU of
    `A` runs it. -/
structure Sched.Held (s : Sched n) (q : Fin n → List Word) (A : Set (Fin n)) (c : Fin n)
    (t : Word) : Prop where
  ne_null : t ≠ 0
  known : t ∈ s.created ∨ t = s.idle c
  cpuId : (s.tasks t).cpuId = s.cpuIdOf c
  notQueued : ∀ c', t ∉ q c'
  notCurrent : ∀ c' ∈ A, s.current c' ≠ t

/-- **The scheduler invariant**, with the current tasks of the CPUs in `A`. -/
structure Sched.Inv (s : Sched n) (q : Fin n → List Word) (A : Set (Fin n)) : Prop where
  queues : s.Queues q
  queued : ∀ c, ∀ t ∈ q c,
    t ∈ s.created ∧ (s.tasks t).state = .ready ∧ (s.tasks t).cpuId = s.cpuIdOf c
  settled : ∀ c ∈ A, (s.tasks (s.current c)).state = .running ∧
    s.Held q (A \ {c}) c (s.current c)
  idle : ∀ c, s.idle c ≠ 0 ∧ s.idle c ∉ s.created ∧ (s.tasks (s.idle c)).id = 0 ∧
    (s.tasks (s.idle c)).cpuId = s.cpuIdOf c
  idle_inj : ∀ c c', s.idle c = s.idle c' → c = c'
  ids : ∀ t ∈ s.created, t ≠ 0 → ∃ k, 1 ≤ k ∧ k ≤ s.created.length ∧
    (s.tasks t).id = BitVec.ofNat 64 k
  nextId : s.nextId = BitVec.ofNat 64 (s.created.length + 1)
  reaped : s.reaped = []

/-- A ready task in transit: taken from a runqueue and not current yet. -/
structure Sched.InTransit (s : Sched n) (q : Fin n → List Word) (A : Set (Fin n)) (t : Word) :
    Prop where
  ne_null : t ≠ 0
  created : t ∈ s.created
  ready : (s.tasks t).state = .ready
  notQueued : ∀ c, t ∉ q c
  notCurrent : ∀ c ∈ A, s.current c ≠ t

namespace Sched.Inv

variable {s s' : Sched n} {q q' : Fin n → List Word} {A : Set (Fin n)} {c c' : Fin n} {t : Word}
  {f : Task → Task} {g : Cpu → Cpu}

theorem mono {B : Set (Fin n)} (h : s.Inv q A) (hB : B ⊆ A) : s.Inv q B := by
  refine ⟨h.queues, h.queued, fun c hc => ?_, h.idle, h.idle_inj, h.ids, h.nextId, h.reaped⟩
  obtain ⟨hrun, hheld⟩ := h.settled c (hB hc)
  exact ⟨hrun, hheld.ne_null, hheld.known, hheld.cpuId, hheld.notQueued,
    fun c' hc' => hheld.notCurrent c' ⟨hB hc'.1, hc'.2⟩⟩

/-- An idle task is queued nowhere. -/
theorem idle_notQueued (h : s.Inv q A) (c c' : Fin n) : s.idle c ∉ q c' := by
  intro hmem
  exact (h.idle c).2.1 (h.queued c' _ hmem).1

/-- Another CPU's idle task is current nowhere. -/
theorem idle_notCurrent (h : s.Inv q A) (hc : c' ∈ A) (hne : c' ≠ c) : s.current c' ≠ s.idle c := by
  intro he
  rcases (h.settled c' hc).2.known with hk | hk
  · rw [he] at hk
    exact (h.idle c).2.1 hk
  · rw [he] at hk
    exact hne (h.idle_inj c c' hk).symm

theorem idle_held (h : s.Inv q A) (hc : c ∉ A) : s.Held q A c (s.idle c) := by
  refine ⟨(h.idle c).1, .inr rfl, (h.idle c).2.2.2, h.idle_notQueued c, fun c' hc' => ?_⟩
  exact h.idle_notCurrent hc' fun he => hc (he ▸ hc')

/-- The current task of a settled CPU, when that CPU starts to reschedule. -/
theorem current_held (h : s.Inv q Set.univ) (c : Fin n) : s.Held q {c}ᶜ c (s.current c) := by
  obtain ⟨-, hheld⟩ := h.settled c (Set.mem_univ c)
  exact ⟨hheld.ne_null, hheld.known, hheld.cpuId, hheld.notQueued,
    fun c' hc' => hheld.notCurrent c' ⟨Set.mem_univ c', hc'⟩⟩

/-! ## §2. Writes that touch no queue. -/

/-- Writing to a task that no runqueue and no CPU of `A` holds. -/
theorem setTask (h : s.Inv q A) (hq : ∀ c, t ∉ q c) (hA : ∀ c ∈ A, s.current c ≠ t)
    (hid : (f (s.tasks t)).id = (s.tasks t).id)
    (hcpu : (f (s.tasks t)).cpuId = (s.tasks t).cpuId ∨ t ∈ s.created) :
    (s.setTask t f).Inv q A := by
  have hkeep : ∀ x, x ≠ t → (s.setTask t f).tasks x = s.tasks x := fun x hx =>
    tasks_setTask_of_ne hx
  have hids : ∀ x, ((s.setTask t f).tasks x).id = (s.tasks x).id := field_setTask Task.id hid
  refine ⟨?_, fun c x hx => ?_, fun c hc => ?_, fun c => ?_, h.idle_inj, fun x hx hx0 => ?_,
    h.nextId, h.reaped⟩
  · refine h.queues.congr (fun c x hx => ?_) fun _ => rfl
    have hne : x ≠ t := fun he => hq c (he ▸ hx)
    show ((s.setTask t f).tasks x).next = (s.tasks x).next
    rw [hkeep x hne]
  · have hne : x ≠ t := fun he => hq c (he ▸ hx)
    rw [hkeep x hne]
    exact h.queued c x hx
  · obtain ⟨hrun, hheld⟩ := h.settled c hc
    show ((s.setTask t f).tasks (s.current c)).state = .running ∧ _
    rw [hkeep _ (hA c hc)]
    refine ⟨hrun, hheld.ne_null, hheld.known, ?_, hheld.notQueued, hheld.notCurrent⟩
    show ((s.setTask t f).tasks (s.current c)).cpuId = _
    rw [hkeep _ (hA c hc)]
    exact hheld.cpuId
  · obtain ⟨h0, hcr, hid0, hcpu0⟩ := h.idle c
    refine ⟨h0, hcr, (hids _).trans hid0, ?_⟩
    show ((s.setTask t f).tasks (s.idle c)).cpuId = s.cpuIdOf c
    by_cases hit : s.idle c = t
    · rcases hcpu with hcpu | hmem
      · rw [field_setTask Task.cpuId hcpu]
        exact hcpu0
      · exact absurd (hit ▸ hmem) hcr
    · rw [hkeep _ hit]
      exact hcpu0
  · rw [hids x]
    exact h.ids x hx hx0

/-- Writing fields of a CPU that the invariant does not read. -/
theorem setCpu (h : s.Inv q A)
    (hg : g (s.cpus c) = { g (s.cpus c) with
      id := (s.cpus c).id, currentTask := s.current c, idleTask := s.idle c, runqueue := s.queue c }) :
    (s.setCpu c g).Inv q A := by
  have hcur : ∀ c', (s.setCpu c g).current c' = s.current c' :=
    field_setCpu Cpu.currentTask (by rw [hg]; rfl)
  have hidle : ∀ c', (s.setCpu c g).idle c' = s.idle c' :=
    field_setCpu Cpu.idleTask (by rw [hg]; rfl)
  have hqueue : ∀ c', (s.setCpu c g).queue c' = s.queue c' :=
    field_setCpu Cpu.runqueue (by rw [hg]; rfl)
  have hcpuId : ∀ c', (s.setCpu c g).cpuIdOf c' = s.cpuIdOf c' :=
    field_setCpu (fun cpu => cpu.id.setWidth 32) (by rw [hg])
  refine ⟨h.queues.congr (fun _ _ _ => rfl) hqueue, fun c x hx => ?_, fun c hc => ?_, fun c => ?_,
    fun c c' he => ?_, h.ids, h.nextId, h.reaped⟩
  · rw [hcpuId]
    exact h.queued c x hx
  · obtain ⟨hrun, hheld⟩ := h.settled c hc
    rw [hcur]
    refine ⟨hrun, hheld.ne_null, ?_, ?_, hheld.notQueued, fun c' hc' => ?_⟩
    · rw [hidle]
      exact hheld.known
    · rw [hcpuId]
      exact hheld.cpuId
    · rw [hcur]
      exact hheld.notCurrent c' hc'
  · rw [hidle, hcpuId]
    exact h.idle c
  · rw [hidle, hidle] at he
    exact h.idle_inj c c' he

/-! ## §3. Queue operations. -/

/-- Relinking: every task that is queued now was queued before, or is a ready
    task of its CPU that nobody runs. -/
theorem relink (h : s.Inv q A) (hsame : s.SameTasks s') (hq : s'.Queues q')
    (hmem : ∀ c, ∀ t ∈ q' c, t ∈ q c ∨
      (t ∈ s.created ∧ (s.tasks t).state = .ready ∧ (s.tasks t).cpuId = s.cpuIdOf c) ∧
        ∀ c' ∈ A, s.current c' ≠ t) : s'.Inv q' A := by
  refine ⟨hq, fun c t ht => ?_, fun c hc => ?_, fun c => ?_, fun c c' he => ?_, fun t ht ht0 => ?_, ?_,
    ?_⟩
  · rw [hsame.created, hsame.state, hsame.cpuId, hsame.cpuIdOf]
    rcases hmem c t ht with hold | ⟨hnew, -⟩
    · exact h.queued c t hold
    · exact hnew
  · obtain ⟨hrun, hheld⟩ := h.settled c hc
    rw [hsame.current, hsame.state]
    refine ⟨hrun, hheld.ne_null, ?_, ?_, fun c' hc' => ?_, fun c' hc' => ?_⟩
    · rw [hsame.created, hsame.idle]
      exact hheld.known
    · rw [hsame.cpuId, hsame.cpuIdOf]
      exact hheld.cpuId
    · rcases hmem c' _ hc' with hold | ⟨-, hfree⟩
      · exact hheld.notQueued c' hold
      · exact hfree c hc rfl
    · rw [hsame.current]
      exact hheld.notCurrent c' hc'
  · rw [hsame.idle, hsame.created, hsame.id, hsame.cpuId, hsame.cpuIdOf]
    exact h.idle c
  · rw [hsame.idle, hsame.idle] at he
    exact h.idle_inj c c' he
  · rw [hsame.created] at ht ⊢
    rw [hsame.id]
    exact h.ids t ht ht0
  · rw [hsame.nextId, hsame.created]
    exact h.nextId
  · rw [hsame.reaped]
    exact h.reaped

/-- **Appending** a ready task that nobody runs, or `NULL`. -/
theorem enqueue (h : s.Inv q A) (hq : ∀ c, t ∉ q c)
    (ht : t ≠ 0 → (t ∈ s.created ∧ (s.tasks t).state = .ready ∧
      (s.tasks t).cpuId = s.cpuIdOf c) ∧ ∀ c' ∈ A, s.current c' ≠ t) :
    (enqueueTask s c t).Inv (Function.update q c (pushed (s.queue c).tail (q c) t)) A := by
  refine h.relink (enqueueTask_same s c t) (h.queues.enqueue hq) fun c' x hx => ?_
  by_cases hc : c' = c
  · subst hc
    rw [Function.update_self] at hx
    rcases mem_pushed hx with hold | ⟨rfl, h0⟩
    · exact .inl hold
    · exact .inr (ht h0)
  · rw [Function.update_of_ne hc] at hx
    exact .inl hx

/-- **Taking** the first task of a runqueue. -/
theorem dequeue (h : s.Inv q A) {l : List Word} (hq : q c = t :: l) :
    (dequeueTask s c).1 = t ∧ (dequeueTask s c).2.Inv (Function.update q c l) A ∧
      (dequeueTask s c).2.InTransit (Function.update q c l) A t ∧
      ((dequeueTask s c).2.tasks t).cpuId = s.cpuIdOf c := by
  have hsame := dequeueTask_same s c
  have hsub : ∀ c', ∀ x ∈ Function.update q c l c', x ∈ q c' := by
    intro c' x hx
    by_cases hc : c' = c
    · subst hc
      rw [Function.update_self] at hx
      rw [hq]
      exact List.mem_cons_of_mem _ hx
    · rw [Function.update_of_ne hc] at hx
      exact hx
  have hmem : t ∈ q c := by
    rw [hq]
    exact List.mem_cons_self
  obtain ⟨hret, hqueues, -⟩ := h.queues.dequeue_cons hq
  obtain ⟨hcr, hready, hcpu⟩ := h.queued c t hmem
  refine ⟨hret, h.relink hsame hqueues fun c' x hx => .inl (hsub c' x hx),
    ⟨h.queues.ne_null hmem, ?_, ?_, fun c' hx => ?_, fun c' hc' he => ?_⟩, ?_⟩
  · rw [hsame.created]
    exact hcr
  · rw [hsame.state]
    exact hready
  · by_cases hc : c' = c
    · subst hc
      rw [Function.update_self] at hx
      have hnd := h.queues.nodup c'
      rw [hq] at hnd
      exact (List.nodup_cons.mp hnd).1 hx
    · rw [Function.update_of_ne hc] at hx
      exact hc (h.queues.apart c' c t hx hmem)
  · rw [hsame.current] at he
    exact (h.settled c' hc').2.notQueued c (he ▸ hmem)
  · rw [hsame.cpuId]
    exact hcpu

end Sched.Inv

end ZohoOs
