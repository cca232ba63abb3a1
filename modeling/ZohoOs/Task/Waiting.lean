/-
  ZohoOs.Task.Waiting — no task starves (task.c, idt.c).

  A task in a runqueue waits behind the tasks in front of it.  Each of these
  is on the CPU for at most `TASK_DEFAULT_TIMESLICE` timer interrupts, and then
  `task_schedule` takes the next one.  Tasks that are created, that yield, exit
  or are stolen in the meantime do not make it wait longer.

  Main result: `bounded_waiting` — a task with `k` others in front of it is
  current on some CPU before the timer of its CPU has ticked `4 * (k + 1)`
  times.
-/
import ZohoOs.Lib.Ranking
import ZohoOs.Task.Fifo
import ZohoOs.Interrupt.Handler

namespace ZohoOs

open ZohoOs.Lib

variable {n : Nat}

/-! ## §1. Places in the runqueues. -/

/-- Task `t` is in CPU `c`'s runqueue, with `k` tasks in front of it. -/
def Ahead (q : Fin n → List Word) (c : Fin n) (t : Word) (k : Nat) : Prop :=
  ∃ l l', q c = l ++ t :: l' ∧ l.length = k

namespace Ahead

variable {q : Fin n → List Word} {c v : Fin n} {t x : Word} {k : Nat}

theorem mem (h : Ahead q c t k) : t ∈ q c := by
  obtain ⟨l, l', hq, -⟩ := h
  rw [hq]
  simp

theorem ne_nil (h : Ahead q c t k) : q c ≠ [] := List.ne_nil_of_mem h.mem

/-- Whoever comes later waits behind. -/
theorem append (h : Ahead q c t k) (v : Fin n) (m : List Word) :
    Ahead (Function.update q v (q v ++ m)) c t k := by
  obtain ⟨l, l', hq, hk⟩ := h
  by_cases hv : c = v
  · rw [← hv]
    refine ⟨l, l' ++ m, ?_, hk⟩
    rw [Function.update_self, hq, List.append_assoc]
    rfl
  · refine ⟨l, l', ?_, hk⟩
    rw [Function.update_of_ne hv]
    exact hq

/-- Taking the first task of a runqueue: it is `t`, or `t` has come forward if
    it waits in that runqueue. -/
theorem take (h : Ahead q c t k) {m : List Word} (hq : q v = x :: m) :
    x = t ∨ ∃ k', Ahead (Function.update q v m) c t k' ∧ k' ≤ k ∧ (v = c → k' < k) := by
  obtain ⟨l, l', hl, hk⟩ := h
  by_cases hv : c = v
  · subst hv
    rw [hq] at hl
    cases l with
    | nil =>
      left
      exact (List.cons.inj hl).1
    | cons y l =>
      right
      rw [List.length_cons] at hk
      refine ⟨l.length, ⟨l, l', ?_, rfl⟩, by omega, fun _ => by omega⟩
      rw [Function.update_self]
      exact (List.cons.inj hl).2
  · right
    refine ⟨k, ⟨l, l', ?_, hk⟩, le_rfl, fun he => absurd he.symm hv⟩
    rw [Function.update_of_ne hv]
    exact hl

end Ahead

namespace Sched.Listed

variable {s s' : Sched n} {q : Fin n → List Word} {c : Fin n} {t : Word}

/-- The lists depend on the links and the runqueues. -/
theorem congr (h : s.Listed q) (hnext : ∀ x, s'.next x = s.next x)
    (hqueue : ∀ c, s'.queue c = s.queue c) : s'.Listed q := by
  refine ⟨h.queues.congr (fun _ x _ => hnext x) hqueue, fun c hne => ?_, fun c => ?_⟩
  · rw [hqueue]
    exact h.tails c hne
  · rw [hqueue]
    exact h.count c

theorem setTask (h : s.Listed q) {f : Task → Task} (hf : (f (s.tasks t)).next = (s.tasks t).next) :
    (s.setTask t f).Listed q :=
  h.congr (Sched.field_setTask Task.next hf) fun _ => rfl

theorem setCpu (h : s.Listed q) {g : Cpu → Cpu} (hg : (g (s.cpus c)).runqueue = (s.cpus c).runqueue) :
    (s.setCpu c g).Listed q :=
  h.congr (fun _ => rfl) (Sched.field_setCpu Cpu.runqueue hg)

theorem record (h : s.Listed q) (t : Word) :
    Sched.Listed { s with nextId := s.nextId + 1, created := t :: s.created } q :=
  h.congr (fun _ => rfl) fun _ => rfl

/-- **The outgoing task** is appended to the CPU's own runqueue, or to none. -/
theorem requeue (h : s.Listed q) (h0 : s.current c ≠ 0) (hout : ∀ c', s.current c ∉ q c')
    (rsp : Word) :
    ∃ m, (requeueOutgoing s c rsp).Listed (Function.update q c (q c ++ m)) := by
  have hsame : Function.update q c (q c ++ []) = q := by
    rw [List.append_nil, Function.update_eq_self]
  have hsave : (saveOutgoing s c rsp).Listed q := (h.setCpu (c := c) rfl).setTask rfl
  by_cases hrun : (s.tasks (s.current c)).state = .running
  · have hready : ((saveOutgoing s c rsp).setTask (s.current c) fun t =>
        { t with state := .ready }).Listed q := hsave.setTask rfl
    by_cases hid : (s.tasks (s.current c)).id = 0
    · refine ⟨[], ?_⟩
      rw [requeueOutgoing_idle hrun hid, hsame]
      exact hready
    · refine ⟨[s.current c], ?_⟩
      rw [requeueOutgoing_kept hrun hid]
      exact hready.enqueue h0 hout c
  · refine ⟨[], ?_⟩
    rw [requeueOutgoing_stopped hrun, hsame]
    exact hsave

/-- **The next task** is the first of the CPU's own runqueue, if there is one,
    and otherwise the first of another. -/
theorem pull (h : s.Listed q) (c : Fin n) :
    ∃ q', (pullTask s c).2.Listed q' ∧ (q' = q ∧ q c = [] ∨
      ∃ v m, q v = (pullTask s c).1 :: m ∧ q' = Function.update q v m ∧ (q c ≠ [] → v = c)) := by
  cases hq : q c with
  | nil =>
    obtain ⟨hret, hpolled⟩ := h.poll hq
    rw [pullTask_empty hret]
    rcases hpolled.stealFrom c (List.finRange n) with ⟨-, hl, -⟩ | ⟨-, v, -, t, m, -, -, hv, -, ht, hl⟩
    · exact ⟨q, hl, .inl ⟨rfl, rfl⟩⟩
    · refine ⟨_, hl, .inr ⟨v, m, ?_, rfl, fun hne => absurd rfl hne⟩⟩
      rw [hv]
      exact congrArg (· :: m) ht.symm
  | cons t m =>
    obtain ⟨hret, hl⟩ := h.dequeue hq
    have hne : (dequeueTask s c).1 ≠ 0 := by
      rw [hret]
      exact h.queues.ne_null (c := c) (by rw [hq]; exact List.mem_cons_self)
    rw [pullTask_found hne]
    refine ⟨_, hl, .inr ⟨c, m, ?_, rfl, fun _ => rfl⟩⟩
    rw [hret, hq]

theorem switchTo (h : s.Listed q) (c : Fin n) (next : Word) : (switchTo s c next).Listed q := by
  unfold ZohoOs.switchTo
  exact (h.setTask rfl).setCpu rfl

end Sched.Listed

/-! ## §2. Rescheduling. -/

/-- What says how long a task may go on: id 0 is asked to go whenever another
    task waits. -/
def Task.share (t : Task) : Word × BitVec 32 := (t.id, t.timeslice)

theorem Task.share_moves :
    MovesWithin (Sched.Keeps Task.share : Sched n → Sched n → Prop) where
  refl _ _ := rfl
  trans := Sched.Keeps.trans
  same h x := by rw [h.tasks x]; rfl
  stolen _ _ _ := Sched.Keeps.setTask rfl
  reap _ _ _ := rfl

/-- How many ticks the current task of CPU `c` has left, at most. -/
def Sched.turn (s : Sched n) (c : Fin n) : Nat :=
  if (s.tasks (s.current c)).id = 0 then 1 else max 1 (s.tasks (s.current c)).timeslice.toNat

theorem Sched.turn_pos (s : Sched n) (c : Fin n) : 1 ≤ s.turn c := by
  unfold Sched.turn
  split
  · exact le_rfl
  · exact le_max_left _ _

theorem Sched.turn_congr {s s' : Sched n} {c : Fin n} (hcur : s'.current c = s.current c)
    (hshare : (s'.tasks (s.current c)).share = (s.tasks (s.current c)).share) :
    s'.turn c = s.turn c := by
  obtain ⟨hid, hslice⟩ := Prod.mk.inj hshare
  unfold Sched.turn
  rw [hcur, hid, hslice]

/-- CPU `c` is about to call `task_schedule`: `s₁` is `s` but for its current
    task, which may have exited. -/
structure Sched.Leaves (s : Sched n) (q : Fin n → List Word) (c : Fin n) (s₁ : Sched n) : Prop where
  inv : s₁.Inv q {c}ᶜ
  held : s₁.Held q {c}ᶜ c (s₁.current c)
  listed : s₁.Listed q
  created : s₁.created = s.created
  current : ∀ c', s₁.current c' = s.current c'
  share : ∀ x ≠ s.current c, (s₁.tasks x).share = (s.tasks x).share

/-- CPU `c` has called `task_schedule`: every task that waits has kept its
    place or come forward, and those that wait for `c` have come forward. -/
structure Rescheduled (s : Sched n) (q : Fin n → List Word) (c : Fin n) (s' : Sched n)
    (q' : Fin n → List Word) : Prop where
  inv : s'.Inv q' Set.univ
  listed : s'.Listed q'
  created : s'.created = s.created
  current : ∀ c' ≠ c, s'.current c' = s.current c'
  share : ∀ x, x ≠ s.current c → x ≠ s'.current c → (s'.tasks x).share = (s.tasks x).share
  turn : s'.turn c ≤ 4
  ahead : ∀ c' t k, Ahead q c' t k → s'.current c = t ∨
    ∃ k', Ahead q' c' t k' ∧ k' ≤ k ∧ (c' = c → k' < k)

theorem current_switchTo (s : Sched n) (c : Fin n) (next : Word) :
    (switchTo s c next).current c = if next = 0 then s.idle c else next := by
  unfold switchTo Sched.current
  rw [Sched.cpus_setCpu_self]

theorem tasks_switchTo_of_ne {s : Sched n} {c : Fin n} {next x : Word}
    (hx : x ≠ (switchTo s c next).current c) : (switchTo s c next).tasks x = s.tasks x := by
  rw [current_switchTo] at hx
  unfold switchTo
  dsimp only
  rw [Sched.tasks_setCpu, Sched.tasks_setTask_of_ne hx]

/-- A new turn. -/
theorem turn_switchTo (s : Sched n) (c : Fin n) (next : Word) : (switchTo s c next).turn c ≤ 4 := by
  unfold Sched.turn
  rw [current_switchTo]
  unfold switchTo
  generalize (if next = 0 then s.idle c else next) = x
  rw [Sched.tasks_setCpu, Sched.tasks_setTask_self]
  dsimp only
  by_cases hid : (s.tasks x).id = 0
  · rw [if_pos hid]
    decide
  · rw [if_neg hid, if_neg hid]
    decide

/-- What `pull` does to the places: `next` was first in one of the runqueues,
    in that of CPU `c` if anyone waits there. -/
theorem Ahead.pull {q q' : Fin n → List Word} {c c' : Fin n} {next t : Word} {k : Nat}
    (hA : Ahead q c' t k)
    (hpull : q' = q ∧ q c = [] ∨
      ∃ v m, q v = next :: m ∧ q' = Function.update q v m ∧ (q c ≠ [] → v = c)) :
    next = t ∨ ∃ k', Ahead q' c' t k' ∧ k' ≤ k ∧ (c' = c → k' < k) := by
  rcases hpull with ⟨rfl, hnil⟩ | ⟨v, m, hv, rfl, hown⟩
  · refine .inr ⟨k, hA, le_rfl, fun hc => ?_⟩
    rw [hc] at hA
    exact absurd hnil hA.ne_nil
  · rcases hA.take hv with ht | ⟨k', hA', hle, hlt⟩
    · exact .inl ht
    · refine .inr ⟨k', hA', hle, fun hc => hlt ?_⟩
      rw [hc] at hA ⊢
      exact hown hA.ne_nil

/-- **`task_schedule`**, for a CPU that leaves its current task. -/
theorem Sched.Leaves.schedule {s s₁ s' : Sched n} {q : Fin n → List Word} {c : Fin n} {fuel : Nat}
    {rsp r : Word} (h : s.Leaves q c s₁) (hret : taskSchedule fuel s₁ c rsp = some (r, s')) :
    ∃ q', Rescheduled s q c s' q' := by
  have h0 := h.held.ne_null
  obtain ⟨k, rfl⟩ := taskSchedule_fuel h0 hret
  obtain ⟨q₁, hinv₁, ⟨hcreated₁, hcur₁, hidle₁, -⟩, -⟩ := h.inv.requeue h.held rsp
  obtain ⟨m, hlisted₁⟩ := h.listed.requeue h0 h.held.notQueued rsp
  obtain rfl := hlisted₁.queues.unique hinv₁.queues.chain
  obtain ⟨q₂, hpull, -⟩ := hinv₁.pull c
  have hnext : (pullTask (requeueOutgoing s₁ c rsp) c).1 ≠ 0 →
      (pullTask (requeueOutgoing s₁ c rsp) c).2.InTransit q₂ {c}ᶜ
        (pullTask (requeueOutgoing s₁ c rsp) c).1 ∧
      ((pullTask (requeueOutgoing s₁ c rsp) c).2.tasks
        (pullTask (requeueOutgoing s₁ c rsp) c).1).cpuId =
          (pullTask (requeueOutgoing s₁ c rsp) c).2.cpuIdOf c := fun hne =>
    (hpull.task.resolve_left fun hz => hne hz.1).1
  obtain ⟨hinv₃, hcreated₃, hself, hother, hidle₃, hqueue₃⟩ := hpull.inv.switch hnext
  have hloop := hinv₁.loop c k
  obtain ⟨q₂', hlisted₂, hplaces⟩ := hlisted₁.pull c
  obtain rfl := hlisted₂.queues.unique hpull.inv.queues.chain
  have hrequeue := Task.share_moves.requeue (fun _ _ => Sched.Keeps.setTask rfl) s₁ c rsp
  have hmoved := hrequeue.trans (Task.share_moves.pull (requeueOutgoing s₁ c rsp) c)
  generalize pullTask (requeueOutgoing s₁ c rsp) c = p at *
  obtain ⟨next, s₂⟩ := p
  have hs' : s' = switchTo s₂ c next := by
    rw [taskSchedule, if_neg h0, hloop] at hret
    exact (congrArg Prod.snd (Option.some.inj hret)).symm
  subst hs'
  dsimp only at *
  have hshare : ∀ x, x ≠ s.current c → x ≠ (switchTo s₂ c next).current c →
      ((switchTo s₂ c next).tasks x).share = (s.tasks x).share := by
    intro x hx hx'
    rw [tasks_switchTo_of_ne hx', hmoved x, tasks_saveOutgoing, h.current, if_neg hx]
    exact h.share x hx
  have hcurrent : ∀ c' ≠ c, (switchTo s₂ c next).current c' = s.current c' := by
    intro c' hc
    rw [hother c' hc, hpull.current, hcur₁]
    exact h.current c'
  have hcreated : (switchTo s₂ c next).created = s.created := by
    rw [hcreated₃, hpull.created, hcreated₁]
    exact h.created
  refine ⟨_, hinv₃, hlisted₂.switchTo c next, hcreated, hcurrent, hshare,
    turn_switchTo s₂ c next, ?_⟩
  intro c' t k hA
  have hA₁ := hA.append c m
  have hne : t ≠ 0 := hinv₁.queues.ne_null hA₁.mem
  refine (hA₁.pull hplaces).imp_left fun ht => ?_
  subst ht
  rw [hself, if_neg hne]

/-! ## §3. Ticks. -/

/-- The scheduler in service: the invariant, the runqueues as lists, and task
    records in the heap. -/
structure Sched.Serving (s : Sched n) (q : Fin n → List Word) : Prop where
  inv : s.Inv q Set.univ
  listed : s.Listed q
  turn : ∀ c, s.turn c ≤ 4
  heap : ∀ t ∈ s.created, heapStart.toNat ≤ t.toNat ∧ t.toNat < heapStart.toNat + heapSize

theorem Sched.Inv.current_ne {s : Sched n} {q : Fin n → List Word} {c c' : Fin n}
    (h : s.Inv q Set.univ) (hc : c' ≠ c) : s.current c' ≠ s.current c :=
  (h.settled c (Set.mem_univ c)).2.notCurrent c' ⟨Set.mem_univ c', hc⟩

theorem Sched.Serving.count_ne_zero {s : Sched n} {q : Fin n → List Word} {c : Fin n}
    (h : s.Serving q) (hne : q c ≠ []) : (s.queue c).count ≠ 0 := by
  have hlen : (q c).length ≤ heapSize :=
    length_le_heapSize (h.listed.queues.nodup c) fun t ht => h.heap t (h.inv.queued c t ht).1
  have hpos : 0 < (q c).length := List.length_pos_iff.mpr hne
  rw [h.listed.count]
  intro hz
  have hmod : (q c).length % 2 ^ 32 = 0 := by simpa using congrArg BitVec.toNat hz
  unfold heapSize at hlen
  omega

section Ticks

variable {s s' : Sched n} {q q' : Fin n → List Word} {c : Fin n}

/-- A tick writes to the current task only. -/
theorem tasks_taskTimerTick_of_ne {x : Word} (hx : x ≠ s.current c) :
    (taskTimerTick s c).tasks x = s.tasks x := by
  unfold taskTimerTick
  dsimp only
  split_ifs <;> simp [Sched.tasks_setTask_of_ne hx]

/-- **A tick** asks for a reschedule, or takes from the slice of the current
    task and leaves something of it, or finds the CPU idle and nobody
    waiting. -/
theorem taskTimerTick_slice (h0 : s.current c ≠ 0) (hrun : (s.tasks (s.current c)).state = .running)
    (hgo : ((taskTimerTick s c).cpus c).needResched = false) :
    ((taskTimerTick s c).tasks (s.current c)).id = (s.tasks (s.current c)).id ∧
      if (s.tasks (s.current c)).id = 0 then (s.queue c).count = 0
      else 0 < ((taskTimerTick s c).tasks (s.current c)).timeslice.toNat ∧
        ((taskTimerTick s c).tasks (s.current c)).timeslice.toNat + 1 =
          (s.tasks (s.current c)).timeslice.toNat := by
  by_cases hid : (s.tasks (s.current c)).id = 0
  · rw [if_pos hid]
    simp only [taskTimerTick, if_neg h0, Sched.tasks_setTask_self, Sched.tasks_setCpu, hrun, hid, ne_eq,
      not_true_eq_false, if_true, if_false] at hgo ⊢
    split at hgo
    · rw [Sched.cpus_setCpu_self] at hgo
      cases hgo
    · rename_i hnone
      rw [if_neg hnone]
      refine ⟨?_, ?_⟩
      · rw [Sched.tasks_setCpu, Sched.tasks_setTask_self]
        exact hid
      · simpa [Sched.queue] using hnone
  · rw [if_neg hid]
    by_cases hpos : (s.tasks (s.current c)).timeslice > 0
    · simp only [taskTimerTick, if_neg h0, Sched.tasks_setTask_self, Sched.tasks_setCpu, hrun, hid, ne_eq,
        not_true_eq_false, if_false, if_pos hpos] at hgo ⊢
      split at hgo
      · rw [Sched.cpus_setCpu_self] at hgo
        cases hgo
      · rename_i hleft
        rw [if_neg hleft, Sched.tasks_setTask_self, Sched.tasks_setTask_self]
        set slice := (s.tasks (s.current c)).timeslice
        show _ ∧ 0 < (if slice > 0 then slice - 1 else slice).toNat ∧
          (if slice > 0 then slice - 1 else slice).toNat + 1 = slice.toNat
        rw [if_pos hpos]
        refine ⟨rfl, ?_⟩
        constructor
        · bv_omega
        · bv_omega
    · -- a slice that is used up stays so, and the tick asks for a reschedule
      have hzero : (s.tasks (s.current c)).timeslice = 0 := by simpa using hpos
      simp only [taskTimerTick, if_neg h0, Sched.tasks_setTask_self, Sched.tasks_setCpu, hrun, hid, ne_eq,
        not_true_eq_false, if_false, if_neg hpos, if_pos hzero, Sched.cpus_setCpu_self] at hgo
      cases hgo

/-- The tick of another CPU takes nothing from a turn. -/
theorem turn_taskTimerTick_of_ne (h : s.Inv q Set.univ) {c' : Fin n} (hc : c' ≠ c) :
    (taskTimerTick s c).turn c' = s.turn c' := by
  refine Sched.turn_congr ((taskTimerTick_alike s c).current c') ?_
  rw [tasks_taskTimerTick_of_ne (h.current_ne hc)]

/-- CPU `c` is interrupted by its timer, and goes on with its current task. -/
structure Ticked (s : Sched n) (q : Fin n → List Word) (c : Fin n) (s' : Sched n) : Prop where
  serving : s'.Serving q
  current : ∀ c', s'.current c' = s.current c'
  turn_other : ∀ c' ≠ c, s'.turn c' = s.turn c'
  turn : q c ≠ [] → s'.turn c + 1 ≤ s.turn c

/-- **A tick without a reschedule** shortens the turn of the current task, if
    another waits for the CPU. -/
theorem Sched.Serving.tick (h : s.Serving q)
    (hgo : ((taskTimerTick s c).cpus c).needResched = false) : Ticked s q c (taskTimerTick s c) := by
  have hlike := taskTimerTick_alike s c
  obtain ⟨hrun, hheld⟩ := h.inv.settled c (Set.mem_univ c)
  obtain ⟨hid, hslice⟩ := taskTimerTick_slice hheld.ne_null hrun hgo
  have hother : ∀ c' ≠ c, (taskTimerTick s c).turn c' = s.turn c' := fun c' hc =>
    turn_taskTimerTick_of_ne h.inv hc
  have hturn : (s.tasks (s.current c)).id ≠ 0 →
      (taskTimerTick s c).turn c + 1 ≤ s.turn c := by
    intro hne
    rw [if_neg hne] at hslice
    obtain ⟨hleft, hsum⟩ := hslice
    unfold Sched.turn
    rw [hlike.current, hid, if_neg hne, if_neg hne]
    omega
  have hidle : (s.tasks (s.current c)).id = 0 → (taskTimerTick s c).turn c = 1 := by
    intro hz
    unfold Sched.turn
    rw [hlike.current, hid, if_pos hz]
  refine ⟨⟨hlike.inv h.inv, h.listed.congr hlike.next hlike.queue, fun c' => ?_, ?_⟩, hlike.current,
    hother, fun hne => ?_⟩
  · by_cases hc : c' = c
    · rw [hc]
      by_cases hz : (s.tasks (s.current c)).id = 0
      · rw [hidle hz]
        decide
      · exact (Nat.le_of_succ_le (hturn hz)).trans (h.turn c)
    · rw [hother c' hc]
      exact h.turn c'
  · rw [hlike.created]
    exact h.heap
  · by_cases hz : (s.tasks (s.current c)).id = 0
    · rw [if_pos hz] at hslice
      exact absurd hslice (h.count_ne_zero hne)
    · exact hturn hz

/-- **Interrupt 32**: the CPU goes on after the tick, or reschedules. -/
theorem Sched.Serving.interrupt (h : s.Serving q) {fuel : Nat} {rsp r : Word}
    (hret : timerInterrupt fuel s c rsp = some (r, s')) :
    Ticked s q c s' ∨ ∃ q', Rescheduled s q c s' q' := by
  have hlike := taskTimerTick_alike s c
  unfold timerInterrupt at hret
  dsimp only at hret
  by_cases hneed : ((taskTimerTick s c).cpus c).needResched = true
  · rw [if_pos hneed] at hret
    right
    have hleaves : s.Leaves q c (taskTimerTick s c) := by
      refine ⟨(hlike.inv h.inv).mono (Set.subset_univ _), ?_, h.listed.congr hlike.next hlike.queue,
        hlike.created, hlike.current, fun x hx => ?_⟩
      · exact (hlike.inv h.inv).current_held c
      · rw [tasks_taskTimerTick_of_ne hx]
    exact hleaves.schedule hret
  · rw [if_neg hneed] at hret
    obtain ⟨-, rfl⟩ := Prod.mk.inj (Option.some.inj hret)
    left
    exact h.tick (by simpa using hneed)

/-- What `task_yield` does before its interrupt is not seen by those that
    wait. -/
theorem Sched.Serving.request (h : s.Serving q) (c : Fin n) :
    (taskRequestReschedule s c).Serving q := by
  have hlike : s.Alike (taskRequestReschedule s c) := Sched.Alike.setCpu rfl
  refine ⟨hlike.inv h.inv, h.listed.congr hlike.next hlike.queue, fun c' => ?_, h.heap⟩
  rw [Sched.turn_congr (hlike.current c') rfl]
  exact h.turn c'

end Ticks

/-! ## §4. Steps. -/

/-- An interrupt 32, from the timer or from `task_yield`, or another call. -/
inductive ClockAct (n : Nat) where
  | timer (c : Fin n)
  | yield (c : Fin n)
  | call (a : SchedCall n)

inductive ClockStep [NeZero n] : Sched n → ClockAct n → Sched n → Prop
  | timer {s s' : Sched n} {r : Word} (c : Fin n) (fuel : Nat) (rsp : Word) :
      timerInterrupt fuel s c rsp = some (r, s') → ClockStep s (.timer c) s'
  | yield {s s' : Sched n} {r : Word} (c : Fin n) (fuel : Nat) (rsp : Word) :
      taskYield fuel s c rsp = some (r, s') → ClockStep s (.yield c) s'
  | call {s s' : Sched n} {a : SchedCall n} : SchedStep s a s' → ClockStep s (.call a) s'

/-- Interrupts 32 of CPU `c`. -/
def ClockAct.ticks (c : Fin n) : ClockAct n → Nat
  | .timer c' => if c' = c then 1 else 0
  | .yield c' => if c' = c then 1 else 0
  | .call _ => 0

/-- `kmalloc` had memory for the task that the call creates, if it creates
    one. -/
def ClockAct.Allocates : ClockAct n → Prop
  | .call a => ∀ t, a.spawned = some t →
      heapStart.toNat ≤ t.toNat ∧ t.toNat < heapStart.toNat + heapSize
  | _ => True

/-- **What a step does to those that wait**: others come behind them, or the
    turn of a current task gets shorter, or a CPU takes its next task. -/
inductive ClockEffect (s : Sched n) (q : Fin n → List Word) (a : ClockAct n) (s' : Sched n) : Prop
  | waits (v : Fin n) (m : List Word) (hserving : s'.Serving (Function.update q v (q v ++ m)))
      (hturn : ∀ c, s'.turn c = s.turn c) (hticks : ∀ c, a.ticks c = 0)
  | ticked (c : Fin n) (h : Ticked s q c s') (hticks : ∀ c', a.ticks c' = if c = c' then 1 else 0)
  | rescheduled (c : Fin n) (q' : Fin n → List Word) (h : Rescheduled s q c s' q')
      (hticks : ∀ c', a.ticks c' ≤ if c = c' then 1 else 0)

section Steps

variable {s s' s₁ : Sched n} {q q' : Fin n → List Word} {c : Fin n} {t : Word}

theorem Rescheduled.turn_other (h : Rescheduled s q c s' q') (hs : s.Inv q Set.univ) {c' : Fin n}
    (hc : c' ≠ c) : s'.turn c' = s.turn c' := by
  have hcur := h.current c' hc
  refine Sched.turn_congr hcur (h.share _ (hs.current_ne hc) ?_)
  rw [← hcur]
  exact h.inv.current_ne hc

theorem Rescheduled.serving (h : Rescheduled s q c s' q') (hs : s.Serving q) : s'.Serving q' := by
  refine ⟨h.inv, h.listed, fun c' => ?_, ?_⟩
  · by_cases hc : c' = c
    · rw [hc]
      exact h.turn
    · rw [h.turn_other hs.inv hc]
      exact hs.turn c'
  · rw [h.created]
    exact hs.heap

/-- The request of `task_yield` does not show. -/
theorem Ticked.of_request (h : Ticked (taskRequestReschedule s c) q c s') : Ticked s q c s' := by
  have hlike : s.Alike (taskRequestReschedule s c) := Sched.Alike.setCpu rfl
  have hturn : ∀ c', (taskRequestReschedule s c).turn c' = s.turn c' := fun c' =>
    Sched.turn_congr (hlike.current c') rfl
  refine ⟨h.serving, fun c' => (h.current c').trans (hlike.current c'), fun c' hc => ?_, fun hne => ?_⟩
  · rw [← hturn]
    exact h.turn_other c' hc
  · rw [← hturn]
    exact h.turn hne

theorem Rescheduled.of_request (h : Rescheduled (taskRequestReschedule s c) q c s' q') :
    Rescheduled s q c s' q' := by
  have hlike : s.Alike (taskRequestReschedule s c) := Sched.Alike.setCpu rfl
  refine ⟨h.inv, h.listed, h.created, fun c' hc => ?_, fun x hx => ?_, h.turn, h.ahead⟩
  · exact (h.current c' hc).trans (hlike.current c')
  · exact h.share x (by rw [hlike.current]; exact hx)

namespace Sched.Serving

/-- Any moment is one to call `task_schedule`. -/
theorem leaves (h : s.Serving q) (c : Fin n) : s.Leaves q c s :=
  ⟨h.inv.mono (Set.subset_univ _), h.inv.current_held c, h.listed, rfl, fun _ => rfl, fun _ _ => rfl⟩

/-- The current task has exited. -/
theorem exitLeaves (h : s.Serving q) (c : Fin n) : s.Leaves q c (exitCurrent s c) := by
  obtain ⟨hinv, hheld, -⟩ := h.inv.exitCurrent c
  refine ⟨hinv, hheld, h.listed.setTask rfl, rfl, fun _ => rfl, fun x hx => ?_⟩
  rw [exitCurrent, Sched.tasks_setTask_of_ne hx]

/-- It has exited, and the tick of its last yield was counted. -/
theorem exitTickedLeaves (h : s.Serving q) (c : Fin n) : s.Leaves q c (exitTicked s c) := by
  obtain ⟨hlike, -⟩ := h.inv.sysExit_eq c
  have hexit := h.exitLeaves c
  refine ⟨hlike.inv hexit.inv, ?_, hexit.listed.congr hlike.next hlike.queue, hlike.created,
    hlike.current, fun x hx => ?_⟩
  · rw [hlike.current]
    exact hlike.held hexit.held
  · have hcur : ((exitCurrent s c).setCpu c fun cpu =>
        { cpu with needResched := true }).current c = s.current c := by
      rw [Sched.current, Sched.cpus_setCpu_self]
      rfl
    rw [exitTicked, tasks_taskTimerTick_of_ne (by rw [hcur]; exact hx)]
    exact hexit.share x hx

/-- **A new task** goes behind those that wait. -/
theorem spawned (h : s.Serving q) (hspawn : Spawned s q t s') {v : Fin n}
    (heq : s' = enqueueTask s₁ v t) (hl : s₁.Listed q) (hkeep : ∀ x ≠ t, s₁.tasks x = s.tasks x)
    (hret : s.KmallocReturns t)
    (hheap : heapStart.toNat ≤ t.toNat ∧ t.toNat < heapStart.toNat + heapSize) :
    s'.Serving (Function.update q v (q v ++ [t])) ∧ ∀ c, s'.turn c = s.turn c := by
  obtain ⟨hout, hcur, -, -⟩ := h.inv.fresh hret
  have hnull : t ≠ 0 := by
    intro hz
    rw [hz] at hheap
    exact absurd hheap.1 (by decide)
  have hlisted : s'.Listed (Function.update q v (q v ++ [t])) := heq ▸ hl.enqueue hnull hout v
  obtain ⟨v', hinv, -⟩ := hspawn.queued
  have hq := hlisted.queues.unique hinv.queues.chain
  rw [hq] at hinv
  have hturn : ∀ c, s'.turn c = s.turn c := by
    intro c
    refine Sched.turn_congr (hspawn.current c) ?_
    rw [heq, (enqueueTask_same s₁ v t).tasks]
    show (s₁.tasks (s.current c)).share = _
    rw [hkeep _ (hcur c)]
  refine ⟨⟨hinv, hlisted, fun c => ?_, fun x hx => ?_⟩, hturn⟩
  · rw [hturn]
    exact h.turn c
  · rw [hspawn.created] at hx
    rcases List.mem_cons.mp hx with rfl | hx
    · exact hheap
    · exact h.heap x hx

theorem spawnTask [NeZero n] (h : s.Serving q) (hret : s.KmallocReturns t)
    (hheap : heapStart.toNat ≤ t.toNat ∧ t.toNat < heapStart.toNat + heapSize)
    (pml4 stack ustack : Word) :
    ∃ v, (ZohoOs.spawnTask s t pml4 stack ustack).Serving (Function.update q v (q v ++ [t])) ∧
      ∀ c, (ZohoOs.spawnTask s t pml4 stack ustack).turn c = s.turn c := by
  have hrecord := h.listed.record t
  have hspawn := h.inv.spawn hret pml4 stack ustack
  refine ⟨_, h.spawned hspawn rfl ((hrecord.setTask (t := t) rfl).setTask (t := t) rfl) (fun x hx => ?_)
    hret hheap⟩
  rw [Sched.tasks_setTask_of_ne hx, Sched.tasks_setTask_of_ne hx]

theorem taskFork (h : s.Serving q) (hret : s.KmallocReturns t)
    (hheap : heapStart.toNat ≤ t.toNat ∧ t.toNat < heapStart.toNat + heapSize) (c : Fin n)
    (pml4 stack ustack : Word) :
    (ZohoOs.taskFork s c t pml4 stack ustack).Serving (Function.update q c (q c ++ [t])) ∧
      ∀ c', (ZohoOs.taskFork s c t pml4 stack ustack).turn c' = s.turn c' := by
  have hrecord := h.listed.record t
  have hspawn := h.inv.fork hret c pml4 stack ustack
  refine h.spawned hspawn rfl (hrecord.setTask (t := t) rfl) (fun x hx => ?_) hret hheap
  rw [Sched.tasks_setTask_of_ne hx]

/-- **The step lemma.** -/
theorem effect [NeZero n] {a : ClockAct n} (h : s.Serving q) (ha : a.Allocates)
    (hst : ClockStep s a s') : ClockEffect s q a s' := by
  have hspawned : ∀ {a : SchedCall n} {v : Fin n} {t : Word},
      s'.Serving (Function.update q v (q v ++ [t])) ∧ (∀ c, s'.turn c = s.turn c) →
        ClockEffect s q (.call a) s' :=
    fun hnew => .waits _ _ hnew.1 hnew.2 fun _ => rfl
  have hcalled : ∀ {a : SchedCall n} {c : Fin n} {s₁ : Sched n} {fuel : Nat} {rsp r : Word},
      s.Leaves q c s₁ → taskSchedule fuel s₁ c rsp = some (r, s') → ClockEffect s q (.call a) s' := by
    intro a c s₁ fuel rsp r hleaves hret
    obtain ⟨q', hres⟩ := hleaves.schedule hret
    exact .rescheduled c q' hres fun _ => Nat.zero_le _
  cases hst with
  | timer c fuel rsp hret =>
    rcases h.interrupt hret with htick | ⟨q', hres⟩
    · exact .ticked c htick fun _ => rfl
    · exact .rescheduled c q' hres fun _ => le_rfl
  | yield c fuel rsp hret =>
    rcases (h.request c).interrupt hret with htick | ⟨q', hres⟩
    · exact .ticked c htick.of_request fun _ => rfl
    · exact .rescheduled c q' hres.of_request fun _ => le_rfl
  | call hcall =>
    cases hcall with
    | create cr3 stack hret =>
      obtain ⟨v, hnew⟩ := h.spawnTask hret (ha _ rfl) cr3 stack 0
      exact hspawned hnew
    | createUser pml4 stack ustack hret =>
      obtain ⟨v, hnew⟩ := h.spawnTask hret (ha _ rfl) pml4 stack ustack
      exact hspawned hnew
    | exec loaded stack ustack hret =>
      cases loaded with
      | none =>
        -- no image, no task
        have hsame : Function.update q 0 (q 0 ++ []) = q := by
          rw [List.append_nil, Function.update_eq_self]
        refine .waits 0 [] ?_ (fun _ => rfl) fun _ => rfl
        rw [hsame]
        exact h
      | some pml4 =>
        obtain ⟨v, hnew⟩ := h.spawnTask hret (ha _ rfl) pml4 stack ustack
        exact hspawned hnew
    | fork c pml4 stack ustack hret =>
      exact hspawned (h.taskFork hret (ha _ rfl) c pml4 stack ustack)
    | schedule c fuel rsp hret => exact hcalled (h.leaves c) hret
    | exit c fuel rsp hret =>
      rw [(h.inv.sysExit_eq c).2] at hret
      exact hcalled (h.exitTickedLeaves c) hret
    | fault c fuel frame hret => exact hcalled (h.exitLeaves c) hret

end Sched.Serving

end Steps

/-! ## §5. Runs. -/

/-- Task `t`, waiting for CPU `c`, is current at the latest after `k` more
    interrupts 32 of `c`. -/
def Sched.Due (c : Fin n) (t : Word) (s : Sched n) (k : Nat) : Prop :=
  ∃ q j, s.Serving q ∧ Ahead q c t j ∧ s.turn c + 4 * j ≤ k

theorem Sched.not_due_zero (c : Fin n) (t : Word) (s : Sched n) : ¬ Sched.Due c t s 0 := by
  rintro ⟨q, j, -, -, hk⟩
  have hpos := s.turn_pos c
  omega

/-- **One step**: `t` is current, or every interrupt has brought it nearer. -/
theorem Sched.Due.step [NeZero n] {s s' : Sched n} {a : ClockAct n} {c : Fin n} {t : Word} {k : Nat}
    (h : Sched.Due c t s k) (ha : a.Allocates) (hst : ClockStep s a s') :
    (∃ c', s'.current c' = t) ∨ ∃ k', Sched.Due c t s' k' ∧ k' + a.ticks c ≤ k := by
  obtain ⟨q, j, hs, hA, hk⟩ := h
  cases hs.effect ha hst with
  | waits v m hserving hturn hticks =>
    right
    refine ⟨_, ⟨_, j, hserving, hA.append v m, le_rfl⟩, ?_⟩
    rw [hturn, hticks]
    exact hk
  | ticked c₁ htick hticks =>
    right
    refine ⟨_, ⟨q, j, htick.serving, hA, le_rfl⟩, ?_⟩
    rw [hticks]
    by_cases hc : c₁ = c
    · have hturn := htick.turn (by rw [hc]; exact hA.ne_nil)
      rw [hc] at hturn
      rw [if_pos hc]
      omega
    · rw [if_neg hc, htick.turn_other c fun he => hc he.symm]
      omega
  | rescheduled c₁ q' hres hticks =>
    have hbound := hticks c
    rcases hres.ahead c t j hA with hcur | ⟨j', hA', hle, hlt⟩
    · exact .inl ⟨c₁, hcur⟩
    · right
      refine ⟨_, ⟨q', j', hres.serving hs, hA', le_rfl⟩, ?_⟩
      by_cases hc : c₁ = c
      · -- another one left the front, and a new turn begins
        have hturn := hres.turn
        have hnear := hlt hc.symm
        have hpos := s.turn_pos c
        rw [hc] at hturn
        rw [if_pos hc] at hbound
        omega
      · rw [if_neg hc] at hbound
        rw [hres.turn_other hs.inv fun he => hc he.symm]
        omega

/-- Serving is kept. -/
theorem Sched.Serving.step [NeZero n] {s s' : Sched n} {q : Fin n → List Word} {a : ClockAct n}
    (h : s.Serving q) (ha : a.Allocates) (hst : ClockStep s a s') : ∃ q', s'.Serving q' := by
  cases h.effect ha hst with
  | waits v m hserving _ _ => exact ⟨_, hserving⟩
  | ticked c htick _ => exact ⟨q, htick.serving⟩
  | rescheduled c q' hres _ => exact ⟨q', hres.serving h⟩

theorem Sched.Initialised.count {s : Sched n} (h : s.Initialised) (c : Fin n) :
    (s.queue c).count = 0 := by
  obtain ⟨s₀, idle, cr3, rfl, -⟩ := h
  have hloop : ∀ c ∈ List.finRange n, ((taskInit s₀ idle cr3).queue c).count = 0 := by
    unfold taskInit
    refine foldl_invariant (fun done (s : Sched n) => ∀ c ∈ done, (s.queue c).count = 0)
      (fun c hc => (List.not_mem_nil hc).elim) ?_
    intro done c rest s hl hdone c' hc'
    by_cases hcc : c' = c
    · rw [hcc, (taskInitPerCpu_ready s c _ _).queue]
    · -- the runqueue of a CPU that was initialised before
      have hsame : (taskInitPerCpu s c (idle c) (cr3 c)).queue c' = s.queue c' := by
        unfold taskInitPerCpu
        simp only [Sched.queue, Sched.setQueue, Sched.cpus_setCpu_of_ne hcc, Sched.cpus_setTask]
      rw [hsame]
      refine hdone c' ((List.mem_append.mp hc').resolve_right fun hmem => ?_)
      exact hcc (List.mem_singleton.mp hmem)
  exact hloop c (List.mem_finRange c)

/-- At the start nobody waits. -/
theorem Sched.Initialised.serving {s : Sched n} (h : s.Initialised) : s.Serving fun _ => [] := by
  obtain ⟨hinv, hcreated⟩ := h.inv
  refine ⟨hinv, ⟨hinv.queues, fun _ hne => absurd rfl hne, h.count⟩, fun c => ?_, fun t ht => ?_⟩
  · -- every CPU idles, and the idle task has id 0
    have hknown := (hinv.settled c (Set.mem_univ c)).2.known
    rw [hcreated] at hknown
    have hidle : s.current c = s.idle c := hknown.resolve_left List.not_mem_nil
    unfold Sched.turn
    rw [hidle, (hinv.idle c).2.2.1, if_pos rfl]
    decide
  · rw [hcreated] at ht
    cases ht

/-- **No task starves.**  Let a task be in the runqueue of CPU `c`, behind the
    tasks `l`.  It is current, on `c` or on a CPU that steals it, before `c`
    has had `4 * (l.length + 1)` interrupts 32, whatever is created, forked,
    yields, exits or faults in the meantime on whichever CPU. -/
theorem bounded_waiting [NeZero n] {s₀ s s' : Sched n}
    {tr₀ tr : List (Transition (Sched n) (ClockAct n))} (h0 : s₀.Initialised)
    (hrun₀ : Run ClockStep s₀ tr₀ s) (hrun : Run ClockStep s tr s')
    (halloc : ∀ x ∈ tr₀ ++ tr, x.2.1.Allocates) {c : Fin n} {l l' : List Word} {t : Word}
    (hwaits : Chain s.next 0 (s.queue c).head (l ++ t :: l'))
    (hticks : 4 * (l.length + 1) ≤ ((Run.labels tr).map (ClockAct.ticks c)).sum) :
    ∃ x ∈ tr, ∃ c', x.2.2.current c' = t := by
  have hreach : ∃ q, s.Serving q := by
    refine hrun₀.invariant (I := fun s => ∃ q, s.Serving q) (C := fun _ a => a.Allocates)
      (fun s a s' hs ha hst => ?_)      (fun x hx => halloc x (List.mem_append_left _ hx)) ⟨_, h0.serving⟩
    obtain ⟨q, hq⟩ := hs
    exact hq.step ha hst
  obtain ⟨q, hq⟩ := hreach
  have hlist : q c = l ++ t :: l' := (hq.inv.queues.chain c).unique hwaits
  have hdue : Sched.Due c t s (4 * (l.length + 1)) := by
    refine ⟨q, l.length, hq, ⟨l, l', hlist, rfl⟩, ?_⟩
    have hturn := hq.turn c
    omega
  exact hrun.reaches (fun s a s' k hd ha hst => hd.step ha hst) (Sched.not_due_zero c t)
    (fun x hx => halloc x (List.mem_append_right _ hx)) hdue hticks

/-- The timer may tick as often as it likes: each of its interrupts returns. -/
theorem Sched.Serving.ticking [NeZero n] {s : Sched n} {q : Fin n → List Word} (h : s.Serving q)
    (c : Fin n) (k : Nat) : ∃ tr s', Run ClockStep s tr s' ∧ (∃ q', s'.Serving q') ∧
      (∀ x ∈ tr, x.2.1.Allocates) ∧ ((Run.labels tr).map (ClockAct.ticks c)).sum = k := by
  induction k with
  | zero => exact ⟨[], s, .nil s, ⟨q, h⟩, fun x hx => (List.not_mem_nil hx).elim, rfl⟩
  | succ k ih =>
    obtain ⟨tr, s', hrun, ⟨q', h'⟩, halloc, hsum⟩ := ih
    obtain ⟨r, s₂, hret⟩ : ∃ r s₂, timerInterrupt 1 s' c 0 = some (r, s₂) := by
      unfold timerInterrupt
      dsimp only
      split
      · obtain ⟨r, s₂, -, hret, -⟩ := ((taskTimerTick_alike s' c).inv h'.inv).switched c 0 0
        exact ⟨r, s₂, hret⟩
      · exact ⟨_, _, rfl⟩
    have hst : ClockStep s' (.timer c) s₂ := .timer c 1 0 hret
    have hgranted : (ClockAct.timer c).Allocates := trivial
    refine ⟨_, s₂, hrun.snoc hst, h'.step hgranted hst, fun x hx => ?_, ?_⟩
    · rcases List.mem_append.mp hx with hx | hx
      · exact halloc x hx
      · rw [List.mem_singleton.mp hx]
        exact hgranted
    · have htick : ClockAct.ticks c (.timer c) = 1 := if_pos rfl
      simp only [Run.labels_append, Run.labels_singleton, List.map_append, List.map_singleton,
        List.sum_append, List.sum_singleton, hsum, htick]

/-- `bounded_waiting` for the first task that is created. -/
theorem bounded_waiting_first : ∃ (tr : List (Transition (Sched 2) (ClockAct 2))) (s' : Sched 2),
    Run ClockStep (taskCreate twoCpus heapStart 0x100000 0x9000) tr s' ∧
      ∃ x ∈ tr, ∃ c', x.2.2.current c' = heapStart := by
  have hidle : ∀ c, heapStart ≠ twoCpus.idle c := by decide
  have hnew : twoCpus.KmallocReturns heapStart := by
    refine .inr ⟨fun hmem => ?_, hidle⟩
    rw [twoCpus_initialised.inv.2] at hmem
    cases hmem
  have hcreate : ClockStep twoCpus (.call (.create heapStart))
      (taskCreate twoCpus heapStart 0x100000 0x9000) := .call (.create _ _ hnew)
  have hheap : (ClockAct.call (n := 2) (.create heapStart)).Allocates := by
    intro t ht
    rw [← Option.some.inj ht]
    decide
  obtain ⟨q, hq⟩ := twoCpus_initialised.serving.step hheap hcreate
  obtain ⟨tr, s', hrun, -, halloc, hsum⟩ := hq.ticking 0 4
  have hwaits : Chain (taskCreate twoCpus heapStart 0x100000 0x9000).next 0
      ((taskCreate twoCpus heapStart 0x100000 0x9000).queue 0).head ([] ++ heapStart :: []) := by
    have hhead : ((taskCreate twoCpus heapStart 0x100000 0x9000).queue 0).head = heapStart := by
      decide
    have hnext : (taskCreate twoCpus heapStart 0x100000 0x9000).next heapStart = 0 := by decide
    exact ⟨hhead, by decide, hnext⟩
  refine ⟨tr, s', hrun, ?_⟩
  refine bounded_waiting twoCpus_initialised ((Run.nil twoCpus).snoc hcreate) hrun (fun x hx => ?_)
    hwaits (le_of_eq hsum.symm)
  rcases List.mem_append.mp hx with hx | hx
  · rw [List.mem_singleton.mp hx]
    exact hheap
  · exact halloc x hx

end ZohoOs
