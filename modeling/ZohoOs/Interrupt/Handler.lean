/-
  ZohoOs.Interrupt.Handler — what `isr_handler` returns (idt.c).

  `isr_handler` gets the stack pointer of the interrupted task and returns the
  stack pointer to continue on.  It returns another one only through
  `task_schedule`: on a timer interrupt that finds `need_resched` set, and when
  a user task is terminated.

  Main result: `Sched.Inv.isr_effect` — from a state the scheduler invariant
  holds of, every return of `isr_handler` is either to the interrupted task, at
  the stack pointer it was interrupted at, or to a task that waited, at the
  stack pointer it has saved; and the CPU's kernel stack is then that of the
  task it returns to.
-/
import ZohoOs.Interrupt.Stub
import ZohoOs.Task.Fields

namespace ZohoOs

open ZohoOs.Lib
open ZohoOs.Lib.Asm

variable {n : Nat}

/-! ## §1. `isr_handler`. -/

/-- `task_request_reschedule`. -/
def taskRequestReschedule (s : Sched n) (c : Fin n) : Sched n :=
  s.setCpu c fun cpu => { cpu with needResched := true }

/-- `isr_handler`, with the interrupt frame at `rsp`: the stack pointer to
    continue on, and the scheduler; `none` where it halts.  `cow` says whether
    `handle_page_fault` made the page writable.  The keyboard, serial and mouse
    handlers and the two EOIs do not touch the tasks. -/
def isrHandler (fuel : Nat) (s : Sched n) (c : Fin n) (frame : InterruptFrame) (rsp : Word)
    (cow : Bool) : Option (Word × Sched n) :=
  if frame.intNo < 32 then
    if frame.intNo = 14 then
      if s.current c = 0 then some (rsp, s)
      else if cow then some (rsp, s)
      else if frame.cs &&& 3 = 3 then terminateFault fuel s c rsp
      else none
    else if frame.cs &&& 3 = 3 then
      if s.current c ≠ 0 then terminateFault fuel s c rsp else none
    else none
  else if frame.intNo < 48 then
    if frame.intNo = 32 then timerInterrupt fuel s c rsp else some (rsp, s)
  else some (rsp, s)

/-- **Where an interrupt comes from**: a device or a fault, the `int $32` of
    `task_yield`, or that of `sys_exit`. -/
inductive Raised (s : Sched n) (c : Fin n) : Nat → Sched n → Prop
  | device (v : Nat) : Raised s c v s
  | yield : Raised s c 32 (taskRequestReschedule s c)
  | exit : Raised s c 32 (taskRequestReschedule (exitCurrent s c) c)

/-! ## §2. Ticks. -/

/-- A tick changes clocks, time slices and reschedule requests. -/
theorem taskTimerTick_alike (s : Sched n) (c : Fin n) : s.Alike (taskTimerTick s c) := by
  have hclock : s.Alike (s.setCpu c fun cpu => { cpu with totalTicks := cpu.totalTicks + 1 }) :=
    Sched.Alike.setCpu rfl
  unfold taskTimerTick
  dsimp only
  split
  · exact hclock.trans (Sched.Alike.setCpu rfl)
  · set s₁ := (s.setCpu c fun cpu => { cpu with totalTicks := cpu.totalTicks + 1 }).setTask
      (s.current c) fun t => { t with totalTicks := t.totalTicks + 1 }
    have h₁ : s.Alike s₁ := hclock.trans (Sched.Alike.setTask rfl rfl rfl rfl)
    set s₂ := if (s₁.tasks (s.current c)).id = 0 then
      s₁.setCpu c fun cpu => { cpu with idleTicks := cpu.idleTicks + 1 } else s₁
    have h₂ : s.Alike s₂ := by
      by_cases hid : (s₁.tasks (s.current c)).id = 0
      · rw [show s₂ = _ from if_pos hid]
        exact h₁.trans (Sched.Alike.setCpu rfl)
      · rw [show s₂ = _ from if_neg hid]
        exact h₁
    have h₃ : s.Alike (s₂.setTask (s.current c) fun t =>
        { t with timeslice := if t.timeslice > 0 then t.timeslice - 1 else t.timeslice }) :=
      h₂.trans (Sched.Alike.setTask rfl rfl rfl rfl)
    split
    · exact h₂.trans (Sched.Alike.setCpu rfl)
    · split
      · split
        · exact h₂.trans (Sched.Alike.setCpu rfl)
        · exact h₂
      · split
        · exact h₃.trans (Sched.Alike.setCpu rfl)
        · exact h₃

/-- The stacks the CPUs are set up with are the same. -/
def Sched.SameRsp0 (s s' : Sched n) : Prop := ∀ c, (s'.cpus c).tssRsp0 = (s.cpus c).tssRsp0

theorem Sched.SameRsp0.setCpu {s : Sched n} {c : Fin n} {g : Cpu → Cpu}
    (hg : (g (s.cpus c)).tssRsp0 = (s.cpus c).tssRsp0) : s.SameRsp0 (s.setCpu c g) :=
  Sched.field_setCpu Cpu.tssRsp0 hg

theorem Sched.SameRsp0.trans {s s' s'' : Sched n} (h : s.SameRsp0 s') (h' : s'.SameRsp0 s'') :
    s.SameRsp0 s'' := fun c => (h' c).trans (h c)

theorem taskTimerTick_rsp0 (s : Sched n) (c : Fin n) : s.SameRsp0 (taskTimerTick s c) := by
  have hclock : s.SameRsp0 (s.setCpu c fun cpu => { cpu with totalTicks := cpu.totalTicks + 1 }) :=
    Sched.SameRsp0.setCpu rfl
  unfold taskTimerTick
  dsimp only
  split
  · exact hclock.trans (Sched.SameRsp0.setCpu rfl)
  · set s₁ := (s.setCpu c fun cpu => { cpu with totalTicks := cpu.totalTicks + 1 }).setTask
      (s.current c) fun t => { t with totalTicks := t.totalTicks + 1 }
    have h₁ : s.SameRsp0 s₁ := hclock
    set s₂ := if (s₁.tasks (s.current c)).id = 0 then
      s₁.setCpu c fun cpu => { cpu with idleTicks := cpu.idleTicks + 1 } else s₁
    have h₂ : s.SameRsp0 s₂ := by
      by_cases hid : (s₁.tasks (s.current c)).id = 0
      · rw [show s₂ = _ from if_pos hid]
        exact h₁.trans (Sched.SameRsp0.setCpu rfl)
      · rw [show s₂ = _ from if_neg hid]
        exact h₁
    split
    · exact h₂.trans (Sched.SameRsp0.setCpu rfl)
    · split
      · split
        · exact h₂.trans (Sched.SameRsp0.setCpu rfl)
        · exact h₂
      · split
        · exact h₂.trans (Sched.SameRsp0.setCpu (s := s₂.setTask _ _) rfl)
        · exact h₂

/-! ## §3. Returning to the interrupted task, or to another one. -/

/-- The stack fields of a task other than its saved stack pointer. -/
def stackFields (t : Task) : Word × Word := (t.stackBottom, t.kernelRsp)

theorem steady_stackFields : Steady stackFields :=
  ⟨fun _ _ => rfl, fun _ _ => rfl, fun _ _ => rfl, fun _ _ => rfl, fun _ _ => rfl⟩

theorem steady_rsp : Steady Task.rsp :=
  ⟨fun _ _ => rfl, fun _ _ => rfl, fun _ _ => rfl, fun _ _ => rfl, fun _ _ => rfl⟩

/-- **What `isr_handler` did** on CPU `c`, entered at stack pointer `a` in the
    state `s` and returning `r` in the state `s'`. -/
structure IsrEffect (s : Sched n) (c : Fin n) (a r : Word) (s' : Sched n) : Prop where
  inv : ∃ q, s'.Inv q Set.univ
  created : s'.created = s.created
  idle : ∀ c', s'.idle c' = s.idle c'
  others : ∀ c' ≠ c, s'.current c' = s.current c'
  areas : s.Keeps stackFields s'
  rsp_other : ∀ x ≠ s.current c, (s'.tasks x).rsp = (s.tasks x).rsp
  /-- The interrupted task has saved its stack pointer, unless it goes on. -/
  rsp_self : (s'.tasks (s.current c)).rsp = a ∨
    s'.current c = s.current c ∧ (s'.tasks (s.current c)).rsp = (s.tasks (s.current c)).rsp
  ret : r = if s'.current c = s.current c then a else (s.tasks (s'.current c)).rsp
  rsp0_other : ∀ c' ≠ c, (s'.cpus c').tssRsp0 = (s.cpus c').tssRsp0
  rsp0_self : (s'.cpus c).tssRsp0 = (s'.tasks (s'.current c)).kernelRsp ∨
    s'.current c = s.current c ∧ (s'.cpus c).tssRsp0 = (s.cpus c).tssRsp0

/-- `s'` differs from `s` only in what the interrupt paths write before they
    reschedule. -/
structure Sched.Before (s s' : Sched n) : Prop where
  current : ∀ c, s'.current c = s.current c
  idle : ∀ c, s'.idle c = s.idle c
  created : s'.created = s.created
  rsp : s.Keeps Task.rsp s'
  areas : s.Keeps stackFields s'
  rsp0 : s.SameRsp0 s'

namespace Sched.Before

variable {s s' s'' : Sched n} {c : Fin n}

theorem refl (s : Sched n) : s.Before s :=
  ⟨fun _ => rfl, fun _ => rfl, rfl, fun _ => rfl, fun _ => rfl, fun _ => rfl⟩

theorem trans (h : s.Before s') (h' : s'.Before s'') : s.Before s'' :=
  ⟨fun c => (h'.current c).trans (h.current c), fun c => (h'.idle c).trans (h.idle c),
    h'.created.trans h.created, h.rsp.trans h'.rsp, h.areas.trans h'.areas, h.rsp0.trans h'.rsp0⟩

theorem exit (s : Sched n) (c : Fin n) : s.Before (exitCurrent s c) :=
  ⟨fun _ => rfl, fun _ => rfl, rfl, Sched.Keeps.setTask rfl, Sched.Keeps.setTask rfl, fun _ => rfl⟩

theorem request (s : Sched n) (c : Fin n) : s.Before (taskRequestReschedule s c) := by
  have hlike : s.Alike (taskRequestReschedule s c) := Sched.Alike.setCpu rfl
  exact ⟨hlike.current, hlike.idle, hlike.created, fun _ => rfl, fun _ => rfl,
    Sched.SameRsp0.setCpu rfl⟩

theorem tick (s : Sched n) (c : Fin n) : s.Before (taskTimerTick s c) :=
  ⟨(taskTimerTick_alike s c).current, (taskTimerTick_alike s c).idle,
    (taskTimerTick_alike s c).created, Sched.Keeps.tick steady_rsp s c,
    Sched.Keeps.tick steady_stackFields s c, taskTimerTick_rsp0 s c⟩

/-- Going on with the interrupted task. -/
theorem goesOn (h : s.Before s') (hinv : ∃ q, s'.Inv q Set.univ) (a : Word) :
    IsrEffect s c a a s' := by
  refine ⟨hinv, h.created, h.idle, fun c' _ => h.current c', h.areas, fun x _ => h.rsp x,
    .inr ⟨h.current c, h.rsp _⟩, ?_, fun c' _ => h.rsp0 c', .inr ⟨h.current c, h.rsp0 c⟩⟩
  rw [if_pos (h.current c)]

/-- Going on with the task that `task_schedule` selects. -/
theorem schedules {s₁ : Sched n} (h : s.Before s₁) (h0 : s.current c ≠ 0) {fuel : Nat} {a r : Word}
    (hret : taskSchedule fuel s₁ c a = some (r, s')) (hinv : ∃ q, s'.Inv q Set.univ) :
    IsrEffect s c a r s' := by
  have h0' : s₁.current c ≠ 0 := by
    rw [h.current]
    exact h0
  have hfields : ∀ {β : Type} (F : Task → β), Steady F → ∀ x, F (s'.tasks x) =
      F (if x = s.current c then { s₁.tasks x with rsp := a } else s₁.tasks x) := by
    intro β F hF x
    rw [← h.current]
    exact task_schedule_fields hF h0' hret x
  obtain ⟨hon, hothers⟩ := task_schedule_cpu h0' hret
  have hstacks : s.Keeps stackFields s' := by
    intro x
    have hx := hfields stackFields steady_stackFields x
    split at hx
    · exact hx.trans (h.areas x)
    · exact hx.trans (h.areas x)
  have hcreated : s'.created = s₁.created := by
    have hmoves : MovesWithin fun u u' : Sched n => u'.created = u.created :=
      ⟨fun _ => rfl, fun h h' => h'.trans h, fun h => h.created, fun _ _ _ => rfl, fun _ _ => rfl⟩
    rw [taskSchedule, if_neg h0'] at hret
    obtain ⟨⟨next, s₂⟩, hloop, heq⟩ := Option.map_eq_some_iff.mp hret
    cases heq
    exact (hmoves.loop hloop).trans (hmoves.requeue (fun _ _ => rfl) s₁ c a)
  have hidle : s'.idle c = s₁.idle c := by
    rw [taskSchedule, if_neg h0'] at hret
    obtain ⟨⟨next, s₂⟩, hloop, heq⟩ := Option.map_eq_some_iff.mp hret
    cases heq
    have hmoves := Sched.KeepsCpus.moves (n := n)
    have hcpus : s₁.KeepsCpus s₂ := hmoves.trans (Sched.KeepsCpus.save s₁ c a)
      (hmoves.trans (hmoves.requeue (fun _ _ _ => rfl) s₁ c a) (hmoves.loop hloop))
    have hswitch : (switchTo s₂ c next).idle c = s₂.idle c := by
      unfold switchTo Sched.idle
      simp only [Sched.cpus_setCpu_self]
      rfl
    show (switchTo s₂ c next).idle c = _
    rw [hswitch, Sched.idle, hcpus c]
    rfl
  have hselect : r = (s'.tasks (s'.current c)).rsp :=
    (Sched.SameStack.schedule (t := 0) h0' hret).2
  refine ⟨hinv, hcreated.trans h.created, fun c' => ?_, fun c' hc => ?_, hstacks, fun x hx => ?_,
    .inl ?_, ?_, fun c' hc => ?_, .inl hon.1⟩
  · by_cases hc : c' = c
    · rw [hc, hidle, h.idle]
    · rw [Sched.idle, hothers c' hc]
      exact h.idle c'
  · rw [Sched.current, hothers c' hc]
    exact h.current c'
  · have hrsp := hfields Task.rsp steady_rsp x
    rw [if_neg hx] at hrsp
    exact hrsp.trans (h.rsp x)
  · have hrsp := hfields Task.rsp steady_rsp (s.current c)
    rw [if_pos rfl] at hrsp
    exact hrsp
  · have hrsp := hfields Task.rsp steady_rsp (s'.current c)
    rw [hselect, hrsp]
    split
    · rfl
    · exact h.rsp _
  · rw [hothers c' hc]
    exact h.rsp0 c'

end Sched.Before

namespace Sched.Inv

variable {s s₀ s' : Sched n} {q : Fin n → List Word} {c : Fin n}

/-- `task_schedule` from a state that differs in clocks only. -/
theorem alive_effect {s₁ : Sched n} (h : s.Inv q Set.univ) (hlike : s.Alike s₁) (hb : s.Before s₁)
    {fuel : Nat} {a r : Word} (hret : taskSchedule fuel s₁ c a = some (r, s')) :
    IsrEffect s c a r s' := by
  have h₁ := hlike.inv h
  obtain ⟨k, rfl⟩ := taskSchedule_fuel (h₁.current_ne_null c) hret
  obtain ⟨r', s₂, q', hret', heffect⟩ := h₁.switched c k a
  have he : s₂ = s' := congrArg Prod.snd (Option.some.inj (hret'.symm.trans hret))
  exact hb.schedules (h.current_ne_null c) hret ⟨q', he ▸ heffect.inv⟩

/-- `task_schedule` after the current task was marked dead. -/
theorem ended_effect {s₁ : Sched n} (h : s.Inv q Set.univ) (hlike : (ZohoOs.exitCurrent s c).Alike s₁)
    (hb : s.Before s₁) {fuel : Nat} {a r : Word}
    (hret : taskSchedule fuel s₁ c a = some (r, s')) : IsrEffect s c a r s' := by
  obtain ⟨q', hended⟩ := h.endedBy hlike hret
  exact hb.schedules (h.current_ne_null c) hret ⟨q', hended.inv⟩

theorem terminate_effect (h : s.Inv q Set.univ) {fuel : Nat} {a r : Word}
    (hret : terminateFault fuel s c a = some (r, s')) : IsrEffect s c a r s' :=
  h.ended_effect (Sched.Alike.refl _) (Sched.Before.exit s c) hret

/-- The timer interrupt of a task that goes on running. -/
theorem timer_effect {s₁ : Sched n} (h : s.Inv q Set.univ) (hlike : s.Alike s₁) (hb : s.Before s₁)
    {fuel : Nat} {a r : Word} (hret : timerInterrupt fuel s₁ c a = some (r, s')) :
    IsrEffect s c a r s' := by
  have htick := hlike.trans (taskTimerTick_alike s₁ c)
  have hbtick := hb.trans (Sched.Before.tick s₁ c)
  simp only [timerInterrupt] at hret
  split at hret
  · exact h.alive_effect htick hbtick hret
  · cases hret
    exact hbtick.goesOn ⟨q, htick.inv h⟩ _

/-- **Every return of `isr_handler`**. -/
theorem isr_effect (h : s.Inv q Set.univ) {v fuel : Nat} (hraised : Raised s c v s₀)
    {frame : InterruptFrame} (hv : frame.intNo = BitVec.ofNat 64 v) {a r : Word} {cow : Bool}
    (hret : isrHandler fuel s₀ c frame a cow = some (r, s')) : IsrEffect s c a r s' := by
  cases hraised with
  | device v =>
    have hsame : IsrEffect s c a a s := (Sched.Before.refl s).goesOn ⟨q, h⟩ a
    unfold isrHandler at hret
    split at hret
    · split at hret
      · split at hret
        · cases hret
          exact hsame
        · split at hret
          · cases hret
            exact hsame
          · split at hret
            · exact h.terminate_effect hret
            · cases hret
      · split at hret
        · split at hret
          · exact h.terminate_effect hret
          · cases hret
        · cases hret
    · split at hret
      · split at hret
        · exact h.timer_effect (Sched.Alike.refl s) (Sched.Before.refl s) hret
        · cases hret
          exact hsame
      · cases hret
        exact hsame
  | yield =>
    have hret' : timerInterrupt fuel (taskRequestReschedule s c) c a = some (r, s') := by
      rw [isrHandler, hv, if_neg (by decide), if_pos (by decide), if_pos (by decide)] at hret
      exact hret
    exact h.timer_effect (Sched.Alike.setCpu rfl) (Sched.Before.request s c) hret'
  | exit =>
    have hret' : ZohoOs.sysExit fuel s c a = some (r, s') := by
      rw [isrHandler, hv, if_neg (by decide), if_pos (by decide), if_pos (by decide)] at hret
      exact hret
    rw [(h.sysExit_eq c).2] at hret'
    have hb : s.Before (exitTicked s c) := ((Sched.Before.exit s c).trans
      (Sched.Before.request _ c)).trans (Sched.Before.tick _ c)
    exact h.ended_effect (h.sysExit_eq c).1 hb hret'

end Sched.Inv

end ZohoOs
