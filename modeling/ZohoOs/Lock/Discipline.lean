/-
  ZohoOs.Lock.Discipline — the kernel's locks, for the code of lock.c.

  Task.Locks has the lock operations of the kernel's functions, and when its
  threads are free of deadlocks with the code a timer interrupt found.  Here
  the threads execute lock.c instruction by instruction.

  Main result: `kernel_spin_disciplined_iff`.
-/
import ZohoOs.Lock.Spinlock
import ZohoOs.Task.Locks

namespace ZohoOs

open ZohoOs.Lib

universe u v

/-- The start of the kernel's threads. -/
abbrev SpinStart {T : Type} {n : Nat} (m : SpinCpus (KernelLock n) T n) : Prop :=
  m.Start fun a => ∃ calls, a = threadCode calls

namespace SpinCpus

section

variable {L : Type u} {T : Type v} {n : Nat} [DecidableEq L]

/-- A test-and-set that succeeds is executed with interrupts off. -/
def Masked (m : SpinCpus L T n) : ThreadAct T n → Prop
  | .run c _ => ∀ l spins body rest, m.todo (m.running c) = .testAndSet l spins body :: rest →
      (m.locks l).locked = 0 → m.intr c = false
  | .switch _ _ => True
  | .timer _ => True

/-- **The discipline**: no CPU is about to test and set a lock its own thread
    holds, and a lock that handlers acquire is held only by running threads,
    with interrupts off. -/
def Disciplined (handler : Fin n → Code L) (m : SpinCpus L T n) : Prop :=
  (∀ c l spins body rest, m.todo (m.running c) = .testAndSet l spins body :: rest →
    .release l ∉ rest) ∧
    ∀ l, (∃ c, (handler c).Locks l) → ∀ t, .release l ∈ m.todo t →
      ∃ c, m.running c = t ∧ m.intr c = false

variable [DecidableEq T] {handler : Fin n → Code L} {plain : L → Prop} {m m' : SpinCpus L T n}

omit [DecidableEq L] [DecidableEq T] in
/-- What the discipline of the atomic locks says of the code. -/
theorem Disciplined.of_threads (h : m.threads.Disciplined handler) : m.Disciplined handler := by
  refine ⟨fun c l spins body rest htodo hmem => ?_, fun l hl t ht => ?_⟩
  · exact h.1 c ⟨l, body, _, threads_todo htodo, release_mem_iff.mp hmem⟩
  · exact h.2 l hl t (release_mem_iff.mp ht)

/-- **The invariant**: the flags, and the order in which threads take locks. -/
def Good (plain : L → Prop) (m : SpinCpus L T n) : Prop := m.Flags ∧ m.threads.Good plain

/-- Steps whose test-and-set is masked are masked for the atomic locks. -/
theorem Good.step {a : ThreadAct T n} (h : m.Good plain)
    (hfit : ∀ c, (handler c).Fits plain []) (hmask : m.Masked a) (hst : Steps handler m a m') :
    m'.Good plain := by
  refine ⟨h.1.step hst, ?_⟩
  by_cases hsame : m'.threads = m.threads
  · rw [hsame]
    exact h.2
  · have hseen := (refines_step h.1 hst).resolve_left hsame
    refine h.2.step hfit ?_ hseen
    cases a with
    | switch c t => exact trivial
    | timer c => exact trivial
    | run c b =>
      intro l body rest habs
      have habs' : (m.todo (m.running c)).flatMap item = .acquire l body :: rest := habs
      unfold Steps at hst
      simp only [SpinCpus.step] at hst
      cases htodo : m.todo (m.running c) with
      | nil =>
        rw [htodo] at hst
        cases hst
      | cons x rest' =>
        rw [htodo] at hst habs'
        cases x with
        | testAndSet l' spins body' =>
          -- a turn of the loop would not be seen
          by_cases hfree : (m.locks l').locked = 0
          · exact hmask l' spins body' rest' htodo hfree
          · rw [← Option.some.inj hst] at hsame
            exact absurd (silent_runItem htodo hfree b) hsame
        | addAcquisition l' spins =>
          rw [← Option.some.inj hst] at hsame
          exact absurd (silent_runItem htodo trivial b) hsame
        | addContention l' spins =>
          rw [← Option.some.inj hst] at hsame
          exact absurd (silent_runItem htodo trivial b) hsame
        | addSpins l' spins =>
          rw [← Option.some.inj hst] at hsame
          exact absurd (silent_runItem htodo trivial b) hsame
        | _ => cases habs'

/-- A lock taken with interrupts on breaks the discipline at once. -/
theorem Good.breaks {a : ThreadAct T n} (h : m.Good plain)
    (hplain : ∀ l, plain l → ∀ c, (handler c).Locks l) (hst : Steps handler m a m')
    (hmask : ¬ m.Masked a) : ¬ m'.Disciplined handler := by
  cases a with
  | switch c t => exact absurd trivial hmask
  | timer c => exact absurd trivial hmask
  | run c b =>
    simp only [Masked, not_forall, Bool.not_eq_false] at hmask
    obtain ⟨l, spins, body, rest, htodo, hfree, hon⟩ := hmask
    have horder := h.2.order c
    have hitems : m.threads.todo (m.threads.running c) = .acquire l body :: rest.flatMap item :=
      threads_todo htodo
    rw [hitems] at horder
    have hl : plain l := (horder.2.2.1 hon).1
    have hm' : m' = m.runItem handler c b rest (.testAndSet l spins body) := by
      unfold Steps at hst
      simp only [SpinCpus.step, htodo] at hst
      exact (Option.some.inj hst).symm
    intro hdisc
    -- the thread holds `l` now, and its CPU still takes interrupts
    have hholds : .release l ∈ m'.todo (m.running c) := by
      rw [hm', runItem, if_pos hfree]
      show .release l ∈ Function.update m.todo (m.running c) _ (m.running c)
      rw [Function.update_self]
      simp
    obtain ⟨c', hrun, hoff⟩ := hdisc.2 l ⟨c, hplain l hl c⟩ (m.running c) hholds
    rw [hm'] at hrun hoff
    have hc : c' = c := h.1.inj c' c hrun
    rw [hc] at hoff
    exact absurd (hon.symm.trans hoff) (by decide)

end

/-- At the start the kernel's threads are in order. -/
theorem start_good {T : Type} {n : Nat} {m : SpinCpus (KernelLock n) T n} (h : SpinStart m) :
    m.Good PlainLock := by
  refine ⟨h.flags, h.inj, fun c => ?_, fun t ht => ?_⟩
  · obtain ⟨a, ⟨calls, rfl⟩, htodo⟩ := h.running c
    show InOrder _ _ ((m.todo (m.running c)).flatMap item)
    rw [htodo]
    exact ⟨threadCode_fits calls, fun _ => rfl, trivial⟩
  · obtain ⟨f, a, ⟨calls, rfl⟩, htodo⟩ := h.waiting t ht
    show InOrder _ _ ((m.todo t).flatMap item) ∧ Lib.held ((m.todo t).flatMap item) = []
    rw [htodo]
    exact ⟨⟨fun _ => rfl, threadCode_fits calls, fun _ => rfl, trivial⟩, rfl⟩

end SpinCpus

/-- **The lock discipline of the kernel, for the code of lock.c**: in every
    state of a run no CPU tests and sets a lock that the code it interrupted
    holds, and the locks of the timer interrupt are held with interrupts off
    only, if and only if every test-and-set of the run that succeeds is
    executed with interrupts off. -/
theorem kernel_spin_disciplined_iff {T : Type} [DecidableEq T] {n : Nat}
    {m m' : SpinCpus (KernelLock n) T n}
    {tr : List (Transition (SpinCpus (KernelLock n) T n) (ThreadAct T n))} (h : SpinStart m)
    (hrun : Run (SpinCpus.Steps Locking.timerInterrupt) m tr m') :
    (∀ x ∈ tr, x.2.2.Disciplined Locking.timerInterrupt) ↔ ∀ x ∈ tr, x.1.Masked x.2.1 := by
  have hplain : ∀ l, PlainLock l → ∀ c, (Locking.timerInterrupt (n := n) c).Locks l := by
    intro l hl c
    have hcpu : l = .cpu := hl
    rw [hcpu]
    exact Locking.timerInterrupt_locks_cpu c
  refine hrun.always_iff (I := SpinCpus.Good PlainLock) ?_ ?_ ?_ (SpinCpus.start_good h)
  · intro m a m' hm hmask hst
    exact hm.step Locking.timerInterrupt_fits hmask hst
  · intro m hm
    exact .of_threads hm.2.disciplined
  · intro m a m' hm hst hmask
    exact hm.breaks hplain hst hmask

/-- One CPU, whose thread is about to create a task with interrupts on. -/
def createSpinStart : SpinCpus (KernelLock 1) Unit 1 where
  todo _ := [.code (threadCode [.taskCreate ⟨0, Nat.one_pos⟩])]
  running _ := ()
  intr _ := true
  locks _ := ⟨0, 0, 0, 0⟩

/-- `kernel_spin_disciplined_iff` for the first step of the thread. -/
theorem kernel_spin_disciplined_iff_first :
    ∃ m, SpinCpus.Steps Locking.timerInterrupt createSpinStart (.run 0 false) m ∧
      m.Disciplined Locking.timerInterrupt := by
  have hstart : SpinStart createSpinStart :=
    ⟨fun _ _ _ => Subsingleton.elim _ _, fun _ => ⟨_, ⟨_, rfl⟩, rfl⟩, fun _ ht => absurd rfl (ht 0),
      fun _ => rfl⟩
  obtain ⟨m, hst⟩ : ∃ m, SpinCpus.Steps Locking.timerInterrupt createSpinStart (.run 0 false) m :=
    ⟨_, rfl⟩
  have hiff := kernel_spin_disciplined_iff hstart ((Run.nil createSpinStart).snoc hst)
  refine ⟨m, hst, hiff.mpr (fun x hx => ?_) (_, _, _) (List.mem_singleton_self _)⟩
  rw [List.mem_singleton.mp hx]
  intro l spins body rest htodo
  cases htodo

end ZohoOs
