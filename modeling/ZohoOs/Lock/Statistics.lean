/-
  ZohoOs.Lock.Statistics — the counters of a lock (lock.c).

  `spin_lock` counts after it has the lock, with three atomic additions, while
  other CPUs spin on the lock, release it or read the counters, and the timer
  may interrupt between any two of them.

  Main result: `spin_statistics` — no update of a counter is lost.
-/
import ZohoOs.Lock.Spinlock
import Mathlib.Data.BitVec
import Mathlib.Algebra.BigOperators.Group.Finset.Piecewise
import Mathlib.Tactic.Abel

namespace ZohoOs

open ZohoOs.Lib

universe u v

/-! ## §1. What is counted. -/

/-- The counters of a lock. -/
inductive LockCounter where
  | acquisitions
  | contentions
  | spinLoops

/-- The value of a counter. -/
def Spinlock.count (s : Spinlock) : LockCounter → Word
  | .acquisitions => s.acquisitions
  | .contentions => s.contentions
  | .spinLoops => s.spinLoops

/-- What an acquisition after `spins` turns of the loop adds to a counter. -/
def acquired (spins : Word) : LockCounter → Word
  | .acquisitions => 1
  | .contentions => if spins = 0 then 0 else 1
  | .spinLoops => spins

namespace SpinItem

variable {L : Type u} [DecidableEq L]

/-- What an item has still to add to counter `k` of lock `l`. -/
def owes (k : LockCounter) (l : L) : SpinItem L → Word
  | .testAndSet l' spins _ => if l' = l then (match k with | .spinLoops => spins | _ => 0) else 0
  | .addAcquisition l' spins => if l' = l then acquired spins k else 0
  | .addContention l' spins =>
      if l' = l then (match k with | .acquisitions => 0 | .contentions => 1 | .spinLoops => spins)
      else 0
  | .addSpins l' spins => if l' = l then (match k with | .spinLoops => spins | _ => 0) else 0
  | _ => 0

/-- **What an instruction has to be counted as**: a test-and-set that succeeds
    is an acquisition, and a contention if the loop turned before; one that
    fails is a turn of the loop. -/
def counts (k : LockCounter) (l : L) (locked : BitVec 32) : SpinItem L → Word
  | .testAndSet l' spins _ =>
      if l' = l then
        if locked = 0 then
          (match k with | .acquisitions => 1 | .contentions => if spins = 0 then 0 else 1 | .spinLoops => 0)
        else (match k with | .spinLoops => 1 | _ => 0)
      else 0
  | _ => 0

/-- What a thread has still to add. -/
def owed (k : LockCounter) (l : L) (todo : List (SpinItem L)) : Word :=
  (todo.map (owes k l)).sum

@[simp] theorem owed_cons (k : LockCounter) (l : L) (x : SpinItem L) (todo : List (SpinItem L)) :
    owed k l (x :: todo) = x.owes k l + owed k l todo := by
  simp [owed]

end SpinItem

namespace SpinCpus

variable {L : Type u} {T : Type v} {n : Nat} [DecidableEq L] [DecidableEq T]
  {handler : Fin n → Code L} {m m' : SpinCpus L T n} {c : Fin n}

/-- What the next step has to be counted as. -/
def counts (k : LockCounter) (l : L) (m : SpinCpus L T n) : ThreadAct T n → Word
  | .run c _ =>
      match m.todo (m.running c) with
      | x :: _ => x.counts k l (m.locks l).locked
      | [] => 0
  | _ => 0

variable [Fintype T]

/-- A counter, with what the threads have still to add. -/
def tally (k : LockCounter) (l : L) (m : SpinCpus L T n) : Word :=
  (m.locks l).count k + ∑ t, SpinItem.owed k l (m.todo t)

/-- One thread goes on with `todo`. -/
theorem sum_goOn (k : LockCounter) (l : L) (m : SpinCpus L T n) (c : Fin n)
    (todo : List (SpinItem L)) :
    ∑ t, SpinItem.owed k l ((m.goOn c todo).todo t) + SpinItem.owed k l (m.todo (m.running c)) =
      ∑ t, SpinItem.owed k l (m.todo t) + SpinItem.owed k l todo := by
  have hupdate : ∀ t, SpinItem.owed k l ((m.goOn c todo).todo t) =
      Function.update (fun t => SpinItem.owed k l (m.todo t)) (m.running c)
        (SpinItem.owed k l todo) t := by
    intro t
    show SpinItem.owed k l (Function.update m.todo (m.running c) todo t) = _
    by_cases ht : t = m.running c
    · rw [ht, Function.update_self, Function.update_self]
    · rw [Function.update_of_ne ht, Function.update_of_ne ht]
  rw [Finset.sum_congr rfl fun t _ => hupdate t,
    Finset.sum_update_of_mem (Finset.mem_univ (m.running c)),
    Finset.sum_eq_add_sum_sdiff_singleton_of_mem (Finset.mem_univ (m.running c))
      fun t => SpinItem.owed k l (m.todo t)]
  abel

/-- The rule for a step of CPU `c`: what the thread owes no more is in the
    counter, but for what the step is counted as. -/
theorem tally_goOn {k : LockCounter} {l : L} {todo : List (SpinItem L)} {d : Word}
    (htodo : m'.todo = (m.goOn c todo).todo)
    (hcount : (m'.locks l).count k + SpinItem.owed k l todo =
      (m.locks l).count k + SpinItem.owed k l (m.todo (m.running c)) + d) :
    m'.tally k l = m.tally k l + d := by
  have hsum := sum_goOn k l m c todo
  rw [← htodo] at hsum
  refine add_right_cancel (b := SpinItem.owed k l (m.todo (m.running c)) + SpinItem.owed k l todo) ?_
  unfold tally
  calc (m'.locks l).count k + ∑ t, SpinItem.owed k l (m'.todo t) +
        (SpinItem.owed k l (m.todo (m.running c)) + SpinItem.owed k l todo)
      = (m'.locks l).count k + SpinItem.owed k l todo +
          (∑ t, SpinItem.owed k l (m'.todo t) + SpinItem.owed k l (m.todo (m.running c))) := by abel
    _ = (m.locks l).count k + SpinItem.owed k l (m.todo (m.running c)) + d +
          (∑ t, SpinItem.owed k l (m.todo t) + SpinItem.owed k l todo) := by rw [hcount, hsum]
    _ = (m.locks l).count k + ∑ t, SpinItem.owed k l (m.todo t) + d +
          (SpinItem.owed k l (m.todo (m.running c)) + SpinItem.owed k l todo) := by abel

/-! ## §2. Each instruction adds what it is counted as. -/

/-- A step that counts nothing and owes what it owed. -/
theorem tally_same {k : LockCounter} {l : L} {todo : List (SpinItem L)}
    (htodo : m'.todo = (m.goOn c todo).todo) (hlocks : m'.locks = m.locks)
    (howed : SpinItem.owed k l todo = SpinItem.owed k l (m.todo (m.running c))) :
    m'.tally k l = m.tally k l := by
  have h := tally_goOn (d := 0) (k := k) (l := l) htodo (by rw [hlocks, howed, add_zero])
  rw [h, add_zero]

/-- Code owes nothing, and a lock not yet tried for owes nothing. -/
theorem tally_runCode {a : Code L} {rest : List (SpinItem L)} (k : LockCounter) (l : L)
    (htodo : m.todo (m.running c) = .code a :: rest) (b : Bool) :
    (m.runCode handler c b rest a).tally k l = m.tally k l := by
  have hrest : SpinItem.owed k l (m.todo (m.running c)) = SpinItem.owed k l rest := by
    rw [htodo, SpinItem.owed_cons]
    exact zero_add _
  cases a with
  | skip => exact tally_same (c := c) rfl rfl hrest.symm
  | seq x y =>
    refine tally_same (c := c) rfl rfl ?_
    rw [hrest]
    simp [SpinItem.owes]
  | choice x y =>
    refine tally_same (c := c) rfl rfl ?_
    rw [hrest]
    simp [SpinItem.owes]
  | loop x =>
    refine tally_same (c := c) rfl rfl ?_
    rw [hrest]
    cases b <;> simp [SpinItem.owes]
  | spin l' body =>
    refine tally_same (c := c) rfl rfl ?_
    rw [hrest]
    cases k <;> simp [SpinItem.owes]
  | irqsave l' body =>
    refine tally_same (c := c) rfl rfl ?_
    rw [hrest]
    simp [SpinItem.owes]
  | masked body =>
    refine tally_same (c := c) rfl rfl ?_
    rw [hrest]
    simp [SpinItem.owes]
  | yield =>
    refine tally_same (c := c) rfl rfl ?_
    rw [hrest]
    simp [SpinItem.owes, frame]

/-- The rule for an instruction on lock `l'`: the others see nothing of it. -/
theorem tally_setLock {k : LockCounter} {l l' : L} {x : SpinItem L} {rest todo : List (SpinItem L)}
    {s : Spinlock} {d : Word} (htodo : m.todo (m.running c) = x :: rest)
    (hown : l' = l → s.count k + SpinItem.owed k l todo =
      (m.locks l).count k + (x.owes k l + SpinItem.owed k l rest) + d)
    (hother : l' ≠ l → SpinItem.owed k l todo = x.owes k l + SpinItem.owed k l rest + d) :
    ((m.goOn c todo).setLock l' s).tally k l = m.tally k l + d := by
  refine tally_goOn (c := c) rfl ?_
  rw [htodo, SpinItem.owed_cons]
  show (Function.update m.locks l' s l).count k + _ = _
  by_cases hl : l' = l
  · rw [hl, Function.update_self]
    exact hown hl
  · rw [Function.update_of_ne (Ne.symm hl), hother hl]
    abel

/-- **One instruction**, one case for each kind. -/
theorem tally_runItem {x : SpinItem L} {rest : List (SpinItem L)} (k : LockCounter) (l : L)
    (htodo : m.todo (m.running c) = x :: rest) (b : Bool) :
    (m.runItem handler c b rest x).tally k l = m.tally k l + m.counts k l (.run c b) := by
  have hcounts : m.counts k l (.run c b) = x.counts k l (m.locks l).locked := by
    simp only [counts, htodo]
  have howed : SpinItem.owed k l (m.todo (m.running c)) = x.owes k l + SpinItem.owed k l rest := by
    rw [htodo, SpinItem.owed_cons]
  rw [hcounts]
  cases x with
  | code a => exact (tally_runCode k l htodo b).trans (add_zero _).symm
  | cli flags l' body =>
    refine Eq.trans (tally_same (c := c) rfl rfl ?_) (add_zero _).symm
    rw [howed]
    cases k <;> simp [SpinItem.owes]
  | testAndSet l' spins body =>
    refine tally_setLock htodo (fun hl => ?_) fun hl => ?_
    · subst hl
      -- what the loop turned so far is owed before and after
      by_cases hfree : (m.locks l').locked = 0#32
      · cases k <;> simp [SpinItem.owes, SpinItem.counts, acquired, Spinlock.count, hfree] <;> abel
      · cases k <;> simp [SpinItem.owes, SpinItem.counts, Spinlock.count, hfree] <;> abel
    · by_cases hfree : (m.locks l').locked = 0#32
      · simp [SpinItem.owes, SpinItem.counts, hfree, hl]
      · simp [SpinItem.owes, SpinItem.counts, hfree, hl]
  | addAcquisition l' spins =>
    refine tally_setLock htodo (fun hl => ?_) fun hl => ?_
    · subst hl
      by_cases hz : spins = 0#64
      · cases k <;> simp [SpinItem.owes, SpinItem.counts, acquired, Spinlock.count, hz] <;> abel
      · cases k <;> simp [SpinItem.owes, SpinItem.counts, acquired, Spinlock.count, hz] <;> abel
    · split <;> simp [SpinItem.owes, SpinItem.counts, hl]
  | addContention l' spins =>
    refine tally_setLock htodo (fun hl => ?_) fun hl => ?_
    · subst hl
      cases k <;> simp [SpinItem.owes, SpinItem.counts, Spinlock.count] <;> abel
    · simp [SpinItem.owes, SpinItem.counts, hl]
  | addSpins l' spins =>
    refine tally_setLock htodo (fun hl => ?_) fun hl => ?_
    · subst hl
      cases k <;> simp [SpinItem.owes, SpinItem.counts, Spinlock.count] <;> abel
    · simp [SpinItem.owes, SpinItem.counts, hl]
  | release l' =>
    refine tally_setLock htodo (fun hl => ?_) fun hl => ?_
    · subst hl
      cases k <;> simp [SpinItem.owes, SpinItem.counts, Spinlock.count]
    · simp [SpinItem.owes, SpinItem.counts]
  | restore f =>
    refine Eq.trans (tally_same (c := c) rfl rfl ?_) (add_zero _).symm
    rw [howed]
    exact (zero_add _).symm
  | switch => exact (add_zero _).symm

/-- **One step** adds what it is counted as. -/
theorem tally_step {a : ThreadAct T n} (k : LockCounter) (l : L) (hst : Steps handler m a m') :
    m'.tally k l = m.tally k l + m.counts k l a := by
  cases a with
  | run c b =>
    unfold Steps at hst
    simp only [SpinCpus.step] at hst
    cases htodo : m.todo (m.running c) with
    | nil =>
      rw [htodo] at hst
      cases hst
    | cons x rest =>
      rw [htodo] at hst
      have hrun : m' = m.runItem handler c b rest x := by
        cases x with
        | switch => cases hst
        | _ => exact (Option.some.inj hst).symm
      rw [hrun]
      exact tally_runItem k l htodo b
  | switch c t =>
    refine Eq.trans ?_ (add_zero _).symm
    unfold Steps at hst
    simp only [SpinCpus.step] at hst
    cases htodo : m.todo (m.running c) with
    | nil =>
      rw [htodo] at hst
      cases hst
    | cons x rest =>
      rw [htodo] at hst
      cases x with
      | switch =>
        dsimp only at hst
        by_cases ht : ∀ c' ≠ c, m.running c' ≠ t
        · rw [if_pos ht] at hst
          rw [← Option.some.inj hst]
          refine tally_same (c := c) rfl rfl ?_
          rw [htodo, SpinItem.owed_cons]
          exact (zero_add _).symm
        · rw [if_neg ht] at hst
          cases hst
      | _ => cases hst
  | timer c =>
    refine Eq.trans ?_ (add_zero _).symm
    unfold Steps at hst
    simp only [SpinCpus.step] at hst
    by_cases hi : m.intr c = true
    · simp only [hi, if_true] at hst
      rw [← Option.some.inj hst]
      refine tally_same (c := c) rfl rfl ?_
      simp [frame, SpinItem.owes]
    · simp only [hi] at hst
      cases hst

/-- **No count is lost**: along every run, however the CPUs and their
    interrupts interleave, each counter grows by the test-and-sets that it
    counts, but for what threads inside `spin_lock` have still to add. -/
theorem spin_statistics {tr : List (Transition (SpinCpus L T n) (ThreadAct T n))}
    (hrun : Run (Steps handler) m tr m') (k : LockCounter) (l : L) :
    (m'.locks l).count k + ∑ t, SpinItem.owed k l (m'.todo t) =
      (m.locks l).count k + ∑ t, SpinItem.owed k l (m.todo t) +
        (tr.map fun x => x.1.counts k l x.2.1).sum := by
  have hstep : ∀ (s : SpinCpus L T n) a s', Steps handler s a s' →
      s'.tally k l = s.tally k l + s.counts k l a := fun _ _ _ hst => tally_step k l hst
  exact hrun.ledger hstep

/-- `spin_statistics` for a CPU that takes a free lock: the acquisition is owed
    until it is counted. -/
theorem spin_statistics_take : ∃ m tr, Run (Steps fun _ => .skip) twoSpinners tr m ∧
    (m.locks ()).acquisitions = 0 ∧
    (m.locks ()).count .acquisitions + ∑ t, SpinItem.owed .acquisitions () (m.todo t) = 1 := by
  have hcall : Steps (fun _ => .skip) twoSpinners (.run 0 false)
      (twoSpinners.goOn 0 [.testAndSet () 0 .skip]) := rfl
  have htake : Steps (fun _ => .skip) (twoSpinners.goOn 0 [.testAndSet () 0 .skip]) (.run 0 false)
      (runItem (twoSpinners.goOn 0 [.testAndSet () 0 .skip]) (fun _ => .skip) 0 false []
        (.testAndSet () 0 .skip)) := rfl
  have hrun := ((Run.nil twoSpinners).snoc hcall).snoc htake
  have hstat := spin_statistics hrun .acquisitions ()
  refine ⟨_, _, hrun, rfl, hstat.trans ?_⟩
  rfl

end SpinCpus

end ZohoOs
