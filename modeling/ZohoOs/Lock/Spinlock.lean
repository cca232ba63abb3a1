/-
  ZohoOs.Lock.Spinlock — spinlocks, instruction by instruction (lock.c).

  `Threads` of Lib.Locks takes a lock in one step.  Here the CPUs execute the
  code of lock.c itself: the test-and-set loop, the three counters, the store
  that releases, and `pushfq`, `cli` and `popfq` around them.  Another CPU may
  go on, and the timer may interrupt, between any two of these.

  Main results:
    * `refines_run` — what `Threads` sees of a run of this code is a run of
      `Threads`;
    * `spin_mutual_exclusion` — the word of a lock is set exactly while a
      thread is between its successful test-and-set and its release, and never
      two threads are.
-/
import ZohoOs.Lib.Exclusion
import ZohoOs.Lib.Word

namespace ZohoOs

open ZohoOs.Lib

universe u v

/-! ## §1. The code. -/

/-- `spinlock_t`, without the name. -/
structure Spinlock where
  locked : BitVec 32
  acquisitions : Word
  contentions : Word
  spinLoops : Word

/-- What a thread has still to do, instruction by instruction. -/
inductive SpinItem (L : Type u) where
  | code (a : Code L)
  /-- `spin_lock_irqsave` after `pushfq`, which stored `flags`. -/
  | cli (flags : Bool) (l : L) (body : Code L)
  /-- `spin_lock` at its `while`, after `spins` turns. -/
  | testAndSet (l : L) (spins : Word) (body : Code L)
  | addAcquisition (l : L) (spins : Word)
  | addContention (l : L) (spins : Word)
  | addSpins (l : L) (spins : Word)
  /-- `spin_unlock`. -/
  | release (l : L)
  /-- `popfq`, `iretq`, `sysret`. -/
  | restore (f : Bool)
  | switch

/-- Threads `T` on `n` CPUs that execute lock.c. -/
structure SpinCpus (L : Type u) (T : Type v) (n : Nat) where
  todo : T → List (SpinItem L)
  running : Fin n → T
  /-- The interrupt flags. -/
  intr : Fin n → Bool
  locks : L → Spinlock

namespace SpinCpus

variable {L : Type u} {T : Type v} {n : Nat} [DecidableEq L] [DecidableEq T]

def goOn (m : SpinCpus L T n) (c : Fin n) (todo : List (SpinItem L)) : SpinCpus L T n :=
  { m with todo := Function.update m.todo (m.running c) todo }

def setIntr (m : SpinCpus L T n) (c : Fin n) (f : Bool) : SpinCpus L T n :=
  { m with intr := Function.update m.intr c f }

def setLock (m : SpinCpus L T n) (l : L) (s : Spinlock) : SpinCpus L T n :=
  { m with locks := Function.update m.locks l s }

/-- The interrupt frame: the handler, the switch, and the return. -/
def frame (handler : Code L) (f : Bool) (todo : List (SpinItem L)) : List (SpinItem L) :=
  .code handler :: .switch :: .restore f :: todo

/-- Code up to its next lock operation. -/
def runCode (m : SpinCpus L T n) (handler : Fin n → Code L) (c : Fin n) (b : Bool)
    (rest : List (SpinItem L)) : Code L → SpinCpus L T n
  | .skip => m.goOn c rest
  | .seq x y => m.goOn c (.code x :: .code y :: rest)
  | .choice x y => m.goOn c (.code (if b then x else y) :: rest)
  | .loop x => m.goOn c (if b then .code x :: .code (.loop x) :: rest else rest)
  | .spin l body => m.goOn c (.testAndSet l 0 body :: rest)
  | .irqsave l body => m.goOn c (.cli (m.intr c) l body :: rest)
  | .masked body => (m.goOn c (.code body :: .restore (m.intr c) :: rest)).setIntr c false
  | .yield => (m.goOn c (frame (handler c) (m.intr c) rest)).setIntr c false

/-- One instruction of CPU `c`, with `rest` to do after it. -/
def runItem (m : SpinCpus L T n) (handler : Fin n → Code L) (c : Fin n) (b : Bool)
    (rest : List (SpinItem L)) : SpinItem L → SpinCpus L T n
  | .code a => m.runCode handler c b rest a
  | .cli flags l body => (m.goOn c (.testAndSet l 0 body :: .restore flags :: rest)).setIntr c false
  | .testAndSet l spins body =>
      -- `__sync_lock_test_and_set` stores 1 and tells what was there
      (m.goOn c (if (m.locks l).locked = 0 then
          .addAcquisition l spins :: .code body :: .release l :: rest
        else .testAndSet l (spins + 1) body :: rest)).setLock l { m.locks l with locked := 1 }
  | .addAcquisition l spins =>
      (m.goOn c (if spins = 0 then rest else .addContention l spins :: rest)).setLock l
        { m.locks l with acquisitions := (m.locks l).acquisitions + 1 }
  | .addContention l spins =>
      (m.goOn c (.addSpins l spins :: rest)).setLock l
        { m.locks l with contentions := (m.locks l).contentions + 1 }
  | .addSpins l spins =>
      (m.goOn c rest).setLock l { m.locks l with spinLoops := (m.locks l).spinLoops + spins }
  | .release l => (m.goOn c rest).setLock l { m.locks l with locked := 0 }
  | .restore f => (m.goOn c rest).setIntr c f
  | .switch => m

/-- **One step**; `none` means that the step cannot happen now. -/
def step (handler : Fin n → Code L) (m : SpinCpus L T n) :
    ThreadAct T n → Option (SpinCpus L T n)
  | .run c b =>
      match m.todo (m.running c) with
      | [] => none
      | .switch :: _ => none
      | x :: rest => some (m.runItem handler c b rest x)
  | .switch c t =>
      match m.todo (m.running c) with
      | .switch :: rest =>
          if ∀ c' ≠ c, m.running c' ≠ t then
            some { m.goOn c rest with running := Function.update m.running c t }
          else none
      | _ => none
  | .timer c =>
      if m.intr c then
        some ((m.goOn c (frame (handler c) true (m.todo (m.running c)))).setIntr c false)
      else none

/-- The steps as a relation. -/
def Steps (handler : Fin n → Code L) (m : SpinCpus L T n) (a : ThreadAct T n)
    (m' : SpinCpus L T n) : Prop :=
  m.step handler a = some m'

/-! ## §2. What the atomic locks see of it. -/

/-- An item as Lib.Locks has it: `pushfq` and the counters are not seen. -/
def item : SpinItem L → List (Item L)
  | .code a => [.code a]
  | .cli _ l body => [.code (.irqsave l body)]
  | .testAndSet l _ body => [.acquire l body]
  | .addAcquisition _ _ => []
  | .addContention _ _ => []
  | .addSpins _ _ => []
  | .release l => [.release l]
  | .restore f => [.restore f]
  | .switch => [.switch]

/-- The state as Lib.Locks has it. -/
def threads (m : SpinCpus L T n) : Threads L T n where
  todo t := (m.todo t).flatMap item
  running := m.running
  intr := m.intr
  locked l := decide ((m.locks l).locked ≠ 0)

/-- What `spin_lock_irqsave` stored is the interrupt flag with which its thread
    goes on, `i` for the first item. -/
def FlagsOk : Bool → List (SpinItem L) → Prop
  | _, [] => True
  | i, .cli flags _ _ :: todo => flags = i ∧ FlagsOk i todo
  | _, .restore f :: todo => FlagsOk f todo
  | i, .switch :: todo => i = false ∧ FlagsOk false todo
  | i, .code _ :: todo => FlagsOk i todo
  | i, .testAndSet _ _ _ :: todo => FlagsOk i todo
  | i, .addAcquisition _ _ :: todo => FlagsOk i todo
  | i, .addContention _ _ :: todo => FlagsOk i todo
  | i, .addSpins _ _ :: todo => FlagsOk i todo
  | i, .release _ :: todo => FlagsOk i todo

/-- **The invariant of the flags**. -/
structure Flags (m : SpinCpus L T n) : Prop where
  inj : ∀ c c', m.running c = m.running c' → c = c'
  running : ∀ c, FlagsOk (m.intr c) (m.todo (m.running c))
  waiting : ∀ t, (∀ c, m.running c ≠ t) → FlagsOk false (m.todo t)

variable {handler : Fin n → Code L} {m m' : SpinCpus L T n} {c : Fin n}

omit [DecidableEq L] in
/-- The rule for a step of CPU `c` that switches to no other thread. -/
theorem Flags.of_todo {todo : List (SpinItem L)} (h : m.Flags) (hrun : m'.running = m.running)
    (htodo : m'.todo = Function.update m.todo (m.running c) todo)
    (hintr : ∀ c', c' ≠ c → m'.intr c' = m.intr c') (hok : FlagsOk (m'.intr c) todo) : m'.Flags := by
  refine ⟨fun c₁ c₂ he => ?_, fun c' => ?_, fun t ht => ?_⟩
  · rw [hrun] at he
    exact h.inj c₁ c₂ he
  · rw [hrun, htodo]
    by_cases hc : c' = c
    · subst hc
      rw [Function.update_self]
      exact hok
    · rw [Function.update_of_ne fun he => hc (h.inj c' c he), hintr c' hc]
      exact h.running c'
  · rw [hrun] at ht
    rw [htodo, Function.update_of_ne (Ne.symm (ht c))]
    exact h.waiting t ht

omit [DecidableEq L] in
theorem Flags.goOn {todo : List (SpinItem L)} (h : m.Flags) (hok : FlagsOk (m.intr c) todo) :
    (m.goOn c todo).Flags :=
  h.of_todo rfl rfl (fun _ _ => rfl) hok

omit [DecidableEq L] in
theorem Flags.goOn_setIntr {todo : List (SpinItem L)} {f : Bool} (h : m.Flags)
    (hok : FlagsOk f todo) : ((m.goOn c todo).setIntr c f).Flags := by
  refine h.of_todo (c := c) rfl rfl (fun c' hc => Function.update_of_ne hc _ _) ?_
  show FlagsOk (Function.update m.intr c f c) todo
  rw [Function.update_self]
  exact hok

theorem Flags.setLock {l : L} {s : Spinlock} (h : m.Flags) : (m.setLock l s).Flags :=
  ⟨h.inj, h.running, h.waiting⟩


/-- Code leaves the flag as it found it. -/
theorem Flags.runCode {a : Code L} {rest : List (SpinItem L)} (h : m.Flags)
    (hok : FlagsOk (m.intr c) rest) (b : Bool) : (m.runCode handler c b rest a).Flags := by
  cases a with
  | skip => exact h.goOn hok
  | seq x y => exact h.goOn hok
  | choice x y => exact h.goOn hok
  | loop x =>
    cases b with
    | true => exact h.goOn hok
    | false => exact h.goOn hok
  | spin l body => exact h.goOn hok
  | irqsave l body => exact h.goOn ⟨rfl, hok⟩
  | masked body => exact h.goOn_setIntr hok
  | yield => exact h.goOn_setIntr ⟨rfl, hok⟩

/-- **One instruction** keeps the flags, one case for each kind. -/
theorem Flags.runItem {x : SpinItem L} {rest : List (SpinItem L)} (h : m.Flags)
    (htodo : m.todo (m.running c) = x :: rest) (b : Bool) :
    (m.runItem handler c b rest x).Flags := by
  have hok := h.running c
  rw [htodo] at hok
  cases x with
  | code a =>
    have hrest : FlagsOk (m.intr c) rest := hok
    exact h.runCode hrest b
  | cli flags l body =>
    refine h.goOn_setIntr (f := false) ?_
    show FlagsOk flags rest
    rw [hok.1]
    exact hok.2
  | testAndSet l spins body =>
    refine Flags.setLock (h.goOn ?_)
    split
    · exact hok
    · exact hok
  | addAcquisition l spins =>
    refine Flags.setLock (h.goOn ?_)
    split
    · exact hok
    · exact hok
  | addContention l spins => exact Flags.setLock (h.goOn hok)
  | addSpins l spins => exact Flags.setLock (h.goOn hok)
  | release l => exact Flags.setLock (h.goOn hok)
  | restore f => exact h.goOn_setIntr hok
  | switch => exact h

omit [DecidableEq L] in
/-- Switching: both the thread that leaves and the one that comes go on with
    interrupts off. -/
theorem Flags.switchTo {rest : List (SpinItem L)} {t : T} (h : m.Flags)
    (htodo : m.todo (m.running c) = .switch :: rest) (ht : ∀ c' ≠ c, m.running c' ≠ t) :
    Flags { m.goOn c rest with running := Function.update m.running c t } := by
  have hok := h.running c
  rw [htodo] at hok
  have hother : ∀ c' ≠ c, Function.update m.running c t c' = m.running c' := fun c' hc =>
    Function.update_of_ne hc _ _
  have hoff : ∀ u, (∀ c' ≠ c, m.running c' ≠ u) →
      FlagsOk false (Function.update m.todo (m.running c) rest u) := by
    intro u hu
    by_cases huc : u = m.running c
    · rw [huc, Function.update_self]
      exact hok.2
    · rw [Function.update_of_ne huc]
      refine h.waiting u fun c' he => ?_
      by_cases hc : c' = c
      · subst hc
        exact huc he.symm
      · exact hu c' hc he
  refine ⟨fun c₁ c₂ he => ?_, fun c' => ?_, fun u hu => ?_⟩
  · have he' : Function.update m.running c t c₁ = Function.update m.running c t c₂ := he
    by_cases h₁ : c₁ = c
    · by_cases h₂ : c₂ = c
      · exact h₁.trans h₂.symm
      · rw [h₁, Function.update_self, hother c₂ h₂] at he'
        exact absurd he'.symm (ht c₂ h₂)
    · by_cases h₂ : c₂ = c
      · rw [h₂, Function.update_self, hother c₁ h₁] at he'
        exact absurd he' (ht c₁ h₁)
      · rw [hother c₁ h₁, hother c₂ h₂] at he'
        exact h.inj c₁ c₂ he'
  · show FlagsOk (m.intr c') (Function.update m.todo (m.running c) rest
      (Function.update m.running c t c'))
    by_cases hc : c' = c
    · subst hc
      rw [Function.update_self, hok.1]
      exact hoff t ht
    · rw [hother c' hc, Function.update_of_ne fun he => hc (h.inj c' c he)]
      exact h.running c'
  · refine hoff u fun c' hc he => hu c' ?_
    exact (hother c' hc).trans he

/-- **Every step keeps the flags**. -/
theorem Flags.step {a : ThreadAct T n} (h : m.Flags) (hst : Steps handler m a m') : m'.Flags := by
  cases a with
  | run c b =>
    unfold Steps at hst
    simp only [SpinCpus.step] at hst
    cases htodo : m.todo (m.running c) with
    | nil =>
      rw [htodo] at hst
      cases hst
    | cons x rest =>
      rw [htodo] at hst
      have hrun : m' = m.runItem handler c b rest x := by
        cases x with
        | switch => cases hst
        | _ => exact (Option.some.inj hst).symm
      rw [hrun]
      exact h.runItem htodo b
  | switch c t =>
    unfold Steps at hst
    simp only [SpinCpus.step] at hst
    cases htodo : m.todo (m.running c) with
    | nil =>
      rw [htodo] at hst
      cases hst
    | cons x rest =>
      rw [htodo] at hst
      cases x with
      | switch =>
        dsimp only at hst
        by_cases ht : ∀ c' ≠ c, m.running c' ≠ t
        · rw [if_pos ht] at hst
          rw [← Option.some.inj hst]
          exact h.switchTo htodo ht
        · rw [if_neg ht] at hst
          cases hst
      | _ => cases hst
  | timer c =>
    unfold Steps at hst
    simp only [SpinCpus.step] at hst
    by_cases hi : m.intr c = true
    · simp only [hi, if_true] at hst
      rw [← Option.some.inj hst]
      have hok := h.running c
      rw [hi] at hok
      exact h.goOn_setIntr ⟨rfl, hok⟩
    · simp only [hi] at hst
      cases hst

/-! ## §3. The code refines the atomic locks. -/

omit [DecidableEq L] in
theorem threads_goOn (m : SpinCpus L T n) (c : Fin n) (todo : List (SpinItem L)) :
    (m.goOn c todo).threads = m.threads.goOn c (todo.flatMap item) := by
  have htodo : (fun t => (Function.update m.todo (m.running c) todo t).flatMap item) =
      Function.update (fun t => (m.todo t).flatMap item) (m.running c) (todo.flatMap item) := by
    funext t
    by_cases ht : t = m.running c
    · rw [ht, Function.update_self, Function.update_self]
    · rw [Function.update_of_ne ht, Function.update_of_ne ht]
  unfold threads goOn Threads.goOn
  rw [htodo]

omit [DecidableEq L] [DecidableEq T] in
theorem threads_setIntr (m : SpinCpus L T n) (c : Fin n) (f : Bool) :
    (m.setIntr c f).threads = m.threads.setIntr c f := rfl

omit [DecidableEq T] in
theorem threads_setLock (m : SpinCpus L T n) (l : L) (s : Spinlock) :
    (m.setLock l s).threads =
      { m.threads with locked := Function.update m.threads.locked l (decide (s.locked ≠ 0)) } := by
  have hlocked : (fun k => decide ((Function.update m.locks l s k).locked ≠ 0)) =
      Function.update (fun k => decide ((m.locks k).locked ≠ 0)) l (decide (s.locked ≠ 0)) := by
    funext k
    by_cases hk : k = l
    · rw [hk, Function.update_self, Function.update_self]
    · rw [Function.update_of_ne hk, Function.update_of_ne hk]
  unfold threads setLock
  rw [hlocked]

omit [DecidableEq T] in
/-- An update of a counter is not seen. -/
theorem threads_setLock_same (m : SpinCpus L T n) (l : L) {s : Spinlock}
    (hs : s.locked = (m.locks l).locked) : (m.setLock l s).threads = m.threads := by
  rw [threads_setLock, hs]
  have hself : Function.update m.threads.locked l (decide ((m.locks l).locked ≠ 0)) =
      m.threads.locked := Function.update_eq_self l m.threads.locked
  rw [hself]

omit [DecidableEq L] [DecidableEq T] in
theorem threads_todo {x : SpinItem L} {rest : List (SpinItem L)}
    (htodo : m.todo (m.running c) = x :: rest) :
    m.threads.todo (m.running c) = item x ++ rest.flatMap item := by
  show (m.todo (m.running c)).flatMap item = _
  rw [htodo]
  rfl

omit [DecidableEq L] in
/-- A thread that goes on with what the atomic locks do not see. -/
theorem threads_goOn_same {todo : List (SpinItem L)}
    (htodo : todo.flatMap item = m.threads.todo (m.running c)) : (m.goOn c todo).threads = m.threads := by
  rw [threads_goOn, htodo]
  unfold Threads.goOn
  have hself : Function.update m.threads.todo (m.threads.running c) (m.threads.todo (m.running c)) =
      m.threads.todo := Function.update_eq_self _ _
  rw [hself]

/-- Code, but for the `pushfq` of `spin_lock_irqsave`. -/
theorem threads_runCode {a : Code L} {rest : List (SpinItem L)} (b : Bool)
    (ha : ∀ l body, a ≠ .irqsave l body) :
    (m.runCode handler c b rest a).threads =
      m.threads.runCode handler c b (rest.flatMap item) a := by
  cases a with
  | irqsave l body => exact absurd rfl (ha l body)
  | loop x =>
    cases b with
    | true => exact threads_goOn m c _
    | false => exact threads_goOn m c _
  | masked body => exact congrArg (fun k => k.setIntr c false) (threads_goOn m c _)
  | yield => exact congrArg (fun k => k.setIntr c false) (threads_goOn m c _)
  | _ => exact threads_goOn m c _

/-- What the first item is for the atomic locks decides their step. -/
theorem step_code {a : Code L} {todo : List (Item L)} (b : Bool)
    (htodo : m.threads.todo (m.running c) = .code a :: todo) :
    m.threads.step handler (.run c b) = some (m.threads.runCode handler c b todo a) := by
  have h : m.threads.todo (m.threads.running c) = .code a :: todo := htodo
  simp only [Threads.step, h]

/-- The instructions that the atomic locks do not see: `pushfq`, a turn of the
    loop, and the counters. -/
def Silent (m : SpinCpus L T n) : SpinItem L → Prop
  | .code a => ∃ l body, a = .irqsave l body
  | .testAndSet l _ _ => (m.locks l).locked ≠ 0
  | .addAcquisition _ _ => True
  | .addContention _ _ => True
  | .addSpins _ _ => True
  | _ => False

theorem silent_runItem {x : SpinItem L} {rest : List (SpinItem L)}
    (htodo : m.todo (m.running c) = x :: rest) (hx : m.Silent x) (b : Bool) :
    (m.runItem handler c b rest x).threads = m.threads := by
  have hitems := threads_todo htodo
  cases x with
  | code a =>
    obtain ⟨l, body, rfl⟩ := hx
    exact threads_goOn_same hitems.symm
  | testAndSet l spins body =>
    -- the test-and-set stores 1 where it is already
    have hset : (m.locks l).locked ≠ 0 := hx
    have hsame : (m.goOn c (.testAndSet l (spins + 1) body :: rest)).threads = m.threads :=
      threads_goOn_same hitems.symm
    have hone : decide ((1 : BitVec 32) ≠ 0) = m.threads.locked l := by
      show _ = decide ((m.locks l).locked ≠ 0)
      rw [decide_eq_true hset]
      rfl
    rw [runItem, if_neg hset, threads_setLock, hsame, hone, Function.update_eq_self]
  | addAcquisition l spins =>
    have hgo : (m.goOn c (if spins = 0 then rest else .addContention l spins :: rest)).threads =
        m.threads := by
      refine threads_goOn_same ?_
      split
      · exact hitems.symm
      · exact hitems.symm
    exact (threads_setLock_same (m.goOn c _) l
      (s := { m.locks l with acquisitions := (m.locks l).acquisitions + 1 }) rfl).trans hgo
  | addContention l spins =>
    have hgo : (m.goOn c (.addSpins l spins :: rest)).threads = m.threads :=
      threads_goOn_same hitems.symm
    exact (threads_setLock_same (m.goOn c _) l
      (s := { m.locks l with contentions := (m.locks l).contentions + 1 }) rfl).trans hgo
  | addSpins l spins =>
    have hgo : (m.goOn c rest).threads = m.threads := threads_goOn_same hitems.symm
    exact (threads_setLock_same (m.goOn c rest) l
      (s := { m.locks l with spinLoops := (m.locks l).spinLoops + spins }) rfl).trans hgo
  | cli flags l body => exact absurd hx id
  | release l => exact absurd hx id
  | restore f => exact absurd hx id
  | switch => exact absurd hx id

/-- The others are steps of the atomic locks. -/
theorem seen_runItem {x : SpinItem L} {rest : List (SpinItem L)} (h : m.Flags)
    (htodo : m.todo (m.running c) = x :: rest) (hx : ¬ m.Silent x) (hsw : x ≠ .switch) (b : Bool) :
    Threads.Steps handler m.threads (.run c b) (m.runItem handler c b rest x).threads := by
  have hitems := threads_todo htodo
  unfold Threads.Steps
  cases x with
  | code a =>
    rw [step_code b hitems]
    exact congrArg some (threads_runCode b fun l body ha => hx ⟨l, body, ha⟩).symm
  | cli flags l body =>
    have hflags : flags = m.intr c := by
      have hok := h.running c
      rw [htodo] at hok
      exact hok.1
    rw [step_code b hitems, hflags]
    exact congrArg (fun k => some (k.setIntr c false))
      (threads_goOn m c (.testAndSet l 0 body :: .restore (m.intr c) :: rest)).symm
  | testAndSet l spins body =>
    have hfirst : m.threads.todo (m.threads.running c) = .acquire l body :: rest.flatMap item := hitems
    have hfree : (m.locks l).locked = 0 := not_not.mp hx
    have hunlocked : m.threads.locked l = false := decide_eq_false hx
    simp only [Threads.step, hfirst, hunlocked, runItem, if_pos hfree, threads_setLock, threads_goOn]
    rfl
  | release l =>
    have hfirst : m.threads.todo (m.threads.running c) = .release l :: rest.flatMap item := hitems
    simp only [Threads.step, hfirst, runItem, threads_setLock, threads_goOn]
    rfl
  | restore f =>
    have hfirst : m.threads.todo (m.threads.running c) = .restore f :: rest.flatMap item := hitems
    simp only [Threads.step, hfirst, runItem, threads_setIntr, threads_goOn]
  | switch => exact absurd rfl hsw
  | _ => exact absurd trivial hx

/-- **The code of lock.c refines the atomic locks**: each step is a step of
    theirs or is not seen there. -/
theorem refines_step {a : ThreadAct T n} (h : m.Flags) (hst : Steps handler m a m') :
    m'.threads = m.threads ∨ Threads.Steps handler m.threads a m'.threads := by
  cases a with
  | run c b =>
    unfold Steps at hst
    simp only [SpinCpus.step] at hst
    cases htodo : m.todo (m.running c) with
    | nil =>
      rw [htodo] at hst
      cases hst
    | cons x rest =>
      rw [htodo] at hst
      cases x with
      | switch => cases hst
      | _ =>
        rw [← Option.some.inj hst]
        exact (Classical.em _).imp (silent_runItem htodo · b)
          (seen_runItem h htodo · (by simp) b)
  | switch c t =>
    right
    unfold Steps at hst
    simp only [SpinCpus.step] at hst
    cases htodo : m.todo (m.running c) with
    | nil =>
      rw [htodo] at hst
      cases hst
    | cons x rest =>
      rw [htodo] at hst
      cases x with
      | switch =>
        dsimp only at hst
        by_cases ht : ∀ c' ≠ c, m.running c' ≠ t
        · rw [if_pos ht] at hst
          have hfirst : m.threads.todo (m.threads.running c) = .switch :: rest.flatMap item :=
            threads_todo htodo
          have ht' : ∀ c' ≠ c, m.threads.running c' ≠ t := ht
          rw [← Option.some.inj hst]
          simp only [Threads.Steps, Threads.step, hfirst, if_pos ht']
          have hgo := threads_goOn m c rest
          unfold threads Threads.goOn at hgo ⊢
          injection hgo with hgo
          rw [← hgo]
          rfl
        · rw [if_neg ht] at hst
          cases hst
      | _ => cases hst
  | timer c =>
    right
    unfold Steps at hst
    simp only [SpinCpus.step] at hst
    by_cases hi : m.intr c = true
    · simp only [hi, if_true] at hst
      rw [← Option.some.inj hst]
      have hi' : m.threads.intr c = true := hi
      simp only [Threads.Steps, Threads.step, hi', if_true, threads_setIntr, threads_goOn]
      rfl
    · simp only [hi] at hst
      cases hst

/-- Whole runs: what the atomic locks see of a run is a run of theirs. -/
theorem refines_run {tr : List (Transition (SpinCpus L T n) (ThreadAct T n))}
    (hrun : Run (Steps handler) m tr m') (h : m.Flags) :
    ∃ tr', Run (Threads.Steps handler) m.threads tr' m'.threads ∧
      (∀ x ∈ tr, x.2.2.threads ≠ x.1.threads → (x.1.threads, x.2.1, x.2.2.threads) ∈ tr') ∧
      ∀ y ∈ tr', ∃ x ∈ tr, x.2.2.threads ≠ x.1.threads ∧ y = (x.1.threads, x.2.1, x.2.2.threads) :=
  hrun.project (f := threads) (fun _ _ _ hm hst => hm.step hst) (fun _ _ _ hm hst => refines_step hm hst) h

/-! ## §4. Mutual exclusion. -/

/-- The threads are about to run code, or wait in an interrupt frame, and no
    lock is held. -/
structure Start (m : SpinCpus L T n) (P : Code L → Prop) : Prop where
  inj : ∀ c c', m.running c = m.running c' → c = c'
  running : ∀ c, ∃ a, P a ∧ m.todo (m.running c) = [.code a]
  waiting : ∀ t, (∀ c, m.running c ≠ t) → ∃ f a, P a ∧ m.todo t = [.restore f, .code a]
  unlocked : ∀ l, (m.locks l).locked = 0

variable {P : Code L → Prop}

omit [DecidableEq L] [DecidableEq T] in
theorem Start.flags (h : m.Start P) : m.Flags := by
  refine ⟨h.inj, fun c => ?_, fun t ht => ?_⟩
  · obtain ⟨a, -, htodo⟩ := h.running c
    rw [htodo]
    exact trivial
  · obtain ⟨f, a, -, htodo⟩ := h.waiting t ht
    rw [htodo]
    exact trivial

omit [DecidableEq L] [DecidableEq T] in
/-- At the start no thread holds a lock. -/
theorem Start.holds_none (h : m.Start P) (t : T) : Lib.held (m.threads.todo t) = [] := by
  show Lib.held ((m.todo t).flatMap item) = []
  by_cases hrun : ∃ c, m.running c = t
  · obtain ⟨c, rfl⟩ := hrun
    obtain ⟨a, -, htodo⟩ := h.running c
    rw [htodo]
    rfl
  · obtain ⟨f, a, -, htodo⟩ := h.waiting t fun c hc => hrun ⟨c, hc⟩
    rw [htodo]
    rfl

theorem Start.exclusive (h : m.Start P) : m.threads.Exclusive := by
  intro l
  refine ⟨none, decide_eq_false (not_not.mpr (h.unlocked l)), fun t => ?_⟩
  rw [h.holds_none t]
  rfl

omit [DecidableEq L] [DecidableEq T] in
/-- A thread that has still to release a lock holds it. -/
theorem release_mem_iff {l : L} {todo : List (SpinItem L)} :
    .release l ∈ todo ↔ l ∈ Lib.held (todo.flatMap item) := by
  induction todo with
  | nil => simp [Lib.held]
  | cons x todo ih =>
    cases x with
    | release k => simp [item, Lib.held, ih]
    | _ => simp [item, Lib.held, ih]

/-- **Mutual exclusion**: in every run of any threads, with interrupts between
    any two instructions, the word of a lock is set if and only if a thread has
    still to release the lock, and at most one thread has. -/
theorem spin_mutual_exclusion {tr : List (Transition (SpinCpus L T n) (ThreadAct T n))}
    (hrun : Run (Steps handler) m tr m') (h : m.Start P) (l : L) :
    ((m'.locks l).locked ≠ 0 ↔ ∃ t, .release l ∈ m'.todo t) ∧
      ∀ t t', .release l ∈ m'.todo t → .release l ∈ m'.todo t' → t = t' := by
  obtain ⟨tr', hrun', -⟩ := refines_run hrun h.flags
  obtain ⟨owner, hlocked, hcount⟩ := h.exclusive.run hrun' l
  have howns : ∀ t, .release l ∈ m'.todo t ↔ owner = some t := by
    intro t
    have htodo : Lib.held (m'.threads.todo t) = Lib.held ((m'.todo t).flatMap item) := rfl
    rw [release_mem_iff, ← htodo, ← List.count_pos_iff, hcount t]
    by_cases ho : owner = some t
    · simp [ho]
    · simp [ho]
  constructor
  · have hset : (m'.locks l).locked ≠ 0 ↔ owner.isSome = true := by
      rw [← hlocked]
      exact (decide_eq_true_iff).symm
    rw [hset, Option.isSome_iff_exists]
    exact exists_congr fun t => (howns t).symm
  · intro t t' ht ht'
    have hsome := ((howns t).mp ht).symm.trans ((howns t').mp ht')
    exact Option.some.inj hsome

/-- Two CPUs that want the same lock. -/
def twoSpinners : SpinCpus Unit (Fin 2) 2 where
  todo _ := [.code (.spin () .skip)]
  running c := c
  intr _ := false
  locks _ := ⟨0, 0, 0, 0⟩

theorem twoSpinners_start : twoSpinners.Start fun _ => True :=
  ⟨fun _ _ h => h, fun _ => ⟨_, trivial, rfl⟩, fun t ht => absurd rfl (ht t), fun _ => rfl⟩

/-- `spin_mutual_exclusion` once CPU 0 has the lock. -/
theorem spin_mutual_exclusion_two : ∃ m tr, Run (Steps fun _ => .skip) twoSpinners tr m ∧
    (m.locks ()).locked ≠ 0 ∧ ∀ t, .release () ∈ m.todo t → t = 0 := by
  have hcall : Steps (fun _ => .skip) twoSpinners (.run 0 false)
      (twoSpinners.goOn 0 [.testAndSet () 0 .skip]) := rfl
  have htake : Steps (fun _ => .skip) (twoSpinners.goOn 0 [.testAndSet () 0 .skip]) (.run 0 false)
      (runItem (twoSpinners.goOn 0 [.testAndSet () 0 .skip]) (fun _ => .skip) 0 false []
        (.testAndSet () 0 .skip)) := rfl
  have hrun := ((Run.nil twoSpinners).snoc hcall).snoc htake
  obtain ⟨-, hone⟩ := spin_mutual_exclusion hrun twoSpinners_start ()
  refine ⟨_, _, hrun, by decide, fun t ht => hone t 0 ht ?_⟩
  exact List.mem_cons_of_mem _ (List.mem_cons_of_mem _ List.mem_cons_self)

end SpinCpus

end ZohoOs
