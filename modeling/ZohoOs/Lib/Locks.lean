/-
  ZohoOs.Lib.Locks — spinlocks and interrupts.

  `Code` is what a program does with locks and with the interrupt flag.
  Threads run code on CPUs; a timer interrupt may arrive whenever the CPU's
  interrupt flag is set, its handler runs on top of what the thread has still
  to do, and it may end by switching the CPU to another thread.

  A thread that must still release a lock holds it.  So a thread spins for
  ever exactly if it acquires a lock that it has to release further down, in
  the code the handler interrupted.

  Main result: `always_disciplined_iff` — if code only nests distinct locks,
  a run is free of such deadlocks, and keeps interrupts off wherever it holds
  a lock that handlers use, if and only if every lock is taken with interrupts
  off.
-/
import ZohoOs.Lib.Transition
import Mathlib.Logic.Function.Basic

namespace ZohoOs.Lib

universe u v

/-! ## §1. Code. -/

/-- The lock operations of a program. -/
inductive Code (L : Type u) where
  | skip
  | seq (a b : Code L)
  | choice (a b : Code L)
  | loop (a : Code L)
  /-- Acquire `l` as it is, run `body`, release `l`. -/
  | spin (l : L) (body : Code L)
  /-- Save and clear the interrupt flag, acquire `l`, run `body`, release `l`,
      restore the flag. -/
  | irqsave (l : L) (body : Code L)
  /-- Run `body` with the interrupt flag cleared, as system calls are. -/
  | masked (body : Code L)
  /-- Raise the timer interrupt. -/
  | yield

namespace Code

variable {L : Type u}

/-- The locks a program may acquire. -/
def Locks : Code L → L → Prop
  | skip, _ => False
  | seq a b, l => a.Locks l ∨ b.Locks l
  | choice a b, l => a.Locks l ∨ b.Locks l
  | loop a, l => a.Locks l
  | spin k body, l => l = k ∨ body.Locks l
  | irqsave k body, l => l = k ∨ body.Locks l
  | masked body, l => body.Locks l
  | yield, _ => False

/-- A program that may run while the locks `held` are held: it acquires other
    ones only, it yields when it holds none, and it acquires only locks of
    `plain` without clearing the interrupt flag. -/
def Fits (plain : L → Prop) : Code L → List L → Prop
  | skip, _ => True
  | seq a b, held => a.Fits plain held ∧ b.Fits plain held
  | choice a b, held => a.Fits plain held ∧ b.Fits plain held
  | loop a, held => a.Fits plain held
  | spin l body, held => plain l ∧ l ∉ held ∧ body.Fits plain (l :: held)
  | irqsave l body, held => l ∉ held ∧ body.Fits plain (l :: held)
  | masked body, held => body.Fits plain held
  | yield, held => held = []

/-- The programs of `l`, one after the other. -/
def all (l : List (Code L)) : Code L := l.foldr seq skip

theorem fits_all {plain : L → Prop} {held : List L} {l : List (Code L)}
    (h : ∀ a ∈ l, a.Fits plain held) : (all l).Fits plain held := by
  induction l with
  | nil => exact trivial
  | cons a l ih =>
    exact ⟨h a List.mem_cons_self, ih fun b hb => h b (List.mem_cons_of_mem _ hb)⟩

end Code

/-- What a thread has still to do. -/
inductive Item (L : Type u) where
  | code (a : Code L)
  /-- Spin until `l` is free, then run `body` holding it. -/
  | acquire (l : L) (body : Code L)
  | release (l : L)
  /-- Set the interrupt flag: `popfq`, `iretq`, `sysret`. -/
  | restore (f : Bool)
  /-- The handler's last step: the CPU may go on with another thread. -/
  | switch

/-- The locks a thread holds. -/
def held {L : Type u} : List (Item L) → List L
  | [] => []
  | .release l :: todo => l :: held todo
  | .code _ :: todo => held todo
  | .acquire _ _ :: todo => held todo
  | .restore _ :: todo => held todo
  | .switch :: todo => held todo

/-! ## §2. Threads on CPUs. -/

/-- Threads `T` on `n` CPUs, with locks `L`. -/
structure Threads (L : Type u) (T : Type v) (n : Nat) where
  todo : T → List (Item L)
  running : Fin n → T
  /-- The interrupt flags. -/
  intr : Fin n → Bool
  locked : L → Bool

/-- What may happen next on CPU `c`: its thread goes on, where the program has a
    choice as `b` says; its handler ends and switches to thread `t`; or the
    timer interrupts it. -/
inductive ThreadAct (T : Type v) (n : Nat) where
  | run (c : Fin n) (b : Bool)
  | switch (c : Fin n) (t : T)
  | timer (c : Fin n)

namespace Threads

variable {L : Type u} {T : Type v} {n : Nat} [DecidableEq L] [DecidableEq T]

/-- The thread of CPU `c` goes on with `todo`. -/
def goOn (m : Threads L T n) (c : Fin n) (todo : List (Item L)) : Threads L T n :=
  { m with todo := Function.update m.todo (m.running c) todo }

def setIntr (m : Threads L T n) (c : Fin n) (f : Bool) : Threads L T n :=
  { m with intr := Function.update m.intr c f }

/-- The interrupt frame: the handler, the switch, and the return. -/
def frame (handler : Code L) (f : Bool) (todo : List (Item L)) : List (Item L) :=
  .code handler :: .switch :: .restore f :: todo

/-- One piece of code on CPU `c`, with `rest` to do after it. -/
def runCode (m : Threads L T n) (handler : Fin n → Code L) (c : Fin n) (b : Bool)
    (rest : List (Item L)) : Code L → Threads L T n
  | .skip => m.goOn c rest
  | .seq x y => m.goOn c (.code x :: .code y :: rest)
  | .choice x y => m.goOn c (.code (if b then x else y) :: rest)
  | .loop x => m.goOn c (if b then .code x :: .code (.loop x) :: rest else rest)
  | .spin l body => m.goOn c (.acquire l body :: rest)
  | .irqsave l body =>
      (m.goOn c (.acquire l body :: .restore (m.intr c) :: rest)).setIntr c false
  | .masked body => (m.goOn c (.code body :: .restore (m.intr c) :: rest)).setIntr c false
  | .yield => (m.goOn c (frame (handler c) (m.intr c) rest)).setIntr c false

/-- **One step**; `none` means that the step cannot happen now. -/
def step (handler : Fin n → Code L) (m : Threads L T n) : ThreadAct T n → Option (Threads L T n)
  | .run c b =>
      match m.todo (m.running c) with
      | [] => none
      | .code a :: rest => some (m.runCode handler c b rest a)
      | .acquire l body :: rest =>
          if m.locked l then none
          else some { m.goOn c (.code body :: .release l :: rest) with
            locked := Function.update m.locked l true }
      | .release l :: rest =>
          some { m.goOn c rest with locked := Function.update m.locked l false }
      | .restore f :: rest => some ((m.goOn c rest).setIntr c f)
      | .switch :: _ => none
  | .switch c t =>
      match m.todo (m.running c) with
      | .switch :: rest =>
          if ∀ c' ≠ c, m.running c' ≠ t then
            some { m.goOn c rest with running := Function.update m.running c t }
          else none
      | _ => none
  | .timer c =>
      if m.intr c then
        some ((m.goOn c (frame (handler c) true (m.todo (m.running c)))).setIntr c false)
      else none

/-- The steps as a relation. -/
def Steps (handler : Fin n → Code L) (m : Threads L T n) (a : ThreadAct T n) (m' : Threads L T n) :
    Prop :=
  m.step handler a = some m'

/-- The steps `acts`, one after the other. -/
def steps (handler : Fin n → Code L) (m : Threads L T n) (acts : List (ThreadAct T n)) :
    Option (Threads L T n) :=
  acts.foldlM (fun m a => m.step handler a) m

theorem run_steps {handler : Fin n → Code L} {m m' : Threads L T n} {acts : List (ThreadAct T n)}
    (h : m.steps handler acts = some m') :
    ∃ tr, Run (Steps handler) m tr m' ∧ Run.labels tr = acts := by
  induction acts generalizing m with
  | nil =>
    rw [← Option.some.inj h]
    exact ⟨[], .nil m, rfl⟩
  | cons a acts ih =>
    unfold steps at h
    rw [List.foldlM_cons] at h
    obtain ⟨m₁, hfirst, hrest⟩ := Option.bind_eq_some_iff.mp h
    obtain ⟨tr, hrun, hlabels⟩ := ih hrest
    have hone : Run (Steps handler) m ([] ++ [(m, a, m₁)]) m₁ := (Run.nil m).snoc hfirst
    refine ⟨_, hone.append hrun, ?_⟩
    rw [Run.labels_append, hlabels]
    rfl

/-- The thread of CPU `c` spins on a lock it holds itself. -/
def SelfDeadlock (m : Threads L T n) (c : Fin n) : Prop :=
  ∃ l body rest, m.todo (m.running c) = .acquire l body :: rest ∧ l ∈ held rest

/-- The next item acquires a lock that is released further down. -/
def acquiresHeld : List (Item L) → Bool
  | .acquire l _ :: rest => decide (l ∈ held rest)
  | _ => false

omit [DecidableEq T] in
theorem selfDeadlock_iff {m : Threads L T n} {c : Fin n} :
    m.SelfDeadlock c ↔ acquiresHeld (m.todo (m.running c)) = true := by
  unfold SelfDeadlock
  cases m.todo (m.running c) with
  | nil => simp [acquiresHeld]
  | cons x rest =>
    cases x with
    | acquire l body => simp [acquiresHeld]
    | code a => simp [acquiresHeld]
    | release l => simp [acquiresHeld]
    | restore f => simp [acquiresHeld]
    | switch => simp [acquiresHeld]

instance (m : Threads L T n) (c : Fin n) : Decidable (m.SelfDeadlock c) :=
  decidable_of_iff _ selfDeadlock_iff.symm

/-- **The discipline**: no CPU spins on a lock its own thread holds, and a lock
    that handlers acquire is held only by running threads, with interrupts
    off. -/
def Disciplined (handler : Fin n → Code L) (m : Threads L T n) : Prop :=
  (∀ c, ¬ m.SelfDeadlock c) ∧
    ∀ l, (∃ c, (handler c).Locks l) → ∀ t, l ∈ held (m.todo t) →
      ∃ c, m.running c = t ∧ m.intr c = false

/-- A lock is acquired with interrupts off. -/
def Masked (m : Threads L T n) : ThreadAct T n → Prop
  | .run c _ => ∀ l body rest, m.todo (m.running c) = .acquire l body :: rest → m.intr c = false
  | .switch _ _ => True
  | .timer _ => True

end Threads

/-! ## §3. The invariant. -/

/-- What a thread has to do is in order, when it goes on with interrupt flag
    `i`: it acquires locks it does not hold, and it holds none while
    interrupts are on. -/
def InOrder {L : Type u} (plain : L → Prop) : Bool → List (Item L) → Prop
  | _, [] => True
  | i, .code a :: todo => a.Fits plain (held todo) ∧ (i = true → held todo = []) ∧
      InOrder plain i todo
  | i, .acquire l body :: todo => l ∉ held todo ∧ body.Fits plain (l :: held todo) ∧
      (i = true → plain l ∧ held todo = []) ∧ InOrder plain i todo
  | i, .release _ :: todo => i = false ∧ InOrder plain false todo
  | i, .restore f :: todo => (i = true → held todo = []) ∧ InOrder plain f todo
  | i, .switch :: todo => i = false ∧ held todo = [] ∧ InOrder plain false todo

/-- With interrupts on a thread that is in order holds no lock. -/
theorem InOrder.held_eq_nil {L : Type u} {plain : L → Prop} {todo : List (Item L)}
    (h : InOrder plain true todo) : held todo = [] := by
  cases todo with
  | nil => rfl
  | cons x todo =>
    cases x with
    | code a => exact h.2.1 rfl
    | acquire l body => exact (h.2.2.1 rfl).2
    | release l => exact absurd h.1 (by decide)
    | restore f => exact h.1 rfl
    | switch => exact absurd h.1 (by decide)

namespace Threads

variable {L : Type u} {T : Type v} {n : Nat}
  {handler : Fin n → Code L} {plain : L → Prop} {m m' : Threads L T n} {c : Fin n}

/-- **The invariant**: running threads are in order, and waiting threads hold
    no lock. -/
structure Good (plain : L → Prop) (m : Threads L T n) : Prop where
  inj : ∀ c c', m.running c = m.running c' → c = c'
  order : ∀ c, InOrder plain (m.intr c) (m.todo (m.running c))
  waiting : ∀ t, (∀ c, m.running c ≠ t) → InOrder plain false (m.todo t) ∧ held (m.todo t) = []

namespace Good

/-- In a state in order the discipline is kept. -/
theorem disciplined (h : m.Good plain) : m.Disciplined handler := by
  refine ⟨fun c hdead => ?_, fun l _ t hl => ?_⟩
  · obtain ⟨l, body, rest, htodo, hl⟩ := hdead
    have horder := h.order c
    rw [htodo] at horder
    exact horder.1 hl
  · by_cases hrun : ∃ c, m.running c = t
    · obtain ⟨c, rfl⟩ := hrun
      refine ⟨c, rfl, ?_⟩
      cases hi : m.intr c with
      | false => rfl
      | true =>
        have horder := h.order c
        rw [hi] at horder
        rw [horder.held_eq_nil] at hl
        cases hl
    · have hwait := (h.waiting t fun c hc => hrun ⟨c, hc⟩).2
      rw [hwait] at hl
      cases hl

/-- The rule for a step of CPU `c` that switches to no other thread. -/
theorem of_todo (h : m.Good plain) (hrun : m'.running = m.running)
    (htodo : ∀ t, t ≠ m.running c → m'.todo t = m.todo t)
    (hintr : ∀ c', c' ≠ c → m'.intr c' = m.intr c')
    (horder : InOrder plain (m'.intr c) (m'.todo (m.running c))) : m'.Good plain := by
  refine ⟨fun c₁ c₂ he => ?_, fun c' => ?_, fun t ht => ?_⟩
  · rw [hrun] at he
    exact h.inj c₁ c₂ he
  · rw [hrun]
    by_cases hc : c' = c
    · subst hc
      exact horder
    · rw [htodo _ fun he => hc (h.inj c' c he), hintr c' hc]
      exact h.order c'
  · rw [hrun] at ht
    rw [htodo t fun he => ht c he.symm]
    exact h.waiting t ht

theorem relock {locked : L → Bool} (h : m.Good plain) :
    Good plain { m with locked := locked } :=
  ⟨h.inj, h.order, h.waiting⟩

/-- An interrupt of a thread that holds no lock. -/
theorem frame_inOrder {f : Bool} {todo : List (Item L)} (hfit : ∀ c, (handler c).Fits plain [])
    (htodo : InOrder plain f todo) (hheld : held todo = []) (c : Fin n) :
    InOrder plain false (frame (handler c) f todo) := by
  have hframe : held (Item.switch :: .restore f :: todo) = [] := hheld
  refine ⟨?_, (fun he => nomatch he), rfl, hheld, (fun he => nomatch he), htodo⟩
  rw [hframe]
  exact hfit c

variable [DecidableEq T]

theorem goOn {todo : List (Item L)} (h : m.Good plain) (horder : InOrder plain (m.intr c) todo) :
    (m.goOn c todo).Good plain := by
  refine h.of_todo (c := c) rfl (fun t ht => Function.update_of_ne ht _ _) (fun _ _ => rfl) ?_
  show InOrder plain (m.intr c) (Function.update m.todo (m.running c) todo (m.running c))
  rw [Function.update_self]
  exact horder

theorem goOn_setIntr {todo : List (Item L)} {f : Bool} (h : m.Good plain)
    (horder : InOrder plain f todo) : ((m.goOn c todo).setIntr c f).Good plain := by
  refine h.of_todo (c := c) rfl (fun t ht => Function.update_of_ne ht _ _)
    (fun c' hc => Function.update_of_ne hc _ _) ?_
  show InOrder plain (Function.update m.intr c f c)
    (Function.update m.todo (m.running c) todo (m.running c))
  rw [Function.update_self, Function.update_self]
  exact horder

/-- **Running code** keeps threads in order, one case for each construct. -/
theorem runCode {a : Code L} {rest : List (Item L)} (h : m.Good plain)
    (hfit : ∀ c, (handler c).Fits plain []) (htodo : m.todo (m.running c) = .code a :: rest)
    (b : Bool) : (m.runCode handler c b rest a).Good plain := by
  have horder := h.order c
  rw [htodo] at horder
  obtain ⟨ha, hheld, hrest⟩ := horder
  cases a with
  | skip => exact h.goOn hrest
  | seq x y => exact h.goOn ⟨ha.1, hheld, ha.2, hheld, hrest⟩
  | choice x y =>
    refine h.goOn ⟨?_, hheld, hrest⟩
    cases b with
    | true => exact ha.1
    | false => exact ha.2
  | loop x =>
    cases b with
    | true => exact h.goOn ⟨ha, hheld, ha, hheld, hrest⟩
    | false => exact h.goOn hrest
  | spin l body => exact h.goOn ⟨ha.2.1, ha.2.2, fun hi => ⟨ha.1, hheld hi⟩, hrest⟩
  | irqsave l body =>
    exact h.goOn_setIntr ⟨ha.1, ha.2, (fun he => nomatch he), (fun he => nomatch he), hrest⟩
  | masked body =>
    exact h.goOn_setIntr ⟨ha, (fun he => nomatch he), (fun he => nomatch he), hrest⟩
  | yield => exact h.goOn_setIntr (frame_inOrder hfit hrest ha c)

/-- **Switching** to a thread no other CPU runs. -/
theorem switchTo {rest : List (Item L)} {t : T} (h : m.Good plain)
    (htodo : m.todo (m.running c) = .switch :: rest) (ht : ∀ c' ≠ c, m.running c' ≠ t) :
    Good plain { m.goOn c rest with running := Function.update m.running c t } := by
  have horder := h.order c
  rw [htodo] at horder
  obtain ⟨hi, hheld, hrest⟩ := horder
  have hself : Function.update m.running c t c = t := Function.update_self _ _ _
  have hother : ∀ c' ≠ c, Function.update m.running c t c' = m.running c' := fun c' hc =>
    Function.update_of_ne hc _ _
  -- every thread but those of the other CPUs may go on with interrupts off
  have hready : ∀ x, (∀ c' ≠ c, m.running c' ≠ x) →
      InOrder plain false ((m.goOn c rest).todo x) ∧ held ((m.goOn c rest).todo x) = [] := by
    intro x hx
    by_cases hxc : x = m.running c
    · subst hxc
      show InOrder plain false (Function.update m.todo (m.running c) rest (m.running c)) ∧ held
        (Function.update m.todo (m.running c) rest (m.running c)) = []
      rw [Function.update_self]
      exact ⟨hrest, hheld⟩
    · show InOrder plain false (Function.update m.todo (m.running c) rest x) ∧ held
        (Function.update m.todo (m.running c) rest x) = []
      rw [Function.update_of_ne hxc]
      refine h.waiting x fun c' he => ?_
      by_cases hc : c' = c
      · exact hxc (hc ▸ he.symm)
      · exact hx c' hc he
  refine ⟨fun c₁ c₂ he => ?_, fun c' => ?_, fun x hx => ?_⟩
  · by_cases h₁ : c₁ = c
    · by_cases h₂ : c₂ = c
      · exact h₁.trans h₂.symm
      · rw [h₁] at he
        exact absurd ((hother c₂ h₂).symm.trans (he.symm.trans hself)) (ht c₂ h₂)
    · by_cases h₂ : c₂ = c
      · rw [h₂] at he
        exact absurd ((hother c₁ h₁).symm.trans (he.trans hself)) (ht c₁ h₁)
      · exact h.inj c₁ c₂ ((hother c₁ h₁).symm.trans (he.trans (hother c₂ h₂)))
  · by_cases hc : c' = c
    · subst hc
      show InOrder plain (m.intr c') ((m.goOn c' rest).todo (Function.update m.running c' t c'))
      rw [hself, hi]
      exact (hready t ht).1
    · show InOrder plain (m.intr c') ((m.goOn c rest).todo (Function.update m.running c t c'))
      rw [hother c' hc]
      have hne : m.running c' ≠ m.running c := fun he => hc (h.inj c' c he)
      show InOrder plain (m.intr c') (Function.update m.todo (m.running c) rest (m.running c'))
      rw [Function.update_of_ne hne]
      exact h.order c'
  · refine hready x fun c' hc he => hx c' ?_
    exact (hother c' hc).trans he

variable [DecidableEq L]

/-- **The step lemma**: steps that acquire locks with interrupts off keep the
    invariant. -/
theorem step {a : ThreadAct T n} (h : m.Good plain) (hfit : ∀ c, (handler c).Fits plain [])
    (hmask : m.Masked a) (hst : Steps handler m a m') : m'.Good plain := by
  cases a with
  | run c b =>
    unfold Steps at hst
    simp only [Threads.step] at hst
    cases htodo : m.todo (m.running c) with
    | nil =>
      rw [htodo] at hst
      cases hst
    | cons x rest =>
      have horder := h.order c
      rw [htodo] at horder hst
      cases x with
      | code a =>
        rw [← Option.some.inj hst]
        exact h.runCode hfit htodo b
      | acquire l body =>
        -- the lock is taken with interrupts off: `hmask`
        have hoff : m.intr c = false := hmask l body rest htodo
        by_cases hl : m.locked l = true
        · simp only [hl, if_true] at hst
          cases hst
        · simp only [hl] at hst
          rw [← Option.some.inj hst]
          rw [hoff] at horder
          refine (h.goOn ?_).relock
          rw [hoff]
          exact ⟨horder.2.1, (fun he => nomatch he), rfl, horder.2.2.2⟩
      | release l =>
        rw [← Option.some.inj hst]
        refine (h.goOn ?_).relock
        rw [horder.1]
        exact horder.2
      | restore f =>
        rw [← Option.some.inj hst]
        exact h.goOn_setIntr horder.2
      | switch => cases hst
  | switch c t =>
    unfold Steps at hst
    simp only [Threads.step] at hst
    cases htodo : m.todo (m.running c) with
    | nil =>
      rw [htodo] at hst
      cases hst
    | cons x rest =>
      rw [htodo] at hst
      cases x with
      | switch =>
        dsimp only at hst
        by_cases ht : ∀ c' ≠ c, m.running c' ≠ t
        · rw [if_pos ht] at hst
          rw [← Option.some.inj hst]
          exact h.switchTo htodo ht
        · rw [if_neg ht] at hst
          cases hst
      | code a => cases hst
      | acquire l body => cases hst
      | release l => cases hst
      | restore f => cases hst
  | timer c =>
    unfold Steps at hst
    simp only [Threads.step] at hst
    by_cases hi : m.intr c = true
    · -- interrupts are on, so the code that is interrupted holds no lock
      simp only [hi, if_true] at hst
      rw [← Option.some.inj hst]
      have horder := h.order c
      rw [hi] at horder
      exact h.goOn_setIntr (frame_inOrder hfit horder horder.held_eq_nil c)
    · simp only [hi] at hst
      cases hst

/-- Acquiring a lock with interrupts on breaks the discipline at once. -/
theorem breaks {a : ThreadAct T n} (h : m.Good plain)
    (hplain : ∀ l, plain l → ∀ c, (handler c).Locks l) (hst : Steps handler m a m')
    (hmask : ¬ m.Masked a) : ¬ m'.Disciplined handler := by
  cases a with
  | switch c t => exact absurd trivial hmask
  | timer c => exact absurd trivial hmask
  | run c b =>
    obtain ⟨l, body, rest, htodo, hon⟩ : ∃ l body rest,
        m.todo (m.running c) = .acquire l body :: rest ∧ m.intr c = true := by
      by_contra hno
      refine hmask fun l body rest htodo => ?_
      cases hi : m.intr c with
      | false => rfl
      | true => exact absurd ⟨l, body, rest, htodo, hi⟩ hno
    have horder := h.order c
    rw [htodo] at horder
    unfold Steps at hst
    simp only [Threads.step] at hst
    rw [htodo] at hst
    dsimp only at hst
    by_cases hl : m.locked l = true
    · rw [if_pos hl] at hst
      cases hst
    · rw [if_neg hl] at hst
      rw [← Option.some.inj hst]
      intro hdisc
      -- the thread holds `l` now, and its CPU still takes interrupts
      obtain ⟨c', hrun, hoff⟩ := hdisc.2 l ⟨c, hplain l (horder.2.2.1 hon).1 c⟩ (m.running c) (by
        show l ∈ held (Function.update m.todo (m.running c) _ (m.running c))
        rw [Function.update_self]
        exact List.mem_cons_self)
      have hc : c' = c := h.inj c' c hrun
      rw [hc] at hoff
      exact absurd (hon.symm.trans hoff) (by decide)

/-- **When the discipline is kept**: along a run, in every state, if and only
    if every lock is acquired with interrupts off. -/
theorem always_disciplined_iff {tr : List (Transition (Threads L T n) (ThreadAct T n))}
    (hfit : ∀ c, (handler c).Fits plain []) (hplain : ∀ l, plain l → ∀ c, (handler c).Locks l)
    (hrun : Run (Steps handler) m tr m') (h : m.Good plain) :
    (∀ x ∈ tr, x.2.2.Disciplined handler) ↔ ∀ x ∈ tr, x.1.Masked x.2.1 := by
  refine hrun.always_iff (I := Good plain) ?_ ?_ ?_ h
  · intro m a m' hm hmask hst
    exact hm.step hfit hmask hst
  · intro m hm
    exact hm.disciplined
  · intro m a m' hm hst hmask
    exact hm.breaks hplain hst hmask

end Good

end Threads

end ZohoOs.Lib
