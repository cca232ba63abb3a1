/-
  ZohoOs.Lib.Exclusion — no two threads hold one lock.

  The flag of a lock says whether the lock is held, and if it is, one thread
  holds it, once.  This needs no discipline: it holds whatever code the threads
  run, wherever interrupts come and whatever the handlers do.

  Main result: `Threads.Exclusive.run` — every run keeps locks exclusive.
-/
import ZohoOs.Lib.Locks

namespace ZohoOs.Lib

universe u v

namespace Threads

variable {L : Type u} {T : Type v} {n : Nat} [DecidableEq L] [DecidableEq T]

/-- **Exclusive locks**: each lock has an owner if its flag is set, which holds
    it once, and no other thread holds it. -/
def Exclusive (m : Threads L T n) : Prop :=
  ∀ l, ∃ owner : Option T, m.locked l = owner.isSome ∧
    ∀ t, (held (m.todo t)).count l = if owner = some t then 1 else 0

variable {handler : Fin n → Code L} {m m' : Threads L T n} {c : Fin n}

/-- The rule for a step that takes and releases no lock. -/
theorem Exclusive.congr (h : m.Exclusive) (hheld : ∀ t, held (m'.todo t) = held (m.todo t))
    (hlocked : m'.locked = m.locked) : m'.Exclusive := by
  intro l
  obtain ⟨owner, hl, hcount⟩ := h l
  refine ⟨owner, ?_, fun t => ?_⟩
  · rw [hlocked]
    exact hl
  · rw [hheld]
    exact hcount t

omit [DecidableEq L] in
/-- A thread that goes on with the same locks. -/
theorem held_goOn {todo : List (Item L)} (htodo : held todo = held (m.todo (m.running c))) (t : T) :
    held ((m.goOn c todo).todo t) = held (m.todo t) := by
  show held (Function.update m.todo (m.running c) todo t) = held (m.todo t)
  by_cases ht : t = m.running c
  · rw [ht, Function.update_self]
    exact htodo
  · rw [Function.update_of_ne ht]

omit [DecidableEq L] in
/-- Code takes no lock before it is run. -/
theorem held_runCode {a : Code L} {rest : List (Item L)}
    (htodo : m.todo (m.running c) = .code a :: rest) (b : Bool) (t : T) :
    held ((m.runCode handler c b rest a).todo t) = held (m.todo t) := by
  have hgo : ∀ todo : List (Item L), held todo = held rest →
      held ((m.goOn c todo).todo t) = held (m.todo t) := by
    intro todo h
    refine held_goOn ?_ t
    rw [h, htodo]
    rfl
  cases a with
  | skip => exact hgo rest rfl
  | seq x y => exact hgo (.code x :: .code y :: rest) rfl
  | choice x y => exact hgo (.code (if b then x else y) :: rest) rfl
  | loop x =>
    cases b with
    | true => exact hgo (.code x :: .code (.loop x) :: rest) rfl
    | false => exact hgo rest rfl
  | spin l body => exact hgo (.acquire l body :: rest) rfl
  | irqsave l body => exact hgo (.acquire l body :: .restore (m.intr c) :: rest) rfl
  | masked body => exact hgo (.code body :: .restore (m.intr c) :: rest) rfl
  | yield => exact hgo (frame (handler c) (m.intr c) rest) rfl

omit [DecidableEq L] in
theorem locked_runCode (a : Code L) (rest : List (Item L)) (b : Bool) :
    (m.runCode handler c b rest a).locked = m.locked := by
  cases a <;> rfl

/-- **Acquiring** a free lock makes the thread its owner. -/
theorem Exclusive.acquire {l : L} {body : Code L} {rest : List (Item L)} (h : m.Exclusive)
    (htodo : m.todo (m.running c) = .acquire l body :: rest) (hfree : m.locked l = false) :
    Exclusive { m.goOn c (.code body :: .release l :: rest) with
      locked := Function.update m.locked l true } := by
  intro k
  obtain ⟨owner, hk, hcount⟩ := h k
  have hrest : held (m.todo (m.running c)) = held rest := by
    rw [htodo]
    rfl
  by_cases hkl : k = l
  · subst hkl
    have hnone : owner = none := Option.not_isSome_iff_eq_none.mp (by rw [← hk, hfree]; simp)
    refine ⟨some (m.running c), Function.update_self .., fun t => ?_⟩
    show (held (Function.update m.todo (m.running c) _ t)).count k = _
    by_cases ht : t = m.running c
    · subst ht
      have hzero := hcount (m.running c)
      rw [hnone, if_neg (by simp), hrest] at hzero
      rw [Function.update_self, if_pos rfl]
      simp [held, hzero]
    · rw [Function.update_of_ne ht, hcount t, hnone, if_neg (by simp), if_neg]
      intro he
      exact ht (Option.some.inj he).symm
  · refine ⟨owner, (Function.update_of_ne hkl _ _).trans hk, fun t => ?_⟩
    show (held (Function.update m.todo (m.running c) _ t)).count k = _
    by_cases ht : t = m.running c
    · subst ht
      rw [Function.update_self, ← hcount (m.running c), hrest]
      simp [held, Ne.symm hkl]
    · rw [Function.update_of_ne ht]
      exact hcount t

/-- **Releasing** a lock leaves it without an owner. -/
theorem Exclusive.release {l : L} {rest : List (Item L)} (h : m.Exclusive)
    (htodo : m.todo (m.running c) = .release l :: rest) :
    Exclusive { m.goOn c rest with locked := Function.update m.locked l false } := by
  intro k
  obtain ⟨owner, hk, hcount⟩ := h k
  have hrest : held (m.todo (m.running c)) = l :: held rest := by
    rw [htodo]
    rfl
  by_cases hkl : k = l
  · subst hkl
    -- the thread that releases the lock is its owner
    have howner : owner = some (m.running c) := by
      by_contra hne
      have hzero := hcount (m.running c)
      rw [if_neg hne, hrest, List.count_cons_self] at hzero
      omega
    refine ⟨none, Function.update_self .., fun t => ?_⟩
    rw [if_neg (by simp)]
    show (held (Function.update m.todo (m.running c) rest t)).count k = 0
    by_cases ht : t = m.running c
    · subst ht
      have hone := hcount (m.running c)
      rw [if_pos howner, hrest, List.count_cons_self] at hone
      rw [Function.update_self]
      omega
    · have hzero := hcount t
      rw [howner, if_neg (fun he => ht (Option.some.inj he).symm)] at hzero
      rw [Function.update_of_ne ht]
      exact hzero
  · refine ⟨owner, (Function.update_of_ne hkl _ _).trans hk, fun t => ?_⟩
    show (held (Function.update m.todo (m.running c) rest t)).count k = _
    by_cases ht : t = m.running c
    · subst ht
      rw [Function.update_self, ← hcount (m.running c), hrest,
        List.count_cons_of_ne (Ne.symm hkl)]
    · rw [Function.update_of_ne ht]
      exact hcount t

/-- **One step** keeps locks exclusive, one case for each kind of step. -/
theorem Exclusive.step {a : ThreadAct T n} (h : m.Exclusive) (hst : Steps handler m a m') :
    m'.Exclusive := by
  cases a with
  | run c b =>
    unfold Steps at hst
    simp only [Threads.step] at hst
    cases htodo : m.todo (m.running c) with
    | nil =>
      rw [htodo] at hst
      cases hst
    | cons x rest =>
      rw [htodo] at hst
      cases x with
      | code a =>
        rw [← Option.some.inj hst]
        exact h.congr (held_runCode htodo b) (locked_runCode a rest b)
      | acquire l body =>
        cases hl : m.locked l with
        | true =>
          simp only [hl, if_true] at hst
          cases hst
        | false =>
          simp only [hl] at hst
          rw [← Option.some.inj hst]
          exact h.acquire htodo hl
      | release l =>
        rw [← Option.some.inj hst]
        exact h.release htodo
      | restore f =>
        rw [← Option.some.inj hst]
        refine h.congr (fun t => held_goOn ?_ t) rfl
        rw [htodo]
        rfl
      | switch => cases hst
  | switch c t =>
    unfold Steps at hst
    simp only [Threads.step] at hst
    cases htodo : m.todo (m.running c) with
    | nil =>
      rw [htodo] at hst
      cases hst
    | cons x rest =>
      rw [htodo] at hst
      cases x with
      | switch =>
        dsimp only at hst
        by_cases ht : ∀ c' ≠ c, m.running c' ≠ t
        · rw [if_pos ht] at hst
          rw [← Option.some.inj hst]
          refine h.congr (fun t' => held_goOn ?_ t') rfl
          rw [htodo]
          rfl
        · rw [if_neg ht] at hst
          cases hst
      | _ => cases hst
  | timer c =>
    unfold Steps at hst
    simp only [Threads.step] at hst
    by_cases hi : m.intr c = true
    · simp only [hi, if_true] at hst
      rw [← Option.some.inj hst]
      exact h.congr (held_goOn rfl) rfl
    · simp only [hi] at hst
      cases hst

/-- **Every run keeps locks exclusive**. -/
theorem Exclusive.run {tr : List (Transition (Threads L T n) (ThreadAct T n))}
    (hrun : Run (Steps handler) m tr m') (h : m.Exclusive) : m'.Exclusive :=
  hrun.invariant' (fun _ _ _ hm hst => hm.step hst) h

end Threads

end ZohoOs.Lib
