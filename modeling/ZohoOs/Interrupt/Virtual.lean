/-
  ZohoOs.Interrupt.Virtual — every task has registers of its own.

  What multitasking is for: in `Virtual` every task has its own registers,
  which nothing but the task itself changes, and CPUs that at any moment
  execute some task each.  The kernel has no such registers.  It has one set
  for each CPU, and interrupt frames on the kernel stacks of the tasks that
  wait.

  Main results:
    * `tasking_refines` — every run of the CPUs, in any interleaving, is a run
      of `Virtual` with the same actions;
    * `registers_kept` — so a task that is interrupted, waits, is stolen by
      another CPU and runs again finds its registers as it left them.
-/
import ZohoOs.Interrupt.Tasking

namespace ZohoOs

open ZohoOs.Lib
open ZohoOs.Lib.Asm

variable {n : Nat}

/-! ## §1. The abstract machine. -/

/-- **Tasks with registers of their own.** -/
structure Virtual (n : Nat) where
  tasks : Set Word
  /-- The task each CPU executes. -/
  current : Fin n → Word
  context : Word → Context

/-- A task executes on its CPU, a CPU turns to another task, a task starts. -/
inductive VirtualStep : Virtual n → TaskAct n → Virtual n → Prop
  | run (v : Virtual n) (c : Fin n) (x : Context) :
      VirtualStep v (.run c) { v with context := Function.update v.context (v.current c) x }
  | interrupt (v : Virtual n) (c : Fin n) (t : Word) (ht : ∀ c' ≠ c, v.current c' ≠ t) :
      VirtualStep v (.interrupt c) { v with current := Function.update v.current c t }
  | spawn (v : Virtual n) (t : Word) (x : Context) (ht : t ∉ v.tasks) :
      VirtualStep v (.spawn t)
        { v with tasks := insert t v.tasks, context := Function.update v.context t x }

/-- The step lets task `t` execute. -/
def Executes (t : Word) (v : Virtual n) : TaskAct n → Prop
  | .run c => v.current c = t
  | _ => False

/-- One step changes the registers of a task that executes, or is new. -/
theorem VirtualStep.context_kept {v v' : Virtual n} {a : TaskAct n} {t : Word}
    (h : VirtualStep v a v') (ht : t ∈ v.tasks) (hno : ¬ Executes t v a) :
    t ∈ v'.tasks ∧ v'.context t = v.context t := by
  cases h with
  | run c x => exact ⟨ht, Function.update_of_ne (Ne.symm hno) _ _⟩
  | interrupt c t' ht' => exact ⟨ht, rfl⟩
  | spawn t' x hnew =>
    have hne : t ≠ t' := fun he => hnew (he ▸ ht)
    exact ⟨Set.mem_insert_of_mem t' ht, Function.update_of_ne hne _ _⟩

/-- **A task's registers change by its own steps only**. -/
theorem Virtual.context_kept {v v' : Virtual n} {tr : List (Transition (Virtual n) (TaskAct n))}
    {t : Word} (hrun : Run VirtualStep v tr v') (ht : t ∈ v.tasks)
    (hno : ∀ x ∈ tr, ¬ Executes t x.1 x.2.1) : v'.context t = v.context t := by
  have hinv := hrun.invariant (I := fun u => t ∈ u.tasks ∧ u.context t = v.context t)
    (C := fun u a => ¬ Executes t u a) (fun u a u' hu hC hst => ?_) hno ⟨ht, rfl⟩
  · exact hinv.2
  · obtain ⟨hmem, hctx⟩ := hst.context_kept hu.1 hC
    exact ⟨hmem, hctx.trans hu.2⟩

/-! ## §2. The relation. -/

/-- **The CPUs `m` realize the tasks of `v`**: a task that runs has its
    registers in its CPU, a task that waits has them in the frame on its kernel
    stack. -/
structure Tasking.Realizes (boot gs : Fin n → Word) (m : Tasking n) (v : Virtual n) : Prop where
  inv : ∃ q, m.sched.Inv q Set.univ
  tasks : ∀ t, t ∈ v.tasks ↔ t ∈ m.sched.created ∨ ∃ c, t = m.sched.idle c
  current : ∀ c, v.current c = m.sched.current c
  running : ∀ c, coreContext (m.core c) = v.context (m.sched.current c)
  waiting : ∀ t b, StackOf boot m.sched t b → (∀ c, m.sched.current c ≠ t) →
    (savedFrame m.mem (m.sched.tasks t).rsp).context = v.context t
  frames : ∀ t b, StackOf boot m.sched t b →
    t ∈ m.sched.created ∨ (∀ c, m.sched.current c ≠ t) → FrameIn b (m.sched.tasks t).rsp
  fits : ∀ t b, StackOf boot m.sched t b → b.toNat + 16384 < 2 ^ 64
  apart : ∀ t b t' b', StackOf boot m.sched t b → StackOf boot m.sched t' b' → t ≠ t' →
    StacksApart b b'
  top : ∀ t ∈ m.sched.created, t ≠ 0 →
    (m.sched.tasks t).kernelRsp = (m.sched.tasks t).stackBottom + stackSize
  onStack : ∀ t b, StackOf boot m.sched t b → (v.context t).OnStack b
  idle : ∀ c, InKernel (v.context (m.sched.idle c)).cs
  rsp0 : ∀ c, m.sched.current c ≠ m.sched.idle c →
    (m.sched.cpus c).tssRsp0 = (m.sched.tasks (m.sched.current c)).kernelRsp
  gs : ∀ c, GsOk (gs c) (m.core c)

namespace Tasking.Realizes

variable {boot gs : Fin n → Word} {m : Tasking n} {v : Virtual n} {c : Fin n} {t : Word}

/-- The current task of a CPU has a kernel stack. -/
theorem currentStack (h : m.Realizes boot gs v) (c : Fin n) :
    ∃ b, StackOf boot m.sched (m.sched.current c) b := by
  obtain ⟨q, hq⟩ := h.inv
  have hheld := (hq.settled c (Set.mem_univ c)).2
  rcases hheld.known with hk | hk
  · exact ⟨_, .created hk hheld.ne_null⟩
  · rw [hk]
    exact ⟨_, .idle c⟩

/-- A CPU runs no task that another CPU runs. -/
theorem current_inj (h : m.Realizes boot gs v) {c c' : Fin n}
    (he : m.sched.current c = m.sched.current c') : c = c' := by
  obtain ⟨q, hq⟩ := h.inv
  by_contra hne
  exact (hq.settled c' (Set.mem_univ c')).2.notCurrent c ⟨Set.mem_univ c, hne⟩ he

/-- **An interrupt frame lies on the kernel stack of the interrupted task**. -/
theorem frameIn (h : m.Realizes boot gs v) {b : Word}
    (hb : StackOf boot m.sched (m.sched.current c) b) : FrameIn b (m.frameAt c) := by
  have hcs : (coreContext (m.on c)).cs = (v.context (m.sched.current c)).cs := by
    rw [← h.running c]
    rfl
  have hrsp : (coreContext (m.on c)).rsp = (v.context (m.sched.current c)).rsp := by
    rw [← h.running c]
    rfl
  by_cases hk : InKernel (m.on c).cs
  · have hon := h.onStack _ b hb
    obtain ⟨hlow, hhigh⟩ := hon (hcs ▸ hk)
    rw [← hrsp] at hlow hhigh
    have hframe := frameIn_of_top hlow hhigh
    rw [frameAt, isrFrameAddr, deliverySp, if_pos hk]
    exact hframe
  · -- a user task: the stack of the TSS
    have hne : m.sched.current c ≠ m.sched.idle c := by
      intro he
      apply hk
      have := h.idle c
      rw [← he, ← hcs] at this
      exact this
    obtain ⟨q, hq⟩ := h.inv
    have hcr := hq.current_created hne
    have h0 := hq.current_ne_null c
    have htop := h.top _ hcr h0
    have hbot : b = (m.sched.tasks (m.sched.current c)).stackBottom := by
      generalize hcur : m.sched.current c = t at hb hcr
      cases hb with
      | created ht h0 => rfl
      | idle c' => exact absurd hcr (hq.idle c').2.1
    have hfit := h.fits _ b hb
    have hp : (m.sched.cpus c).tssRsp0 = b + stackSize := by
      rw [h.rsp0 c hne, htop, hbot]
    have hnat : (b + stackSize).toNat = b.toNat + 16384 := by
      rw [BitVec.toNat_add, show stackSize.toNat = 16384 from rfl, Nat.mod_eq_of_lt hfit]
    have hframe := frameIn_of_top (b := b) (p := b + stackSize) (by omega) (by omega)
    rw [frameAt, isrFrameAddr, deliverySp, if_neg hk, hp]
    exact hframe

/-- Entering the handler leaves the stacks of the other tasks alone. -/
theorem enter_keeps (h : m.Realizes boot gs v) (c : Fin n) (w : Nat) (errorCode : Option Word)
    {t b : Word} (hb : StackOf boot m.sched t b) (ht : t ≠ m.sched.current c) :
    Mem.SameBytes b 16384 m.mem (m.enter c w errorCode).mem := by
  obtain ⟨b', hb'⟩ := h.currentStack c
  intro p hp
  have hfar := (h.frameIn hb').apart (h.apart _ _ _ _ hb' hb ht.symm) (h.fits _ _ hb')
    (h.fits _ _ hb) hp
  exact (mem_isrEnter w (m.sched.cpus c).tssRsp0 errorCode (m.on c) hfar).symm

/-- The step of a task. -/
theorem run (h : m.Realizes boot gs v) {k : Core} (hown : OwnStep boot gs m c k) :
    (m.put c k m.sched).Realizes boot gs
      { v with context := Function.update v.context (v.current c) (coreContext k) } := by
  have hcur := h.current c
  have hcore : ∀ c' ≠ c, (m.put c k m.sched).core c' = m.core c' := fun c' hc =>
    Function.update_of_ne hc _ _
  have hself : (m.put c k m.sched).core c = k := Function.update_self _ _ _
  refine ⟨h.inv, h.tasks, h.current, fun c' => ?_, fun t b hb hw => ?_, h.frames, h.fits, h.apart,
    h.top, fun t b hb => ?_, fun c' => ?_, h.rsp0, fun c' => ?_⟩
  · show coreContext ((m.put c k m.sched).core c') =
      Function.update v.context (v.current c) (coreContext k) (m.sched.current c')
    by_cases hc : c' = c
    · subst hc
      rw [hself, hcur, Function.update_self]
    · have hne : m.sched.current c' ≠ v.current c := by
        rw [hcur]
        exact fun he => hc (h.current_inj he)
      rw [hcore c' hc, Function.update_of_ne hne]
      exact h.running c'
  · -- a waiting task: nobody wrote its stack
    have hne : t ≠ v.current c := by
      rw [hcur]
      exact (hw c).symm
    have hframe := (h.frames t b hb (.inr hw)).sameBytes (h.fits t b hb) (hown.kept t b hb hw)
    show (savedFrame k.mem (m.sched.tasks t).rsp).context =
      Function.update v.context (v.current c) (coreContext k) t
    rw [← savedFrame_congr hframe, Function.update_of_ne hne]
    exact h.waiting t b hb hw
  · show (Function.update v.context (v.current c) (coreContext k) t).OnStack b
    by_cases ht : t = v.current c
    · subst ht
      rw [Function.update_self]
      rw [hcur] at hb
      exact hown.onStack b hb
    · rw [Function.update_of_ne ht]
      exact h.onStack t b hb
  · show InKernel (Function.update v.context (v.current c) (coreContext k) (m.sched.idle c')).cs
    by_cases ht : m.sched.idle c' = v.current c
    · rw [ht, Function.update_self]
      obtain ⟨q, hq⟩ := h.inv
      have hcc : c = c' := by
        by_contra hne
        exact hq.idle_notCurrent (Set.mem_univ c) hne (hcur ▸ ht.symm)
      subst hcc
      exact hown.idle (hcur ▸ ht.symm)
    · rw [Function.update_of_ne ht]
      exact h.idle c'
  · by_cases hc : c' = c
    · subst hc
      rw [hself]
      exact hown.gs
    · rw [hcore c' hc]
      exact h.gs c'

/-- GS after the stub: balanced, whatever task was selected. -/
theorem gsOk_isrLeave {g : Word} {w : Nat} {rsp0 : Word} {errorCode : Option Word} {k k' : Core}
    (hk : GsOk g k) (hgs : k'.gsBase = (isrEnter w rsp0 errorCode k).gsBase) :
    GsOk g (isrLeave k') := by
  have henter : (isrEnter w rsp0 errorCode k).gsBase = g := by
    unfold GsOk at hk
    by_cases hcs : InKernel k.cs
    · rw [if_pos hcs] at hk
      simp only [isrEnter, if_pos hcs]
      exact hk
    · rw [if_neg hcs] at hk
      simp only [isrEnter, if_neg hcs]
      exact hk
  unfold GsOk isrLeave
  by_cases hcs : InKernel (savedFrame k'.mem (k'.regs .rax)).cs
  · simp only [if_pos hcs]
    exact hgs.trans henter
  · simp only [if_neg hcs]
    exact hgs.trans henter

/-- A task that waits after an interrupt is the interrupted one, or waited
    before. -/
theorem waits_cases {s' : Sched n} {a r : Word} (he : IsrEffect m.sched c a r s')
    (hw : ∀ c', s'.current c' ≠ t) (hne : t ≠ m.sched.current c) : ∀ c', m.sched.current c' ≠ t := by
  intro c'
  by_cases hc : c' = c
  · rw [hc]
    exact hne.symm
  · rw [← he.others c' hc]
    exact hw c'

/-- **An interrupt**, whatever task it continues with. -/
theorem interrupt (h : m.Realizes boot gs v) {w : Nat} {errorCode : Option Word} {s' : Sched n}
    {r : Word} {k : Core} (he : IsrEffect m.sched c (m.frameAt c) r s') (hrax : k.regs .rax = r)
    (hgs : k.gsBase = (m.enter c w errorCode).gsBase)
    (hkept : KeepsWaiting boot m.sched (m.enter c w errorCode).mem k.mem)
    (hframe : Mem.SameBytes (m.frameAt c) 176 (m.enter c w errorCode).mem k.mem) :
    (m.put c (isrLeave k) s').Realizes boot gs
      { v with current := Function.update v.current c (s'.current c) } := by
  have hcore : ∀ c' ≠ c, (m.put c (isrLeave k) s').core c' = m.core c' := fun c' hc =>
    Function.update_of_ne hc _ _
  have hself : (m.put c (isrLeave k) s').core c = isrLeave k := Function.update_self _ _ _
  have hmem : (m.put c (isrLeave k) s').mem = k.mem := by
    show (isrLeave k).mem = k.mem
    unfold isrLeave
    dsimp only
    split <;> rfl
  -- the stacks are where they were
  have hstack : ∀ t b, StackOf boot s' t b → StackOf boot m.sched t b := by
    intro t b hb
    cases hb with
    | created ht h0 =>
      rw [he.created] at ht
      have hbot : (s'.tasks t).stackBottom = (m.sched.tasks t).stackBottom :=
        congrArg Prod.fst (he.areas t)
      rw [hbot]
      exact .created ht h0
    | idle c' =>
      rw [he.idle]
      exact .idle c'
  have hwaitMem : ∀ t b, StackOf boot m.sched t b → (∀ c', m.sched.current c' ≠ t) →
      (savedFrame k.mem (m.sched.tasks t).rsp).context = v.context t := by
    intro t b hb hw
    have hin := h.frames t b hb (.inr hw)
    have h₁ := hin.sameBytes (h.fits t b hb) (h.enter_keeps c w errorCode hb (hw c).symm)
    have h₂ := hin.sameBytes (h.fits t b hb) (hkept t b hb hw)
    rw [← savedFrame_congr h₂, ← savedFrame_congr h₁]
    exact h.waiting t b hb hw
  -- the interrupted task finds its registers in its frame
  have hown : (savedFrame k.mem (m.frameAt c)).context = v.context (m.sched.current c) := by
    have henter : savedFrame (m.enter c w errorCode).mem (m.frameAt c) =
        isrFrame w errorCode (m.on c) := savedFrame_isrEnter w _ errorCode (m.on c)
    rw [← savedFrame_congr hframe, henter, isrFrame_context, ← h.running c]
    rfl
  have hkernelRsp : ∀ t, (s'.tasks t).kernelRsp = (m.sched.tasks t).kernelRsp := fun t =>
    congrArg Prod.snd (he.areas t)
  -- a task that another CPU left was already waiting for this one
  have hselected : s'.current c ≠ m.sched.current c → ∀ c', m.sched.current c' ≠ s'.current c := by
    intro hne c'
    by_cases hc : c' = c
    · rw [hc]
      exact hne.symm
    · obtain ⟨q', hq'⟩ := he.inv
      rw [← he.others c' hc]
      exact (hq'.settled c (Set.mem_univ c)).2.notCurrent c' ⟨Set.mem_univ c', hc⟩
  have hnextStack : ∃ b, StackOf boot s' (s'.current c) b := by
    obtain ⟨q', hq'⟩ := he.inv
    have hheld := (hq'.settled c (Set.mem_univ c)).2
    rcases hheld.known with hk | hk
    · exact ⟨_, .created hk hheld.ne_null⟩
    · rw [hk]
      exact ⟨_, .idle c⟩
  refine ⟨he.inv, fun t => ?_, fun c' => ?_, fun c' => ?_, fun t b hb hw => ?_, fun t b hb hcond => ?_,
    fun t b hb => h.fits t b (hstack t b hb),
    fun t b t' b' hb hb' => h.apart t b t' b' (hstack t b hb) (hstack t' b' hb'),
    fun t ht h0 => ?_, fun t b hb => h.onStack t b (hstack t b hb), fun c' => ?_, fun c' hne => ?_,
    fun c' => ?_⟩
  · show t ∈ v.tasks ↔ t ∈ s'.created ∨ ∃ c, t = s'.idle c
    simp only [he.created, he.idle]
    exact h.tasks t
  · show Function.update v.current c (s'.current c) c' = s'.current c'
    by_cases hc : c' = c
    · rw [hc, Function.update_self]
    · rw [Function.update_of_ne hc, he.others c' hc]
      exact h.current c'
  · show coreContext ((m.put c (isrLeave k) s').core c') = v.context (s'.current c')
    by_cases hc : c' = c
    · subst hc
      rw [hself, isrLeave_context, hrax, he.ret]
      by_cases hsame : s'.current c' = m.sched.current c'
      · rw [if_pos hsame, hsame]
        exact hown
      · rw [if_neg hsame]
        obtain ⟨b, hb⟩ := hnextStack
        exact hwaitMem _ b (hstack _ b hb) (hselected hsame)
    · rw [hcore c' hc, he.others c' hc]
      exact h.running c'
  · show (savedFrame (m.put c (isrLeave k) s').mem (s'.tasks t).rsp).context = v.context t
    rw [hmem]
    by_cases ht : t = m.sched.current c
    · subst ht
      rcases he.rsp_self with hrsp | ⟨hon, -⟩
      · rw [hrsp]
        exact hown
      · exact absurd hon (hw c)
    · rw [he.rsp_other t ht]
      exact hwaitMem t b (hstack t b hb) (waits_cases he hw ht)
  · show FrameIn b (s'.tasks t).rsp
    by_cases ht : t = m.sched.current c
    · subst ht
      rcases he.rsp_self with hrsp | ⟨hon, hrsp⟩
      · rw [hrsp]
        exact h.frameIn (hstack _ b hb)
      · rw [hrsp]
        refine h.frames _ b (hstack _ b hb) (.inl ?_)
        rcases hcond with hcr | hw
        · exact he.created ▸ hcr
        · exact absurd hon (hw c)
    · rw [he.rsp_other t ht]
      refine h.frames t b (hstack t b hb) ?_
      rcases hcond with hcr | hw
      · exact .inl (he.created ▸ hcr)
      · exact .inr (waits_cases he hw ht)
  · show (s'.tasks t).kernelRsp = (s'.tasks t).stackBottom + stackSize
    have hbot : (s'.tasks t).stackBottom = (m.sched.tasks t).stackBottom :=
      congrArg Prod.fst (he.areas t)
    rw [hkernelRsp, hbot]
    exact h.top t (he.created ▸ ht) h0
  · show InKernel (v.context (s'.idle c')).cs
    rw [he.idle]
    exact h.idle c'
  · show (s'.cpus c').tssRsp0 = (s'.tasks (s'.current c')).kernelRsp
    have hne' : s'.current c' ≠ s'.idle c' := hne
    by_cases hc : c' = c
    · subst hc
      rcases he.rsp0_self with hon | ⟨hon, hrsp0⟩
      · exact hon
      · rw [hon, he.idle] at hne'
        rw [hrsp0, hon, hkernelRsp]
        exact h.rsp0 c' hne'
    · rw [he.others c' hc, he.idle] at hne'
      rw [he.rsp0_other c' hc, he.others c' hc, hkernelRsp]
      exact h.rsp0 c' hne'
  · by_cases hc : c' = c
    · subst hc
      have hon : GsOk (gs c') (m.on c') := h.gs c'
      rw [hself]
      exact gsOk_isrLeave hon hgs
    · rw [hcore c' hc]
      exact h.gs c'

/-- **A new task**. -/
theorem spawn [NeZero n] (h : m.Realizes boot gs v) {s' : Sched n} {stack ss rsp cs entry : Word}
    (hrec : m.sched.KmallocReturns t) (h0 : t ≠ 0) (hfit : stack.toNat + 16384 < 2 ^ 64)
    (hnew : ∀ t' b, StackOf boot m.sched t' b → StacksApart stack b)
    (hc : Creates m.sched t stack s' ss rsp cs entry) :
    t ∉ v.tasks ∧ Tasking.Realizes boot gs
      ⟨s', initialFrame m.mem (stack + stackSize) ss rsp cs entry, m.core⟩
      { v with
        tasks := insert t v.tasks
        context := Function.update v.context t (startContext ss rsp cs entry) } := by
  obtain ⟨q, hq⟩ := h.inv
  obtain ⟨-, hnotCur, hnotIdle, hnotMem⟩ := hq.fresh hrec
  have ht : t ∉ v.tasks := by
    rw [h.tasks]
    rintro (hmem | ⟨c, he⟩)
    · exact hnotMem h0 hmem
    · exact hnotIdle c he.symm
  refine ⟨ht, ?_⟩
  have hstart : (startContext ss rsp cs entry).OnStack stack := hc.onStack hfit
  obtain ⟨pml4, ustack, rfl⟩ := hc.spawns
  have hspawned := hq.spawn hrec pml4 stack ustack
  obtain ⟨c₀, hinv', -⟩ := hspawned.queued
  obtain ⟨hrsp, hfields⟩ := spawnTask_fields m.sched t pml4 stack ustack
  have hbottom : ((spawnTask m.sched t pml4 stack ustack).tasks t).stackBottom = stack :=
    congrArg Prod.fst hfields
  -- a stack is the new one, or was there before
  have hstack : ∀ t' b, StackOf boot (spawnTask m.sched t pml4 stack ustack) t' b →
      (t' = t ∧ b = stack) ∨ (t' ≠ t ∧ StackOf boot m.sched t' b) := by
    intro t' b hb
    cases hb with
    | created ht' h0' =>
      by_cases he : t' = t
      · rw [he, hbottom]
        exact .inl ⟨rfl, rfl⟩
      · rw [hspawned.created] at ht'
        have hold := (List.mem_cons.mp ht').resolve_left he
        have hbot := congrArg Prod.fst (spawnTask_other m.sched pml4 stack ustack he).2
        rw [show ((spawnTask m.sched t pml4 stack ustack).tasks t').stackBottom = _ from hbot]
        exact .inr ⟨he, .created hold h0'⟩
    | idle c =>
      rw [hspawned.idle]
      exact .inr ⟨hnotIdle c, .idle c⟩
  have htop : (stack + stackSize).toNat = stack.toNat + 16384 := by
    rw [BitVec.toNat_add, show stackSize.toNat = 16384 from rfl, Nat.mod_eq_of_lt hfit]
  have hframeAddr : stack + stackSize - 22 * 8 = stackDown (stack + stackSize) 22 := rfl
  have hdown : (stackDown (stack + stackSize) 22).toNat = stack.toNat + 16384 - 176 := by
    have h176 : (BitVec.ofNat 64 (8 * 22) : Word).toNat = 176 := by decide
    rw [stackDown, BitVec.toNat_sub, htop, h176]
    omega
  have hframeIn : FrameIn stack (stackDown (stack + stackSize) 22) := by
    unfold FrameIn
    omega
  set mem' := initialFrame m.mem (stack + stackSize) ss rsp cs entry with hmem'
  have hothers : ∀ t' b, StackOf boot m.sched t' b → Mem.SameBytes b 16384 m.mem mem' := by
    intro t' b hb p hp
    have hfar := hframeIn.apart (hnew t' b hb) hfit (h.fits t' b hb) hp
    exact (mem_initialFrame m.mem hfar).symm
  set ctx := Function.update v.context t (startContext ss rsp cs entry) with hctx
  have hctxSelf : ctx t = startContext ss rsp cs entry := Function.update_self _ _ _
  have hctxOther : ∀ t' ≠ t, ctx t' = v.context t' := fun t' he => Function.update_of_ne he _ _
  refine ⟨⟨_, hinv'⟩, fun t' => ?_, fun c => ?_, fun c => ?_, fun t' b hb hw => ?_,
    fun t' b hb hcond => ?_, fun t' b hb => ?_, fun t₁ b₁ t₂ b₂ hb₁ hb₂ hne => ?_,
    fun t' ht' h0' => ?_, fun t' b hb => ?_, fun c => ?_, fun c hne => ?_, h.gs⟩
  · simp only [Set.mem_insert_iff, hspawned.created, hspawned.idle, List.mem_cons, h.tasks t', or_assoc]
  · rw [hspawned.current]
    exact h.current c
  · show coreContext (m.core c) = ctx ((spawnTask m.sched t pml4 stack ustack).current c)
    rw [hspawned.current, hctxOther _ (hnotCur c)]
    exact h.running c
  · rcases hstack t' b hb with ⟨rfl, rfl⟩ | ⟨hne, hb'⟩
    · show (savedFrame mem' ((spawnTask m.sched t' pml4 b ustack).tasks t').rsp).context = ctx t'
      rw [hrsp, hframeAddr, hctxSelf]
      exact savedFrame_initialFrame m.mem (b + stackSize) ss rsp cs entry
    · have hw' : ∀ c, m.sched.current c ≠ t' := fun c => by
        rw [← hspawned.current]
        exact hw c
      have hin := h.frames t' b hb' (.inr hw')
      show (savedFrame mem' ((spawnTask m.sched t pml4 stack ustack).tasks t').rsp).context = ctx t'
      rw [(spawnTask_other m.sched pml4 stack ustack hne).1, hctxOther t' hne,
        ← savedFrame_congr (hin.sameBytes (h.fits t' b hb') (hothers t' b hb'))]
      exact h.waiting t' b hb' hw'
  · show FrameIn b ((spawnTask m.sched t pml4 stack ustack).tasks t').rsp
    rcases hstack t' b hb with ⟨rfl, rfl⟩ | ⟨hne, hb'⟩
    · rw [hrsp]
      exact hframeIn
    · rw [(spawnTask_other m.sched pml4 stack ustack hne).1]
      refine h.frames t' b hb' ?_
      rcases hcond with hcr | hw
      · have hcr' : t' ∈ (spawnTask m.sched t pml4 stack ustack).created := hcr
        rw [hspawned.created] at hcr'
        exact .inl ((List.mem_cons.mp hcr').resolve_left hne)
      · refine .inr fun c => ?_
        rw [← hspawned.current]
        exact hw c
  · rcases hstack t' b hb with ⟨-, rfl⟩ | ⟨-, hb'⟩
    · exact hfit
    · exact h.fits t' b hb'
  · rcases hstack t₁ b₁ hb₁ with ⟨rfl, rfl⟩ | ⟨hne₁, hb₁'⟩
    · rcases hstack t₂ b₂ hb₂ with ⟨rfl, -⟩ | ⟨-, hb₂'⟩
      · exact absurd rfl hne
      · exact hnew t₂ b₂ hb₂'
    · rcases hstack t₂ b₂ hb₂ with ⟨rfl, rfl⟩ | ⟨-, hb₂'⟩
      · exact (hnew t₁ b₁ hb₁').symm
      · exact h.apart t₁ b₁ t₂ b₂ hb₁' hb₂' hne
  · show ((spawnTask m.sched t pml4 stack ustack).tasks t').kernelRsp = _
    by_cases he : t' = t
    · rw [he, hbottom]
      exact congrArg Prod.snd hfields
    · have hother := (spawnTask_other m.sched pml4 stack ustack he).2
      have hold : t' ∈ m.sched.created := by
        have hcr : t' ∈ (spawnTask m.sched t pml4 stack ustack).created := ht'
        rw [hspawned.created] at hcr
        exact (List.mem_cons.mp hcr).resolve_left he
      rw [show ((spawnTask m.sched t pml4 stack ustack).tasks t').kernelRsp = _ from
          congrArg Prod.snd hother,
        show ((spawnTask m.sched t pml4 stack ustack).tasks t').stackBottom = _ from
          congrArg Prod.fst hother]
      exact h.top t' hold h0'
  · show (ctx t').OnStack b
    rcases hstack t' b hb with ⟨rfl, rfl⟩ | ⟨hne, hb'⟩
    · rw [hctxSelf]
      exact hstart
    · rw [hctxOther t' hne]
      exact h.onStack t' b hb'
  · show InKernel (ctx ((spawnTask m.sched t pml4 stack ustack).idle c)).cs
    rw [hspawned.idle, hctxOther _ (hnotIdle c)]
    exact h.idle c
  · have hne' : m.sched.current c ≠ m.sched.idle c := by
      have hnew : (spawnTask m.sched t pml4 stack ustack).current c ≠
          (spawnTask m.sched t pml4 stack ustack).idle c := hne
      rw [hspawned.current, hspawned.idle] at hnew
      exact hnew
    show ((spawnTask m.sched t pml4 stack ustack).cpus c).tssRsp0 = _
    rw [spawnTask_rsp0, hspawned.current,
      show ((spawnTask m.sched t pml4 stack ustack).tasks (m.sched.current c)).kernelRsp = _ from
        congrArg Prod.snd (spawnTask_other m.sched pml4 stack ustack (hnotCur c)).2]
    exact h.rsp0 c hne'

/-- **One step** of the CPUs is one step of the abstract machine. -/
theorem step [NeZero n] (h : m.Realizes boot gs v) {a : TaskAct n} {m' : Tasking n}
    (hst : TaskStep boot gs m a m') : ∃ v', VirtualStep v a v' ∧ m'.Realizes boot gs v' := by
  cases hst with
  | run c k hown => exact ⟨_, .run v c (coreContext k), h.run hown⟩
  | interrupt c hv errorCode hec hraised fuel cow hret k hrax hgs hkept hframe =>
    rename_i s₀ s' r w
    obtain ⟨q, hq⟩ := h.inv
    have hint : (savedFrame (m.enter c w errorCode).mem (m.frameAt c)).intNo = BitVec.ofNat 64 w := by
      have henter : savedFrame (m.enter c w errorCode).mem (m.frameAt c) =
          isrFrame w errorCode (m.on c) := savedFrame_isrEnter w _ errorCode (m.on c)
      rw [henter]
      rfl
    have he := hq.isr_effect hraised hint hret
    have halone : ∀ c' ≠ c, v.current c' ≠ s'.current c := by
      intro c' hc
      obtain ⟨q', hq'⟩ := he.inv
      rw [h.current, ← he.others c' hc]
      exact (hq'.settled c (Set.mem_univ c)).2.notCurrent c' ⟨Set.mem_univ c', hc⟩
    exact ⟨_, .interrupt v c (s'.current c) halone, h.interrupt he hrax hgs hkept hframe⟩
  | spawn hrec h0 hfit hnew hc =>
    obtain ⟨ht, hreal⟩ := h.spawn hrec h0 hfit hnew hc
    exact ⟨_, .spawn v _ _ ht, hreal⟩

end Tasking.Realizes

/-! ## §3. Runs. -/

/-- **The CPUs at the start**: `task_init_per_cpu` has run on each, and each is
    in the kernel, on a boot stack of its own. -/
structure Tasking.Initial (boot gs : Fin n → Word) (m : Tasking n) : Prop where
  sched : m.sched.Initialised
  fits : ∀ c, (boot c).toNat + 16384 < 2 ^ 64
  apart : ∀ c c', c ≠ c' → StacksApart (boot c) (boot c')
  kernel : ∀ c, InKernel (m.core c).cs
  onStack : ∀ c, (coreContext (m.core c)).OnStack (boot c)
  gs : ∀ c, GsOk (gs c) (m.core c)

/-- The idle tasks execute, each with the registers of its CPU. -/
theorem Tasking.Initial.realizes {boot gs : Fin n → Word} {m : Tasking n}
    (h : m.Initial boot gs) : ∃ v : Virtual n, m.Realizes boot gs v := by
  obtain ⟨hinv, hcreated⟩ := h.sched.inv
  have hidle : ∀ c, m.sched.current c = m.sched.idle c := by
    intro c
    have hknown := (hinv.settled c (Set.mem_univ c)).2.known
    rw [hcreated] at hknown
    exact hknown.resolve_left List.not_mem_nil
  classical
  -- the registers of an idle task are those of its CPU
  let context : Word → Context := fun t =>
    if ht : ∃ c, m.sched.idle c = t then coreContext (m.core ht.choose)
    else ⟨0, 0, 0, 0, 0, 0, 0, 0, 0, 0, 0, 0, 0, 0, 0, 0, 0, 0, 0, 0⟩
  have hcontext : ∀ c, context (m.sched.idle c) = coreContext (m.core c) := by
    intro c
    have hex : ∃ c', m.sched.idle c' = m.sched.idle c := ⟨c, rfl⟩
    have hchoose : hex.choose = c := hinv.idle_inj _ _ hex.choose_spec
    show (if ht : ∃ c', m.sched.idle c' = m.sched.idle c then coreContext (m.core ht.choose)
      else _) = _
    rw [dif_pos hex, hchoose]
  have hstack : ∀ t b, StackOf boot m.sched t b → ∃ c, t = m.sched.idle c ∧ b = boot c := by
    intro t b hb
    cases hb with
    | created ht h0 =>
      rw [hcreated] at ht
      exact absurd ht List.not_mem_nil
    | idle c => exact ⟨c, rfl, rfl⟩
  have hnone : ∀ t b, StackOf boot m.sched t b → ¬ ∀ c, m.sched.current c ≠ t := by
    intro t b hb hw
    obtain ⟨c, rfl, -⟩ := hstack t b hb
    exact hw c (hidle c)
  refine ⟨⟨{t | ∃ c, t = m.sched.idle c}, m.sched.current, context⟩, ⟨_, hinv⟩, fun t => ?_,
    fun _ => rfl, fun c => ?_, fun t b hb hw => absurd hw (hnone t b hb), fun t b hb hcond => ?_,
    fun t b hb => ?_, fun t b t' b' hb hb' hne => ?_, fun t ht => ?_, fun t b hb => ?_, fun c => ?_,
    fun c hne => absurd (hidle c) hne, h.gs⟩
  · rw [hcreated]
    exact ⟨.inr, fun ht => ht.resolve_left List.not_mem_nil⟩
  · show _ = context (m.sched.current c)
    rw [hidle, hcontext]
  · rcases hcond with hcr | hw
    · rw [hcreated] at hcr
      exact absurd hcr List.not_mem_nil
    · exact absurd hw (hnone t b hb)
  · obtain ⟨c, -, rfl⟩ := hstack t b hb
    exact h.fits c
  · obtain ⟨c, rfl, rfl⟩ := hstack t b hb
    obtain ⟨c', rfl, rfl⟩ := hstack t' b' hb'
    exact h.apart c c' fun he => hne (he ▸ rfl)
  · rw [hcreated] at ht
    exact absurd ht List.not_mem_nil
  · obtain ⟨c, rfl, rfl⟩ := hstack t b hb
    show (context (m.sched.idle c)).OnStack (boot c)
    rw [hcontext]
    exact h.onStack c
  · show InKernel (context (m.sched.idle c)).cs
    rw [hcontext]
    exact h.kernel c

section

variable [NeZero n] {boot gs : Fin n → Word} {m₀ m m' : Tasking n}
  {tr₀ tr : List (Transition (Tasking n) (TaskAct n))}

/-- Whole runs of the CPUs, from any state that realizes the tasks. -/
theorem Tasking.Realizes.runs {v₀ : Virtual n} (hrun : Run (TaskStep boot gs) m₀ tr m)
    (h : m₀.Realizes boot gs v₀) :
    ∃ tr' v, Run VirtualStep v₀ tr' v ∧ Run.labels tr' = Run.labels tr ∧ m.Realizes boot gs v :=
  hrun.simulate (R := fun m v => m.Realizes boot gs v) (fun _ _ _ _ hv hst => hv.step hst) h

/-- **Every run of the CPUs is a run of tasks with registers of their own**:
    the same tasks execute, are interrupted and start, in the same order. -/
theorem tasking_refines (hrun : Run (TaskStep boot gs) m₀ tr m) (h0 : m₀.Initial boot gs) :
    ∃ v₀ tr' v, Run VirtualStep v₀ tr' v ∧ Run.labels tr' = Run.labels tr ∧
      m₀.Realizes boot gs v₀ ∧ m.Realizes boot gs v := by
  obtain ⟨v₀, hv₀⟩ := h0.realizes
  obtain ⟨tr', v, hrun', hlab, hv⟩ := hv₀.runs hrun
  exact ⟨v₀, tr', v, hrun', hlab, hv₀, hv⟩

/-- **A task finds its registers as it left them**: if task `t` is current on
    CPU `c`, and later on CPU `c'`, and has not executed in between, then CPU
    `c'` holds the registers that CPU `c` held. -/
theorem registers_kept (hreach : Run (TaskStep boot gs) m₀ tr₀ m) (h0 : m₀.Initial boot gs)
    (hrun : Run (TaskStep boot gs) m tr m') {t : Word} {c c' : Fin n}
    (hc : m.sched.current c = t) (hc' : m'.sched.current c' = t)
    (hno : ∀ x ∈ tr, ∀ d, x.2.1 = .run d → x.1.sched.current d ≠ t) :
    coreContext (m'.core c') = coreContext (m.core c) := by
  obtain ⟨v₀, hv₀⟩ := h0.realizes
  obtain ⟨-, v, -, -, hv⟩ := hv₀.runs hreach
  have htask : t ∈ v.tasks := by
    obtain ⟨q, hq⟩ := hv.inv
    rw [hv.tasks, ← hc]
    rcases (hq.settled c (Set.mem_univ c)).2.known with hk | hk
    · exact .inl hk
    · exact .inr ⟨c, hk⟩
  have hinv := hrun.invariant
    (I := fun m => ∃ u : Virtual n, m.Realizes boot gs u ∧ t ∈ u.tasks ∧ u.context t = v.context t)
    (C := fun m a => ∀ d, a = .run d → m.sched.current d ≠ t) (fun m a m' hm hC hst => ?_) hno
    ⟨v, hv, htask, rfl⟩
  · obtain ⟨u, hu, -, hctx⟩ := hinv
    rw [hu.running c', hc', hctx, hv.running c, hc]
  · obtain ⟨u, hu, hmem, hctx⟩ := hm
    obtain ⟨u', hst', hu'⟩ := hu.step hst
    have hidle : ¬ Executes t u a := by
      intro hex
      cases a with
      | run d => exact hC d rfl ((hu.current d).symm.trans hex)
      | interrupt d => exact hex
      | spawn t' => exact hex
    obtain ⟨hmem', hkeep⟩ := hst'.context_kept hmem hidle
    exact ⟨u', hu', hmem', hkeep.trans hctx⟩

end

/-! ## §4. A keyboard interrupt. -/

/-- The boot stacks and the `cpu_t` addresses of two CPUs. -/
def idleBoot (c : Fin 2) : Word := BitVec.ofNat 64 (0x100000 * (c + 1))
def idleGs (c : Fin 2) : Word := BitVec.ofNat 64 (0x5000 * (c + 1))

/-- Two CPUs that idle on their boot stacks. -/
def idleCpus : Tasking 2 where
  sched := twoCpus
  mem := fun _ => 0
  core c :=
    { regs := fun r => if r = .rsp then idleBoot c + 16000 else 7
      segs := fun _ => 0x10, rip := 0x101000, cs := 0x08, rflags := 0x202, ss := 0x10
      gsBase := idleGs c, kernelGsBase := 0, mem := fun _ => 0 }

theorem idleCpus_initial : idleCpus.Initial idleBoot idleGs := by
  have hkernel : InKernel (0x08 : Word) := by decide
  refine ⟨twoCpus_initialised, by decide, ?_, fun _ => hkernel, ?_, fun c => ?_⟩
  · unfold StacksApart
    decide
  · intro c _
    revert c
    decide
  · have hcs : InKernel (idleCpus.core c).cs := hkernel
    rw [GsOk, if_pos hcs]
    rfl

/-- CPU 0 takes a keyboard interrupt, and `isr_handler` returns. -/
theorem idleCpus_keyboard : ∃ m, Run (TaskStep idleBoot idleGs) idleCpus
    [(idleCpus, .interrupt 0, m)] m ∧ m.sched.current 0 = idleCpus.sched.current 0 := by
  set a := idleCpus.frameAt 0 with ha
  set k := (idleCpus.enter 0 33 none).setReg .rax a with hk
  have hret : isrHandler 1 idleCpus.sched 0
      (savedFrame (idleCpus.enter 0 33 none).mem a) a false = some (a, idleCpus.sched) := by
    have henter : savedFrame (idleCpus.enter 0 33 none).mem a = isrFrame 33 none (idleCpus.on 0) :=
      savedFrame_isrEnter 33 _ none (idleCpus.on 0)
    rw [henter]
    rfl
  have hrax : k.regs .rax = a := by
    rw [hk, Core.regs_setReg, Function.update_self]
  have hstep : TaskStep idleBoot idleGs idleCpus (.interrupt 0)
      (idleCpus.put 0 (isrLeave k) idleCpus.sched) :=
    .interrupt 0 (by decide) none rfl (.device 33) 1 false hret k hrax rfl
      (fun _ _ _ _ _ _ => rfl) fun _ _ => rfl
  exact ⟨_, (Run.nil idleCpus).snoc hstep, rfl⟩

/-- `tasking_refines` for that run. -/
theorem tasking_refines_keyboard : ∃ (m : Tasking 2) (v₀ v : Virtual 2)
    (tr' : List (Transition (Virtual 2) (TaskAct 2))), Run VirtualStep v₀ tr' v ∧
      Run.labels tr' = [.interrupt 0] ∧ m.Realizes idleBoot idleGs v := by
  obtain ⟨m, hrun, -⟩ := idleCpus_keyboard
  obtain ⟨v₀, tr', v, hrun', hlab, -, hv⟩ := tasking_refines hrun idleCpus_initial
  exact ⟨m, v₀, v, tr', hrun', hlab, hv⟩

/-- `registers_kept` for that run: RAX, which the handler returned its stack
    pointer in, is restored. -/
theorem registers_kept_keyboard : ∃ m : Tasking 2, Run (TaskStep idleBoot idleGs) idleCpus
    [(idleCpus, .interrupt 0, m)] m ∧ (coreContext (m.core 0)).rax = 7 := by
  obtain ⟨m, hrun, hcur⟩ := idleCpus_keyboard
  have hkept := registers_kept (Run.nil idleCpus) idleCpus_initial hrun rfl hcur fun x hx d hd => by
    obtain rfl := List.mem_singleton.mp hx
    cases hd
  refine ⟨m, hrun, ?_⟩
  rw [hkept]
  rfl

end ZohoOs
