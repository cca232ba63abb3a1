/-
  ZohoOs.Task.Runs — what holds along every run of the scheduler.

  Main results:
    * `sched_sound` — in every reachable state the runqueues are disjoint
      lists of ready tasks that no CPU runs, and `task_schedule` ends its loop
      after looking at every runqueue at most once;
    * `noTaskLost_iff` — a run keeps track of every task exactly as long as no
      task exits.  `task_schedule` requeues a `TASK_RUNNING` task only, and it
      reaps the dead tasks it pulls from a runqueue; a task that dies while
      it is current is never put into one.
-/
import ZohoOs.Task.Calls

namespace ZohoOs

open ZohoOs.Lib

variable {n : Nat}

/-! ## §1. What one step does. -/

/-- The record a call hands out for a new task. -/
def SchedCall.spawned : SchedCall n → Option Word
  | .create t => some t
  | .createUser t => some t
  | .exec none _ => none
  | .exec (some _) t => some t
  | .fork _ t => some t
  | .schedule _ => none
  | .exit _ => none
  | .fault _ => none

/-- What `task_schedule` on CPU `c` does when the current task is alive. -/
structure Switched (s : Sched n) (q : Fin n → List Word) (c : Fin n) (s' : Sched n)
    (q' : Fin n → List Word) : Prop where
  inv : s'.Inv q' Set.univ
  created : s'.created = s.created
  placed : s.TailsSet q → s'.TailsSet q' ∧ ∀ t, t ≠ s.idle c →
    ((∃ c', s'.current c' = t) ∨ (∃ c', t ∈ q' c') ↔
      (∃ c' ≠ c, s.current c' = t) ∨ (∃ c', t ∈ q c') ∨
        t = s.current c ∧ (s.tasks (s.current c)).id ≠ 0)

/-- **One step**: a new task is queued, the image did not load, the CPU
    switches, or the current task ends. -/
inductive StepEffect (s : Sched n) (q : Fin n → List Word) : SchedCall n → Sched n → Prop
  | spawned {a : SchedCall n} {t : Word} {s' : Sched n} (ha : a.spawned = some t)
      (h : Spawned s q t s') : StepEffect s q a s'
  | notLoaded (t : Word) : StepEffect s q (.exec none t) s
  | switched {c : Fin n} {s' : Sched n} {q' : Fin n → List Word} (h : Switched s q c s' q') :
      StepEffect s q (.schedule c) s'
  | ended {a : SchedCall n} {c : Fin n} {s' : Sched n} {q' : Fin n → List Word}
      (ha : a = .exit c ∨ a = .fault c) (h : Ended s q c s' q') : StepEffect s q a s'

/-- `task_schedule` does not return without a round of its loop. -/
theorem taskSchedule_fuel {s : Sched n} {c : Fin n} (h0 : s.current c ≠ 0) {fuel : Nat} {rsp : Word}
    {x : Word × Sched n} (h : taskSchedule fuel s c rsp = some x) : ∃ k, fuel = k + 1 := by
  cases fuel with
  | zero =>
    rw [taskSchedule, if_neg h0] at h
    cases h
  | succ k => exact ⟨k, rfl⟩

namespace Sched.Inv

variable {s s' : Sched n} {q : Fin n → List Word} {c : Fin n} {a : SchedCall n}

theorem current_ne_null (h : s.Inv q Set.univ) (c : Fin n) : s.current c ≠ 0 :=
  (h.settled c (Set.mem_univ c)).2.ne_null

/-- `task_schedule` in a settled state. -/
theorem switched (h : s.Inv q Set.univ) (c : Fin n) (fuel : Nat) (rsp : Word) :
    ∃ r s' q', taskSchedule (fuel + 1) s c rsp = some (r, s') ∧ Switched s q c s' q' := by
  obtain ⟨r, s', q', hret, hinv, hcreated, hplaced⟩ :=
    (h.mono (Set.subset_univ _)).schedule (h.current_held c) fuel rsp
  have hrun := (h.settled c (Set.mem_univ c)).1
  refine ⟨r, s', q', hret, hinv, hcreated, fun htails => ⟨(hplaced htails).1, fun t ht => ?_⟩⟩
  rw [(hplaced htails).2 t ht, and_iff_right hrun]

/-- `task_schedule` after the current task was marked dead, whatever the
    fuel. -/
theorem endedBy {s₁ : Sched n} (h : s.Inv q Set.univ) (hlike : (ZohoOs.exitCurrent s c).Alike s₁)
    {fuel : Nat} {r rsp : Word} (hret : taskSchedule fuel s₁ c rsp = some (r, s')) :
    ∃ q', Ended s q c s' q' := by
  have h0 : s₁.current c ≠ 0 := by
    rw [hlike.current]
    exact h.current_ne_null c
  obtain ⟨k, rfl⟩ := taskSchedule_fuel h0 hret
  obtain ⟨r', s₂, q', hret', hended⟩ := h.scheduleEnded hlike k rsp
  have he : s₂ = s' := congrArg Prod.snd (Option.some.inj (hret'.symm.trans hret))
  exact ⟨q', he ▸ hended⟩

/-- **The step lemma.** -/
theorem effect [NeZero n] (h : s.Inv q Set.univ) (hst : SchedStep s a s') :
    StepEffect s q a s' := by
  cases hst with
  | create cr3 stack ht => exact .spawned rfl (h.spawn ht _ _ _)
  | createUser pml4 stack ustack ht => exact .spawned rfl (h.spawn ht _ _ _)
  | exec loaded stack ustack ht =>
    cases loaded with
    | none => exact .notLoaded _
    | some pml4 => exact .spawned rfl (h.spawn ht _ _ _)
  | fork c pml4 stack ustack ht => exact .spawned rfl (h.fork ht c _ _ _)
  | schedule c fuel rsp hret =>
    obtain ⟨k, rfl⟩ := taskSchedule_fuel (h.current_ne_null c) hret
    obtain ⟨r', s₁, q', hret', heffect⟩ := h.switched c k rsp
    have he : s₁ = s' := congrArg Prod.snd (Option.some.inj (hret'.symm.trans hret))
    exact .switched (he ▸ heffect)
  | exit c fuel rsp hret =>
    obtain ⟨hlike, heq⟩ := h.sysExit_eq c
    rw [heq] at hret
    obtain ⟨q', hended⟩ := h.endedBy hlike hret
    exact .ended (.inl rfl) hended
  | fault c fuel frame hret =>
    obtain ⟨q', hended⟩ := h.endedBy (Sched.Alike.refl _) hret
    exact .ended (.inr rfl) hended

/-- Every step keeps the invariant. -/
theorem step [NeZero n] (h : s.Inv q Set.univ) (hst : SchedStep s a s') :
    ∃ q', s'.Inv q' Set.univ := by
  cases h.effect hst with
  | spawned _ hspawn =>
    obtain ⟨c, hinv, -⟩ := hspawn.queued
    exact ⟨_, hinv⟩
  | notLoaded _ => exact ⟨q, h⟩
  | switched hsw => exact ⟨_, hsw.inv⟩
  | ended _ hend => exact ⟨_, hend.inv⟩

/-- The invariant along a run. -/
theorem run [NeZero n] {s₀ : Sched n} {tr : List (Transition (Sched n) (SchedCall n))}
    (hrun : Run SchedStep s₀ tr s) (h0 : s₀.Initialised) : ∃ q, s.Inv q Set.univ := by
  refine hrun.invariant' (I := fun s => ∃ q, s.Inv q Set.univ) (fun s a s' hs hst => ?_)
    ⟨_, h0.inv.1⟩
  obtain ⟨q, hq⟩ := hs
  exact hq.step hst

end Sched.Inv

/-! ## §2. Every reachable state is sound. -/

/-- The runqueues are the lists `q`, and every task is where it should be. -/
structure Sched.Sound (s : Sched n) (q : Fin n → List Word) : Prop where
  chain : ∀ c, Chain s.next 0 (s.queue c).head (q c)
  nodup : ∀ c, (q c).Nodup
  apart : ∀ c c' t, t ∈ q c → t ∈ q c' → c = c'
  notCurrent : ∀ c c', s.current c' ∉ q c
  idle_id : ∀ c, (s.tasks (s.idle c)).id = 0
  idle_notQueued : ∀ c c', s.idle c' ∉ q c
  /-- No queued task has the id of the idle tasks, as long as `next_id` has not
      wrapped. -/
  queued_id : s.created.length < 2 ^ 64 - 1 → ∀ c, ∀ t ∈ q c, (s.tasks t).id ≠ 0
  ready : ∀ c, ∀ t ∈ q c, (s.tasks t).state = .ready
  queued_cpuId : ∀ c, ∀ t ∈ q c, (s.tasks t).cpuId = s.cpuIdOf c
  current_cpuId : ∀ c, (s.tasks (s.current c)).cpuId = s.cpuIdOf c

/-- The states in which CPU `c` may enter `task_schedule`: from a timer
    interrupt, from `sys_exit` or from a fault of the current task. -/
inductive EntersSchedule (s : Sched n) (c : Fin n) : Sched n → Prop
  | interrupt : EntersSchedule s c s
  | exit : EntersSchedule s c (exitTicked s c)
  | fault : EntersSchedule s c (exitCurrent s c)

/-- The `while (1)` of `task_schedule` on CPU `c` ends, after at most one
    `dequeue_task` a CPU, with a ready task or the idle task. -/
def Sched.LoopEnds (s : Sched n) (c : Fin n) : Prop :=
  ∀ fuel rsp, ∃ next s' p,
    taskScheduleLoop c (fuel + 1) (requeueOutgoing s c rsp) = some (next, s') ∧
      Polled (requeueOutgoing s c rsp) s' p ∧ p.Nodup ∧
      (next ≠ 0 → (s'.tasks next).state = .ready) ∧
      (switchTo s' c next).current c = if next = 0 then s.idle c else next

namespace Sched.Inv

variable {s s₁ : Sched n} {q : Fin n → List Word} {c : Fin n}

theorem sound (h : s.Inv q Set.univ) : s.Sound q := by
  refine ⟨h.queues.chain, h.queues.nodup, h.queues.apart, fun c c' => ?_, fun c => (h.idle c).2.2.1,
    fun c c' => h.idle_notQueued c' c, fun hlen c t ht => ?_, fun c t ht => (h.queued c t ht).2.1,
    fun c t ht => (h.queued c t ht).2.2, fun c => ?_⟩
  · exact (h.settled c' (Set.mem_univ c')).2.notQueued c
  · -- ids count up from 1
    obtain ⟨k, h1, hk, hid⟩ := h.ids t (h.queued c t ht).1 (h.queues.ne_null ht)
    rw [hid]
    intro he
    have hmod : k % 2 ^ 64 = 0 := by simpa using congrArg BitVec.toNat he
    rw [Nat.mod_eq_of_lt (by omega)] at hmod
    omega
  · exact (h.settled c (Set.mem_univ c)).2.cpuId

/-- The loop, from any state in which the outgoing task is held by the CPU. -/
theorem loopEnds (h : s.Inv q {c}ᶜ) (hheld : s.Held q {c}ᶜ c (s.current c)) : s.LoopEnds c := by
  intro fuel rsp
  obtain ⟨q₁, h₁, ⟨-, -, hidle, -⟩, -⟩ := h.requeue hheld rsp
  set s₁ := requeueOutgoing s c rsp with hs₁
  obtain ⟨q₂, hpull, p, hp, hnd⟩ := h₁.pull c
  have hnext : (pullTask s₁ c).1 ≠ 0 → (pullTask s₁ c).2.InTransit q₂ {c}ᶜ (pullTask s₁ c).1 ∧
      ((pullTask s₁ c).2.tasks (pullTask s₁ c).1).cpuId = (pullTask s₁ c).2.cpuIdOf c := fun hne =>
    (hpull.task.resolve_left fun hz => hne hz.1).1
  refine ⟨(pullTask s₁ c).1, (pullTask s₁ c).2, p, h₁.loop c fuel, hp, hnd, fun hne => ?_, ?_⟩
  · exact (hnext hne).1.ready
  · rw [(hpull.inv.switch hnext).2.2.1, hpull.idle, hidle]

/-- **`task_schedule` never spins**, wherever it is entered. -/
theorem enters (h : s.Inv q Set.univ) (he : EntersSchedule s c s₁) : s₁.LoopEnds c := by
  cases he with
  | interrupt => exact (h.mono (Set.subset_univ _)).loopEnds (h.current_held c)
  | exit =>
    obtain ⟨hexit, hheld, -⟩ := h.exitCurrent c
    have hlike := (h.sysExit_eq c).1
    refine (hlike.inv hexit).loopEnds ?_
    rw [hlike.current]
    exact hlike.held hheld
  | fault =>
    obtain ⟨hexit, hheld, -⟩ := h.exitCurrent c
    exact hexit.loopEnds hheld

end Sched.Inv

/-- **The scheduler invariant** holds in every reachable state, and with it
    `task_schedule` returns on every CPU. -/
theorem sched_sound [NeZero n] {s₀ s : Sched n} {tr : List (Transition (Sched n) (SchedCall n))}
    (hrun : Run SchedStep s₀ tr s) (h0 : s₀.Initialised) :
    (∃ q, s.Sound q) ∧ ∀ c s₁, EntersSchedule s c s₁ → s₁.LoopEnds c := by
  obtain ⟨q, hinv⟩ := Sched.Inv.run hrun h0
  exact ⟨⟨q, hinv.sound⟩, fun c s₁ he => hinv.enters he⟩

/-- Two CPUs after `task_init_per_cpu`, with local APIC ids 0 and 1. -/
def twoCpus : Sched 2 :=
  taskInit
    { tasks := fun _ => ⟨0, 0, 0, 0, 0, 0, .exited, 0, 0, 0, 0⟩
      cpus := fun c => ⟨BitVec.ofNat 8 c, 0, 0, ⟨0, 0, 0⟩, false, 0, 0, 0, 0, 0⟩
      nextId := 0, created := [], reaped := [], dequeues := [] }
    (fun c => BitVec.ofNat 64 (0x1000 * (c + 1))) fun _ => 0x100000

theorem twoCpus_initialised : twoCpus.Initialised := by
  have hnz : ∀ c : Fin 2, BitVec.ofNat 64 (0x1000 * (c + 1)) ≠ 0 := by decide
  have hinj : ∀ c c' : Fin 2,
      BitVec.ofNat 64 (0x1000 * (c + 1)) = BitVec.ofNat 64 (0x1000 * (c' + 1)) → c = c' := by decide
  exact ⟨_, _, _, rfl, rfl, rfl, hnz, hinj⟩

/-- `task_create` on the two CPUs. -/
theorem twoCpus_create : SchedStep twoCpus (.create 0x8000)
    (taskCreate twoCpus 0x8000 0x100000 0x9000) := by
  have hidle : ∀ c, (0x8000 : Word) ≠ twoCpus.idle c := by decide
  refine .create _ _ (.inr ⟨fun hmem => ?_, hidle⟩)
  have hnil : twoCpus.created = [] := twoCpus_initialised.inv.2
  rw [hnil] at hmem
  cases hmem

/-- `sched_sound` after one `task_create`. -/
theorem sched_sound_create :
    (∃ q, (taskCreate twoCpus 0x8000 0x100000 0x9000).Sound q) ∧
      ∀ c s₁, EntersSchedule (taskCreate twoCpus 0x8000 0x100000 0x9000) c s₁ → s₁.LoopEnds c :=
  sched_sound ((Run.nil twoCpus).snoc twoCpus_create) twoCpus_initialised

/-! ## §3. Lost tasks. -/

/-- No task is lost: every created task is current on exactly one CPU, or in
    exactly one runqueue exactly once, or was passed to `task_reap`. -/
def Sched.NoTaskLost (s : Sched n) : Prop :=
  ∃ q : Fin n → List Word, (∀ c, Chain s.next 0 (s.queue c).head (q c)) ∧ ∀ t ∈ s.created,
    ((∃! c, s.current c = t) ∧ ∀ c, t ∉ q c) ∨
      ((∃ c, (q c).count t = 1 ∧ ∀ c' ≠ c, t ∉ q c') ∧ ∀ c, s.current c ≠ t) ∨
      t ∈ s.reaped

/-- **When a call loses no task**: the record of a new task is not `NULL`, a
    task that is scheduled out has not got id 0 unless it is the idle task, and
    no task but the idle task exits or is terminated. -/
def KeepsTasks (s : Sched n) : SchedCall n → Prop
  | .create t => t ≠ 0
  | .createUser t => t ≠ 0
  | .exec loaded t => loaded.isSome → t ≠ 0
  | .fork _ t => t ≠ 0
  | .schedule c => s.current c = s.idle c ∨ (s.tasks (s.current c)).id ≠ 0
  | .exit c => s.current c = s.idle c
  | .fault c => s.current c = s.idle c

theorem keepsTasks_spawned {s : Sched n} {a : SchedCall n} {t : Word} (ha : a.spawned = some t) :
    KeepsTasks s a ↔ t ≠ 0 := by
  cases a with
  | create x => rw [← Option.some.inj ha]; exact Iff.rfl
  | createUser x => rw [← Option.some.inj ha]; exact Iff.rfl
  | exec loaded x =>
    cases loaded with
    | none => cases ha
    | some pml4 =>
      rw [← Option.some.inj ha]
      exact ⟨fun h => h rfl, fun h _ => h⟩
  | fork c x => rw [← Option.some.inj ha]; exact Iff.rfl
  | schedule c => cases ha
  | exit c => cases ha
  | fault c => cases ha

namespace Sched.Inv

variable {s : Sched n} {q : Fin n → List Word} {c : Fin n} {t : Word}

/-- A task without a place is lost: `task_reap` was never called. -/
theorem lost (h : s.Inv q Set.univ) (ht : t ∈ s.created)
    (hno : ¬ ((∃ c, s.current c = t) ∨ ∃ c, t ∈ q c)) : ¬ s.NoTaskLost := by
  intro hlost
  obtain ⟨q', hchain, hplace⟩ := hlost
  rw [h.queues.unique hchain] at hplace
  rcases hplace t ht with ⟨⟨c, he, -⟩, -⟩ | ⟨⟨c, hcount, -⟩, -⟩ | hgone
  · exact hno (.inl ⟨c, he⟩)
  · have hpos : 0 < (q c).count t := by omega
    exact hno (.inr ⟨c, List.count_pos_iff.mp hpos⟩)
  · rw [h.reaped] at hgone
    cases hgone

theorem current_created (h : s.Inv q Set.univ) (hne : s.current c ≠ s.idle c) :
    s.current c ∈ s.created :=
  (h.settled c (Set.mem_univ c)).2.known.resolve_right hne

/-- The current task of a CPU is nowhere else. -/
theorem current_alone (h : s.Inv q Set.univ) (c : Fin n) :
    ¬ ((∃ c' ≠ c, s.current c' = s.current c) ∨ ∃ c', s.current c ∈ q c') := by
  obtain ⟨-, hheld⟩ := h.settled c (Set.mem_univ c)
  rintro (⟨c', hne, he⟩ | ⟨c', hq⟩)
  · exact hheld.notCurrent c' ⟨Set.mem_univ c', hne⟩ he
  · exact hheld.notQueued c' hq

end Sched.Inv

/-- **Every task has its place.** -/
structure Sched.Placed (s : Sched n) (q : Fin n → List Word) : Prop where
  inv : s.Inv q Set.univ
  tails : s.TailsSet q
  placed : ∀ t ∈ s.created, (∃ c, s.current c = t) ∨ ∃ c, t ∈ q c

namespace Sched.Placed

variable {s s' : Sched n} {q q' : Fin n → List Word} {c : Fin n} {a : SchedCall n} {t : Word}

/-- A placed task has one place only. -/
theorem noTaskLost (h : s.Placed q) : s.NoTaskLost := by
  refine ⟨q, h.inv.queues.chain, fun t ht => ?_⟩
  rcases h.placed t ht with ⟨c, rfl⟩ | ⟨c, hmem⟩
  · have hheld := (h.inv.settled c (Set.mem_univ c)).2
    refine .inl ⟨⟨c, rfl, fun c' he => ?_⟩, hheld.notQueued⟩
    by_contra hne
    exact hheld.notCurrent c' ⟨Set.mem_univ c', hne⟩ he
  · refine .inr (.inl ⟨⟨c, ?_, fun c' hne hmem' => ?_⟩, fun c' he => ?_⟩)
    · exact List.count_eq_one_of_mem (h.inv.queues.nodup c) hmem
    · exact hne (h.inv.queues.apart c' c t hmem' hmem)
    · exact (h.inv.settled c' (Set.mem_univ c')).2.notQueued c (he ▸ hmem)

/-- A new task is placed, and the others stay where they are. -/
theorem spawned (h : s.Placed q) (hs : Spawned s q t s') (ht : t ≠ 0) : ∃ q', s'.Placed q' := by
  obtain ⟨c, hinv, htails⟩ := hs.queued
  have hpushed : pushed (s.queue c).tail (q c) t = q c ++ [t] := pushed_eq ht (h.tails c)
  rw [hpushed] at hinv htails
  refine ⟨_, hinv, htails h.tails ht, fun x hx => ?_⟩
  rw [mem_update_append q c x t trivial]
  rw [hs.created] at hx
  rcases List.mem_cons.mp hx with rfl | hold
  · exact .inr (.inr ⟨rfl, trivial⟩)
  · rcases h.placed x hold with ⟨c', he⟩ | hq
    · refine .inl ⟨c', ?_⟩
      rw [hs.current]
      exact he
    · exact .inr (.inl hq)

/-- Switching keeps every task placed, as long as the outgoing one is
    requeued. -/
theorem switched (h : s.Placed q) (hs : Switched s q c s' q')
    (hkeep : s.current c = s.idle c ∨ (s.tasks (s.current c)).id ≠ 0) : s'.Placed q' := by
  obtain ⟨htails, hiff⟩ := hs.placed h.tails
  refine ⟨hs.inv, htails, fun t ht => ?_⟩
  rw [hs.created] at ht
  have hidle : t ≠ s.idle c := fun he => (h.inv.idle c).2.1 (he ▸ ht)
  rw [hiff t hidle]
  rcases h.placed t ht with ⟨c', he⟩ | hq
  · by_cases hc : c' = c
    · subst hc
      exact .inr (.inr ⟨he.symm, hkeep.resolve_left fun hi => hidle (he.symm.trans hi)⟩)
    · exact .inl ⟨c', hc, he⟩
  · exact .inr (.inl hq)

/-- Ending the idle task loses no other. -/
theorem ended (h : s.Placed q) (hs : Ended s q c s' q') (hkeep : s.current c = s.idle c) :
    s'.Placed q' := by
  obtain ⟨htails, hiff⟩ := hs.placed h.tails
  refine ⟨hs.inv, htails, fun t ht => ?_⟩
  rw [hs.created] at ht
  have hidle : t ≠ s.idle c := fun he => (h.inv.idle c).2.1 (he ▸ ht)
  rw [hiff t hidle]
  rcases h.placed t ht with ⟨c', he⟩ | hq
  · refine .inl ⟨c', fun hc => hidle ?_, he⟩
    rw [← he, hc]
    exact hkeep
  · exact .inr hq

/-- A call that meets its condition keeps every task placed. -/
theorem step [NeZero n] (h : s.Placed q) (hkeep : KeepsTasks s a) (hst : SchedStep s a s') :
    ∃ q', s'.Placed q' := by
  cases h.inv.effect hst with
  | spawned ha hs => exact h.spawned hs ((keepsTasks_spawned ha).mp hkeep)
  | notLoaded _ => exact ⟨q, h⟩
  | switched hs => exact ⟨_, h.switched hs hkeep⟩
  | ended ha hs =>
    rcases ha with rfl | rfl
    · exact ⟨_, h.ended hs hkeep⟩
    · exact ⟨_, h.ended hs hkeep⟩

/-- The initial state. -/
theorem initial (h : s.Initialised) : s.Placed fun _ => [] := by
  refine ⟨h.inv.1, fun c hne => absurd rfl hne, fun t ht => ?_⟩
  rw [h.inv.2] at ht
  cases ht

/-- A call that does not meet its condition loses a task at once. -/
theorem loses [NeZero n] (h : s.Placed q) (hst : SchedStep s a s') (hkeep : ¬ KeepsTasks s a) :
    ¬ s'.NoTaskLost := by
  cases h.inv.effect hst with
  | spawned ha hs =>
    -- the `NULL` task is in no chain and current nowhere
    rename_i t
    have ht : t = 0 := by
      by_contra hne
      exact hkeep ((keepsTasks_spawned ha).mpr hne)
    obtain ⟨c, hinv, -⟩ := hs.queued
    subst ht
    refine hinv.lost (t := 0) ?_ ?_
    · rw [hs.created]
      exact List.mem_cons_self
    · rintro (⟨c', he⟩ | ⟨c', hq⟩)
      · exact hinv.current_ne_null c' he
      · exact hinv.queues.ne_null hq rfl
  | notLoaded _ => exact absurd (fun he => nomatch he) hkeep
  | switched hs =>
    rename_i c q'
    obtain ⟨hidle, hid⟩ : s.current c ≠ s.idle c ∧ ¬ (s.tasks (s.current c)).id ≠ 0 :=
      not_or.mp hkeep
    refine hs.inv.lost (t := s.current c) ?_ ?_
    · rw [hs.created]
      exact h.inv.current_created hidle
    · rw [(hs.placed h.tails).2 _ hidle, ← or_assoc, or_iff_left (fun hx => hid hx.2)]
      exact h.inv.current_alone c
  | ended ha hs =>
    rename_i c q'
    have hidle : s.current c ≠ s.idle c := by
      rcases ha with rfl | rfl
      · exact hkeep
      · exact hkeep
    refine hs.inv.lost (t := s.current c) ?_ ?_
    · rw [hs.created]
      exact h.inv.current_created hidle
    · rw [(hs.placed h.tails).2 _ hidle]
      exact h.inv.current_alone c

end Sched.Placed

/-- **When no task is lost**: along a run every task keeps a place if and only
    if every call of the run meets its condition. -/
theorem noTaskLost_iff [NeZero n] {s₀ s : Sched n}
    {tr : List (Transition (Sched n) (SchedCall n))} (hrun : Run SchedStep s₀ tr s)
    (h0 : s₀.Initialised) :
    (∀ x ∈ tr, x.2.2.NoTaskLost) ↔ ∀ x ∈ tr, KeepsTasks x.1 x.2.1 := by
  refine hrun.always_iff (I := fun s => ∃ q, s.Placed q) ?_ ?_ ?_ ⟨_, .initial h0⟩
  · intro s a s' hs hkeep hst
    obtain ⟨q, h⟩ := hs
    exact h.step hkeep hst
  · intro s hs
    obtain ⟨q, h⟩ := hs
    exact h.noTaskLost
  · intro s a s' hs hst hkeep
    obtain ⟨q, h⟩ := hs
    exact h.loses hst hkeep

/-- `noTaskLost_iff` for one `task_create`. -/
theorem noTaskLost_iff_create : (taskCreate twoCpus 0x8000 0x100000 0x9000).NoTaskLost := by
  have hiff := noTaskLost_iff ((Run.nil twoCpus).snoc twoCpus_create) twoCpus_initialised
  refine hiff.mpr (fun x hx => ?_) (_, _, _) (List.mem_singleton_self _)
  rw [List.mem_singleton.mp hx]
  show (0x8000 : Word) ≠ 0
  decide

/-- A task is created, CPU 0 switches to it, and it exits: it is in no
    runqueue, no CPU runs it, and it was not reaped. -/
theorem task_exit_loses : ∃ s₁ s₂ : Sched 2,
    Run SchedStep twoCpus
      [(twoCpus, .create 0x8000, taskCreate twoCpus 0x8000 0x100000 0x9000),
        (taskCreate twoCpus 0x8000 0x100000 0x9000, .schedule 0, s₁), (s₁, .exit 0, s₂)] s₂ ∧
      s₁.current 0 = 0x8000 ∧ ¬ s₂.NoTaskLost := by
  set s := taskCreate twoCpus 0x8000 0x100000 0x9000 with hs
  have hnew : KeepsTasks twoCpus (.create 0x8000) := show (0x8000 : Word) ≠ 0 by decide
  obtain ⟨q, h⟩ : ∃ q, s.Placed q :=
    (Sched.Placed.initial twoCpus_initialised).step hnew twoCpus_create
  obtain ⟨r₁, s₁, q₁, hret₁, hsw⟩ := h.inv.switched 0 0 0xd000
  have hswitch : SchedStep s (.schedule 0) s₁ := .schedule 0 1 0xd000 hret₁
  have hcur : (taskSchedule 1 s 0 0xd000).map (fun x => (x.2.current 0, x.2.idle 0)) =
      some (0x8000, 0x1000) := by decide
  rw [hret₁] at hcur
  obtain ⟨hcur₁, hidle₁⟩ := Prod.mk.inj (Option.some.inj hcur)
  have hkeep : KeepsTasks s (.schedule 0) := .inl (by decide)
  have h₁ : s₁.Placed q₁ := h.switched hsw hkeep
  obtain ⟨hlike, heq⟩ := h₁.inv.sysExit_eq 0
  obtain ⟨r₂, s₂, q₂, hret₂, -⟩ := h₁.inv.scheduleEnded hlike 0 0xd000
  have hexit : SchedStep s₁ (.exit 0) s₂ := .exit 0 1 0xd000 ((heq _ _).trans hret₂)
  refine ⟨s₁, s₂, (((Run.nil twoCpus).snoc twoCpus_create).snoc hswitch).snoc hexit, hcur₁, ?_⟩
  refine h₁.loses hexit fun hidle => ?_
  have hne : (0x8000 : Word) = 0x1000 := hcur₁.symm.trans (Eq.trans hidle hidle₁)
  exact absurd hne (by decide)

end ZohoOs
