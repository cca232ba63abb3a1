/-
  ZohoOs.Task.Fifo — the runqueues as first-in first-out lists.

  Any sequence of `enqueue_task`, `dequeue_task` and `task_steal` calls, on
  any number of CPUs, does to the linked runqueues what it does to plain
  lists: `FifoStep` appends at the end, takes from the front, and steals from
  the first other CPU that has work.  The links lie in the tasks and stay
  behind when a task leaves its queue; a task that comes back has its link
  cleared first, so no stale link is ever followed.

  Main results:

    * `Sched.Listed.step` — one call, and the list operation it performs;
    * `fifo_suffix` — a list holds the last tasks that entered it, in order;
    * `runqueues_fifo` — every sequence of calls.
-/
import ZohoOs.Lib.Transition
import ZohoOs.Kmalloc.Basic
import ZohoOs.Task.Queues
import ZohoOs.Task.Schedule
import Mathlib.Data.Finset.Card
import Mathlib.Data.List.Sort
import Mathlib.Order.Interval.Finset.Nat

namespace ZohoOs

open ZohoOs.Lib

/-! ## §1. The calls. -/

/-- A call on the runqueues, with what it returns. -/
inductive QueueCall (n : Nat) where
  | enqueue (c : Fin n) (t : Word)
  | dequeue (c : Fin n) (ret : Word)
  | steal (self : Fin n) (ret : Word)

/-- Task `t` is linked into some runqueue. -/
def Sched.Queued {n : Nat} (s : Sched n) (t : Word) : Prop :=
  ∃ c l, Chain s.next 0 (s.queue c).head l ∧ t ∈ l

/-- **The calls**: a task is enqueued while it is in no queue. -/
inductive QueueStep {n : Nat} : Sched n → QueueCall n → Sched n → Prop
  | enqueue {s : Sched n} {t : Word} (c : Fin n) (hnull : t ≠ 0) (hout : ¬ s.Queued t) :
      QueueStep s (.enqueue c t) (enqueueTask s c t)
  | dequeue {s : Sched n} (c : Fin n) :
      QueueStep s (.dequeue c (dequeueTask s c).1) (dequeueTask s c).2
  | steal {s : Sched n} (self : Fin n) :
      QueueStep s (.steal self (taskSteal s self).1) (taskSteal s self).2

/-- **The same calls on lists.** -/
inductive FifoStep {n : Nat} : (Fin n → List Word) → QueueCall n → (Fin n → List Word) → Prop
  | enqueue {q : Fin n → List Word} {c : Fin n} {t : Word} (hout : ∀ c', t ∉ q c') :
      FifoStep q (.enqueue c t) (Function.update q c (q c ++ [t]))
  | empty {q : Fin n → List Word} {c : Fin n} (hq : q c = []) : FifoStep q (.dequeue c 0) q
  | first {q : Fin n → List Word} {c : Fin n} {t : Word} {l : List Word} (hq : q c = t :: l) :
      FifoStep q (.dequeue c t) (Function.update q c l)
  | noWork {q : Fin n → List Word} {self : Fin n} (hq : ∀ c, c ≠ self → q c = []) :
      FifoStep q (.steal self 0) q
  | stolen {q : Fin n → List Word} {self v : Fin n} {t : Word} {l : List Word} (hv : v ≠ self)
      (hq : q v = t :: l) (hbefore : ∀ c < v, c ≠ self → q c = []) :
      FifoStep q (.steal self t) (Function.update q v l)

/-- The shape of CPU `c`'s runqueue, which holds the tasks `l`. -/
structure QueueShape {n : Nat} (s : Sched n) (c : Fin n) (l : List Word) : Prop where
  chain : Chain s.next 0 (s.queue c).head l
  acyclic : l.Nodup
  ends : (s.queue c).tail = l.getLast?.getD 0
  count : (s.queue c).count = BitVec.ofNat 32 l.length
  null : (s.queue c).head = 0 ↔ (s.queue c).tail = 0

/-- The task that a call puts into CPU `c`'s queue. -/
def QueueCall.entering {n : Nat} (c : Fin n) : QueueCall n → Option Word
  | .enqueue c' t => if c' = c then some t else none
  | _ => none

/-- The tasks that the calls put into CPU `c`'s queue, in order. -/
def entered {n : Nat} (c : Fin n) (calls : List (QueueCall n)) : List Word :=
  calls.filterMap (QueueCall.entering c)

/-! ## §2. Lists of tasks. -/

section Lists

variable {n : Nat} {q : Fin n → List Word}

/-- One more call. -/
theorem entered_snoc (c : Fin n) (calls : List (QueueCall n)) (a : QueueCall n) :
    entered c (calls ++ [a]) = entered c calls ++ (a.entering c).toList := by
  rw [entered, List.filterMap_append, entered]
  cases h : a.entering c with
  | none => simp [h]
  | some t => simp [h]

/-- **A list holds the last tasks that entered it**, so its front is the
    earliest of those that remain. -/
theorem fifo_suffix {tr : List (Transition (Fin n → List Word) (QueueCall n))}
    (hrun : Run FifoStep (fun _ => []) tr q) (c : Fin n) : q c <:+ entered c (Run.labels tr) := by
  induction hrun with
  | nil => exact List.suffix_rfl
  | @snoc q q' a tr hr hst ih =>
    rw [Run.labels_append, Run.labels_singleton, entered_snoc]
    -- a list that loses its front stays a suffix
    have htail : ∀ {v : Fin n} {t : Word} {l : List Word}, q v = t :: l →
        Function.update q v l c <:+ entered c (Run.labels tr) := by
      intro v t l hq
      by_cases hc : c = v
      · subst hc
        rw [Function.update_self]
        rw [hq] at ih
        exact (List.suffix_cons t l).trans ih
      · rw [Function.update_of_ne hc]
        exact ih
    cases hst with
    | @enqueue c' t hout =>
      obtain ⟨front, hfront⟩ := ih
      refine ⟨front, ?_⟩
      by_cases hc : c' = c
      · subst hc
        rw [Function.update_self, ← List.append_assoc, hfront, QueueCall.entering, if_pos rfl, Option.toList_some]
      · rw [Function.update_of_ne (Ne.symm hc), hfront, QueueCall.entering, if_neg hc, Option.toList_none,
          List.append_nil]
    | empty hq =>
      show _ <:+ entered c (Run.labels tr) ++ []
      rw [List.append_nil]
      exact ih
    | first hq =>
      show _ <:+ entered c (Run.labels tr) ++ []
      rw [List.append_nil]
      exact htail hq
    | noWork hq =>
      show _ <:+ entered c (Run.labels tr) ++ []
      rw [List.append_nil]
      exact ih
    | stolen hv hq hbefore =>
      show _ <:+ entered c (Run.labels tr) ++ []
      rw [List.append_nil]
      exact htail hq

/-- Distinct tasks that `kmalloc` returned are few. -/
theorem length_le_heapSize {l : List Word} (hnd : l.Nodup)
    (hheap : ∀ t ∈ l, heapStart.toNat ≤ t.toNat ∧ t.toNat < heapStart.toNat + heapSize) :
    l.length ≤ heapSize := by
  have hmap : (l.map BitVec.toNat).Nodup := hnd.map fun _ _ he => BitVec.eq_of_toNat_eq he
  have hsub : (l.map BitVec.toNat).toFinset ⊆ Finset.Ico heapStart.toNat (heapStart.toNat + heapSize) := by
    intro k hk
    obtain ⟨t, ht, rfl⟩ := List.mem_map.mp (List.mem_toFinset.mp hk)
    exact Finset.mem_Ico.mpr (hheap t ht)
  have hcard := Finset.card_le_card hsub
  rw [List.toFinset_card_of_nodup hmap, List.length_map, Nat.card_Ico] at hcard
  omega

end Lists

/-! ## §3. One call. -/

/-- **The runqueues stand for the lists `q`**: `Sched.Queues`, with every tail
    pointer set and every count right. -/
structure Sched.Listed {n : Nat} (s : Sched n) (q : Fin n → List Word) : Prop where
  queues : s.Queues q
  tails : s.TailsSet q
  count : ∀ c, (s.queue c).count = BitVec.ofNat 32 (q c).length

namespace Sched.Listed

variable {n : Nat} {s : Sched n} {q : Fin n → List Word} {c self v : Fin n} {t : Word}

/-- Empty runqueues, whatever the links hold. -/
theorem empty (hempty : ∀ c, s.queue c = ⟨0, 0, 0⟩) : s.Listed fun _ => [] := by
  refine ⟨⟨fun c => ?_, fun c => ?_, fun _ => List.nodup_nil, fun _ _ _ ht => absurd ht List.not_mem_nil⟩,
    fun _ hne => absurd rfl hne, fun c => ?_⟩
  · rw [hempty c]
    rfl
  · rw [hempty c]
    exact .inl rfl
  · rw [hempty c]
    rfl

/-- The lists of the tasks and those that `Sched.Queued` speaks of are the
    same. -/
theorem queued_iff (h : s.Listed q) : s.Queued t ↔ ∃ c, t ∈ q c := by
  constructor
  · rintro ⟨c, l, hl, ht⟩
    rw [hl.unique (h.queues.chain c)] at ht
    exact ⟨c, ht⟩
  · rintro ⟨c, ht⟩
    exact ⟨c, q c, h.queues.chain c, ht⟩

theorem shape (h : s.Listed q) (c : Fin n) : QueueShape s c (q c) := by
  have hends : (s.queue c).tail = (q c).getLast?.getD 0 := by
    cases hq : q c with
    | nil =>
      -- an empty queue has no last task for its tail pointer to point to
      rcases h.queues.tail c with hz | hlast
      · exact hz
      · rw [hq] at hlast
        cases hlast
    | cons x l =>
      have hset : (s.queue c).tail ≠ 0 := h.tails c (by rw [hq]; exact List.cons_ne_nil x l)
      rw [← hq, (h.queues.tail c).resolve_left hset]
      rfl
  refine ⟨h.queues.chain c, h.queues.nodup c, hends, h.count c, ?_⟩
  rw [← (h.queues.chain c).eq_nil_iff]
  constructor
  · intro hq
    rw [hends, hq]
    rfl
  · intro hz
    by_contra hne
    exact h.tails c hne hz

/-- **`enqueue_task` appends.** -/
theorem enqueue (h : s.Listed q) (hnull : t ≠ 0) (hout : ∀ c, t ∉ q c) (c : Fin n) :
    (enqueueTask s c t).Listed (Function.update q c (q c ++ [t])) := by
  have hq := h.queues.enqueue (c := c) hout
  have htails := Sched.Queues.tailsSet_enqueue (c := c) h.tails hnull
  rw [pushed_eq hnull (h.tails c)] at hq htails
  refine ⟨hq, htails, fun c' => ?_⟩
  by_cases hc : c' = c
  · subst hc
    rw [Function.update_self, Sched.Queues.queue_enqueueTask, List.length_append]
    show (s.queue c').count + 1 = _
    rw [h.count c', List.length_singleton, BitVec.ofNat_add]
    rfl
  · rw [Function.update_of_ne hc, Sched.Queues.queue_enqueueTask_of_ne s t hc]
    exact h.count c'

/-- **`dequeue_task` takes the front.** -/
theorem dequeue (h : s.Listed q) {l : List Word} (hq : q c = t :: l) :
    (dequeueTask s c).1 = t ∧ (dequeueTask s c).2.Listed (Function.update q c l) := by
  obtain ⟨hret, hqueues, htails⟩ := h.queues.dequeue_cons hq
  refine ⟨hret, hqueues, htails h.tails, fun c' => ?_⟩
  by_cases hc : c' = c
  · subst hc
    have hhead : (s.queue c').head ≠ 0 := by
      rw [h.queues.head_eq, hq]
      exact h.queues.ne_null (c := c') (by rw [hq]; exact List.mem_cons_self)
    have hcount := h.count c'
    rw [hq, List.length_cons, BitVec.ofNat_add] at hcount
    rw [Function.update_self, dequeueTask_of_head s c' hhead, Sched.queue_setQueue]
    show (s.queue c').count - 1 = _
    rw [hcount]
    exact BitVec.add_sub_cancel _ 1
  · rw [Function.update_of_ne hc, Sched.Queues.queue_dequeueTask_of_ne s hc]
    exact h.count c'

/-- An empty queue returns nothing and stays as it is. -/
theorem poll (h : s.Listed q) (hq : q c = []) :
    (dequeueTask s c).1 = 0 ∧ (dequeueTask s c).2.Listed q := by
  rw [h.queues.dequeue_nil hq]
  exact ⟨rfl, h.queues.congr (fun _ _ _ => rfl) fun _ => rfl, h.tails, h.count⟩

/-- The CPU of a task is no matter to the queues. -/
theorem setCpuId (h : s.Listed q) (t : Word) (i : BitVec 32) :
    (s.setTask t fun r => { r with cpuId := i }).Listed q := by
  refine ⟨h.queues.congr (fun _ x _ => ?_) fun _ => rfl, h.tails, h.count⟩
  exact Sched.field_setTask Task.next rfl x

/-- **`task_steal`** over the CPUs `l`: the first of them that is another CPU
    and has work gives its front task away. -/
theorem stealFrom (h : s.Listed q) (self : Fin n) (l : List (Fin n)) :
    ((taskStealFrom self l s).1 = 0 ∧ (taskStealFrom self l s).2.Listed q ∧
        ∀ v ∈ l, v ≠ self → q v = []) ∨
      ∃ done v rest t l', l = done ++ v :: rest ∧ v ≠ self ∧ q v = t :: l' ∧
        (∀ u ∈ done, u ≠ self → q u = []) ∧ (taskStealFrom self l s).1 = t ∧
        (taskStealFrom self l s).2.Listed (Function.update q v l') := by
  induction l generalizing s with
  | nil => exact .inl ⟨rfl, h, fun v hv => absurd hv List.not_mem_nil⟩
  | cons v l ih =>
    -- a CPU without work is passed over
    have hpass : ∀ {s' : Sched n}, s'.Listed q → (v ≠ self → q v = []) →
        taskStealFrom self (v :: l) s = taskStealFrom self l s' →
        ((taskStealFrom self (v :: l) s).1 = 0 ∧ (taskStealFrom self (v :: l) s).2.Listed q ∧
            ∀ u ∈ v :: l, u ≠ self → q u = []) ∨
          ∃ done u rest t l', v :: l = done ++ u :: rest ∧ u ≠ self ∧ q u = t :: l' ∧
            (∀ w ∈ done, w ≠ self → q w = []) ∧ (taskStealFrom self (v :: l) s).1 = t ∧
            (taskStealFrom self (v :: l) s).2.Listed (Function.update q u l') := by
      intro s' hs' hv heq
      rw [heq]
      rcases ih hs' with ⟨hret, hl, hall⟩ | ⟨done, u, rest, t, l', rfl, hu, hq, hdone, hret, hl⟩
      · refine .inl ⟨hret, hl, fun u hu => ?_⟩
        rcases List.mem_cons.mp hu with rfl | hu
        · exact hv
        · exact hall u hu
      · refine .inr ⟨v :: done, u, rest, t, l', rfl, hu, hq, fun w hw => ?_, hret, hl⟩
        rcases List.mem_cons.mp hw with rfl | hw
        · exact hv
        · exact hdone w hw
    by_cases hv : v = self
    · exact hpass h (fun hne => absurd hv hne) (taskStealFrom_self l s hv)
    · cases hq : q v with
      | nil =>
        obtain ⟨hret, hpolled⟩ := h.poll hq
        exact hpass hpolled (fun _ => hq) (taskStealFrom_empty l hv hret)
      | cons t l' =>
        obtain ⟨hret, htaken⟩ := h.dequeue hq
        have hne : (dequeueTask s v).1 ≠ 0 := by
          rw [hret]
          exact h.queues.ne_null (c := v) (by rw [hq]; exact List.mem_cons_self)
        rw [taskStealFrom_found l hv hne]
        refine .inr ⟨[], v, l, t, l', rfl, hv, hq, fun u hu => absurd hu List.not_mem_nil, hret, ?_⟩
        exact htaken.setCpuId _ _

/-- **One call does to the lists what it says.** -/
theorem step {s' : Sched n} {a : QueueCall n} (h : s.Listed q) (hst : QueueStep s a s') :
    ∃ q', FifoStep q a q' ∧ s'.Listed q' := by
  cases hst with
  | @enqueue t c hnull hout =>
    have hq : ∀ c', t ∉ q c' := fun c' ht => hout (h.queued_iff.mpr ⟨c', ht⟩)
    exact ⟨_, .enqueue hq, h.enqueue hnull hq c⟩
  | dequeue c =>
    cases hq : q c with
    | nil =>
      obtain ⟨hret, hl⟩ := h.poll hq
      rw [hret]
      exact ⟨q, .empty hq, hl⟩
    | cons t l =>
      obtain ⟨hret, hl⟩ := h.dequeue hq
      rw [hret]
      exact ⟨_, .first hq, hl⟩
  | steal self =>
    rcases h.stealFrom self (List.finRange n) with ⟨hret, hl, hall⟩ |
      ⟨done, v, rest, t, l', hcut, hv, hq, hdone, hret, hl⟩
    · have hnone : FifoStep q (.steal self 0) q :=
        .noWork fun c hc => hall c (List.mem_finRange c) hc
      exact ⟨q, hret ▸ hnone, hl⟩
    · refine ⟨_, hret ▸ .stolen hv hq fun c hlt => hdone c ?_, hl⟩
      -- the CPUs before `v` were asked before it
      have hsorted := (List.sortedLT_finRange n).pairwise
      have hmem := List.mem_finRange c
      rw [hcut] at hsorted hmem
      rcases List.mem_append.mp hmem with hin | hin
      · exact hin
      · have hrest := (List.pairwise_append.mp hsorted).2.1
        rcases List.mem_cons.mp hin with rfl | hin
        · exact absurd hlt (lt_irrefl c)
        · exact absurd hlt (List.rel_of_pairwise_cons hrest hin).not_gt

end Sched.Listed

/-! ## §4. Every sequence of calls. -/

/-- **The runqueues are first-in first-out lists.**  From empty runqueues,
    whatever the tasks' links hold, every sequence of calls returns what the
    list operations return; each runqueue is a chain without repetition that
    ends at its tail pointer, is empty where either pointer is `NULL`, has its
    length for its count, and shares no task with another; and it holds the
    last tasks that were enqueued on it, in order. -/
theorem runqueues_fifo {n : Nat} {s₀ s : Sched n} {tr : List (Transition (Sched n) (QueueCall n))}
    (hempty : ∀ c, s₀.queue c = ⟨0, 0, 0⟩) (hrun : Run QueueStep s₀ tr s) :
    ∃ tr' q, Run FifoStep (fun _ => []) tr' q ∧ Run.labels tr' = Run.labels tr ∧
      (∀ c, QueueShape s c (q c)) ∧ (∀ c c' t, t ∈ q c → t ∈ q c' → c = c') ∧
      (∀ c, q c <:+ entered c (Run.labels tr)) ∧
      ((∀ c, ∀ t ∈ entered c (Run.labels tr),
          heapStart.toNat ≤ t.toNat ∧ t.toNat < heapStart.toNat + heapSize) →
        ∀ c, (s.queue c).count.toNat = (q c).length) := by
  obtain ⟨tr', q, hfifo, hlabels, hlisted⟩ :=
    hrun.simulate (fun s a s' q h hst => (h.step hst : ∃ q', FifoStep q a q' ∧ Sched.Listed s' q'))
      (.empty hempty)
  have hsuffix : ∀ c, q c <:+ entered c (Run.labels tr) := by
    intro c
    rw [← hlabels]
    exact fifo_suffix hfifo c
  refine ⟨tr', q, hfifo, hlabels, hlisted.shape, hlisted.queues.apart, hsuffix, fun hheap c => ?_⟩
  have hlen := length_le_heapSize (hlisted.queues.nodup c) fun t ht => hheap c t ((hsuffix c).subset ht)
  rw [hlisted.count c, BitVec.toNat_ofNat]
  exact Nat.mod_eq_of_lt (lt_of_le_of_lt hlen (by decide))

/-- Two CPUs with empty runqueues; every link is stale. -/
def staleSched : Sched 2 where
  tasks := fun _ => ⟨1, 0, 0, 0, 0, 0, .ready, 0, 4, 0, 0x1000100⟩
  cpus := fun c => ⟨BitVec.ofNat 8 c.val, 0, 0, ⟨0, 0, 0⟩, false, 0, 0, 0, 0, 0⟩
  nextId := 1
  created := []
  reaped := []
  dequeues := []

/-- Two tasks on one CPU, of which the other CPU steals the first and queues
    it itself. -/
theorem runqueues_fifo_stolen : ∃ tr s, Run QueueStep staleSched tr s ∧
    Run.labels tr = [.enqueue 0 0x1000100, .enqueue 0 0x1000200, .steal 1 0x1000100, .enqueue 1 0x1000100] ∧
    (s.queue 0).head = 0x1000200 ∧ (s.queue 1).head = 0x1000100 ∧ ∀ c, ∃ l, QueueShape s c l := by
  have h₀ : staleSched.Listed fun _ => [] := .empty fun _ => rfl
  have h₁ := h₀.enqueue (t := 0x1000100) (by decide) (fun _ => List.not_mem_nil) 0
  have hout₂ : ∀ c, (0x1000200 : Word) ∉ Function.update (fun _ : Fin 2 => []) 0 ([] ++ [0x1000100]) c := by
    decide
  have h₂ := h₁.enqueue (by decide) hout₂ 0
  have hfound : taskSteal (enqueueTask (enqueueTask staleSched 0 0x1000100) 0 0x1000200) 1 = _ :=
    taskStealFrom_found [1] (by decide) (by decide +kernel)
  have hret : (taskSteal (enqueueTask (enqueueTask staleSched 0 0x1000100) 0 0x1000200) 1).1 = 0x1000100 := by
    rw [hfound]
    decide +kernel
  obtain ⟨q₃, h₃, hout₃⟩ : ∃ q₃,
      (taskSteal (enqueueTask (enqueueTask staleSched 0 0x1000100) 0 0x1000200) 1).2.Listed q₃ ∧
      ∀ c, (0x1000100 : Word) ∉ q₃ c := by
    rw [hfound]
    exact ⟨_, (h₂.dequeue (c := 0) (t := 0x1000100) (l := [0x1000200]) rfl).2.setCpuId _ _, by decide⟩
  have hrun₁ := (Run.nil staleSched).snoc (QueueStep.enqueue 0 (show (0x1000100 : Word) ≠ 0 by decide)
    fun hin => by simpa using h₀.queued_iff.mp hin)
  have hrun₂ := hrun₁.snoc (QueueStep.enqueue 0 (show (0x1000200 : Word) ≠ 0 by decide)
    fun hin => (h₁.queued_iff.mp hin).elim hout₂)
  have hrun₃ := hrun₂.snoc (QueueStep.steal 1)
  have hrun₄ := hrun₃.snoc (QueueStep.enqueue 1 (show (0x1000100 : Word) ≠ 0 by decide)
    fun hin => (h₃.queued_iff.mp hin).elim hout₃)
  obtain ⟨tr', q, -, -, hshape, -⟩ := runqueues_fifo (fun _ => rfl) hrun₄
  refine ⟨_, _, hrun₄, ?_, by decide +kernel, by decide +kernel, fun c => ⟨q c, hshape c⟩⟩
  show [_, _, QueueCall.steal 1 _, _] = _
  rw [hret]

end ZohoOs
