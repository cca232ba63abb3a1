/-
  ZohoOs.Syscall.Confine — where the system calls store.

  No handler checks the pointer it is given: it stores its result wherever the
  pointer leads, also over the kernel, which the caller's own page tables map
  for the supervisor.  `ResultByte` says which bytes a call stores, counted
  from the pointer; the calls are confined to the caller's writable pages
  exactly when all of these happen to lie in such pages.
-/
import ZohoOs.Syscall.Basic
import ZohoOs.Kmalloc.Basic
import ZohoOs.Lib.Loop
import ZohoOs.Vmm.PageMap

namespace ZohoOs

open ZohoOs.Lib

variable {n : Nat}

/-! ## §1. The property. -/

/-- The address lies in a page mapped `PAGE_USER` and `PAGE_WRITABLE` in the
    `pml4` of the task that runs on `c`. -/
def Kernel.UserWritable (k : Kernel n) (c : Fin n) (a : Word) : Prop :=
  Canonical a ∧
    vmmGetFlags k.machine (k.sched.tasks (k.sched.current c)).pml4 a &&&
      (pageUser ||| pageWritable ||| pagePresent) = pageUser ||| pageWritable ||| pagePresent

/-- Every byte stored through the caller's pointer lies in such a page, or the
    call fails and stores nothing. -/
def Kernel.Confined (k : Kernel n) (c : Fin n) (r : SyscallResult n) : Prop :=
  (∀ st ∈ r.stores, k.UserWritable c st.1) ∨ (r.ret = -1 ∧ r.stores = [])

/-! ## §2. The bytes of a result. -/

/-- The window has an event to pop. -/
def EventPending (fuel : Nat) (s : Windows) (id : BitVec 32) : Prop :=
  ∃ win, findWindow s id fuel s.windowList = some win ∧ win ≠ 0 ∧
    (s.window win).destroyed = false ∧ (s.window win).eventHead ≠ (s.window win).eventTail

/-- The fields of a `sys_info_t` on `n` CPUs; between `cpu_count` and `cpus`
    there are four bytes of padding. -/
def SysInfoByte (n j : Nat) : Prop :=
  j < 20 ∨ (24 ≤ j ∧ j < 24 + 16 * min n 16) ∨ (280 ≤ j ∧ j < 284)

/-- The fields of a `task_info_t`. -/
def TaskInfoByte (i : Nat) : Prop := i < 12 ∨ (16 ≤ i ∧ i < 28)

/-- How many tasks follow from `t` on, up to `m`. -/
def queueLength (s : Sched n) : Nat → Word → Nat
  | 0, _ => 0
  | m + 1, t => if t = 0 then 0 else queueLength s m (s.next t) + 1

/-- The tasks `task_get_all_info` finds on one CPU, with room for `m`. -/
def cpuTaskCount (s : Sched n) (m : Nat) (c : Fin n) : Nat :=
  (if s.current c ≠ 0 then 1 else 0) + queueLength s m (s.queue c).head

/-- The records `task_get_all_info` fills in. -/
def taskInfoCount (s : Sched n) (m : Nat) : Nat :=
  min m ((List.finRange n).map (cpuTaskCount s m)).sum

/-- The pointer a system call stores through. -/
def resultPointer (num arg1 arg2 : Word) : Word := if num = 2 ∨ num = 5 then arg2 else arg1

/-- The byte at distance `j` from the pointer belongs to the result. -/
def Kernel.ResultByte (k : Kernel n) (fuel : Nat) (ata : AtaRead) (num arg1 arg2 arg3 : Word)
    (j : Nat) : Prop :=
  match num.toNat with
  | 2 => arg2 ≠ 0 ∧ EventPending fuel k.windows (arg1.setWidth 32) ∧ j < 16
  | 5 => ∃ i : Fin maxFds, (arg1.setWidth 32).toNat = i ∧ (k.fds i).inUse ∧
      j < readCount (k.fds i) (arg3.setWidth 32) ∧
      ByteStored ata (k.fds i).startLba (k.fds i).offset.toNat
        (readCount (k.fds i) (arg3.setWidth 32)) j
  | 11 => SysInfoByte n j
  | 12 => ∃ e < taskInfoCount k.sched (arg2.setWidth 32 : BitVec 32).toNat,
      ∃ i, TaskInfoByte i ∧ j = 32 * e + i
  | _ => False

/-! ## §3. What the handlers store. -/

section Stores

variable {a x : Word} {w : Nat}

/-- The stores lie at the distances `P` from `a`. -/
def StoredAt (stores : List Store) (a : Word) (P : Nat → Prop) : Prop :=
  ∀ x, (∃ v, (x, v) ∈ stores) ↔ ∃ j, P j ∧ x = a + BitVec.ofNat 64 j

theorem StoredAt.append {s t : List Store} {P Q : Nat → Prop} (hs : StoredAt s a P)
    (ht : StoredAt t a Q) : StoredAt (s ++ t) a fun j => P j ∨ Q j := by
  intro x
  have hsplit : (∃ v, (x, v) ∈ s ++ t) ↔ (∃ v, (x, v) ∈ s) ∨ ∃ v, (x, v) ∈ t := by
    simp only [List.mem_append, exists_or]
  rw [hsplit, hs x, ht x]
  constructor
  · rintro (⟨j, hj, hx⟩ | ⟨j, hj, hx⟩)
    · exact ⟨j, .inl hj, hx⟩
    · exact ⟨j, .inr hj, hx⟩
  · rintro ⟨j, hj | hj, hx⟩
    · exact .inl ⟨j, hj, hx⟩
    · exact .inr ⟨j, hj, hx⟩

theorem StoredAt.congr {s : List Store} {P Q : Nat → Prop} (h : StoredAt s a P)
    (hPQ : ∀ j, P j ↔ Q j) : StoredAt s a Q := by
  intro x
  rw [h x]
  exact exists_congr fun j => and_congr_left fun _ => hPQ j

theorem storedAt_nil {P : Nat → Prop} (hP : ∀ j, ¬ P j) : StoredAt [] a P := by
  intro x
  constructor
  · rintro ⟨v, hv⟩
    cases hv
  · rintro ⟨j, hj, -⟩
    exact absurd hj (hP j)

/-- A field at distance `d`. -/
theorem storedAt_putField {v : BitVec w} (d bytes : Nat) :
    StoredAt (putField (a + BitVec.ofNat 64 d) v bytes) a fun j => d ≤ j ∧ j < d + bytes := by
  intro x
  unfold putField
  rw [mem_storesAt]
  constructor
  · rintro ⟨i, hi, hx⟩
    refine ⟨d + i, by omega, ?_⟩
    rw [hx, BitVec.add_assoc, ← BitVec.ofNat_add]
  · rintro ⟨j, hj, hx⟩
    refine ⟨j - d, by omega, ?_⟩
    rw [hx, BitVec.add_assoc, ← BitVec.ofNat_add, Nat.add_sub_cancel' hj.1]

theorem storedAt_flatMap {α : Type} {l : List α} {f : α → List Store} {P : α → Nat → Prop}
    (h : ∀ y ∈ l, StoredAt (f y) a (P y)) :
    StoredAt (l.flatMap f) a fun j => ∃ y ∈ l, P y j := by
  induction l with
  | nil => exact storedAt_nil fun j hj => by simp at hj
  | cons y l ih =>
    rw [List.flatMap_cons]
    refine ((h y List.mem_cons_self).append
      (ih fun z hz => h z (List.mem_cons_of_mem _ hz))).congr fun j => ?_
    simp only [List.mem_cons, exists_eq_or_imp]

/-- The 16 bytes of an event. -/
theorem storedAt_putEvent (e : GuiEvent) : StoredAt (putEvent a e) a fun j => j < 16 := by
  have h0 : StoredAt (putField a e.type 4) a fun j => 0 ≤ j ∧ j < 0 + 4 := by
    have h := storedAt_putField (a := a) (v := e.type) 0 4
    rwa [show a + BitVec.ofNat 64 0 = a from BitVec.add_zero a] at h
  refine (((h0.append (storedAt_putField 4 4)).append (storedAt_putField 8 4)).append
    (storedAt_putField 12 4)).congr fun j => ?_
  omega

/-- A field at distance `d` of a record at distance `b`. -/
theorem storedAt_recordField {v : BitVec w} (b d bytes : Nat) :
    StoredAt (putField (a + BitVec.ofNat 64 b + BitVec.ofNat 64 d) v bytes) a fun j =>
      b + d ≤ j ∧ j < b + d + bytes := by
  rw [BitVec.add_assoc, ← BitVec.ofNat_add]
  exact storedAt_putField (b + d) bytes

theorem storedAt_recordStart {v : BitVec w} (b bytes : Nat) :
    StoredAt (putField (a + BitVec.ofNat 64 b) v bytes) a fun j => b ≤ j ∧ j < b + bytes :=
  storedAt_putField b bytes

theorem mem_take_finRange (i : Fin n) (m : Nat) : i ∈ (List.finRange n).take m ↔ i.val < m := by
  rw [List.mem_take_iff_getElem]
  constructor
  · rintro ⟨j, hj, rfl⟩
    rw [List.getElem_finRange]
    show j < m
    omega
  · intro hi
    refine ⟨i, ?_, ?_⟩
    · rw [List.length_finRange]
      have := i.isLt
      omega
    · rw [List.getElem_finRange]
      rfl

theorem storedAt_sysGetSysInfo (k : Kernel n) (info : Word) :
    StoredAt (sysGetSysInfo k info) info (SysInfoByte n) := by
  have hinfo : info = info + BitVec.ofNat 64 0 := (BitVec.add_zero info).symm
  have htotal : StoredAt (putField info (BitVec.ofNat 64 (pmmGetTotalFrames k.machine.pmm)) 8) info
      fun j => 0 ≤ j ∧ j < 0 + 8 := by
    have h := storedAt_putField (a := info)
      (v := BitVec.ofNat 64 (pmmGetTotalFrames k.machine.pmm)) 0 8
    rwa [← hinfo] at h
  have hticks := storedAt_flatMap (a := info) (l := (List.finRange n).take 16)
    (f := fun i =>
      putField (info + BitVec.ofNat 64 (24 + 16 * i)) (k.sched.cpus i).totalTicks 8 ++
        putField (info + BitVec.ofNat 64 (24 + 16 * i) + 8) (k.sched.cpus i).idleTicks 8)
    fun i _ => (storedAt_recordStart (24 + 16 * i) 8).append (storedAt_recordField (24 + 16 * i) 8 8)
  have hcounts := storedAt_flatMap (a := info)
    (l := (List.finRange n).scanl (fun count i => count + ((k.sched.queue i).count + 1)) (0 : BitVec 32))
    (f := fun count => putField (info + 280) count 4) fun count _ => storedAt_putField 280 4
  refine ((((htotal.append (storedAt_putField 8 8)).append (storedAt_putField 16 4)).append
    hticks).append hcounts).congr fun j => ?_
  have htake : (∃ i ∈ (List.finRange n).take 16, (24 + 16 * i.val ≤ j ∧ j < 24 + 16 * i.val + 8) ∨
      (24 + 16 * i.val + 8 ≤ j ∧ j < 24 + 16 * i.val + 8 + 8)) ↔
        24 ≤ j ∧ j < 24 + 16 * min n 16 := by
    constructor
    · rintro ⟨i, hi, hj⟩
      have hi16 := (mem_take_finRange i 16).mp hi
      have := i.isLt
      omega
    · intro hj
      have hn : (j - 24) / 16 < n := by omega
      refine ⟨⟨(j - 24) / 16, hn⟩, (mem_take_finRange _ 16).mpr ?_, ?_⟩
      · show (j - 24) / 16 < 16
        omega
      · show (24 + 16 * ((j - 24) / 16) ≤ j ∧ j < 24 + 16 * ((j - 24) / 16) + 8) ∨
          (24 + 16 * ((j - 24) / 16) + 8 ≤ j ∧ j < 24 + 16 * ((j - 24) / 16) + 8 + 8)
        omega
  have hsums : (∃ count ∈ (List.finRange n).scanl
      (fun count i => count + ((k.sched.queue i).count + 1)) (0 : BitVec 32),
        280 ≤ j ∧ j < 280 + 4) ↔ 280 ≤ j ∧ j < 284 := by
    constructor
    · rintro ⟨_, -, hj⟩
      exact hj
    · intro hj
      obtain ⟨count, hcount⟩ := List.exists_mem_of_ne_nil _ List.scanl_ne_nil
      exact ⟨count, hcount, hj⟩
  rw [htake, hsums]
  unfold SysInfoByte
  omega

end Stores

/-! ## §4. The task records. -/

section Tasks

variable {s : Sched n} {c : Fin n} {tasks t : Word}

/-- The bytes of the records `e₀` to `e₁`. -/
def RecordByte (e₀ e₁ j : Nat) : Prop := ∃ e, e₀ ≤ e ∧ e < e₁ ∧ ∃ i, TaskInfoByte i ∧ j = 32 * e + i

theorem RecordByte.append_iff {e₀ e₁ e₂ j : Nat} (h₁ : e₀ ≤ e₁) (h₂ : e₁ ≤ e₂) :
    RecordByte e₀ e₁ j ∨ RecordByte e₁ e₂ j ↔ RecordByte e₀ e₂ j := by
  constructor
  · rintro (⟨e, hlow, hhigh, hi⟩ | ⟨e, hlow, hhigh, hi⟩)
    · exact ⟨e, hlow, by omega, hi⟩
    · exact ⟨e, by omega, hhigh, hi⟩
  · rintro ⟨e, hlow, hhigh, hi⟩
    by_cases he : e < e₁
    · exact .inl ⟨e, hlow, he, hi⟩
    · exact .inr ⟨e, by omega, hhigh, hi⟩

theorem storedAt_putTaskInfo (count : Nat) :
    StoredAt (putTaskInfo s c tasks count t) tasks (RecordByte count (count + 1)) := by
  refine ((((storedAt_recordStart (32 * count) 8).append
    (storedAt_recordField (32 * count) 8 4)).append
    (storedAt_recordField (32 * count) 16 8)).append
    (storedAt_recordField (32 * count) 24 4)).congr fun j => ?_
  unfold RecordByte TaskInfoByte
  constructor
  · intro hj
    exact ⟨count, le_rfl, by omega, j - 32 * count, by omega, by omega⟩
  · rintro ⟨e, hlow, hhigh, i, hi, hj⟩
    obtain rfl : e = count := by omega
    omega

/-- The walk over a runqueue fills in one record a task. -/
theorem putQueueInfo_spec (room count : Nat) :
    (putQueueInfo s c tasks room t count).1 = count + queueLength s room t ∧
      StoredAt (putQueueInfo s c tasks room t count).2 tasks
        (RecordByte count (count + queueLength s room t)) := by
  have hempty : ∀ count j, ¬ RecordByte count count j := fun count j ⟨e, hlow, hhigh, _⟩ => by omega
  induction room generalizing t count with
  | zero => exact ⟨rfl, storedAt_nil (hempty count)⟩
  | succ room ih =>
    unfold putQueueInfo queueLength
    by_cases ht : t = 0
    · rw [if_pos ht, if_pos ht]
      exact ⟨rfl, storedAt_nil (hempty count)⟩
    · rw [if_neg ht, if_neg ht]
      obtain ⟨hcount, hstored⟩ := ih (t := s.next t) (count + 1)
      refine ⟨by rw [hcount]; omega, ?_⟩
      refine ((storedAt_putTaskInfo count).append hstored).congr fun j => ?_
      rw [RecordByte.append_iff (by omega) (by omega)]
      rw [show count + 1 + queueLength s room (s.next t) =
        count + (queueLength s room (s.next t) + 1) by omega]

/-- With less room the walk stops earlier. -/
theorem queueLength_min {m m' : Nat} (h : m ≤ m') (t : Word) :
    queueLength s m t = min m (queueLength s m' t) := by
  induction m generalizing m' t with
  | zero => rw [Nat.zero_min]; rfl
  | succ m ih =>
    obtain ⟨m', rfl⟩ : ∃ k, m' = k + 1 := ⟨m' - 1, by omega⟩
    unfold queueLength
    by_cases ht : t = 0
    · rw [if_pos ht, if_pos ht, Nat.min_zero]
    · rw [if_neg ht, if_neg ht, ih (show m ≤ m' by omega)]
      omega

/-- One CPU adds its tasks, as far as there is room. -/
theorem putCpuInfo_spec {m : Nat} {r : Nat × List Store} (hr : r.1 ≤ m)
    (hstored : StoredAt r.2 tasks (RecordByte 0 r.1)) :
    (putCpuInfo s tasks m r c).1 = min m (r.1 + cpuTaskCount s m c) ∧
      StoredAt (putCpuInfo s tasks m r c).2 tasks (RecordByte 0 (putCpuInfo s tasks m r c).1) := by
  have hqueue := queueLength_min (s := s) (Nat.sub_le m (r.1 + 1)) (s.queue c).head
  have hqueue' := queueLength_min (s := s) (Nat.sub_le m r.1) (s.queue c).head
  have hspec : ∀ room count,
      (putQueueInfo s c tasks room (s.queue c).head count).1 =
        count + queueLength s room (s.queue c).head ∧ _ := putQueueInfo_spec
  unfold putCpuInfo
  by_cases hcur : s.current c ≠ 0 ∧ r.1 < m
  · rw [if_pos hcur]
    dsimp only
    obtain ⟨hcount, hstored'⟩ := hspec (m - (r.1 + 1)) (r.1 + 1)
    constructor
    · unfold cpuTaskCount
      rw [hcount, hqueue, if_pos hcur.1]
      omega
    · refine ((hstored.append (storedAt_putTaskInfo r.1)).append hstored').congr fun j => ?_
      rw [hcount, RecordByte.append_iff (by omega) (by omega),
        RecordByte.append_iff (by omega) (by omega)]
  · rw [if_neg hcur]
    dsimp only
    obtain ⟨hcount, hstored'⟩ := hspec (m - r.1) r.1
    constructor
    · unfold cpuTaskCount
      rw [hcount, hqueue']
      by_cases h0 : s.current c = 0
      · rw [if_neg fun h => h h0]
        omega
      · have hfull : ¬ r.1 < m := fun hlt => hcur ⟨h0, hlt⟩
        rw [if_pos h0]
        omega
    · refine (hstored.append hstored').congr fun j => ?_
      rw [hcount, RecordByte.append_iff (by omega) (by omega)]

/-- **The records `task_get_all_info` fills in.** -/
theorem taskGetAllInfo_spec (s : Sched n) (tasks : Word) (m : BitVec 32) :
    (taskGetAllInfo s tasks m).1 = taskInfoCount s m.toNat ∧
      StoredAt (taskGetAllInfo s tasks m).2 tasks (RecordByte 0 (taskInfoCount s m.toNat)) := by
  have hloop := foldl_invariant (f := putCpuInfo s tasks m.toNat) (l := List.finRange n)
    (s := (0, []))
    (fun done r => r.1 = min m.toNat (done.map (cpuTaskCount s m.toNat)).sum ∧
      StoredAt r.2 tasks (RecordByte 0 r.1))
    ⟨(Nat.min_zero _).symm, storedAt_nil fun j ⟨e, _, he, _⟩ => absurd he (Nat.not_lt_zero e)⟩ ?_
  · obtain ⟨hcount, hstored⟩ := hloop
    refine ⟨hcount, ?_⟩
    rw [← show (taskGetAllInfo s tasks m).1 = taskInfoCount s m.toNat from hcount]
    exact hstored
  · intro done c rest r _ ⟨hcount, hstored⟩
    obtain ⟨hcount', hstored'⟩ := putCpuInfo_spec (c := c) (m := m.toNat)
      (show r.1 ≤ m.toNat by omega) hstored
    refine ⟨?_, hstored'⟩
    rw [hcount', hcount, List.map_append, List.sum_append, List.map_singleton, List.sum_singleton]
    omega

end Tasks

/-! ## §5. The condition is exact. -/

section Handler

variable {fuel : Nat} {ata : AtaRead} {sectorBuf : Sector} {k : Kernel n} {num arg1 arg2 arg3 arg4 : Word}
  {other : Kernel n → Word → Word → Word → Word → Word → Option (Word × Kernel n)}

theorem storedAt_windowPopEvent {id : BitVec 32} {out : Word} {s : Windows}
    {r : BitVec 32 × Option GuiEvent × Windows} (hret : windowPopEvent fuel s id out = some r) :
    StoredAt ((r.2.1.map (putEvent out)).getD []) out fun j =>
      out ≠ 0 ∧ EventPending fuel s id ∧ j < 16 := by
  unfold windowPopEvent at hret
  by_cases hout : out = 0
  · rw [if_pos hout] at hret
    cases hret
    exact storedAt_nil fun j hj => hj.1 hout
  · rw [if_neg hout] at hret
    obtain ⟨win, hfind, rfl⟩ := Option.map_eq_some_iff.mp hret
    have hwin : ∀ win', findWindow s id fuel s.windowList = some win' → win' = win := by
      intro win' h
      exact Option.some.inj (h.symm.trans hfind)
    split_ifs with h0 hdead hempty
    · refine storedAt_nil fun j hj => ?_
      obtain ⟨-, ⟨win', hf, hne, -⟩, -⟩ := hj
      exact hne ((hwin win' hf).trans h0)
    · refine storedAt_nil fun j hj => ?_
      obtain ⟨-, ⟨win', hf, -, hd, -⟩, -⟩ := hj
      rw [hwin win' hf, hdead] at hd
      cases hd
    · refine storedAt_nil fun j hj => ?_
      obtain ⟨-, ⟨win', hf, -, -, hne⟩, -⟩ := hj
      rw [hwin win' hf] at hne
      exact hne hempty
    · have hpending : EventPending fuel s id :=
        ⟨win, hfind, h0, Bool.eq_false_of_not_eq_true hdead, hempty⟩
      exact (storedAt_putEvent _).congr fun j => ⟨fun hj => ⟨hout, hpending, hj⟩, fun hj => hj.2.2⟩

theorem not_resultByte {j : Nat} (h2 : num.toNat ≠ 2) (h5 : num.toNat ≠ 5) (h11 : num.toNat ≠ 11)
    (h12 : num.toNat ≠ 12) : ¬ k.ResultByte fuel ata num arg1 arg2 arg3 j := by
  unfold Kernel.ResultByte
  split
  · contradiction
  · contradiction
  · contradiction
  · contradiction
  · exact fun h => h

/-- **What a system call stores**: the bytes of its result. -/
theorem storedAt_syscallHandlerC {r : SyscallResult n}
    (hret : syscallHandlerC fuel ata sectorBuf other k num arg1 arg2 arg3 arg4 = some r) :
    StoredAt r.stores (resultPointer num arg1 arg2) (k.ResultByte fuel ata num arg1 arg2 arg3) := by
  unfold syscallHandlerC at hret
  unfold Kernel.ResultByte
  have hnum : ∀ m : Nat, num.toNat = m → num = BitVec.ofNat 64 m := by
    intro m hm
    rw [← hm, BitVec.ofNat_toNat, BitVec.setWidth_eq]
  split at hret
  · rename_i h2
    obtain ⟨e, hpop, rfl⟩ := Option.map_eq_some_iff.mp hret
    rw [h2, hnum 2 h2]
    exact storedAt_windowPopEvent hpop
  · rename_i h5
    cases hret
    rw [h5, hnum 5 h5]
    intro x
    rw [vfsRead_stores]
    constructor
    · rintro ⟨i, hi, huse, j, hj, hst, hx⟩
      exact ⟨j, ⟨i, hi, huse, hj, hst⟩, hx⟩
    · rintro ⟨j, ⟨i, hi, huse, hj, hst⟩, hx⟩
      exact ⟨i, hi, huse, j, hj, hst, hx⟩
  · rename_i h11
    cases hret
    rw [h11, hnum 11 h11]
    exact storedAt_sysGetSysInfo k arg1
  · rename_i h12
    cases hret
    rw [h12, hnum 12 h12]
    refine (taskGetAllInfo_spec k.sched arg1 (arg2.setWidth 32)).2.congr fun j => ?_
    unfold RecordByte
    constructor
    · rintro ⟨e, -, he, hi⟩
      exact ⟨e, he, hi⟩
    · rintro ⟨e, he, hi⟩
      exact ⟨e, Nat.zero_le _, he, hi⟩
  all_goals
    first
    | obtain ⟨e, -, rfl⟩ := Option.map_eq_some_iff.mp hret
    | cases hret
    exact storedAt_nil fun j => not_resultByte (by omega) (by omega) (by omega) (by omega)

/-- **Memory confinement of the system calls.**  Whatever the task, the system
    call and its arguments: the call is confined to the caller's writable
    pages if and only if every byte of its result, counted from the pointer
    passed, lies in one. -/
theorem syscall_confined_iff {r : SyscallResult n} (c : Fin n)
    (hret : syscallHandlerC fuel ata sectorBuf other k num arg1 arg2 arg3 arg4 = some r) :
    k.Confined c r ↔ ∀ j, k.ResultByte fuel ata num arg1 arg2 arg3 j →
      k.UserWritable c (resultPointer num arg1 arg2 + BitVec.ofNat 64 j) := by
  have hstored := storedAt_syscallHandlerC hret
  constructor
  · intro hconf j hj
    obtain ⟨v, hv⟩ := (hstored _).mpr ⟨j, hj, rfl⟩
    rcases hconf with hall | ⟨-, hnil⟩
    · exact hall _ hv
    · rw [hnil] at hv
      cases hv
  · intro hall
    refine .inl fun st hst => ?_
    obtain ⟨j, hj, hx⟩ := (hstored st.1).mp ⟨st.2, hst⟩
    rw [hx]
    exact hall j hj

end Handler

/-- A machine with one CPU that runs a user task in the address space at
    0x207000. -/
def userKernel (m : Machine) : Kernel 1 where
  sched :=
    { tasks := fun _ => ⟨1, 0, 0, 0, 0, 0x207000, .running, 0, 4, 0, 0⟩
      cpus := fun _ => ⟨0, 0x8000, 0x9000, ⟨0, 0, 0⟩, false, 0, 0, 0, 0, 0x207000⟩
      nextId := 2, created := [0x8000], reaped := [], dequeues := [] }
  windows := ⟨fun _ => ⟨0, 0, 0, 0, 0, 0, 0, 0, 0, false, false, 0, fun _ => ⟨0, 0, 0, 0⟩, 0, 0, 0⟩,
    0, 1⟩
  fds := fun _ => ⟨0, 0, 0, false⟩
  machine := m

/-- `syscall_confined_iff` for `sys_get_sys_info` on that machine. -/
theorem syscall_confined_sys_info : ∃ r,
    syscallHandlerC 1 (fun _ => none) (fun _ => 0) (fun _ _ _ _ _ _ => none)
        (userKernel (bootMachine (smallPmm 8))) 11 0x1000000 0 0 0 = some r ∧
      ((userKernel (bootMachine (smallPmm 8))).Confined 0 r ↔
        ∀ j, (userKernel (bootMachine (smallPmm 8))).ResultByte 1 (fun _ => none) 11 0x1000000 0 0 j →
          (userKernel (bootMachine (smallPmm 8))).UserWritable 0
            (resultPointer 11 0x1000000 0 + BitVec.ofNat 64 j)) := by
  have hret : syscallHandlerC 1 (fun _ => none) (fun _ => 0) (fun _ _ _ _ _ _ => none)
    (userKernel (bootMachine (smallPmm 8))) 11 0x1000000 0 0 0 = some _ := rfl
  exact ⟨_, hret, syscall_confined_iff 0 hret⟩

/-- A user task passes `sys_get_sys_info` the address of the first heap header:
    the call overwrites it and reports success. -/
theorem sys_info_overwrites_heap : ∃ m₁,
    vmmCreateAddressSpace (bootMachine (smallPmm 8)) = (0x207000, m₁) ∧
      ∃ r, syscallHandlerC 1 (fun _ => none) (fun _ => 0) (fun _ _ _ _ _ _ => none) (userKernel m₁)
          11 heapStart 0 0 0 = some r ∧
        r.ret = 0 ∧ (∃ b, (heapStart, b) ∈ r.stores) ∧ ¬ (userKernel m₁).Confined 0 r := by
  obtain ⟨rest, hst⟩ : ∃ rest, (bootMachine (smallPmm 8)).pmm.freeStack = 0x207000 :: rest :=
    ⟨_, freeStack_smallPmm 8⟩
  obtain ⟨m₁, hcreate⟩ : ∃ m₁, vmmCreateAddressSpace (bootMachine (smallPmm 8)) = (0x207000, m₁) :=
    ⟨_, vmmCreateAddressSpace_cons hst (by decide)⟩
  have hboot := bootMachine_small_wf (n := 8) (by decide)
  obtain ⟨hwf, hrep⟩ := create_represents hboot hcreate (by decide)
  -- the new address space shares the kernel's pages, which are not for users
  have hkernel : kernelMap (bootMachine (smallPmm 8)) heapStart =
      pageLookup (bootMachine (smallPmm 8)) p4Table (VPage.of heapStart) := if_pos (by decide)
  have hflags : vmmGetFlags m₁ 0x207000 heapStart = 0x83 := by
    rw [hwf.vmmGetFlags_eq wholeTree_path, hrep heapStart (by decide) (by decide), hkernel,
      ← hboot.vmmGetFlags_eq wholeTree_path]
    decide +kernel
  obtain ⟨b, hb⟩ : ∃ b, (heapStart, b) ∈ sysGetSysInfo (userKernel m₁) heapStart :=
    (storedAt_sysGetSysInfo (userKernel m₁) heapStart heapStart).mpr
      ⟨0, .inl (by decide), (BitVec.add_zero _).symm⟩
  refine ⟨m₁, hcreate, _, rfl, rfl, ⟨b, hb⟩, fun hconf => ?_⟩
  rcases hconf with hall | ⟨hret, -⟩
  · have hbits : vmmGetFlags m₁ 0x207000 heapStart &&&
        (pageUser ||| pageWritable ||| pagePresent) = pageUser ||| pageWritable ||| pagePresent :=
      (hall _ hb).2
    rw [hflags] at hbits
    exact absurd hbits (by decide)
  · exact absurd hret (show (0 : Word) ≠ -1 by decide)

end ZohoOs
