/-
  ZohoOs.Window.Runs — the sections of window.c in any order.

  A state is the desktop and the operations that have taken a snapshot and not
  released it yet, one for each processor between the two sections.  Each
  section under `window_lock` is a step; `kmalloc` hands out null or a block
  that holds no window.  A step that would read or write a freed window, or
  walk for ever, does not exist: that the sections always have a step is part
  of what is proved.

  Main result:
    * `windows_outlive_holders` — as long as `kmalloc` does not fail and the
      reference counts do not overflow, no order of steps loses a window, frees
      one twice or uses one after it is freed.
-/
import ZohoOs.Window.Lifetime
import ZohoOs.Lib.Transition

namespace ZohoOs

open ZohoOs.Lib

/-! ## §1. The steps. -/

/-- An operation between its two sections. -/
inductive PendingOp where
  | update (p : PendingUpdate)
  | draw (redraw : List Rect) (held : List (Word × WindowSnapshot)) (cursor : Rect)

/-- The windows that the operation holds. -/
def PendingOp.windows : PendingOp → List Word
  | .update p => p.held.map Prod.fst
  | .draw _ held _ => held.map Prod.fst

structure WindowSystem where
  desk : Desktop
  pending : List PendingOp

inductive WindowAct where
  /-- `window_create`; `kmalloc` returned `win`. -/
  | create (win : Word) (x y w h bgColor : BitVec 32)
  | markDirty (win : Word)
  | markRegionDirty (win : Word) (x y w h : BitVec 32)
  | setOwner (win pid : Word)
  | setBuffer (win buffer : Word)
  | destroyByPid (pid : Word)
  | popEvent (id : BitVec 32) (outEvent : Word)
  | updateSnapshot (mx my : BitVec 32) (mb : BitVec 8)
  /-- `moved` is what the unlocked test of the last position gave. -/
  | updateRelease (i : Nat) (moved : Bool)
  | drawSnapshot
  | drawRelease (i : Nat)

/-- What one section does. -/
def WindowSystem.exec (fuel : Nat) (screen : Rect) (s : WindowSystem) : WindowAct → Option WindowSystem
  | .create win x y w h bg => some { s with desk := s.desk.windowCreate screen win x y w h bg }
  | .markDirty win => (s.desk.windowMarkDirty screen win).map fun d => { s with desk := d }
  | .markRegionDirty win x y w h =>
      (s.desk.windowMarkRegionDirty screen win x y w h).map fun d => { s with desk := d }
  | .setOwner win pid => (s.desk.windowSetOwner win pid).map fun d => { s with desk := d }
  | .setBuffer win buffer => (s.desk.windowSetBuffer screen win buffer).map fun d => { s with desk := d }
  | .destroyByPid pid => (s.desk.windowDestroyByPid fuel screen pid).map fun d => { s with desk := d }
  | .popEvent id out => (s.desk.windowPopEvent fuel id out).map fun r => { s with desk := r.2.2 }
  | .updateSnapshot mx my mb =>
      (s.desk.updateSnapshot mx my mb).map fun r => ⟨r.2, .update r.1 :: s.pending⟩
  | .updateRelease i moved =>
      match s.pending[i]? with
      | some (.update p) =>
          (s.desk.updateRelease fuel screen p (Desktop.pressHit p) (Desktop.moveHit p moved)).map
            fun d => ⟨d, s.pending.eraseIdx i⟩
      | _ => none
  | .drawSnapshot =>
      s.desk.drawSnapshot.map fun r =>
        match r.1 with
        | none => { s with desk := r.2 }
        | some (redraw, held, cursor) => ⟨r.2, .draw redraw held cursor :: s.pending⟩
  | .drawRelease i =>
      match s.pending[i]? with
      | some (.draw _ held _) =>
          (s.desk.releaseWindowRefsLocked held).map fun d => ⟨d, s.pending.eraseIdx i⟩
      | _ => none

/-- Who may take which step: `kmalloc` returns no block that still holds a
    window, callers name windows that are not destroyed, and an operation
    releases the snapshot it took. -/
def WindowSystem.Enabled (s : WindowSystem) : WindowAct → Prop
  | .create win .. => win = 0 ∨ windowStatus s.desk.history win = .absent
  | .markDirty win | .markRegionDirty win .. | .setOwner win _ | .setBuffer win _ =>
      windowStatus s.desk.history win = .live
  | .updateRelease i _ => ∃ p, s.pending[i]? = some (.update p)
  | .drawRelease i => ∃ redraw held cursor, s.pending[i]? = some (.draw redraw held cursor)
  | _ => True

/-- One section, with fuel enough for its walks. -/
def SectionStep (screen : Rect) (s : WindowSystem) (a : WindowAct) (s' : WindowSystem) : Prop :=
  s.Enabled a ∧ ∃ bound, ∀ fuel, bound ≤ fuel → s.exec fuel screen a = some s'

/-- The state after `window_init`. -/
def bootWindows (screen : Rect) (record : Word → Window) : WindowSystem :=
  ⟨windowInit screen record, []⟩

/-! ## §2. What holds. -/

/-- How many operations hold the window. -/
def WindowSystem.holders (s : WindowSystem) (w : Word) : Nat :=
  s.pending.countP fun p => decide (w ∈ p.windows)

/-- `kmalloc` did not fail, and a snapshot is not one too many for the
    reference counts. -/
def WindowSystem.Meets (s : WindowSystem) : WindowAct → Prop
  | .create win .. => win ≠ 0
  | .updateSnapshot .. | .drawSnapshot => s.pending.length + 1 < 4294967296
  | _ => True

/-- **No window is lost, freed too early or twice, or used once freed.** -/
structure WindowsSafe (screen : Rect) (s : WindowSystem) : Prop where
  refcount : ∀ w, windowStatus s.desk.history w ≠ .absent →
    (s.desk.windows.window w).refcount.toNat = s.holders w
  list : ∃ l, Chain (fun w => (s.desk.windows.window w).next) 0 s.desk.windows.windowList l ∧ l.Nodup ∧
    ∀ w, w ∈ l ↔ windowStatus s.desk.history w = .live
  dragging : s.desk.draggingWindow = 0 ∨ windowStatus s.desk.history s.desk.draggingWindow = .live
  /-- Windows are freed once, and only when they are destroyed. -/
  legal : LegalHistory s.desk.history
  /-- A destroyed window is freed when its last holder releases it, -/
  kept : ∀ w, windowStatus s.desk.history w = .doomed → 0 < s.holders w
  /-- and not before. -/
  held : ∀ w, 0 < s.holders w → windowStatus s.desk.history w ≠ .absent
  /-- Every section runs to its end without touching a freed window. -/
  runs : ∀ a, s.Enabled a → s.Meets a → ∃ s', SectionStep screen s a s'

/-- The holds that the pending operations have on a window. -/
def heldBy (pending : List PendingOp) (w : Word) : Nat := (pending.flatMap PendingOp.windows).count w

/-- **The invariant of the system.** -/
structure WindowSystem.Inv (s : WindowSystem) (l : List Word) : Prop where
  tracked : Tracked s.desk.links (heldBy s.pending) l
  nodup : ∀ p ∈ s.pending, p.windows.Nodup

section Counts

variable {pending : List PendingOp} {w : Word}

/-- Every operation holds a window once. -/
theorem heldBy_eq_countP (h : ∀ p ∈ pending, p.windows.Nodup) :
    heldBy pending w = pending.countP fun p => decide (w ∈ p.windows) := by
  induction pending with
  | nil => rfl
  | cons p pending ih =>
    have hrest := ih fun q hq => h q (List.mem_cons_of_mem _ hq)
    unfold heldBy at hrest ⊢
    rw [List.flatMap_cons, List.count_append, hrest, List.countP_cons]
    by_cases hw : w ∈ p.windows
    · rw [List.count_eq_one_of_mem (h p List.mem_cons_self) hw, if_pos (by simpa using hw)]
      omega
    · rw [List.count_eq_zero_of_not_mem hw, if_neg (by simpa using hw)]
      omega

theorem heldBy_cons (p : PendingOp) :
    heldBy (p :: pending) = fun w => heldBy pending w + p.windows.count w := by
  funext w
  unfold heldBy
  rw [List.flatMap_cons, List.count_append]
  omega

/-- Taking an operation off the list takes its holds off. -/
theorem heldBy_eraseIdx {i : Nat} {p : PendingOp} (h : pending[i]? = some p) (w : Word) :
    heldBy pending w = heldBy (pending.eraseIdx i) w + p.windows.count w := by
  obtain ⟨hi, rfl⟩ := List.getElem?_eq_some_iff.mp h
  have hperm := (List.getElem_cons_eraseIdx_perm hi).flatMap_right PendingOp.windows
  show (pending.flatMap PendingOp.windows).count w = _
  rw [← hperm.count_eq]
  exact congrFun (heldBy_cons _) w

end Counts

/-! ## §3. One step. -/

section Step

variable {s s' : WindowSystem} {l : List Word} {screen : Rect} {a : WindowAct}

namespace WindowSystem.Inv

/-- A hold more fits into the reference counts. -/
theorem held_lt (h : s.Inv l) (hm : s.pending.length + 1 < 4294967296) (w : Word) :
    heldBy s.pending w + 1 < 4294967296 := by
  have hle : s.pending.countP (fun p => decide (w ∈ p.windows)) ≤ s.pending.length := List.countP_le_length
  rw [heldBy_eq_countP h.nodup]
  omega

/-- The desktop changed, the pending operations did not. -/
theorem of_links (h : s.Inv l) {d : Desktop} (hl : d.links = s.desk.links) :
    WindowSystem.Inv { s with desk := d } l :=
  ⟨hl ▸ h.tracked, h.nodup⟩

theorem live_ne_null (h : s.Inv l) {win : Word} (hw : windowStatus s.desk.history win = .live) :
    s.desk.Present win ∧ win ≠ 0 := by
  have hp : s.desk.Present win := by
    unfold Desktop.Present
    rw [hw]
    simp
  exact ⟨hp, h.tracked.present_ne_null hp⟩

/-- An operation took a snapshot. -/
theorem snapshot (h : s.Inv l) {d : Desktop} {p : PendingOp} (hp : p.windows = firstWindows l)
    (ht : Tracked d.links (fun w => heldBy s.pending w + (firstWindows l).count w) l) :
    WindowSystem.Inv ⟨d, p :: s.pending⟩ l := by
  constructor
  · show Tracked d.links (heldBy (p :: s.pending)) l
    rw [heldBy_cons, hp]
    exact ht
  · intro q hq
    rcases List.mem_cons.mp hq with rfl | hq
    · rw [hp]
      exact h.tracked.nodup.sublist (List.take_sublist _ _)
    · exact h.nodup q hq

/-- An operation released its snapshot. -/
theorem release (h : s.Inv l) {d : Desktop} {l' : List Word} {i : Nat} {p : PendingOp}
    (hi : s.pending[i]? = some p)
    (ht : Tracked d.links (fun w => heldBy s.pending w - p.windows.count w) l') :
    WindowSystem.Inv ⟨d, s.pending.eraseIdx i⟩ l' := by
  constructor
  · have hfun : (fun w => heldBy s.pending w - p.windows.count w) = heldBy (s.pending.eraseIdx i) := by
      funext w
      rw [heldBy_eraseIdx hi w]
      omega
    rw [hfun] at ht
    exact ht
  · exact fun q hq => h.nodup q (List.mem_of_mem_eraseIdx hq)

theorem count_le {i : Nat} {p : PendingOp} (hi : s.pending[i]? = some p) (w : Word) : p.windows.count w ≤ heldBy s.pending w := by
  rw [heldBy_eraseIdx hi w]
  omega

variable (screen) in
/-- **Every section runs to its end and keeps the invariant.** -/
theorem exec (h : s.Inv l) (hen : s.Enabled a) (hm : s.Meets a) :
    ∃ s' l', (∀ fuel, l.length < fuel → s.exec fuel screen a = some s') ∧ s'.Inv l' := by
  cases a with
  | create win x y w h' bg =>
    -- a record was allocated, so its address held no window
    have hs := hen.resolve_left hm
    exact ⟨_, win :: l, fun _ _ => rfl, windowCreate_spec _ h.tracked hm hs x y w h' bg, h.nodup⟩
  | markDirty win =>
    obtain ⟨hp, hne⟩ := h.live_ne_null hen
    obtain ⟨d, hrun, hl, -⟩ := markDirty_spec screen hp hne
    exact ⟨_, l, fun _ _ => congrArg (Option.map _) hrun, h.of_links hl⟩
  | markRegionDirty win x y w h' =>
    obtain ⟨hp, hne⟩ := h.live_ne_null hen
    obtain ⟨d, hrun, hl, -⟩ := markRegionDirty_spec screen hp hne x y w h'
    exact ⟨_, l, fun _ _ => congrArg (Option.map _) hrun, h.of_links hl⟩
  | setOwner win pid =>
    obtain ⟨hp, hne⟩ := h.live_ne_null hen
    obtain ⟨d, hrun, hl, -⟩ := setOwner_spec hp hne pid
    exact ⟨_, l, fun _ _ => congrArg (Option.map _) hrun, h.of_links hl⟩
  | setBuffer win buffer =>
    obtain ⟨hp, hne⟩ := h.live_ne_null hen
    obtain ⟨d, hrun, hl, -⟩ := setBuffer_spec screen hp hne buffer
    exact ⟨_, l, fun _ _ => congrArg (Option.map _) hrun, h.of_links hl⟩
  | destroyByPid pid =>
    obtain ⟨d, hrun, ht, -, -⟩ := destroyByPid_spec screen pid h.tracked
    exact ⟨{ s with desk := d }, _, fun fuel hfuel => congrArg (Option.map _) (hrun fuel hfuel), ht,
      h.nodup⟩
  | popEvent id out =>
    obtain ⟨ret, event, d, hrun, hl, -, -⟩ := popEvent_spec h.tracked id out
    exact ⟨{ s with desk := d }, l, fun fuel hfuel => congrArg (Option.map _) (hrun fuel hfuel),
      h.of_links hl⟩
  | updateSnapshot mx my mb =>
    obtain ⟨p, d, hrun, ht, hp, -⟩ := updateSnapshot_spec h.tracked (fun w _ => h.held_lt hm w) mx my mb
    exact ⟨⟨d, .update p :: s.pending⟩, l, fun _ _ => congrArg (Option.map _) hrun,
      h.snapshot (p := .update p) hp ht⟩
  | updateRelease i moved =>
    -- the update that is finished holds its windows until here
    obtain ⟨p, hi⟩ := hen
    obtain ⟨d, l', hrun, ht, -⟩ := updateRelease_spec screen h.tracked p
      (count_le (p := .update p) hi) (pressHit_hitOf p) (moveHit_hitOf p moved)
    refine ⟨⟨d, s.pending.eraseIdx i⟩, l', fun fuel hfuel => ?_, h.release (p := .update p) hi ht⟩
    show (match s.pending[i]? with | some (.update p) => _ | _ => none) = _
    rw [hi]
    exact congrArg (Option.map _) (hrun fuel hfuel)
  | drawSnapshot =>
    rcases drawSnapshot_spec h.tracked (fun w _ => h.held_lt hm w) with
      hnone | ⟨redraw, hs, cursor, d, hrun, ht, hp, -⟩
    · exact ⟨s, l, fun _ _ => congrArg (Option.map _) hnone, h⟩
    · exact ⟨⟨d, .draw redraw hs cursor :: s.pending⟩, l, fun _ _ => congrArg (Option.map _) hrun,
        h.snapshot (p := .draw redraw hs cursor) hp ht⟩
  | drawRelease i =>
    obtain ⟨redraw, hs, cursor, hi⟩ := hen
    obtain ⟨d, hrun, -, ht⟩ := releaseRefs_spec hs h.tracked
      (count_le (p := .draw redraw hs cursor) hi)
    refine ⟨⟨d, s.pending.eraseIdx i⟩, l, fun _ _ => ?_, h.release (p := .draw redraw hs cursor) hi ht⟩
    show (match s.pending[i]? with | some (.draw _ held _) => _ | _ => none) = _
    rw [hi]
    exact congrArg (Option.map _) hrun

/-- What a step that meets the condition does. -/
theorem step (h : s.Inv l) (hm : s.Meets a) (hstep : SectionStep screen s a s') : ∃ l', s'.Inv l' := by
  obtain ⟨hen, bound, hrun⟩ := hstep
  obtain ⟨t, l', hexec, ht⟩ := h.exec screen hen hm
  have h₁ := hrun (bound + l.length + 1) (by omega)
  have h₂ := hexec (bound + l.length + 1) (by omega)
  rw [h₁] at h₂
  injection h₂ with heq
  subst heq
  exact ⟨l', ht⟩

/-- The invariant gives what the callers rely on. -/
theorem safe (h : s.Inv l) : WindowsSafe screen s := by
  have hh : ∀ w, heldBy s.pending w = s.holders w := fun w => heldBy_eq_countP h.nodup
  refine ⟨fun w hw => ?_, ⟨l, h.tracked.chain, h.tracked.nodup, h.tracked.mem_iff⟩, h.tracked.dragging,
    h.tracked.legal, fun w hw => ?_, fun w hw => ?_, fun a hen hm => ?_⟩
  · rw [← hh]
    exact h.tracked.refcount w hw
  · rw [← hh]
    exact h.tracked.doomed w hw
  · rw [← hh] at hw
    exact h.tracked.held w hw
  · obtain ⟨t, -, hexec, -⟩ := h.exec screen hen hm
    exact ⟨t, hen, l.length + 1, fun fuel hfuel => hexec fuel (by omega)⟩

end WindowSystem.Inv

end Step

/-! ## §4. Runs. -/

theorem bootWindows_inv (screen : Rect) (record : Word → Window) : (bootWindows screen record).Inv [] := by
  constructor
  · refine ⟨rfl, rfl, List.nodup_nil, fun w => ?_, trivial, fun w hw => absurd rfl hw,
      fun w hw => absurd rfl hw, fun w hw => ?_, fun w hw => ?_, .inl rfl⟩
    · show w ∈ [] ↔ WindowStatus.absent = .live
      simp
    · cases hw
    · exact absurd hw (Nat.lt_irrefl 0)
  · intro p hp
    cases hp

/-- **No window is used after it is freed.**  In every state that the sections
    reach in any order, by any number of processors, while no `kmalloc` of a
    window fails and fewer than `2 ^ 32 - 1` snapshots are held at once, the
    reference counts are the numbers of holders, the list has the windows
    created and not destroyed, once each, the dragged window is one of them,
    windows are freed once, when they are destroyed and their last holder has
    released them, and every section runs to its end without touching a freed
    window. -/
theorem windows_outlive_holders {screen : Rect} {record : Word → Window}
    {tr : List (Transition WindowSystem WindowAct)} {s : WindowSystem}
    (hrun : Run (SectionStep screen) (bootWindows screen record) tr s)
    (hm : ∀ x ∈ tr, x.1.Meets x.2.1) : WindowsSafe screen s := by
  have hinv : ∃ l, s.Inv l :=
    hrun.invariant (I := fun s => ∃ l, s.Inv l) (C := WindowSystem.Meets)
      (fun _ _ _ ⟨_, h⟩ hm hstep => h.step hm hstep) hm ⟨[], bootWindows_inv screen record⟩
  obtain ⟨l, h⟩ := hinv
  exact h.safe

/-- A record before anything is written to it. -/
def blankWindow : Window :=
  ⟨0, 0, 0, 0, 0, 0, 0, 0, 0, false, false, 0, fun _ => ⟨0, 0, 0, 0⟩, 0, 0, 0⟩

/-- One window is created. -/
theorem windows_outlive_holders_once :
    WindowsSafe ⟨0, 0, 1024, 768⟩
      ⟨(windowInit ⟨0, 0, 1024, 768⟩ fun _ => blankWindow).windowCreate ⟨0, 0, 1024, 768⟩ 0x1000018
        50 50 600 400 0xFF333333, []⟩ := by
  have hrun : Run (SectionStep ⟨0, 0, 1024, 768⟩)
      (bootWindows ⟨0, 0, 1024, 768⟩ fun _ => blankWindow)
      ([] ++ [(_, .create 0x1000018 50 50 600 400 0xFF333333, _)]) _ :=
    (Run.nil _).snoc ⟨.inr rfl, 0, fun _ _ => rfl⟩
  refine windows_outlive_holders hrun fun x hx => ?_
  rw [List.mem_singleton.mp hx]
  show (0x1000018 : Word) ≠ 0
  decide

/-- **A failed `kmalloc` loses every window**: the list is cut at the null
    pointer. -/
theorem windows_lost_when_kmalloc_fails :
    ∃ tr s, Run (SectionStep ⟨0, 0, 1024, 768⟩) (bootWindows ⟨0, 0, 1024, 768⟩ fun _ => blankWindow) tr s ∧
      ¬ WindowsSafe ⟨0, 0, 1024, 768⟩ s := by
  let boot := bootWindows ⟨0, 0, 1024, 768⟩ fun _ => blankWindow
  let one : WindowSystem :=
    ⟨boot.desk.windowCreate ⟨0, 0, 1024, 768⟩ 0x1000018 50 50 600 400 0xFF333333, []⟩
  let two : WindowSystem := ⟨one.desk.windowCreate ⟨0, 0, 1024, 768⟩ 0 0 0 100 100 0, []⟩
  have hfirst : SectionStep ⟨0, 0, 1024, 768⟩ boot (.create 0x1000018 50 50 600 400 0xFF333333) one :=
    ⟨.inr rfl, 0, fun _ _ => rfl⟩
  have hsecond : SectionStep ⟨0, 0, 1024, 768⟩ one (.create 0 0 0 100 100 0) two :=
    ⟨.inl rfl, 0, fun _ _ => rfl⟩
  refine ⟨_, two, ((Run.nil boot).snoc hfirst).snoc hsecond, fun h => ?_⟩
  obtain ⟨l, hchain, -, hmem⟩ := h.list
  have hlive : (0x1000018 : Word) ∈ l := (hmem _).mpr rfl
  rw [hchain.eq_nil_iff.mpr rfl] at hlive
  cases hlive

end ZohoOs
