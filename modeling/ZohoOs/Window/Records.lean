/-
  ZohoOs.Window.Records — what the sections of window.c do to the records.

  Most sections only keep the books of a window: its link, its count, its
  owner, its buffer and the dirty flag.  A relation between records that does
  not look at these holds, window by window, between the desktop before such a
  section and the desktop after it, whatever the windows are.  None of these
  sections creates a window or notes where the mouse was.

  Main results:
    * `each_*` — one lemma for each section that keeps the books only.
-/
import ZohoOs.Window.Lifetime

namespace ZohoOs

open ZohoOs.Lib

/-! ## §1. Relations that respect bookkeeping. -/

/-- `R` does not look at the books of a window. -/
structure Bookkeeping (R : Window → Window → Prop) : Prop where
  books : ∀ (r : Window) next refcount dirty ownerPid buffer,
    R r { r with
      next := next, refcount := refcount, dirty := dirty, ownerPid := ownerPid, buffer := buffer }
  trans : ∀ r r' r'', R r r' → R r' r'' → R r r''

theorem Bookkeeping.refl {R : Window → Window → Prop} (hR : Bookkeeping R) (r : Window) : R r r :=
  hR.books r r.next r.refcount r.dirty r.ownerPid r.buffer

/-- The relation holds of every record before and after, no window is new, and
    the last position of the mouse is the same. -/
def Desktop.Each (R : Window → Window → Prop) (d d' : Desktop) : Prop :=
  (∀ w, R (d.windows.window w) (d'.windows.window w)) ∧ (∀ w, d'.Present w → d.Present w) ∧
    d'.lastMx = d.lastMx ∧ d'.lastMy = d.lastMy

section Each

variable {R : Window → Window → Prop} {d d' d'' : Desktop} {screen : Rect} {w win : Word}
  {f : Window → Window}

theorem each_refl (hR : Bookkeeping R) (d : Desktop) : Desktop.Each R d d :=
  ⟨fun _ => hR.refl _, fun _ hp => hp, rfl, rfl⟩

theorem each_trans (hR : Bookkeeping R) (h : Desktop.Each R d d') (h' : Desktop.Each R d' d'') :
    Desktop.Each R d d'' :=
  ⟨fun w => hR.trans _ _ _ (h.1 w) (h'.1 w), fun w hp => h.2.1 w (h'.2.1 w hp),
    h'.2.2.1.trans h.2.2.1, h'.2.2.2.trans h.2.2.2⟩

/-- A write to a record that is still allocated. -/
theorem store_eq_some (h : d.store win f = some d') :
    d' = { d with windows := d.windows.setWindow win f } := by
  unfold Desktop.store at h
  split at h
  · cases h
  · exact (Option.some.inj h).symm

/-- The window written to is there. -/
theorem present_of_store (h : d.store win f = some d') : d'.Present win := by
  have heq := store_eq_some h
  unfold Desktop.store at h
  split at h
  · cases h
  · rw [heq]
    assumption

theorem present_of_load {r : Window} (h : d.load win = some r) : d.Present win := by
  unfold Desktop.load at h
  split at h
  · cases h
  · assumption

theorem load_eq_some {r : Window} (h : d.load win = some r) : r = d.windows.window win := by
  unfold Desktop.load at h
  split at h
  · cases h
  · exact (Option.some.inj h).symm

theorem each_store (hR : Bookkeeping R) (hf : R (d.windows.window win) (f (d.windows.window win)))
    (h : d.store win f = some d') : Desktop.Each R d d' := by
  rw [store_eq_some h]
  refine ⟨fun w => ?_, fun _ hp => hp, rfl, rfl⟩
  show R _ (Function.update d.windows.window win (f (d.windows.window win)) w)
  by_cases hw : w = win
  · rw [hw, Function.update_self]
    exact hf
  · rw [Function.update_of_ne hw]
    exact hR.refl _

/-! ## §2. Snapshots. -/

theorem each_freeWindow (hR : Bookkeeping R) (h : d.freeWindow win = some d') : Desktop.Each R d d' := by
  unfold Desktop.freeWindow at h
  split at h
  · cases h
    exact each_refl hR _
  · split at h
    · cases h
    · cases h
      refine ⟨fun _ => hR.refl _, fun w hp hw => hp ?_, rfl, rfl⟩
      show (if w = win then WindowStatus.absent else windowStatus d.history w) = .absent
      split
      · rfl
      · exact hw

theorem each_retain (hR : Bookkeeping R) (h : d.retainWindowLocked win = some d') :
    Desktop.Each R d d' := by
  unfold Desktop.retainWindowLocked at h
  split at h
  · cases h
    exact each_refl hR _
  · exact each_store hR (hR.books _ _ _ _ _ _) h

theorem each_release (hR : Bookkeeping R) (h : d.releaseWindowLocked win = some d') :
    Desktop.Each R d d' := by
  unfold Desktop.releaseWindowLocked at h
  split at h
  · cases h
    exact each_refl hR _
  · obtain ⟨r, -, h⟩ := Option.bind_eq_some_iff.mp h
    split at h
    · cases h
      exact each_refl hR _
    · obtain ⟨d₁, hstore, h⟩ := Option.bind_eq_some_iff.mp h
      obtain ⟨r₁, -, h⟩ := Option.bind_eq_some_iff.mp h
      have h₁ : Desktop.Each R d d₁ := each_store hR (hR.books _ _ _ _ _ _) hstore
      split at h
      · exact each_trans hR h₁ (each_freeWindow hR h)
      · cases h
        exact h₁

/-- **Taking a snapshot.**  The windows held are as their snapshots say. -/
theorem each_snapshot (hR : Bookkeeping R) {n : Nat} {curr : Word}
    {held : List (Word × WindowSnapshot)} (h : Desktop.snapshotWindowList n d curr = some (held, d')) :
    Desktop.Each R d d' := by
  induction n generalizing d curr held with
  | zero =>
    cases h
    exact each_refl hR _
  | succ n ih =>
    unfold Desktop.snapshotWindowList at h
    split at h
    · cases h
      exact each_refl hR _
    · obtain ⟨d₁, hretain, h⟩ := Option.bind_eq_some_iff.mp h
      obtain ⟨r, -, h⟩ := Option.bind_eq_some_iff.mp h
      obtain ⟨⟨held', d₂⟩, hrest, h⟩ := Option.bind_eq_some_iff.mp h
      cases h
      exact each_trans hR (each_retain hR hretain) (ih hrest)

theorem each_releaseRefs (hR : Bookkeeping R) {held : List (Word × WindowSnapshot)}
    (h : d.releaseWindowRefsLocked held = some d') : Desktop.Each R d d' := by
  induction held generalizing d with
  | nil =>
    cases h
    exact each_refl hR _
  | cons win held ih =>
    obtain ⟨d₁, hrelease, h⟩ := Option.bind_eq_some_iff.mp h
    exact each_trans hR (each_release hR hrelease) (ih h)

/-! ## §3. Whole operations. -/

theorem each_markDirty (hR : Bookkeeping R) (h : d.windowMarkDirty screen win = some d') :
    Desktop.Each R d d' := by
  unfold Desktop.windowMarkDirty at h
  split at h
  · cases h
    exact each_refl hR _
  · obtain ⟨d₁, hstore, h⟩ := Option.bind_eq_some_iff.mp h
    obtain ⟨r, -, h⟩ := Option.bind_eq_some_iff.mp h
    cases h
    have h₁ : Desktop.Each R d d₁ := each_store hR (hR.books _ _ _ _ _ _) hstore
    exact h₁

theorem each_markRegionDirty (hR : Bookkeeping R) {x y rw rh : BitVec 32}
    (h : d.windowMarkRegionDirty screen win x y rw rh = some d') : Desktop.Each R d d' := by
  unfold Desktop.windowMarkRegionDirty at h
  split at h
  · cases h
    exact each_refl hR _
  · obtain ⟨d₁, hstore, h⟩ := Option.bind_eq_some_iff.mp h
    obtain ⟨r, -, h⟩ := Option.bind_eq_some_iff.mp h
    cases h
    have h₁ : Desktop.Each R d d₁ := each_store hR (hR.books _ _ _ _ _ _) hstore
    exact h₁

theorem each_setOwner (hR : Bookkeeping R) {pid : Word} (h : d.windowSetOwner win pid = some d') :
    Desktop.Each R d d' := by
  unfold Desktop.windowSetOwner at h
  split at h
  · cases h
    exact each_refl hR _
  · obtain ⟨r, -, h⟩ := Option.bind_eq_some_iff.mp h
    split at h
    · cases h
      exact each_refl hR _
    · exact each_store hR (hR.books _ _ _ _ _ _) h

theorem each_setBuffer (hR : Bookkeeping R) {buffer : Word}
    (h : d.windowSetBuffer screen win buffer = some d') : Desktop.Each R d d' := by
  unfold Desktop.windowSetBuffer at h
  split at h
  · cases h
    exact each_refl hR _
  · obtain ⟨r, -, h⟩ := Option.bind_eq_some_iff.mp h
    split at h
    · cases h
      exact each_refl hR _
    · obtain ⟨d₁, hstore, h⟩ := Option.bind_eq_some_iff.mp h
      obtain ⟨r₁, -, h⟩ := Option.bind_eq_some_iff.mp h
      cases h
      have h₁ : Desktop.Each R d d₁ := each_store hR (hR.books _ _ _ _ _ _) hstore
      exact h₁

theorem each_destroyWindow (hR : Bookkeeping R) (hd : ∀ r, R r { r with destroyed := true }) {prev : Word}
    (h : d.destroyWindow screen win prev = some d') : Desktop.Each R d d' := by
  obtain ⟨r, -, h⟩ := Option.bind_eq_some_iff.mp h
  obtain ⟨d₁, hunlink, h⟩ := Option.bind_eq_some_iff.mp h
  have h₁ : Desktop.Each R d d₁ := by
    unfold Desktop.unlinkWindow at hunlink
    split at hunlink
    · have hq : Desktop.Each R (d.queueDirtyRect screen (windowOuterRect r)) d₁ :=
        each_store hR (hR.books _ _ _ _ _ _) hunlink
      exact hq
    · cases hunlink
      exact ⟨fun _ => hR.refl _, fun _ hp => hp, rfl, rfl⟩
  obtain ⟨d₂, hstore, h⟩ := Option.bind_eq_some_iff.mp h
  have h₂ : Desktop.Each R d₁ d₂ := by
    have hstored := each_store hR (hd _) hstore
    split at hstored
    · exact hstored
    · exact hstored
  -- the window was there before it was destroyed
  have h₃ : Desktop.Each R d₂ { d₂ with history := .destroyed win :: d₂.history } := by
    refine ⟨fun _ => hR.refl _, fun w hp => ?_, rfl, rfl⟩
    by_cases hw : w = win
    · rw [hw]
      exact present_of_store hstore
    · intro habsent
      refine hp ?_
      show (if w = win then WindowStatus.doomed else windowStatus d₂.history w) = .absent
      rw [if_neg hw]
      exact habsent
  have h₁₂ := each_trans hR (each_trans hR h₁ h₂) h₃
  dsimp only at h
  split at h
  · exact each_trans hR h₁₂ (each_freeWindow hR h)
  · cases h
    exact h₁₂

theorem each_destroyLoop (hR : Bookkeeping R) (hd : ∀ r, R r { r with destroyed := true }) {pid curr prev : Word} {fuel : Nat}
    (h : Desktop.destroyLoop screen pid fuel d curr prev = some d') : Desktop.Each R d d' := by
  induction fuel generalizing d curr prev with
  | zero => cases h
  | succ fuel ih =>
    unfold Desktop.destroyLoop at h
    split at h
    · cases h
      exact each_refl hR _
    · obtain ⟨r, -, h⟩ := Option.bind_eq_some_iff.mp h
      split at h
      · obtain ⟨d₁, hdestroy, h⟩ := Option.bind_eq_some_iff.mp h
        exact each_trans hR (each_destroyWindow hR hd hdestroy) (ih h)
      · exact ih h

theorem each_destroyByPid (hR : Bookkeeping R) (hd : ∀ r, R r { r with destroyed := true }) {pid : Word}
    {fuel : Nat} (h : d.windowDestroyByPid fuel screen pid = some d') : Desktop.Each R d d' :=
  each_destroyLoop hR hd h

/-! ## §4. Raising a window. -/

theorem each_raiseWindow (hR : Bookkeeping R) {fuel : Nat}
    (h : d.raiseWindow fuel screen win = some d') : Desktop.Each R d d' := by
  obtain ⟨r, -, h⟩ := Option.bind_eq_some_iff.mp h
  obtain ⟨prev, -, h⟩ := Option.bind_eq_some_iff.mp h
  split at h
  · cases h
    exact each_refl hR _
  · obtain ⟨d₁, hprev, h⟩ := Option.bind_eq_some_iff.mp h
    obtain ⟨d₂, hwin, h⟩ := Option.bind_eq_some_iff.mp h
    obtain ⟨r₂, -, h⟩ := Option.bind_eq_some_iff.mp h
    cases h
    have h₁ : Desktop.Each R d d₁ := each_store hR (hR.books _ _ _ _ _ _) hprev
    have h₂ : Desktop.Each R d₁ d₂ := each_store hR (hR.books _ _ _ _ _ _) hwin
    exact each_trans hR h₁ h₂

/-- A press on a title bar moves no window. -/
theorem each_startDrag (hR : Bookkeeping R) {fuel : Nat} {mx my : BitVec 32}
    (h : d.startDrag fuel screen win mx my = some d') : Desktop.Each R d d' := by
  obtain ⟨r, -, h⟩ := Option.bind_eq_some_iff.mp h
  dsimp only at h
  split at h
  · have hraise := each_raiseWindow hR h
    exact hraise
  · cases h
    exact ⟨fun _ => hR.refl _, fun _ hp => hp, rfl, rfl⟩

end Each

end ZohoOs
