/-
  ZohoOs.Window.Lifetime — no window is used after it is freed.

  `Tracked d held l` is what holds between the sections of window.c: the list
  visits the live windows `l`, the reference count of every allocated window is
  the number `held` of snapshots that hold it, and a destroyed window is kept
  only as long as one does.  It looks at the links of the state only, so that
  most functions keep it because they keep the links.

  Main results:
    * one lemma for each section: from a tracked state it runs to its end and
      leaves a tracked state.
-/
import ZohoOs.Window.Desktop
import ZohoOs.Lib.Chain

namespace ZohoOs

open ZohoOs.Lib

/-! ## §1. The invariant. -/

/-- What the life of windows depends on. -/
structure Links where
  history : List WindowEvent
  windowList : Word
  draggingWindow : Word
  next : Word → Word
  destroyed : Word → Bool
  refcount : Word → BitVec 32

def Desktop.links (d : Desktop) : Links where
  history := d.history
  windowList := d.windows.windowList
  draggingWindow := d.draggingWindow
  next := fun w => (d.windows.window w).next
  destroyed := fun w => (d.windows.window w).destroyed
  refcount := fun w => (d.windows.window w).refcount

/-- **The invariant**, with the windows of the list and the number of holders
    of each window. -/
structure Tracked (k : Links) (held : Word → Nat) (l : List Word) : Prop where
  null : windowStatus k.history 0 = .absent
  chain : Chain k.next 0 k.windowList l
  nodup : l.Nodup
  mem_iff : ∀ w, w ∈ l ↔ windowStatus k.history w = .live
  legal : LegalHistory k.history
  destroyed : ∀ w, windowStatus k.history w ≠ .absent →
    (k.destroyed w = true ↔ windowStatus k.history w = .doomed)
  refcount : ∀ w, windowStatus k.history w ≠ .absent → (k.refcount w).toNat = held w
  doomed : ∀ w, windowStatus k.history w = .doomed → 0 < held w
  held : ∀ w, 0 < held w → windowStatus k.history w ≠ .absent
  dragging : k.draggingWindow = 0 ∨ windowStatus k.history k.draggingWindow = .live

section Sections

variable {d d' : Desktop} {screen rect : Rect} {win : Word} {f : Window → Window}
  {held : Word → Nat} {l : List Word} {k : Links}

/-! ## §2. Accesses. -/

/-- The address holds a window. -/
def Desktop.Present (d : Desktop) (win : Word) : Prop := windowStatus d.history win ≠ .absent

theorem load_of_present (h : d.Present win) : d.load win = some (d.windows.window win) := if_neg h

theorem store_of_present (h : d.Present win) :
    d.store win f = some { d with windows := d.windows.setWindow win f } := if_neg h

/-- A write that leaves the link, the flag and the count of the record. -/
structure KeepsLinks (f : Window → Window) : Prop where
  next : ∀ r, (f r).next = r.next
  destroyed : ∀ r, (f r).destroyed = r.destroyed
  refcount : ∀ r, (f r).refcount = r.refcount

/-- A view of the records after a write to one of them. -/
theorem view_setWindow {β : Type} (g : Window → β) (s : Windows) (win : Word) (f : Window → Window) :
    (fun w => g ((s.setWindow win f).window w)) =
      Function.update (fun w => g (s.window w)) win (g (f (s.window win))) := by
  funext w
  show g (Function.update s.window win (f (s.window win)) w) = _
  by_cases h : w = win
  · subst h
    rw [Function.update_self, Function.update_self]
  · rw [Function.update_of_ne h, Function.update_of_ne h]

theorem view_setWindow_of_keeps {β : Type} {g : Window → β} (hf : ∀ r, g (f r) = g r) (s : Windows)
    (win : Word) : (fun w => g ((s.setWindow win f).window w)) = fun w => g (s.window w) := by
  rw [view_setWindow, hf]
  exact Function.update_eq_self win fun w => g (s.window w)

theorem links_setWindow (hf : KeepsLinks f) :
    ({ d with windows := d.windows.setWindow win f } : Desktop).links = d.links := by
  unfold Desktop.links
  congr 1
  · exact view_setWindow_of_keeps hf.next d.windows win
  · exact view_setWindow_of_keeps hf.destroyed d.windows win
  · exact view_setWindow_of_keeps hf.refcount d.windows win

@[simp] theorem links_queueDirtyRect : (d.queueDirtyRect screen rect).links = d.links := rfl

/-! ## §3. Reference counts. -/

/-- The state with the reference counts and the history left out. -/
def Desktop.forget (d : Desktop) : Desktop :=
  { d with
    history := []
    windows := { d.windows with window := fun w => { d.windows.window w with refcount := 0 } } }

theorem next_of_forget (h : d'.forget = d.forget) (w : Word) :
    (d'.windows.window w).next = (d.windows.window w).next := by
  show (d'.forget.windows.window w).next = (d.forget.windows.window w).next
  rw [h]

theorem snapshot_of_forget (h : d'.forget = d.forget) (w : Word) :
    (d'.windows.window w).snapshot = (d.windows.window w).snapshot := by
  show (d'.forget.windows.window w).snapshot = (d.forget.windows.window w).snapshot
  rw [h]

theorem queued_of_forget (h : d'.forget = d.forget) : d'.queued = d.queued := by
  show d'.forget.queued = d.forget.queued
  rw [h]

theorem forget_setWindow (hf : ∀ r, { f r with refcount := 0 } = { r with refcount := 0 }) :
    ({ d with windows := d.windows.setWindow win f } : Desktop).forget = d.forget := by
  unfold Desktop.forget
  have hw : (fun w => { (d.windows.setWindow win f).window w with refcount := 0 }) =
      fun w => { d.windows.window w with refcount := 0 } :=
    view_setWindow_of_keeps (g := fun r => { r with refcount := 0 }) hf d.windows win
  show { d with history := [], windows := { (d.windows.setWindow win f) with window := _ } } = _
  rw [hw]
  rfl

/-- The links after the count of one window changed. -/
def Links.setRefcount (k : Links) (win : Word) (c : BitVec 32) : Links :=
  { k with refcount := Function.update k.refcount win c }

theorem links_setRefcount (f : BitVec 32 → BitVec 32) :
    ({ d with windows := d.windows.setWindow win fun r => { r with refcount := f r.refcount } } :
      Desktop).links = d.links.setRefcount win (f (d.links.refcount win)) := by
  unfold Desktop.links Links.setRefcount
  congr 1
  · exact view_setWindow_of_keeps (g := fun r => r.next)
      (f := fun r => { r with refcount := f r.refcount }) (fun _ => rfl) d.windows win
  · exact view_setWindow_of_keeps (g := fun r => r.destroyed)
      (f := fun r => { r with refcount := f r.refcount }) (fun _ => rfl) d.windows win
  · exact view_setWindow (fun r => r.refcount) d.windows win fun r => { r with refcount := f r.refcount }

namespace Tracked

/-- One more holder. -/
theorem retain (h : Tracked k held l) (hw : windowStatus k.history win ≠ .absent)
    (hlt : held win + 1 < 4294967296) :
    Tracked (k.setRefcount win (k.refcount win + 1)) (Function.update held win (held win + 1)) l := by
  refine ⟨h.null, h.chain, h.nodup, h.mem_iff, h.legal, h.destroyed, fun w hp => ?_, fun w hd => ?_,
    fun w hw' => ?_, h.dragging⟩
  · show (Function.update k.refcount win (k.refcount win + 1) w).toNat = _
    by_cases hwin : w = win
    · subst hwin
      have hc := h.refcount w hp
      rw [Function.update_self, Function.update_self, BitVec.toNat_add, hc]
      show (held w + 1) % 4294967296 = held w + 1
      omega
    · rw [Function.update_of_ne hwin, Function.update_of_ne hwin]
      exact h.refcount w hp
  · have hpos := h.doomed w hd
    by_cases hwin : w = win
    · subst hwin
      rw [Function.update_self]
      omega
    · rw [Function.update_of_ne hwin]
      exact hpos
  · by_cases hwin : w = win
    · subst hwin
      exact hw
    · rw [Function.update_of_ne hwin] at hw'
      exact h.held w hw'

/-- **One holder less**, and others are left or the window is not destroyed. -/
theorem release (h : Tracked k held l) (hpos : 0 < held win)
    (hkeep : windowStatus k.history win = .doomed → 1 < held win) :
    Tracked (k.setRefcount win (k.refcount win - 1)) (Function.update held win (held win - 1)) l := by
  refine ⟨h.null, h.chain, h.nodup, h.mem_iff, h.legal, h.destroyed, fun w hp => ?_, fun w hd => ?_,
    fun w hw' => ?_, h.dragging⟩
  · show (Function.update k.refcount win (k.refcount win - 1) w).toNat = _
    by_cases hwin : w = win
    · subst hwin
      have hc := h.refcount w hp
      rw [Function.update_self, Function.update_self, BitVec.toNat_sub, hc]
      have hlt := (k.refcount w).isLt
      show (4294967296 - 1 + held w) % 4294967296 = held w - 1
      omega
    · rw [Function.update_of_ne hwin, Function.update_of_ne hwin]
      exact h.refcount w hp
  · have hpos' := h.doomed w hd
    by_cases hwin : w = win
    · subst hwin
      have := hkeep hd
      rw [Function.update_self]
      omega
    · rw [Function.update_of_ne hwin]
      exact hpos'
  · by_cases hwin : w = win
    · subst hwin
      exact h.held w hpos
    · rw [Function.update_of_ne hwin] at hw'
      exact h.held w hw'

/-- **Freeing a destroyed window** when its last holder lets it go. -/
theorem free (h : Tracked k held l) (hd : windowStatus k.history win = .doomed) (c : BitVec 32) :
    Tracked { k.setRefcount win c with history := .freed win :: k.history }
      (Function.update held win 0) l := by
  have hother : ∀ w, w ≠ win → windowStatus (.freed win :: k.history) w = windowStatus k.history w :=
    fun w hw => if_neg hw
  have hself : windowStatus (.freed win :: k.history) win = .absent := if_pos rfl
  have hne : ∀ w, windowStatus (.freed win :: k.history) w ≠ .absent → w ≠ win := by
    intro w hw he
    subst he
    exact hw hself
  -- only `win` has a new status, and nothing asks for its other fields
  refine ⟨?_, h.chain, h.nodup, fun w => ?_, ⟨hd, h.legal⟩, fun w hw => ?_, fun w hw => ?_,
    fun w hw => ?_, fun w hw => ?_, ?_⟩
  · show windowStatus (.freed win :: k.history) 0 = .absent
    by_cases h0 : 0 = win
    · rw [h0]
      exact hself
    · rw [hother 0 h0]
      exact h.null
  · show w ∈ l ↔ windowStatus (.freed win :: k.history) w = .live
    by_cases hw : w = win
    · subst hw
      rw [h.mem_iff, hd, hself]
      simp
    · rw [hother w hw]
      exact h.mem_iff w
  · have hw' := hne w hw
    show k.destroyed w = true ↔ windowStatus (.freed win :: k.history) w = .doomed
    rw [hother w hw']
    exact h.destroyed w (hother w hw' ▸ hw)
  · have hw' := hne w hw
    show (Function.update k.refcount win c w).toNat = Function.update held win 0 w
    rw [Function.update_of_ne hw', Function.update_of_ne hw']
    exact h.refcount w (hother w hw' ▸ hw)
  · have hw' : w ≠ win := hne w (by rw [hw]; simp)
    rw [Function.update_of_ne hw']
    exact h.doomed w (hother w hw' ▸ hw)
  · have hw' : w ≠ win := by
      intro he
      subst he
      rw [Function.update_self] at hw
      exact Nat.lt_irrefl _ hw
    rw [Function.update_of_ne hw'] at hw
    show windowStatus (.freed win :: k.history) w ≠ .absent
    rw [hother w hw']
    exact h.held w hw
  · rcases h.dragging with h0 | hlive
    · exact .inl h0
    · right
      show windowStatus (.freed win :: k.history) k.draggingWindow = .live
      rw [hother _ (fun he => by rw [he, hd] at hlive; cases hlive)]
      exact hlive

/-- **A window is created** at the front of the list. -/
theorem create (h : Tracked k held l) (hwin : win ≠ 0) (hs : windowStatus k.history win = .absent) :
    Tracked
      { history := .created win :: k.history, windowList := win, draggingWindow := k.draggingWindow
        next := Function.update k.next win k.windowList
        destroyed := Function.update k.destroyed win false
        refcount := Function.update k.refcount win 0 }
      held (win :: l) := by
  have hother : ∀ w, w ≠ win → windowStatus (.created win :: k.history) w = windowStatus k.history w :=
    fun w hw => if_neg hw
  have hself : windowStatus (.created win :: k.history) win = .live := if_pos rfl
  have hnot : win ∉ l := by
    intro hmem
    rw [h.mem_iff, hs] at hmem
    cases hmem
  have hunheld : held win = 0 := by
    by_contra hpos
    exact h.held win (Nat.pos_of_ne_zero hpos) hs
  -- only `win` has a new status, and it is at the head
  refine ⟨?_, ?_, List.nodup_cons.mpr ⟨hnot, h.nodup⟩, fun w => ?_, ⟨hs, h.legal⟩, fun w hw => ?_,
    fun w hw => ?_, fun w hw => ?_, fun w hw => ?_, ?_⟩
  · show windowStatus (.created win :: k.history) 0 = .absent
    rw [hother 0 hwin.symm]
    exact h.null
  · refine ⟨rfl, hwin, ?_⟩
    show Chain (Function.update k.next win k.windowList) 0 (Function.update k.next win k.windowList win) l
    rw [Function.update_self]
    exact h.chain.update_of_notMem hnot _
  · show w ∈ win :: l ↔ windowStatus (.created win :: k.history) w = .live
    by_cases hw : w = win
    · subst hw
      rw [hself]
      simp
    · rw [hother w hw, List.mem_cons, or_iff_right hw]
      exact h.mem_iff w
  · show Function.update k.destroyed win false w = true ↔
      windowStatus (.created win :: k.history) w = .doomed
    by_cases hw' : w = win
    · subst hw'
      rw [Function.update_self, hself]
      simp
    · rw [Function.update_of_ne hw', hother w hw']
      exact h.destroyed w (hother w hw' ▸ hw)
  · show (Function.update k.refcount win 0 w).toNat = held w
    by_cases hw' : w = win
    · subst hw'
      rw [Function.update_self, hunheld]
      rfl
    · rw [Function.update_of_ne hw']
      exact h.refcount w (hother w hw' ▸ hw)
  · have hw' : w ≠ win := by
      intro he
      rw [he, hself] at hw
      cases hw
    exact h.doomed w (hother w hw' ▸ hw)
  · show windowStatus (.created win :: k.history) w ≠ .absent
    by_cases hw' : w = win
    · subst hw'
      rw [hself]
      simp
    · rw [hother w hw']
      exact h.held w hw
  · rcases h.dragging with h0 | hlive
    · exact .inl h0
    · right
      show windowStatus (.created win :: k.history) k.draggingWindow = .live
      rw [hother _ (fun he => by rw [he, hs] at hlive; cases hlive)]
      exact hlive

/-- **A window of the list is destroyed**: it is freed at once when nothing
    holds it. -/
theorem destroy {kept rest : List Word} {curr : Word} (h : Tracked k held (kept ++ curr :: rest))
    {next' : Word → Word} {list' : Word} (history' : List WindowEvent)
    (hchain : Chain next' 0 list' (kept ++ rest))
    (hother : ∀ w, w ≠ curr → windowStatus history' w = windowStatus k.history w)
    (hself : windowStatus history' curr = if held curr = 0 then .absent else .doomed)
    (hlegal : LegalHistory history') :
    Tracked
      { history := history', windowList := list'
        draggingWindow := if k.draggingWindow = curr then 0 else k.draggingWindow
        next := next', destroyed := Function.update k.destroyed curr true, refcount := k.refcount }
      held (kept ++ rest) := by
  have hperm : (curr :: (kept ++ rest)).Nodup :=
    (List.perm_middle.nodup_iff).mp h.nodup
  obtain ⟨hnot, hnd⟩ := List.nodup_cons.mp hperm
  have hmem : ∀ w, w ∈ kept ++ curr :: rest ↔ w = curr ∨ w ∈ kept ++ rest := by
    intro w
    rw [List.perm_middle.mem_iff, List.mem_cons]
  have hlive : windowStatus k.history curr = .live := (h.mem_iff curr).mp ((hmem curr).mpr (.inl rfl))
  have hnotlive : windowStatus history' curr ≠ .live := by
    rw [hself]
    split_ifs <;> simp
  have hnull : curr ≠ 0 := by
    intro h0
    rw [h0, h.null] at hlive
    cases hlive
  -- the invariant, field by field; only `curr` has changed its status
  refine ⟨?_, hchain, hnd, fun w => ?_, hlegal, fun w hw => ?_, fun w hw => ?_, fun w hw => ?_,
    fun w hw => ?_, ?_⟩
  · show windowStatus history' 0 = .absent
    rw [hother 0 hnull.symm]
    exact h.null
  · show w ∈ kept ++ rest ↔ windowStatus history' w = .live
    by_cases hw : w = curr
    · subst hw
      exact ⟨fun hmem' => absurd hmem' hnot, fun hl => absurd hl hnotlive⟩
    · rw [hother w hw, ← h.mem_iff, hmem, or_iff_right hw]
  · show Function.update k.destroyed curr true w = true ↔ windowStatus history' w = .doomed
    have hw0 : windowStatus history' w ≠ .absent := hw
    by_cases hw' : w = curr
    · subst hw'
      rw [hself] at hw0 ⊢
      rw [Function.update_self]
      split_ifs at hw0 ⊢ with h0
      · exact absurd rfl hw0
      · simp
    · rw [Function.update_of_ne hw', hother w hw']
      exact h.destroyed w (hother w hw' ▸ hw)
  · show (k.refcount w).toNat = held w
    by_cases hw' : w = curr
    · subst hw'
      exact h.refcount w (by rw [hlive]; simp)
    · exact h.refcount w (hother w hw' ▸ hw)
  · have hw0 : windowStatus history' w = .doomed := hw
    by_cases hw' : w = curr
    · subst hw'
      rw [hself] at hw0
      split_ifs at hw0 with h0
      exact Nat.pos_of_ne_zero h0
    · exact h.doomed w (hother w hw' ▸ hw)
  · show windowStatus history' w ≠ .absent
    by_cases hw' : w = curr
    · subst hw'
      rw [hself, if_neg (by omega)]
      simp
    · rw [hother w hw']
      exact h.held w hw
  · by_cases hd : k.draggingWindow = curr
    · left
      exact if_pos hd
    · show (if k.draggingWindow = curr then 0 else k.draggingWindow) = 0 ∨
        windowStatus history' (if k.draggingWindow = curr then 0 else k.draggingWindow) = .live
      rw [if_neg hd, hother _ hd]
      exact h.dragging

/-- **The list is put in another order.** -/
theorem reorder {l' : List Word} (h : Tracked k held l) (hperm : l'.Perm l) {next' : Word → Word}
    {list' : Word} (hchain : Chain next' 0 list' l') :
    Tracked { k with windowList := list', next := next' } held l' :=
  ⟨h.null, hchain, hperm.nodup_iff.mpr h.nodup, fun w => hperm.mem_iff.trans (h.mem_iff w), h.legal,
    h.destroyed, h.refcount, h.doomed, h.held, h.dragging⟩

/-- The dragged window is dropped, or becomes another live one. -/
theorem drag (h : Tracked k held l) (hwin : win = 0 ∨ windowStatus k.history win = .live) :
    Tracked { k with draggingWindow := win } held l :=
  ⟨h.null, h.chain, h.nodup, h.mem_iff, h.legal, h.destroyed, h.refcount, h.doomed, h.held, hwin⟩

theorem present_ne_null (h : Tracked k held l) (hw : windowStatus k.history win ≠ .absent) : win ≠ 0 := by
  intro h0
  rw [h0] at hw
  exact hw h.null

end Tracked

/-- **`release_window_locked`** on a window that is held. -/
theorem release_spec (h : Tracked d.links held l) (hpos : 0 < held win) :
    ∃ d', d.releaseWindowLocked win = some d' ∧ d'.forget = d.forget ∧
      Tracked d'.links (Function.update held win (held win - 1)) l := by
  have hp : d.Present win := h.held win hpos
  have hc : (d.windows.window win).refcount.toNat = held win := h.refcount win hp
  have hne : (d.windows.window win).refcount ≠ 0 := by
    intro h0
    rw [h0] at hc
    simp at hc
    omega
  let d₁ : Desktop := { d with
    windows := d.windows.setWindow win fun r => { r with refcount := r.refcount - 1 } }
  have hforget : d₁.forget = d.forget := forget_setWindow fun _ => rfl
  have hlinks : d₁.links = d.links.setRefcount win (d.links.refcount win - 1) :=
    links_setRefcount fun c => c - 1
  have hrec : d₁.windows.window win =
      { d.windows.window win with refcount := (d.windows.window win).refcount - 1 } :=
    Function.update_self ..
  have hrun : d.releaseWindowLocked win =
      if (d.windows.window win).destroyed ∧ (d.windows.window win).refcount - 1 = 0
      then d₁.freeWindow win else some d₁ := by
    unfold Desktop.releaseWindowLocked
    rw [if_neg (h.present_ne_null hp), load_of_present hp, Option.bind_eq_bind, Option.bind_some,
      if_neg hne, store_of_present hp, Option.bind_eq_bind, Option.bind_some]
    show (d₁.load win).bind _ = _
    rw [load_of_present (d := d₁) hp, Option.bind_some, hrec]
  have hcount : (d.windows.window win).refcount - 1 = 0 ↔ held win = 1 := by
    rw [← hc]
    constructor
    · intro h0
      bv_omega
    · intro h1
      bv_omega
  have hdes : (d.windows.window win).destroyed = true ↔ windowStatus d.history win = .doomed :=
    h.destroyed win hp
  rw [hrun]
  by_cases hlast : (d.windows.window win).destroyed ∧ (d.windows.window win).refcount - 1 = 0
  · -- the last holder of a destroyed window frees it
    have hd := hdes.mp hlast.1
    have h1 := hcount.mp hlast.2
    refine ⟨{ d₁ with history := .freed win :: d.history }, ?_, hforget, ?_⟩
    · rw [if_pos hlast]
      unfold Desktop.freeWindow
      rw [if_neg (h.present_ne_null hp)]
      exact if_neg hp
    · have hfree := h.free hd (d.links.refcount win - 1)
      rw [← hlinks] at hfree
      rw [h1]
      exact hfree
  · refine ⟨d₁, if_neg hlast, hforget, ?_⟩
    rw [hlinks]
    refine h.release hpos fun hd => ?_
    have h1 : ¬ held win = 1 := fun h1 => hlast ⟨hdes.mpr hd, hcount.mpr h1⟩
    omega

/-- **`release_window_refs_locked`** on windows that are held. -/
theorem releaseRefs_spec (hs : List (Word × WindowSnapshot)) (h : Tracked d.links held l)
    (hle : ∀ w, (hs.map Prod.fst).count w ≤ held w) :
    ∃ d', d.releaseWindowRefsLocked hs = some d' ∧ d'.forget = d.forget ∧
      Tracked d'.links (fun w => held w - (hs.map Prod.fst).count w) l := by
  induction hs generalizing d held with
  | nil => exact ⟨d, rfl, rfl, h⟩
  | cons p hs ih =>
    obtain ⟨win, snap⟩ := p
    have hpos : 0 < held win := by
      have := hle win
      rw [List.map_cons, List.count_cons_self] at this
      omega
    obtain ⟨d₁, hrun, hforget, h₁⟩ := release_spec h hpos
    obtain ⟨d', hrest, hforget', h'⟩ := ih h₁ fun w => by
      have := hle w
      rw [List.map_cons, List.count_cons] at this
      by_cases hw : w = win
      · subst hw
        rw [Function.update_self]
        simp only [beq_self_eq_true, if_true] at this
        omega
      · rw [Function.update_of_ne hw]
        omega
    refine ⟨d', ?_, hforget'.trans hforget, ?_⟩
    · unfold Desktop.releaseWindowRefsLocked
      rw [List.foldlM_cons, hrun]
      exact hrest
    · have hfun : (fun w => held w - (List.map Prod.fst ((win, snap) :: hs)).count w) =
          fun w => Function.update held win (held win - 1) w - (hs.map Prod.fst).count w := by
        funext w
        rw [List.map_cons, List.count_cons]
        by_cases hw : w = win
        · subst hw
          rw [Function.update_self]
          simp only [beq_self_eq_true, if_true]
          omega
        · rw [Function.update_of_ne hw]
          have hne : (win == w) = false := by
            rw [beq_eq_false_iff_ne]
            exact fun he => hw he.symm
          rw [hne]
          simp
      rw [hfun]
      exact h'

/-- The state after one more hold on a window. -/
def Desktop.retain (d : Desktop) (win : Word) : Desktop :=
  { d with windows := d.windows.setWindow win fun r => { r with refcount := r.refcount + 1 } }

/-- And after one more on each window of a list. -/
def Desktop.retainAll (d : Desktop) (wins : List Word) : Desktop := wins.foldl Desktop.retain d

@[simp] theorem retainAll_nil : d.retainAll [] = d := rfl

@[simp] theorem retainAll_cons (w : Word) (wins : List Word) :
    d.retainAll (w :: wins) = (d.retain w).retainAll wins := rfl

theorem forget_retain : (d.retain win).forget = d.forget := forget_setWindow fun _ => rfl

theorem forget_retainAll (wins : List Word) : (d.retainAll wins).forget = d.forget := by
  induction wins generalizing d with
  | nil => rfl
  | cons w wins ih => exact (ih (d := d.retain w)).trans forget_retain

theorem history_retainAll (wins : List Word) : (d.retainAll wins).history = d.history := by
  induction wins generalizing d with
  | nil => rfl
  | cons w wins ih => exact ih (d := d.retain w)

/-- **`retain_window_locked`** on a window that is there. -/
theorem retain_spec (hne : win ≠ 0) (hp : d.Present win) :
    d.retainWindowLocked win = some (d.retain win) := by
  unfold Desktop.retainWindowLocked
  rw [if_neg hne, store_of_present hp]
  rfl

/-- **`snapshot_window_list`** takes the first windows of what is left of the
    list, and a hold on each of them. -/
theorem snapshot_taken (n : Nat) {curr : Word} {rest : List Word}
    (hrest : Chain (fun w => (d.windows.window w).next) 0 curr rest)
    (hp : ∀ w ∈ rest, d.Present w) :
    Desktop.snapshotWindowList n d curr =
      some ((rest.take n).map fun w => (w, (d.windows.window w).snapshot), d.retainAll (rest.take n)) := by
  induction n generalizing d curr rest with
  | zero => rfl
  | succ n ih =>
    cases rest with
    | nil =>
      have hcurr : curr = 0 := hrest
      unfold Desktop.snapshotWindowList
      rw [if_pos hcurr]
      rfl
    | cons w rest =>
      obtain ⟨rfl, hne, htail⟩ := hrest
      have hsame : (d.retain curr).forget = d.forget := forget_retain
      have hnext : (fun w => ((d.retain curr).windows.window w).next) =
          fun w => (d.windows.window w).next := funext fun w => next_of_forget hsame w
      have htail' : Chain (fun w => ((d.retain curr).windows.window w).next) 0
          ((d.retain curr).windows.window curr).next rest := by
        rw [hnext, next_of_forget hsame]
        exact htail
      have hpresent : ∀ v ∈ rest, (d.retain curr).Present v :=
        fun v hv => hp v (List.mem_cons_of_mem _ hv)
      have hrec := ih htail' hpresent
      have hload : (d.retain curr).load curr = some ((d.retain curr).windows.window curr) :=
        load_of_present (hp curr List.mem_cons_self)
      unfold Desktop.snapshotWindowList
      rw [if_neg hne, retain_spec hne (hp curr List.mem_cons_self), Option.bind_eq_bind,
        Option.bind_some, hload, Option.bind_eq_bind, Option.bind_some, hrec, Option.bind_eq_bind,
        Option.bind_some, List.take_succ_cons, List.map_cons, retainAll_cons, snapshot_of_forget hsame]
      have hmap : ((rest.take n).map fun w => (w, ((d.retain curr).windows.window w).snapshot)) =
          (rest.take n).map fun w => (w, (d.windows.window w).snapshot) :=
        List.map_congr_left fun w _ => by rw [snapshot_of_forget hsame]
      rw [hmap]

/-- The holds are counted. -/
theorem Tracked.retainAll {wins : List Word} (h : Tracked d.links held l) (hnd : wins.Nodup)
    (hp : ∀ w ∈ wins, d.Present w) (hlt : ∀ w ∈ wins, held w + 1 < 4294967296) :
    Tracked (d.retainAll wins).links (fun w => held w + wins.count w) l := by
  induction wins generalizing d held with
  | nil => exact h
  | cons curr wins ih =>
    obtain ⟨hnot, hnd⟩ := List.nodup_cons.mp hnd
    have hone : Tracked (d.retain curr).links (Function.update held curr (held curr + 1)) l := by
      show Tracked (Desktop.links { d with windows := d.windows.setWindow curr _ }) _ l
      rw [links_setRefcount fun c => c + 1]
      exact h.retain (hp curr List.mem_cons_self) (hlt curr List.mem_cons_self)
    have hrest := ih (d := d.retain curr) hone hnd (fun v hv => hp v (List.mem_cons_of_mem _ hv))
      fun v hv => by
        have hvc : v ≠ curr := fun he => hnot (he ▸ hv)
        rw [Function.update_of_ne hvc]
        exact hlt v (List.mem_cons_of_mem _ hv)
    have hfun : (fun w => held w + (curr :: wins).count w) =
        fun w => Function.update held curr (held curr + 1) w + wins.count w := by
      funext w
      rw [List.count_cons]
      by_cases hw : w = curr
      · subst hw
        rw [Function.update_self]
        simp only [beq_self_eq_true, if_true]
        omega
      · rw [Function.update_of_ne hw]
        have hne' : (curr == w) = false := by
          rw [beq_eq_false_iff_ne]
          exact fun he => hw he.symm
        rw [hne']
        simp
    rw [hfun]
    exact hrest

theorem Tracked.present_of_mem (h : Tracked d.links held l) (hmem : win ∈ l) : d.Present win := by
  have hlive : windowStatus d.history win = .live := (h.mem_iff win).mp hmem
  unfold Desktop.Present
  rw [hlive]
  simp

/-- **A snapshot of the list** keeps the invariant with the new holds. -/
theorem snapshot_spec (n : Nat) {curr : Word} {rest : List Word} (h : Tracked d.links held l)
    (hrest : Chain (fun w => (d.windows.window w).next) 0 curr rest) (hnd : rest.Nodup)
    (hsub : ∀ w ∈ rest, w ∈ l) (hlt : ∀ w ∈ rest, held w + 1 < 4294967296) :
    ∃ d', Desktop.snapshotWindowList n d curr =
        some ((rest.take n).map fun w => (w, (d.windows.window w).snapshot), d') ∧
      d'.forget = d.forget ∧ d'.history = d.history ∧
      Tracked d'.links (fun w => held w + (rest.take n).count w) l := by
  have hmem : ∀ w ∈ rest.take n, w ∈ rest := fun w hw => List.mem_of_mem_take hw
  have hp : ∀ w ∈ rest, d.Present w := fun w hw => h.present_of_mem (hsub w hw)
  refine ⟨_, snapshot_taken n hrest hp, forget_retainAll _, history_retainAll _, ?_⟩
  exact h.retainAll (hnd.sublist (List.take_sublist _ _)) (fun w hw => hp w (hmem w hw))
    fun w hw => hlt w (hmem w hw)

/-! ## §4. Links. -/

/-- What painting the desktop looks at, and who owns the windows. -/
structure SameView (d d' : Desktop) : Prop where
  snapshot : ∀ w, (d'.windows.window w).snapshot = (d.windows.window w).snapshot
  owner : ∀ w, (d'.windows.window w).ownerPid = (d.windows.window w).ownerPid
  cursorX : d'.cursorX = d.cursorX
  cursorY : d'.cursorY = d.cursorY
  cursorInitialized : d'.cursorInitialized = d.cursorInitialized
  lastMx : d'.lastMx = d.lastMx
  lastMy : d'.lastMy = d.lastMy

theorem SameView.refl (d : Desktop) : SameView d d :=
  ⟨fun _ => rfl, fun _ => rfl, rfl, rfl, rfl, rfl, rfl⟩

theorem SameView.trans {d'' : Desktop} (h : SameView d d') (h' : SameView d' d'') : SameView d d'' :=
  ⟨fun w => (h'.snapshot w).trans (h.snapshot w), fun w => (h'.owner w).trans (h.owner w),
    h'.cursorX.trans h.cursorX, h'.cursorY.trans h.cursorY,
    h'.cursorInitialized.trans h.cursorInitialized, h'.lastMx.trans h.lastMx,
    h'.lastMy.trans h.lastMy⟩

theorem SameView.of_forget (h : d'.forget = d.forget) : SameView d d' := by
  have hview : SameView d.forget d'.forget := by
    rw [h]
    exact SameView.refl _
  exact ⟨hview.snapshot, hview.owner, hview.cursorX, hview.cursorY, hview.cursorInitialized,
    hview.lastMx, hview.lastMy⟩

/-- A write to a field that painting does not look at. -/
theorem SameView.setWindow (hs : ∀ r, (f r).snapshot = r.snapshot)
    (ho : ∀ r, (f r).ownerPid = r.ownerPid) :
    SameView d { d with windows := d.windows.setWindow win f } where
  snapshot := fun w => congrFun (view_setWindow_of_keeps (g := Window.snapshot) hs d.windows win) w
  owner := fun w => congrFun (view_setWindow_of_keeps (g := fun r => r.ownerPid) ho d.windows win) w
  cursorX := rfl
  cursorY := rfl
  cursorInitialized := rfl
  lastMx := rfl
  lastMy := rfl

/-- A link or the destroyed flag was written. -/
theorem links_setNext (v : Word) :
    ({ d with windows := d.windows.setWindow win fun r => { r with next := v } } : Desktop).links =
      { d.links with next := Function.update d.links.next win v } := by
  unfold Desktop.links
  congr 1
  · exact view_setWindow (fun r => r.next) d.windows win fun r => { r with next := v }
  · exact view_setWindow_of_keeps (g := fun r => r.destroyed) (f := fun r => { r with next := v })
      (fun _ => rfl) d.windows win
  · exact view_setWindow_of_keeps (g := fun r => r.refcount) (f := fun r => { r with next := v })
      (fun _ => rfl) d.windows win

theorem links_setDestroyed :
    ({ d with windows := d.windows.setWindow win fun r => { r with destroyed := true } } :
      Desktop).links = { d.links with destroyed := Function.update d.links.destroyed win true } := by
  unfold Desktop.links
  congr 1
  · exact view_setWindow_of_keeps (g := fun r => r.next) (f := fun r => { r with destroyed := true })
      (fun _ => rfl) d.windows win
  · exact view_setWindow (fun r => r.destroyed) d.windows win fun r => { r with destroyed := true }
  · exact view_setWindow_of_keeps (g := fun r => r.refcount)
      (f := fun r => { r with destroyed := true }) (fun _ => rfl) d.windows win

/-! ## §5. `window_destroy_by_pid`. -/

variable {kept rest : List Word} {curr prev : Word}

/-- `prev` is the last window that was kept, or null. -/
def IsPrev (kept : List Word) (prev : Word) : Prop :=
  (kept = [] ∧ prev = 0) ∨ ∃ pre, kept = pre ++ [prev]

/-- Linking the predecessor of a window, or the head of the list, to its
    successor. -/
theorem unlink_spec (h : Tracked d.links held (kept ++ curr :: rest)) (hprev : IsPrev kept prev) :
    ∃ d', d.unlinkWindow prev (d.windows.window curr).next = some d' ∧
      (∃ next' list', d'.links = { d.links with next := next', windowList := list' } ∧
        Chain next' 0 list' (kept ++ rest) ∧ ∀ w, w ≠ prev → next' w = d.links.next w) ∧
      SameView d d' ∧ d'.queued = d.queued := by
  rcases hprev with ⟨rfl, rfl⟩ | ⟨pre, rfl⟩
  · refine ⟨_, if_neg (by simp), ⟨d.links.next, d.links.next curr, rfl, ?_, fun _ _ => rfl⟩,
      ⟨fun _ => rfl, fun _ => rfl, rfl, rfl, rfl, rfl, rfl⟩, rfl⟩
    obtain ⟨heq, -, hrest⟩ := h.chain
    exact hrest
  · have hlist : pre ++ [prev] ++ curr :: rest = pre ++ prev :: curr :: rest := by simp
    have hlist' : pre ++ [prev] ++ rest = pre ++ prev :: rest := by simp
    have hp : d.Present prev := h.present_of_mem (by simp)
    have hne : prev ≠ 0 := h.present_ne_null hp
    refine ⟨_, (if_pos hne).trans (store_of_present hp),
      ⟨Function.update d.links.next prev (d.links.next curr), d.links.windowList,
        links_setNext _, ?_, fun w hw => Function.update_of_ne hw _ _⟩,
      .setWindow (fun _ => rfl) fun _ => rfl, rfl⟩
    rw [hlist']
    have hchain := h.chain
    have hnd := h.nodup
    rw [hlist] at hchain hnd
    exact hchain.unlink hnd

variable (screen) in
/-- **A window of the process is taken out of the list.** -/
theorem destroyWindow_spec (h : Tracked d.links held (kept ++ curr :: rest)) (hprev : IsPrev kept prev) :
    ∃ d', d.destroyWindow screen curr prev = some d' ∧ Tracked d'.links held (kept ++ rest) ∧
      SameView d d' ∧ d'.queued = windowOuterRect (d.windows.window curr) :: d.queued ∧
      ∀ w, w ≠ prev → d'.links.next w = d.links.next w := by
  have hp : d.Present curr := h.present_of_mem (List.mem_append_right _ List.mem_cons_self)
  have hlive : windowStatus d.history curr = .live :=
    (h.mem_iff curr).mp (List.mem_append_right _ List.mem_cons_self)
  have hcount : (d.windows.window curr).refcount.toNat = held curr := h.refcount curr hp
  -- `d₁` to `d₄`: the rectangle is queued, the window unlinked, its drag ended, and it is marked
  let d₁ := d.queueDirtyRect screen (windowOuterRect (d.windows.window curr))
  obtain ⟨d₂, hunlink, ⟨next', list', hlinks, hchain, hnext⟩, hview, hq⟩ :=
    unlink_spec (d := d₁) h hprev
  have hdrag : d₂.draggingWindow = d.draggingWindow := congrArg Links.draggingWindow hlinks
  have hhist : d₂.history = d.history := congrArg Links.history hlinks
  let d₃ : Desktop := if d₂.draggingWindow = curr then { d₂ with draggingWindow := 0 } else d₂
  have hlinks₃ : d₃.links = { d.links with
      next := next', windowList := list'
      draggingWindow := if d.draggingWindow = curr then 0 else d.draggingWindow } := by
    show (if d₂.draggingWindow = curr then { d₂ with draggingWindow := 0 } else d₂).links = _
    rw [hdrag]
    split_ifs
    · show { d₂.links with draggingWindow := 0 } = _
      rw [hlinks]
      rfl
    · rw [hlinks]
      rfl
  have hhist₃ : d₃.history = d.history := congrArg Links.history hlinks₃
  have hview₃ : SameView d₂ d₃ := by
    show SameView d₂ (if d₂.draggingWindow = curr then { d₂ with draggingWindow := 0 } else d₂)
    split_ifs
    · exact ⟨fun _ => rfl, fun _ => rfl, rfl, rfl, rfl, rfl, rfl⟩
    · exact .refl d₂
  have hq₃ : d₃.queued = d₂.queued := by
    show (if d₂.draggingWindow = curr then { d₂ with draggingWindow := 0 } else d₂).queued = _
    split_ifs <;> rfl
  have hp₃ : d₃.Present curr := by
    unfold Desktop.Present at hp ⊢
    rw [hhist₃]
    exact hp
  let d₄ : Desktop := { d₃ with
    windows := d₃.windows.setWindow curr fun r => { r with destroyed := true } }
  have hview₄ : SameView d₃ d₄ := .setWindow (fun _ => rfl) fun _ => rfl
  have hlinks₄ : d₄.links = { d₃.links with
      destroyed := Function.update d₃.links.destroyed curr true } := links_setDestroyed
  rw [hlinks₃] at hlinks₄
  have hview' : SameView d d₄ :=
    (show SameView d d₁ from ⟨fun _ => rfl, fun _ => rfl, rfl, rfl, rfl, rfl, rfl⟩).trans
      (hview.trans (hview₃.trans hview₄))
  have hrun : d.destroyWindow screen curr prev =
      if (d.windows.window curr).refcount = 0
      then ({ d₄ with history := .destroyed curr :: d₄.history } : Desktop).freeWindow curr
      else some { d₄ with history := .destroyed curr :: d₄.history } := by
    unfold Desktop.destroyWindow
    rw [load_of_present hp]
    show (d₁.unlinkWindow prev (d₁.windows.window curr).next).bind _ = _
    rw [hunlink, Option.bind_some]
    show (d₃.store curr fun r => { r with destroyed := true }).bind _ = _
    rw [store_of_present hp₃, Option.bind_some]
  -- the counter is the number of holders
  have hzero : (d.windows.window curr).refcount = 0 ↔ held curr = 0 := by
    rw [← hcount]
    exact ⟨fun h0 => by rw [h0]; rfl, fun h0 => BitVec.eq_of_toNat_eq h0⟩
  have hhist₄ : d₄.history = d.history := hhist₃
  rw [hrun]
  by_cases h0 : held curr = 0
  · -- nothing holds the window: it is freed at once
    refine ⟨{ d₄ with history := .freed curr :: .destroyed curr :: d₄.history }, ?_, ?_,
      ⟨hview'.snapshot, hview'.owner, hview'.cursorX, hview'.cursorY, hview'.cursorInitialized,
        hview'.lastMx, hview'.lastMy⟩, hq₃.trans hq, fun w hw => ?_⟩
    · rw [if_pos (hzero.mpr h0)]
      unfold Desktop.freeWindow
      rw [if_neg (h.present_ne_null hp)]
      exact if_neg (by simp [windowStatus])
    · have hd := h.destroy (.freed curr :: .destroyed curr :: d.history) hchain
        (fun w hw => (if_neg hw).trans (if_neg hw))
        (by simp [windowStatus, h0]) ⟨if_pos rfl, hlive, h.legal⟩
      have hl : ({ d₄ with history := .freed curr :: .destroyed curr :: d₄.history } : Desktop).links =
          { d₄.links with history := .freed curr :: .destroyed curr :: d₄.history } := rfl
      rw [hl, hlinks₄, hhist₄]
      exact hd
    · show d₄.links.next w = _
      rw [hlinks₄]
      exact hnext w hw
  · refine ⟨{ d₄ with history := .destroyed curr :: d₄.history }, if_neg (fun hz => h0 (hzero.mp hz)),
      ?_, ⟨hview'.snapshot, hview'.owner, hview'.cursorX, hview'.cursorY, hview'.cursorInitialized,
        hview'.lastMx, hview'.lastMy⟩, hq₃.trans hq, fun w hw => ?_⟩
    · -- a holder is left: the window is marked, and the last release frees it
      have hd := h.destroy (.destroyed curr :: d.history) hchain
        (fun w hw => if_neg hw)
        (by simp [windowStatus, h0]) ⟨hlive, h.legal⟩
      have hl : ({ d₄ with history := .destroyed curr :: d₄.history } : Desktop).links =
          { d₄.links with history := .destroyed curr :: d₄.history } := rfl
      rw [hl, hlinks₄, hhist₄]
      exact hd
    · show d₄.links.next w = _
      rw [hlinks₄]
      exact hnext w hw

/-- The outer rectangle depends on the snapshot only. -/
def WindowSnapshot.outerRect (s : WindowSnapshot) : Rect :=
  ⟨s.x, s.y, s.w + windowShadowOffset, s.h + windowShadowOffset⟩

/-- The outer rectangle of a window in a state. -/
def Desktop.outer (d : Desktop) (w : Word) : Rect := (d.windows.window w).snapshot.outerRect

theorem SameView.outer (h : SameView d d') (w : Word) : d'.outer w = d.outer w := by
  unfold Desktop.outer
  rw [h.snapshot]

/-- **The loop of `window_destroy_by_pid`** takes the windows of the process
    out of what is left of the list, and queues their rectangles. -/
theorem destroyLoop_spec {pid : Word} (h : Tracked d.links held (kept ++ rest))
    (hchain : Chain d.links.next 0 curr rest) (hprev : IsPrev kept prev) :
    ∃ d', (∀ fuel, rest.length < fuel → Desktop.destroyLoop screen pid fuel d curr prev = some d') ∧
      Tracked d'.links held
        (kept ++ rest.filter fun w => (d.windows.window w).ownerPid ≠ pid) ∧
      SameView d d' ∧
      d'.queued = ((rest.filter fun w => (d.windows.window w).ownerPid = pid).map d.outer).reverse ++
        d.queued := by
  induction rest generalizing d kept curr prev with
  | nil =>
    refine ⟨d, fun fuel hfuel => ?_, h, .refl d, rfl⟩
    obtain ⟨fuel, rfl⟩ : ∃ n, fuel = n + 1 := ⟨fuel - 1, by simp at hfuel; omega⟩
    unfold Desktop.destroyLoop
    exact if_pos hchain
  | cons w rest ih =>
    obtain ⟨rfl, hne, htail⟩ := hchain
    have hp : d.Present curr := h.present_of_mem (List.mem_append_right _ List.mem_cons_self)
    have hstart : ∀ fuel, Desktop.destroyLoop screen pid (fuel + 1) d curr prev =
        if (d.windows.window curr).ownerPid = pid then
          (d.destroyWindow screen curr prev).bind fun d' =>
            Desktop.destroyLoop screen pid fuel d' (d.windows.window curr).next prev
        else Desktop.destroyLoop screen pid fuel d (d.windows.window curr).next curr := by
      intro fuel
      show (if curr = 0 then _ else _) = _
      rw [if_neg hne, load_of_present hp]
      rfl
    by_cases hpid : (d.windows.window curr).ownerPid = pid
    · obtain ⟨d₁, hrun, h₁, hview, hq, hnext⟩ := destroyWindow_spec screen h hprev
      have htail₁ : Chain d₁.links.next 0 (d.windows.window curr).next rest := by
        refine htail.congr fun v hv => hnext v ?_
        intro he
        -- `prev` is one of the windows kept, or null
        rcases hprev with ⟨-, h0⟩ | ⟨pre, hk⟩
        · exact htail.ne_null v hv (he.trans h0)
        · exact (List.disjoint_of_nodup_append (hk ▸ h.nodup)) (by simp : prev ∈ pre ++ [prev])
            (he ▸ List.mem_cons_of_mem _ hv)
      obtain ⟨d', hloop, h', hview', hq'⟩ := ih h₁ htail₁ hprev
      have howner : ∀ v, (d₁.windows.window v).ownerPid = (d.windows.window v).ownerPid := hview.owner
      have houter : d₁.outer = d.outer := funext hview.outer
      simp only [howner] at h' hq'
      rw [houter] at hq'
      refine ⟨d', fun fuel hfuel => ?_, ?_, hview.trans hview', ?_⟩
      · obtain ⟨fuel, rfl⟩ : ∃ n, fuel = n + 1 := ⟨fuel - 1, by simp at hfuel; omega⟩
        rw [hstart, if_pos hpid, hrun]
        exact hloop fuel (by rw [List.length_cons] at hfuel; omega)
      · rw [List.filter_cons_of_neg (by simpa using hpid)]
        exact h'
      · rw [List.filter_cons_of_pos (by simpa using hpid), List.map_cons, List.reverse_cons,
          List.append_assoc, hq', hq]
        rfl
    · have hkept : kept ++ curr :: rest = (kept ++ [curr]) ++ rest := by simp
      obtain ⟨d', hloop, h', hview', hq'⟩ := ih (show Tracked d.links held ((kept ++ [curr]) ++ rest) from hkept ▸ h) htail
        (.inr ⟨kept, rfl⟩)
      refine ⟨d', fun fuel hfuel => ?_, ?_, hview', ?_⟩
      · obtain ⟨fuel, rfl⟩ : ∃ n, fuel = n + 1 := ⟨fuel - 1, by simp at hfuel; omega⟩
        rw [hstart, if_neg hpid]
        exact hloop fuel (by rw [List.length_cons] at hfuel; omega)
      · rw [List.filter_cons_of_pos (by simpa using hpid)]
        rw [List.append_assoc] at h'
        exact h'
      · rw [List.filter_cons_of_neg (by simpa using hpid)]
        exact hq'

variable (screen) in
/-- **`window_destroy_by_pid`** takes the windows of the process out of the
    list. -/
theorem destroyByPid_spec (pid : Word) (h : Tracked d.links held l) :
    ∃ d', (∀ fuel, l.length < fuel → d.windowDestroyByPid fuel screen pid = some d') ∧
      Tracked d'.links held (l.filter fun w => (d.windows.window w).ownerPid ≠ pid) ∧ SameView d d' ∧
      d'.queued = ((l.filter fun w => (d.windows.window w).ownerPid = pid).map d.outer).reverse ++
        d.queued :=
  destroyLoop_spec (show Tracked d.links held ([] ++ l) from h) h.chain (.inl ⟨rfl, rfl⟩)

/-! ## §6. `window_update`. -/

/-- The walk that raises a window stops at its predecessor. -/
theorem findPrev_spec {pre post : List Word} {fuel : Nat}
    (hchain : Chain d.links.next 0 curr (pre ++ prev :: win :: post))
    (hnd : (pre ++ prev :: win :: post).Nodup)
    (hp : ∀ w ∈ pre ++ prev :: win :: post, d.Present w) (hfuel : pre.length < fuel) :
    d.findPrev win fuel curr = some prev := by
  induction pre generalizing curr fuel with
  | nil =>
    obtain ⟨fuel, rfl⟩ : ∃ n, fuel = n + 1 := ⟨fuel - 1, by simp at hfuel; omega⟩
    obtain ⟨rfl, hne, hnext, -⟩ := hchain
    have hload := load_of_present (hp curr List.mem_cons_self)
    show (if curr = 0 then _ else _) = _
    rw [if_neg hne, hload]
    exact if_pos hnext
  | cons w pre ih =>
    obtain ⟨fuel, rfl⟩ : ∃ n, fuel = n + 1 := ⟨fuel - 1, by simp at hfuel; omega⟩
    obtain ⟨rfl, hne, htail⟩ := hchain
    obtain ⟨-, hnd'⟩ := List.nodup_cons.mp hnd
    have hload := load_of_present (hp curr List.mem_cons_self)
    have hnext : (d.windows.window curr).next ≠ win := by
      intro he
      -- the next window starts the rest of the list, in which `win` comes later
      have hhead : Chain d.links.next 0 win (pre ++ prev :: win :: post) := he ▸ htail
      cases pre with
      | nil =>
        obtain ⟨hw, -⟩ := hhead
        rw [hw] at hnd'
        simp at hnd'
      | cons v pre =>
        obtain ⟨hw, -⟩ := hhead
        rw [hw] at hnd'
        simp at hnd'
    show (if curr = 0 then _ else _) = _
    rw [if_neg hne, hload]
    show (if (d.windows.window curr).next = win then _ else _) = _
    rw [if_neg hnext]
    exact ih htail hnd' (fun v hv => hp v (List.mem_cons_of_mem _ hv))
      (by rw [List.length_cons] at hfuel; omega)

/-- A window of the list that is not at its head has a predecessor. -/
theorem exists_prev (h : Tracked d.links held l) (hmem : win ∈ l) (hhead : win ≠ d.windows.windowList) :
    ∃ pre prev post, l = pre ++ prev :: win :: post := by
  obtain ⟨s, post, rfl⟩ := List.append_of_mem hmem
  rcases List.eq_nil_or_concat s with rfl | ⟨pre, prev, rfl⟩
  · obtain ⟨heq, -⟩ := h.chain
    exact absurd heq.symm hhead
  · exact ⟨pre, prev, post, by simp⟩

variable (screen) in
/-- **Raising a window** moves it to the front of the list. -/
theorem raiseWindow_spec (h : Tracked d.links held l) (hmem : win ∈ l)
    (hhead : win ≠ d.windows.windowList) :
    ∃ d', (∀ fuel, l.length < fuel → d.raiseWindow fuel screen win = some d') ∧ Tracked d'.links held (win :: l.erase win) ∧
      SameView d d' ∧ d'.queued = d.outer win :: d.outer win :: d.queued ∧ d'.history = d.history ∧
      d'.draggingWindow = d.draggingWindow := by
  obtain ⟨pre, prev, post, rfl⟩ := exists_prev h hmem hhead
  have hp : d.Present win := h.present_of_mem hmem
  have hpp : d.Present prev := h.present_of_mem (by simp)
  have hfind : ∀ fuel, (pre ++ prev :: win :: post).length < fuel →
      d.findPrev win fuel d.windows.windowList = some prev := fun fuel hfuel =>
    findPrev_spec h.chain h.nodup (fun w hw => h.present_of_mem hw) (by simp at hfuel; omega)
  -- `win` is unlinked behind `prev` and put at the head; its own place is nowhere else
  have hne : win ≠ prev := by
    intro he
    have hnd := (List.nodup_append.mp h.nodup).2.1
    exact (List.nodup_cons.mp hnd).1 (he ▸ List.mem_cons_self)
  have hnotpre : win ∉ pre := fun hw =>
    List.disjoint_of_nodup_append h.nodup hw (List.mem_cons_of_mem _ List.mem_cons_self)
  have hnotpost : win ∉ post := by
    have hnd := (List.nodup_append.mp h.nodup).2.1
    exact (List.nodup_cons.mp (List.nodup_cons.mp hnd).2).1
  have herase : (pre ++ prev :: win :: post).erase win = pre ++ prev :: post := by
    rw [List.erase_append_right _ hnotpre, List.erase_cons_tail (by simpa using hne.symm),
      List.erase_cons_head]
  let d₁ : Desktop := { d with
    windows := d.windows.setWindow prev fun p => { p with next := (d.windows.window win).next } }
  let d₂ : Desktop := { d₁ with
    windows := d₁.windows.setWindow win fun r => { r with next := d.windows.windowList } }
  let d₃ : Desktop := { d₂ with windows := { d₂.windows with windowList := win } }
  have hlinks₁ : d₁.links = { d.links with
      next := Function.update d.links.next prev (d.links.next win) } := links_setNext _
  have hlinks₂ : d₂.links = { d₁.links with
      next := Function.update d₁.links.next win d.windows.windowList } := links_setNext _
  have hview₁ : SameView d d₁ := .setWindow (fun _ => rfl) fun _ => rfl
  have hview₂ : SameView d₁ d₂ := .setWindow (fun _ => rfl) fun _ => rfl
  have hview₃ : SameView d₂ d₃ := ⟨fun _ => rfl, fun _ => rfl, rfl, rfl, rfl, rfl, rfl⟩
  have hview : SameView d d₃ := hview₁.trans (hview₂.trans hview₃)
  have houter : windowOuterRect (d₃.windows.window win) = d.outer win := hview.outer win
  refine ⟨(d₃.queueDirtyRect screen (d.outer win)).queueDirtyRect screen (d.outer win),
    fun fuel hfuel => ?_, ?_, ⟨hview.snapshot, hview.owner, rfl, rfl, rfl, rfl, rfl⟩, rfl, rfl, rfl⟩
  · unfold Desktop.raiseWindow
    rw [load_of_present hp]
    show (d.findPrev win fuel d.windows.windowList).bind _ = _
    rw [hfind fuel hfuel, Option.bind_some, if_neg (h.present_ne_null hpp), store_of_present hpp]
    show (d₁.store win fun r => { r with next := d.windows.windowList }).bind _ = _
    rw [store_of_present (d := d₁) hp, Option.bind_some]
    show ((d₃.queueDirtyRect screen (d.outer win)).load win).bind _ = _
    rw [load_of_present (d := d₃.queueDirtyRect screen (d.outer win)) hp, Option.bind_some]
    show some ((d₃.queueDirtyRect screen (d.outer win)).queueDirtyRect screen
      (windowOuterRect (d₃.windows.window win))) = _
    rw [houter]
  · have hchain : Chain (Function.update (Function.update d.links.next prev (d.links.next win)) win
        d.windows.windowList) 0 win (win :: (pre ++ prev :: post)) := by
      refine ⟨rfl, h.present_ne_null hp, ?_⟩
      rw [Function.update_self]
      exact (h.chain.unlink h.nodup).update_of_notMem (by simp [hnotpre, hne, hnotpost]) _
    have hperm : (win :: (pre ++ prev :: post)).Perm (pre ++ prev :: win :: post) := by
      rw [← herase]
      exact (List.perm_cons_erase hmem).symm
    have hre := h.reorder hperm hchain
    rw [herase]
    have hl : d₃.links = { d₂.links with windowList := win } := rfl
    rw [links_queueDirtyRect, links_queueDirtyRect, hl, hlinks₂, hlinks₁]
    exact hre

/-- What the button code of `window_update` may do to the picture. -/
inductive ButtonsEffect (d : Desktop) (l : List Word) (d' : Desktop) : List Word → Prop
  /-- Nothing that shows. -/
  | still (hview : SameView d d') (hq : d'.queued = d.queued) : ButtonsEffect d l d' l
  /-- A window comes to the front. -/
  | raise (win : Word) (hmem : win ∈ l) (hview : SameView d d')
      (hq : d'.queued = d.outer win :: d.outer win :: d.queued) :
      ButtonsEffect d l d' (win :: l.erase win)
  /-- A window moves. -/
  | move (win : Word) (hmem : win ∈ l)
      (hsnap : ∀ w, w ≠ win → (d'.windows.window w).snapshot = (d.windows.window w).snapshot)
      (hcursor : d'.cursorX = d.cursorX ∧ d'.cursorY = d.cursorY ∧
        d'.cursorInitialized = d.cursorInitialized ∧ d'.lastMx = d.lastMx ∧ d'.lastMy = d.lastMy)
      (hq : d'.queued = d'.outer win :: d.outer win :: d.queued) : ButtonsEffect d l d' l

theorem Tracked.live_of_not_destroyed (h : Tracked d.links held l) (hp : d.Present win)
    (hd : (d.windows.window win).destroyed ≠ true) : win ∈ l := by
  rw [h.mem_iff]
  cases hs : windowStatus d.links.history win with
  | absent => exact absurd hs hp
  | live => rfl
  | doomed => exact absurd ((h.destroyed win hp).mpr hs) hd

theorem keepsLinks_pushEvent (event : Window → GuiEvent) : KeepsLinks fun r => r.pushEvent (event r) := by
  constructor
  all_goals
    intro r
    unfold Window.pushEvent
    dsimp only
    split_ifs <;> rfl

theorem snapshot_pushEvent (r : Window) (event : GuiEvent) : (r.pushEvent event).snapshot = r.snapshot := by
  unfold Window.pushEvent
  dsimp only
  split_ifs <;> rfl

theorem owner_pushEvent (r : Window) (event : GuiEvent) : (r.pushEvent event).ownerPid = r.ownerPid := by
  unfold Window.pushEvent
  dsimp only
  split_ifs <;> rfl

theorem SameView.pushEvent (event : Window → GuiEvent) :
    SameView d { d with windows := d.windows.setWindow win fun r => r.pushEvent (event r) } :=
  .setWindow (fun r => snapshot_pushEvent r (event r)) fun r => owner_pushEvent r (event r)

variable (screen) in
theorem startDrag_spec (h : Tracked d.links held l) (hmem : win ∈ l) (mx my : BitVec 32) :
    ∃ d' l', (∀ fuel, l.length < fuel → d.startDrag fuel screen win mx my = some d') ∧ Tracked d'.links held l' ∧
      ButtonsEffect d l d' l' := by
  have hp := h.present_of_mem hmem
  let d₁ : Desktop := { d with
    draggingWindow := win
    dragOffX := mx - (d.windows.window win).x, dragOffY := my - (d.windows.window win).y }
  have h₁ : Tracked d₁.links held l := h.drag (.inr ((h.mem_iff win).mp hmem))
  have hview₁ : SameView d d₁ := ⟨fun _ => rfl, fun _ => rfl, rfl, rfl, rfl, rfl, rfl⟩
  have hrun : ∀ fuel, d.startDrag fuel screen win mx my =
      if win ≠ d.windows.windowList then d₁.raiseWindow fuel screen win else some d₁ := by
    intro fuel
    unfold Desktop.startDrag
    rw [load_of_present hp]
    rfl
  by_cases hhead : win = d.windows.windowList
  · exact ⟨d₁, l, fun fuel _ => (hrun fuel).trans (if_neg (not_not.mpr hhead)), h₁, .still hview₁ rfl⟩
  · obtain ⟨d', hraise, h', hview, hq, -, -⟩ := raiseWindow_spec screen h₁ hmem hhead
    exact ⟨d', _, fun fuel hfuel => ((hrun fuel).trans (if_pos hhead)).trans (hraise fuel hfuel), h',
      .raise win hmem (hview₁.trans hview) hq⟩

variable (screen) in
theorem dragWindow_spec (h : Tracked d.links held l) (hmem : d.draggingWindow ∈ l)
    (mx my : BitVec 32) :
    ∃ d', d.dragWindow screen mx my = some d' ∧ Tracked d'.links held l ∧ ButtonsEffect d l d' l := by
  have hp := h.present_of_mem hmem
  let d₁ : Desktop := { d with
    windows := d.windows.setWindow d.draggingWindow fun r =>
      { r with x := mx - d.dragOffX, y := my - d.dragOffY, dirty := true } }
  have hlinks : d₁.links = d.links := links_setWindow ⟨fun _ => rfl, fun _ => rfl, fun _ => rfl⟩
  refine ⟨(d₁.queueDirtyRect screen (d.outer d.draggingWindow)).queueDirtyRect screen
    (d₁.outer d.draggingWindow), ?_, ?_, .move d.draggingWindow hmem ?_ ⟨rfl, rfl, rfl, rfl, rfl⟩ rfl⟩
  · show (d.load d.draggingWindow).bind _ = _
    rw [load_of_present hp]
    show (d.store d.draggingWindow _).bind _ = _
    rw [store_of_present hp, Option.bind_some]
    show ((d₁.queueDirtyRect screen (d.outer d.draggingWindow)).load d.draggingWindow).bind _ = _
    rw [load_of_present (d := d₁.queueDirtyRect screen (d.outer d.draggingWindow)) hp,
      Option.bind_some]
    rfl
  · rw [links_queueDirtyRect, links_queueDirtyRect, hlinks]
    exact h
  · intro w hw
    show (Function.update d.windows.window d.draggingWindow _ w).snapshot = _
    rw [Function.update_of_ne hw]

variable (screen) in
/-- **The button code** runs to its end, and keeps the invariant. -/
theorem updateButtons_spec (h : Tracked d.links held l) (p : PendingUpdate) {press : WindowHit}
    (hpress : press.win = 0 ∨ d.Present press.win) :
    ∃ d' l', (∀ fuel, l.length < fuel → d.updateButtons fuel screen p press = some d') ∧ Tracked d'.links held l' ∧
      ButtonsEffect d l d' l' := by
  by_cases hdown : leftDown p.mb = true
  · by_cases hdrag : d.draggingWindow = 0
    · by_cases hw : press.win = 0
      · have hrun : ∀ fuel, d.updateButtons fuel screen p press = some d := by
          intro fuel
          unfold Desktop.updateButtons
          rw [if_pos hdown, if_pos hdrag, if_pos hw]
        exact ⟨d, l, fun fuel _ => hrun fuel, h, .still (.refl d) rfl⟩
      -- no drag is on, and the press hit a window
      have hp := hpress.resolve_left hw
      have hrun : ∀ fuel, d.updateButtons fuel screen p press =
          if (d.windows.window press.win).destroyed then some d
          else if press.inTitle then d.startDrag fuel screen press.win p.mx p.my
          else if press.inBody && !leftDown d.lastMb then d.clickBody press.win p.mx p.my
          else some d := by
        intro fuel
        unfold Desktop.updateButtons
        rw [if_pos hdown, if_pos hdrag, if_neg hw, load_of_present hp]
        rfl
      by_cases hd : (d.windows.window press.win).destroyed = true
      · exact ⟨d, l, fun fuel _ => (hrun fuel).trans (if_pos hd), h, .still (.refl d) rfl⟩
      have hmem := h.live_of_not_destroyed hp hd
      by_cases htitle : press.inTitle = true
      · obtain ⟨d', l', hdragrun, h', he⟩ := startDrag_spec screen h hmem p.mx p.my
        refine ⟨d', l', fun fuel hfuel => ?_, h', he⟩
        rw [hrun, if_neg hd, if_pos htitle]
        exact hdragrun fuel hfuel
      by_cases hbody : (press.inBody && !leftDown d.lastMb) = true
      · -- a click in the body is queued as an event
        let event : Window → GuiEvent := fun r => ⟨1, p.mx - r.x, p.my - r.y - windowTitleHeight, 1⟩
        let d₁ : Desktop := { d with
          windows := d.windows.setWindow press.win fun r => r.pushEvent (event r) }
        refine ⟨d₁, l, fun fuel _ => ?_, ?_, .still (.pushEvent event) rfl⟩
        · rw [hrun, if_neg hd, if_neg htitle, if_pos hbody]
          exact store_of_present hp
        · rw [links_setWindow (keepsLinks_pushEvent event)]
          exact h
      · refine ⟨d, l, fun fuel _ => ?_, h, .still (.refl d) rfl⟩
        rw [hrun, if_neg hd, if_neg htitle, if_neg hbody]
    · -- a drag is on: it moves its window, or ends with it
      have hlive := h.dragging.resolve_left hdrag
      have hmem : d.draggingWindow ∈ l := (h.mem_iff _).mpr hlive
      have hrun : ∀ fuel, d.updateButtons fuel screen p press =
          if !(d.windows.window d.draggingWindow).destroyed then d.dragWindow screen p.mx p.my
          else some { d with draggingWindow := 0 } := by
        intro fuel
        unfold Desktop.updateButtons
        rw [if_pos hdown, if_neg hdrag, load_of_present (h.present_of_mem hmem)]
        rfl
      by_cases hd : (!(d.windows.window d.draggingWindow).destroyed) = true
      · obtain ⟨d', hdragrun, h', he⟩ := dragWindow_spec screen h hmem p.mx p.my
        exact ⟨d', l, fun fuel _ => ((hrun fuel).trans (if_pos hd)).trans hdragrun, h', he⟩
      · exact ⟨_, l, fun fuel _ => (hrun fuel).trans (if_neg hd), h.drag (.inl rfl),
          .still ⟨fun _ => rfl, fun _ => rfl, rfl, rfl, rfl, rfl, rfl⟩ rfl⟩
  · -- the button is up, which ends a drag
    have hrun : ∀ fuel, d.updateButtons fuel screen p press = some { d with draggingWindow := 0 } := by
      intro fuel
      unfold Desktop.updateButtons
      rw [if_neg hdown]
    exact ⟨_, l, fun fuel _ => hrun fuel, h.drag (.inl rfl),
      .still ⟨fun _ => rfl, fun _ => rfl, rfl, rfl, rfl, rfl, rfl⟩ rfl⟩

variable (screen) in
/-- **The code for a move of the mouse** queues the old and the new cursor. -/
theorem updateMove_spec (p : PendingUpdate) {move : WindowHit}
    (hmove : move.win = 0 ∨ d.Present move.win) :
    ∃ d', d.updateMove screen p move = some d' ∧ d'.links = d.links ∧ SameView d d' ∧
      d'.queued = (if d.mouseMoved p.mx p.my
        then [cursorRect p.mx p.my, cursorRect d.cursorX d.cursorY] else []) ++ d.queued := by
  unfold Desktop.updateMove
  by_cases hmoved : d.mouseMoved p.mx p.my = true
  · rw [if_pos hmoved, if_pos hmoved]
    let d₁ := (d.queueDirtyRect screen (cursorRect d.cursorX d.cursorY)).queueDirtyRect screen
      (cursorRect p.mx p.my)
    have hview : SameView d d₁ := ⟨fun _ => rfl, fun _ => rfl, rfl, rfl, rfl, rfl, rfl⟩
    show ∃ d', (if move.win ≠ 0 ∧ move.inBody = true then (d₁.load move.win).bind _ else some d₁) =
      some d' ∧ _
    by_cases hbody : move.win ≠ 0 ∧ move.inBody = true
    · have hp : d₁.Present move.win := hmove.resolve_left hbody.1
      rw [if_pos hbody, load_of_present hp, Option.bind_some]
      by_cases hd : (d₁.windows.window move.win).destroyed = true
      · rw [if_pos hd]
        exact ⟨d₁, rfl, rfl, hview, rfl⟩
      · rw [if_neg hd]
        let event : Window → GuiEvent := fun r => ⟨2, p.mx - r.x, p.my - r.y - windowTitleHeight, 0⟩
        exact ⟨_, store_of_present hp, links_setWindow (keepsLinks_pushEvent event),
          hview.trans (.pushEvent event), rfl⟩
    · rw [if_neg hbody]
      exact ⟨d₁, rfl, rfl, hview, rfl⟩
  · rw [if_neg hmoved, if_neg hmoved]
    exact ⟨d, rfl, rfl, .refl d, rfl⟩

/-- A hit is no window, or one that the snapshot holds. -/
def HitOf (hs : List (Word × WindowSnapshot)) (hit : WindowHit) : Prop :=
  hit.win = 0 ∨ hit.win ∈ hs.map Prod.fst

theorem findWindowHit_hitOf (hs : List (Word × WindowSnapshot)) (mx my : BitVec 32) :
    HitOf hs (findWindowHit hs mx my) := by
  unfold findWindowHit
  cases hf : hs.find? fun win => win.2.hit mx my with
  | none => exact .inl rfl
  | some q =>
    have hmem : q.1 ∈ hs.map Prod.fst := List.mem_map_of_mem (List.mem_of_find?_eq_some hf)
    right
    show WindowHit.win (if my.slt (q.2.y + windowTitleHeight) then _ else _) ∈ _
    split_ifs <;> exact hmem

theorem pressHit_hitOf (p : PendingUpdate) : HitOf p.held (Desktop.pressHit p) := by
  unfold Desktop.pressHit
  split_ifs
  · exact findWindowHit_hitOf _ _ _
  · exact .inl rfl

theorem moveHit_hitOf (p : PendingUpdate) (moved : Bool) : HitOf p.held (Desktop.moveHit p moved) := by
  unfold Desktop.moveHit
  split_ifs
  · exact findWindowHit_hitOf _ _ _
  · exact .inl rfl

/-- What the second section of `window_update` did to the picture: the button
    code, the cursor rectangles, the cursor. -/
structure UpdateEffect (d : Desktop) (l : List Word) (screen : Rect) (p : PendingUpdate) (d' : Desktop)
    (l' : List Word) : Prop where
  buttons : ∃ d₁, ButtonsEffect
    (if !p.cursorWasInitialized then d.queueDirtyRect screen (cursorRect p.mx p.my) else d) l d₁ l' ∧
    (∀ w, (d'.windows.window w).snapshot = (d₁.windows.window w).snapshot) ∧
    d'.queued = (if d.mouseMoved p.mx p.my
        then [cursorRect p.mx p.my, cursorRect d.cursorX d.cursorY] else []) ++ d₁.queued
  cursorX : d'.cursorX = p.mx
  cursorY : d'.cursorY = p.my
  lastMx : d'.lastMx = p.mx
  lastMy : d'.lastMy = p.my
  cursorInitialized : d'.cursorInitialized = d.cursorInitialized

theorem ButtonsEffect.statics {l' : List Word} (h : ButtonsEffect d l d' l') :
    d'.cursorX = d.cursorX ∧ d'.cursorY = d.cursorY ∧ d'.cursorInitialized = d.cursorInitialized ∧
      d'.lastMx = d.lastMx ∧ d'.lastMy = d.lastMy := by
  cases h with
  | still hview hq =>
    exact ⟨hview.cursorX, hview.cursorY, hview.cursorInitialized, hview.lastMx, hview.lastMy⟩
  | raise win hmem hview hq =>
    exact ⟨hview.cursorX, hview.cursorY, hview.cursorInitialized, hview.lastMx, hview.lastMy⟩
  | move win hmem hsnap hcursor hq => exact hcursor

variable (screen) in
/-- **The second section of `window_update`** runs to its end, lets every
    window of the snapshot go and keeps the invariant. -/
theorem updateRelease_spec (h : Tracked d.links held l) (p : PendingUpdate) {press move : WindowHit}
    (hle : ∀ w, (p.held.map Prod.fst).count w ≤ held w) (hpress : HitOf p.held press)
    (hmove : HitOf p.held move) :
    ∃ d' l', (∀ fuel, l.length < fuel → d.updateRelease fuel screen p press move = some d') ∧
      Tracked d'.links (fun w => held w - (p.held.map Prod.fst).count w) l' ∧
      UpdateEffect d l screen p d' l' := by
  have hheld : ∀ hit, HitOf p.held hit → hit.win = 0 ∨ 0 < held hit.win := by
    intro hit hh
    refine hh.imp id fun hmem => ?_
    exact Nat.lt_of_lt_of_le (List.count_pos_iff.mpr hmem) (hle _)
  -- `d₀` to `d₄`: first cursor, the buttons, the move, the new coordinates, the releases
  let d₀ : Desktop :=
    if !p.cursorWasInitialized then d.queueDirtyRect screen (cursorRect p.mx p.my) else d
  have hlinks₀ : d₀.links = d.links := by
    show (if !p.cursorWasInitialized then d.queueDirtyRect screen (cursorRect p.mx p.my) else d).links = _
    split_ifs <;> rfl
  have hsame₀ : d₀.cursorX = d.cursorX ∧ d₀.cursorY = d.cursorY ∧
      d₀.cursorInitialized = d.cursorInitialized ∧ d₀.lastMx = d.lastMx ∧ d₀.lastMy = d.lastMy := by
    show Desktop.cursorX (if !p.cursorWasInitialized then _ else d) = _ ∧
      Desktop.cursorY (if !p.cursorWasInitialized then _ else d) = _ ∧
      Desktop.cursorInitialized (if !p.cursorWasInitialized then _ else d) = _ ∧
      Desktop.lastMx (if !p.cursorWasInitialized then _ else d) = _ ∧
      Desktop.lastMy (if !p.cursorWasInitialized then _ else d) = _
    split_ifs <;> exact ⟨rfl, rfl, rfl, rfl, rfl⟩
  have h₀ : Tracked d₀.links held l := hlinks₀ ▸ h
  obtain ⟨d₁, l', hbuttons, h₁, heffect⟩ := updateButtons_spec screen h₀ p
    ((hheld press hpress).imp id fun hpos => h₀.held _ hpos)
  obtain ⟨hcx, hcy, hci, hlx, hly⟩ := heffect.statics
  obtain ⟨d₂, hmoverun, hlinks₂, hview₂, hq₂⟩ := updateMove_spec (d := d₁) screen p
    ((hheld move hmove).imp id fun hpos => h₁.held _ hpos)
  have h₂ : Tracked d₂.links held l' := hlinks₂ ▸ h₁
  let d₃ : Desktop := { d₂ with
    cursorX := p.mx, cursorY := p.my, lastMb := p.mb, lastMx := p.mx, lastMy := p.my }
  obtain ⟨d₄, hrelease, hforget, h₄⟩ := releaseRefs_spec (d := d₃) p.held h₂ hle
  have hview₄ := SameView.of_forget hforget
  have hq₄ : d₄.queued = d₃.queued := queued_of_forget hforget
  have hmoved : d₁.mouseMoved p.mx p.my = d.mouseMoved p.mx p.my := by
    unfold Desktop.mouseMoved
    rw [hlx, hly, hsame₀.2.2.2.1, hsame₀.2.2.2.2]
  -- the last step clears a drag whose window is gone
  have hrun : ∀ fuel, l.length < fuel → d.updateRelease fuel screen p press move =
      if d₄.draggingWindow ≠ 0 then
        (d₄.load d₄.draggingWindow).bind fun r =>
          some (if r.destroyed then { d₄ with draggingWindow := 0 } else d₄)
      else some d₄ := by
    intro fuel hfuel
    show (d₀.updateButtons fuel screen p press).bind _ = _
    rw [hbuttons fuel hfuel, Option.bind_some]
    show (d₁.updateMove screen p move).bind _ = _
    rw [hmoverun, Option.bind_some]
    show (d₃.releaseWindowRefsLocked p.held).bind _ = _
    rw [hrelease, Option.bind_some]
    rfl
  have heff : UpdateEffect d l screen p d₄ l' := by
    refine ⟨⟨d₁, heffect, fun w => ?_, ?_⟩, hview₄.cursorX, hview₄.cursorY, hview₄.lastMx, hview₄.lastMy,
      ?_⟩
    · rw [hview₄.snapshot]
      exact hview₂.snapshot w
    · rw [hq₄]
      show d₂.queued = _
      rw [hq₂, hmoved, hcx, hcy, hsame₀.1, hsame₀.2.1]
    · rw [hview₄.cursorInitialized]
      exact hview₂.cursorInitialized.trans (hci.trans hsame₀.2.2.1)
  by_cases hdrag : d₄.draggingWindow = 0
  · exact ⟨d₄, l', fun fuel hfuel => (hrun fuel hfuel).trans (if_neg (not_not.mpr hdrag)), h₄, heff⟩
  · -- the window that is dragged is in the list, so it may be read
    have hlive := h₄.dragging.resolve_left hdrag
    have hp : d₄.Present d₄.draggingWindow := h₄.present_of_mem ((h₄.mem_iff _).mpr hlive)
    rw [if_pos hdrag, load_of_present hp, Option.bind_some] at hrun
    by_cases hd : (d₄.windows.window d₄.draggingWindow).destroyed = true
    · rw [if_pos hd] at hrun
      exact ⟨_, l', hrun, h₄.drag (.inl rfl), ⟨heff.buttons, heff.cursorX, heff.cursorY, heff.lastMx,
        heff.lastMy, heff.cursorInitialized⟩⟩
    · rw [if_neg hd] at hrun
      exact ⟨d₄, l', hrun, h₄, heff⟩

/-! ## §7. The other sections. -/

variable (screen) in
/-- **`window_create`** puts a new window at the front. -/
theorem windowCreate_spec (h : Tracked d.links held l) (hwin : win ≠ 0)
    (hs : windowStatus d.history win = .absent) (x y w h' bg : BitVec 32) :
    Tracked (d.windowCreate screen win x y w h' bg).links held (win :: l) := by
  have hc := h.create hwin hs
  have hlinks : (d.windowCreate screen win x y w h' bg).links =
      { history := .created win :: d.links.history, windowList := win
        draggingWindow := d.links.draggingWindow
        next := Function.update d.links.next win d.links.windowList
        destroyed := Function.update d.links.destroyed win false
        refcount := Function.update d.links.refcount win 0 } := by
    unfold Desktop.windowCreate
    rw [links_queueDirtyRect]
    let fresh : Window → Window := fun r =>
      { r with
        id := d.windows.nextWindowId, x := x, y := y, w := w, h := h', bgColor := bg
        titleColor := 0xFF555555, buffer := 0, ownerPid := 0, dirty := true, destroyed := false
        refcount := 0, eventHead := 0, eventTail := 0, next := d.windows.windowList }
    unfold Desktop.links
    congr 1
    · exact if_neg hwin
    · exact view_setWindow (fun r => r.next) d.windows win fresh
    · exact view_setWindow (fun r => r.destroyed) d.windows win fresh
    · exact view_setWindow (fun r => r.refcount) d.windows win fresh
  rw [hlinks]
  exact hc

variable (screen) in
/-- The functions that write to a window its caller owns. -/
theorem markDirty_spec (hp : d.Present win) (hwin : win ≠ 0) :
    ∃ d', d.windowMarkDirty screen win = some d' ∧ d'.links = d.links ∧ SameView d d' ∧
      ∃ r, d'.queued = r :: d.queued := by
  let d₁ : Desktop := { d with windows := d.windows.setWindow win fun r => { r with dirty := true } }
  have hview : SameView d d₁ := .setWindow (fun _ => rfl) fun _ => rfl
  have hlinks : d₁.links = d.links := links_setWindow ⟨fun _ => rfl, fun _ => rfl, fun _ => rfl⟩
  refine ⟨d₁.queueDirtyRect screen (windowOuterRect (d₁.windows.window win)), ?_, hlinks,
    ⟨hview.snapshot, hview.owner, rfl, rfl, rfl, rfl, rfl⟩, _, rfl⟩
  unfold Desktop.windowMarkDirty
  rw [if_neg hwin, store_of_present hp]
  show (d₁.load win).bind _ = _
  rw [load_of_present (d := d₁) hp, Option.bind_some]

variable (screen) in
theorem markRegionDirty_spec (hp : d.Present win) (hwin : win ≠ 0) (x y w h : BitVec 32) :
    ∃ d', d.windowMarkRegionDirty screen win x y w h = some d' ∧ d'.links = d.links ∧
      SameView d d' ∧ ∃ r, d'.queued = r :: d.queued := by
  let d₁ : Desktop := { d with windows := d.windows.setWindow win fun r => { r with dirty := true } }
  have hview : SameView d d₁ := .setWindow (fun _ => rfl) fun _ => rfl
  have hlinks : d₁.links = d.links := links_setWindow ⟨fun _ => rfl, fun _ => rfl, fun _ => rfl⟩
  refine ⟨d₁.queueDirtyRect screen ⟨(d₁.windows.window win).x + x,
    (d₁.windows.window win).y + windowTitleHeight + y, w, h⟩, ?_, hlinks,
    ⟨hview.snapshot, hview.owner, rfl, rfl, rfl, rfl, rfl⟩, _, rfl⟩
  unfold Desktop.windowMarkRegionDirty
  rw [if_neg hwin, store_of_present hp]
  show (d₁.load win).bind _ = _
  rw [load_of_present (d := d₁) hp, Option.bind_some]

/-- **`window_set_owner`** changes no more than the owner. -/
theorem setOwner_spec (hp : d.Present win) (hwin : win ≠ 0) (pid : Word) :
    ∃ d', d.windowSetOwner win pid = some d' ∧ d'.links = d.links ∧ d'.queued = d.queued ∧
      (∀ w, (d'.windows.window w).snapshot = (d.windows.window w).snapshot) ∧
      d'.cursorX = d.cursorX ∧ d'.cursorY = d.cursorY ∧
      d'.cursorInitialized = d.cursorInitialized ∧ d'.lastMx = d.lastMx ∧ d'.lastMy = d.lastMy := by
  unfold Desktop.windowSetOwner
  rw [if_neg hwin, load_of_present hp]
  show ∃ d', (if (d.windows.window win).destroyed then _ else _) = some d' ∧ _
  split_ifs
  · exact ⟨d, rfl, rfl, rfl, fun _ => rfl, rfl, rfl, rfl, rfl, rfl⟩
  · refine ⟨_, store_of_present hp, links_setWindow ⟨fun _ => rfl, fun _ => rfl, fun _ => rfl⟩, rfl,
      fun w => ?_, rfl, rfl, rfl, rfl, rfl⟩
    exact congrFun (view_setWindow_of_keeps (g := Window.snapshot)
      (f := fun r => { r with ownerPid := pid }) (fun _ => rfl) d.windows win) w

variable (screen) in
/-- **`window_set_buffer`** changes the picture of its window only, and queues
    its rectangle. -/
theorem setBuffer_spec (hp : d.Present win) (hwin : win ≠ 0) (buffer : Word) :
    ∃ d', d.windowSetBuffer screen win buffer = some d' ∧ d'.links = d.links ∧
      (d'.queued = d.outer win :: d.queued ∨
        d'.queued = d.queued ∧ (d'.windows.window win).snapshot = (d.windows.window win).snapshot) ∧
      (∀ w, w ≠ win → (d'.windows.window w).snapshot = (d.windows.window w).snapshot) ∧
      (∀ w, d'.outer w = d.outer w) ∧
      d'.cursorX = d.cursorX ∧ d'.cursorY = d.cursorY ∧
      d'.cursorInitialized = d.cursorInitialized ∧ d'.lastMx = d.lastMx ∧ d'.lastMy = d.lastMy := by
  unfold Desktop.windowSetBuffer
  rw [if_neg hwin, load_of_present hp]
  show ∃ d', (if (d.windows.window win).destroyed then _ else _) = some d' ∧ _
  split_ifs
  · exact ⟨d, rfl, rfl, .inr ⟨rfl, rfl⟩, fun _ _ => rfl, fun _ => rfl, rfl, rfl, rfl, rfl, rfl⟩
  · let d₁ : Desktop := { d with
      windows := d.windows.setWindow win fun r => { r with buffer := buffer, dirty := true } }
    have houter : ∀ w, windowOuterRect (d₁.windows.window w) = windowOuterRect (d.windows.window w) :=
      congrFun (view_setWindow_of_keeps (g := windowOuterRect)
        (f := fun r => { r with buffer := buffer, dirty := true }) (fun _ => rfl) d.windows win)
    have hlinks : d₁.links = d.links := links_setWindow ⟨fun _ => rfl, fun _ => rfl, fun _ => rfl⟩
    refine ⟨d₁.queueDirtyRect screen (windowOuterRect (d₁.windows.window win)), ?_, hlinks, .inl ?_, fun w hw => ?_, houter,
      rfl, rfl, rfl, rfl, rfl⟩
    · rw [store_of_present hp]
      show (d₁.load win).bind _ = _
      rw [load_of_present (d := d₁) hp, Option.bind_some]
    · show windowOuterRect (d₁.windows.window win) :: d.queued = _
      rw [houter]
      rfl
    · show (Function.update d.windows.window win _ w).snapshot = _
      rw [Function.update_of_ne hw]

/-- The walk for an id ends at a window of the list, or finds none. -/
theorem findWindow_spec (id : BitVec 32) (hrest : Chain d.links.next 0 curr rest)
    (hp : ∀ w ∈ rest, d.Present w) :
    ∃ w, (∀ fuel, rest.length < fuel → d.findWindow id fuel curr = some w) ∧ (w = 0 ∨ w ∈ rest) := by
  induction rest generalizing curr with
  | nil =>
    refine ⟨0, fun fuel hfuel => ?_, .inl rfl⟩
    obtain ⟨fuel, rfl⟩ : ∃ n, fuel = n + 1 := ⟨fuel - 1, by simp at hfuel; omega⟩
    exact if_pos hrest
  | cons w rest ih =>
    obtain ⟨rfl, hne, htail⟩ := hrest
    have hload := load_of_present (hp curr List.mem_cons_self)
    have hstart : ∀ fuel, d.findWindow id (fuel + 1) curr =
        if (d.windows.window curr).id = id then some curr
        else d.findWindow id fuel (d.windows.window curr).next := by
      intro fuel
      show (if curr = 0 then _ else _) = _
      rw [if_neg hne, hload]
      rfl
    by_cases hid : (d.windows.window curr).id = id
    · refine ⟨curr, fun fuel hfuel => ?_, .inr List.mem_cons_self⟩
      obtain ⟨fuel, rfl⟩ : ∃ n, fuel = n + 1 := ⟨fuel - 1, by simp at hfuel; omega⟩
      exact (hstart fuel).trans (if_pos hid)
    · obtain ⟨v, hv, hmem⟩ := ih htail fun v hv => hp v (List.mem_cons_of_mem _ hv)
      refine ⟨v, fun fuel hfuel => ?_, hmem.imp_right (List.mem_cons_of_mem _)⟩
      obtain ⟨fuel, rfl⟩ : ∃ n, fuel = n + 1 := ⟨fuel - 1, by simp at hfuel; omega⟩
      exact ((hstart fuel).trans (if_neg hid)).trans
        (hv fuel (by rw [List.length_cons] at hfuel; omega))

/-- **`window_pop_event`** runs to its end and leaves the links. -/
theorem popEvent_spec (h : Tracked d.links held l) (id : BitVec 32) (outEvent : Word) :
    ∃ ret event d', (∀ fuel, l.length < fuel → d.windowPopEvent fuel id outEvent =
        some (ret, event, d')) ∧
      d'.links = d.links ∧ SameView d d' ∧ d'.queued = d.queued := by
  by_cases hout : outEvent = 0
  · refine ⟨-1, none, d, fun fuel _ => ?_, rfl, .refl d, rfl⟩
    unfold Desktop.windowPopEvent
    exact if_pos hout
  obtain ⟨w, hfind, hmem⟩ := findWindow_spec id h.chain fun w hw => h.present_of_mem hw
  by_cases hw : w = 0
  · refine ⟨-1, none, d, fun fuel hfuel => ?_, rfl, .refl d, rfl⟩
    unfold Desktop.windowPopEvent
    rw [if_neg hout]
    show (d.findWindow id fuel d.windows.windowList).bind _ = _
    rw [show d.findWindow id fuel d.windows.windowList = some w from hfind fuel hfuel, Option.bind_some]
    exact if_pos hw
  have hp := h.present_of_mem (hmem.resolve_left hw)
  have hrun : ∀ fuel, l.length < fuel → d.windowPopEvent fuel id outEvent =
      if (d.windows.window w).destroyed then some (-1, none, d)
      else if (d.windows.window w).eventHead = (d.windows.window w).eventTail then some (0, none, d)
      else (d.store w fun r => { r with eventHead := r.eventHead + 1 }).bind fun d' =>
        some (1, some ((d.windows.window w).eventQueue (d.windows.window w).eventHead), d') := by
    intro fuel hfuel
    unfold Desktop.windowPopEvent
    rw [if_neg hout]
    show (d.findWindow id fuel d.windows.windowList).bind _ = _
    rw [show d.findWindow id fuel d.windows.windowList = some w from hfind fuel hfuel, Option.bind_some,
      if_neg hw, load_of_present hp]
    rfl
  by_cases hd : (d.windows.window w).destroyed = true
  · exact ⟨-1, none, d, fun fuel hfuel => (hrun fuel hfuel).trans (if_pos hd), rfl, .refl d, rfl⟩
  by_cases hempty : (d.windows.window w).eventHead = (d.windows.window w).eventTail
  · refine ⟨0, none, d, fun fuel hfuel => ?_, rfl, .refl d, rfl⟩
    rw [hrun fuel hfuel, if_neg hd]
    exact if_pos hempty
  · let d₁ : Desktop := { d with
      windows := d.windows.setWindow w fun r => { r with eventHead := r.eventHead + 1 } }
    have hlinks : d₁.links = d.links := links_setWindow ⟨fun _ => rfl, fun _ => rfl, fun _ => rfl⟩
    have hview : SameView d d₁ := .setWindow (fun _ => rfl) fun _ => rfl
    refine ⟨1, some ((d.windows.window w).eventQueue (d.windows.window w).eventHead), d₁,
      fun fuel hfuel => ?_, hlinks, hview, rfl⟩
    rw [hrun fuel hfuel, if_neg hd, if_neg hempty, store_of_present hp, Option.bind_some]

/-- The windows a snapshot takes. -/
def firstWindows (l : List Word) : List Word := l.take maxSnapshots

/-- **The first section of `window_update`** holds the first windows. -/
theorem updateSnapshot_spec (h : Tracked d.links held l) (hlt : ∀ w ∈ l, held w + 1 < 4294967296)
    (mx my : BitVec 32) (mb : BitVec 8) :
    ∃ p d', d.updateSnapshot mx my mb = some (p, d') ∧
      Tracked d'.links (fun w => held w + (firstWindows l).count w) l ∧
      p.held.map Prod.fst = firstWindows l ∧ p.mx = mx ∧ p.my = my ∧
      p.cursorWasInitialized = d.cursorInitialized ∧
      (∀ w, (d'.windows.window w).snapshot = (d.windows.window w).snapshot) ∧
      d'.queued = d.queued ∧ d'.cursorInitialized = true ∧ d'.lastMx = d.lastMx ∧
      d'.lastMy = d.lastMy ∧
      (d.cursorInitialized = true → d'.cursorX = d.cursorX ∧ d'.cursorY = d.cursorY) := by
  -- `d₁`: the first update puts the cursor where the mouse is
  let d₁ : Desktop :=
    if !d.cursorInitialized then { d with cursorInitialized := true, cursorX := mx, cursorY := my }
    else d
  have hcases : (d.cursorInitialized = true ∧ d₁ = d) ∨ (d.cursorInitialized = false ∧
      d₁ = { d with cursorInitialized := true, cursorX := mx, cursorY := my }) := by
    cases hc : d.cursorInitialized with
    | true =>
      left
      refine ⟨rfl, ?_⟩
      show (if !d.cursorInitialized then _ else d) = d
      rw [hc]
      rfl
    | false =>
      right
      refine ⟨rfl, ?_⟩
      show (if !d.cursorInitialized then _ else d) = _
      rw [hc]
      rfl
  have hlinks : d₁.links = d.links := by rcases hcases with ⟨-, he⟩ | ⟨-, he⟩ <;> rw [he]; rfl
  have hwin : d₁.windows = d.windows := by rcases hcases with ⟨-, he⟩ | ⟨-, he⟩ <;> rw [he]
  have hq : d₁.queued = d.queued := by rcases hcases with ⟨-, he⟩ | ⟨-, he⟩ <;> rw [he]
  have hmx : d₁.lastMx = d.lastMx := by rcases hcases with ⟨-, he⟩ | ⟨-, he⟩ <;> rw [he]
  have hmy : d₁.lastMy = d.lastMy := by rcases hcases with ⟨-, he⟩ | ⟨-, he⟩ <;> rw [he]
  have hci : d₁.cursorInitialized = true := by
    rcases hcases with ⟨hc, he⟩ | ⟨-, he⟩ <;> rw [he]
    exact hc
  have hcur : d.cursorInitialized = true → d₁ = d := by
    intro hc
    rcases hcases with ⟨-, he⟩ | ⟨hf, -⟩
    · exact he
    · rw [hc] at hf
      cases hf
  have h₁ : Tracked d₁.links held l := hlinks ▸ h
  obtain ⟨d', hrun, hforget, -, h'⟩ := snapshot_spec maxSnapshots h₁ h₁.chain h₁.nodup
    (fun _ hw => hw) hlt
  have hview := SameView.of_forget hforget
  refine ⟨⟨mx, my, mb, d.cursorInitialized, d₁.draggingWindow,
    (l.take maxSnapshots).map fun w => (w, (d₁.windows.window w).snapshot)⟩, d', ?_, h', ?_, rfl, rfl, rfl,
    fun w => ?_, (queued_of_forget hforget).trans hq, hview.cursorInitialized.trans hci,
    hview.lastMx.trans hmx, hview.lastMy.trans hmy, fun hc => ?_⟩
  · have hrun : Desktop.snapshotWindowList maxSnapshots d₁ d₁.windows.windowList = _ := hrun
    show (Desktop.snapshotWindowList maxSnapshots d₁ d₁.windows.windowList).bind _ = _
    rw [hrun, Option.bind_some]
  · show List.map Prod.fst (List.map _ _) = _
    rw [List.map_map]
    exact List.map_id _
  · rw [hview.snapshot, hwin]
  · rw [hview.cursorX, hview.cursorY, hcur hc]
    exact ⟨rfl, rfl⟩

/-- **The first section of `window_draw_all`** holds the first windows, or
    finds nothing to draw. -/
theorem drawSnapshot_spec (h : Tracked d.links held l) (hlt : ∀ w ∈ l, held w + 1 < 4294967296) :
    (d.drawSnapshot = some (none, d)) ∨
    ∃ redraw hs cursor d', d.drawSnapshot = some (some (redraw, hs, cursor), d') ∧
      Tracked d'.links (fun w => held w + (firstWindows l).count w) l ∧
      hs.map Prod.fst = firstWindows l ∧ SameView d d' ∧ d'.queued = d.queued := by
  unfold Desktop.drawSnapshot
  by_cases hd : d.dirtyRects = []
  · exact .inl (if_pos hd)
  · right
    rw [if_neg hd]
    let d₁ : Desktop := { d with dirtyRects := [] }
    have h₁ : Tracked d₁.links held l := h
    obtain ⟨d', hrun, hforget, -, h'⟩ := snapshot_spec maxSnapshots h₁ h₁.chain h₁.nodup
      (fun _ hw => hw) hlt
    have hview := SameView.of_forget hforget
    have hview₁ : SameView d d₁ := ⟨fun _ => rfl, fun _ => rfl, rfl, rfl, rfl, rfl, rfl⟩
    refine ⟨d.dirtyRects, (firstWindows l).map fun w => (w, (d₁.windows.window w).snapshot),
      cursorRect d'.cursorX d'.cursorY, d', ?_, h', ?_, hview₁.trans hview, ?_⟩
    · have hrun : Desktop.snapshotWindowList maxSnapshots d₁ d₁.windows.windowList = _ := hrun
      show (Desktop.snapshotWindowList maxSnapshots d₁ d₁.windows.windowList).bind _ = _
      rw [hrun, Option.bind_some]
      rfl
    · rw [List.map_map]
      exact List.map_id _
    · exact queued_of_forget (d := d₁) hforget

end Sections

end ZohoOs
