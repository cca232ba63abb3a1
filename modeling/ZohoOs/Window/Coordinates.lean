/-
  ZohoOs.Window.Coordinates — the coordinates of the events (mouse.c, window.c).

  `window_update` finds the window under the cursor in its snapshot, with the
  lock released, and computes the coordinates of the event from the window's
  record, with the lock taken again.  Between the two the window may have
  moved; in particular the call itself moves a dragged window before it
  delivers the move of the mouse.

  Main results:
    * `client_of_hit` — a hit in the body of a snapshot is a pixel of its
      client area;
    * `events_inside` — as long as every event goes to a window that is where
      the snapshot has it, every event that is popped is a pixel of its
      window's client area;
    * `drag_event_outside` — a drag, with an event above the client area.
-/
import ZohoOs.Mouse.Packet
import ZohoOs.Window.Events
import ZohoOs.Window.Records
import ZohoOs.Window.Runs

namespace ZohoOs

open ZohoOs.Lib

/-! ## §1. The mouse. -/

/-- `window_update` reads the mouse while bytes come in: each of the
    coordinates is one that the mouse had. -/
def ReadsMouse : WindowAct → Prop
  | .updateSnapshot mx my _ => (∃ input, (mouseAfter input).x = mx) ∧ ∃ input, (mouseAfter input).y = my
  | _ => True

/-! ## §2. Hits. -/

/-- The event is at a pixel of the window's client area. -/
def Window.InClient (win : Window) (event : GuiEvent) : Prop :=
  event.x.toNat < win.w.toNat ∧ event.y.toNat + 25 < win.h.toNat

/-- The mouse is not over the title bar. -/
def WindowSnapshot.body (snap : WindowSnapshot) (my : BitVec 32) : Bool :=
  !my.slt (snap.y + windowTitleHeight)

theorem sub_lt_of_signed_range {a x w : BitVec 32} (hlow : a.slt x = false)
    (hhigh : (x + w).sle a = false) : (a - x).toNat < w.toNat := by
  simp only [BitVec.slt, BitVec.sle, decide_eq_false_iff_not, not_lt, not_le,
    BitVec.toInt_eq_toNat_cond, BitVec.toNat_add] at hlow hhigh
  rw [BitVec.toNat_sub]
  have ha := a.isLt
  have hx := x.isLt
  have hw := w.isLt
  split_ifs at hlow hhigh <;> omega

theorem le_sub_of_signed {a x c : BitVec 32} (hlow : a.slt x = false) (hc : a.slt (x + c) = false)
    (hac : a.toNat + c.toNat < 2 ^ 31) : c.toNat ≤ (a - x).toNat := by
  simp only [BitVec.slt, decide_eq_false_iff_not, not_lt, BitVec.toInt_eq_toNat_cond,
    BitVec.toNat_add] at hlow hc
  rw [BitVec.toNat_sub]
  have ha := a.isLt
  have hx := x.isLt
  split_ifs at hlow hc <;> omega

section Hits

variable {snap : WindowSnapshot} {mx my : BitVec 32}

/-- **A hit in the body** is in the client area of the snapshot, however far
    off the screen the window lies. -/
theorem client_of_hit (hmy : my.toNat ≤ 768) (hhit : snap.hit mx my = true) (hbody : snap.body my = true) :
    (mx - snap.x).toNat < snap.w.toNat ∧
      (my - snap.y - windowTitleHeight).toNat + 25 < snap.h.toNat := by
  unfold WindowSnapshot.hit at hhit
  unfold WindowSnapshot.body at hbody
  simp only [Bool.and_eq_true, Bool.not_eq_true', Bool.or_eq_false_iff] at hhit hbody
  obtain ⟨⟨hx, hx'⟩, hy, hy'⟩ := hhit
  have htitle : (windowTitleHeight : BitVec 32).toNat = 25 := rfl
  have hlow := le_sub_of_signed hy hbody (by omega)
  have hhigh := sub_lt_of_signed_range hy hy'
  refine ⟨sub_lt_of_signed_range hx hx', ?_⟩
  have hle : windowTitleHeight ≤ my - snap.y := by
    rw [BitVec.le_def]
    exact hlow
  rw [BitVec.toNat_sub_of_le hle]
  omega

variable {held : List (Word × WindowSnapshot)}

/-- What `find_window_hit` says of a body. -/
theorem findWindowHit_body (hbody : (findWindowHit held mx my).inBody = true) :
    ∃ snap, held.find? (fun win => win.2.hit mx my) = some ((findWindowHit held mx my).win, snap) ∧
      snap.body my = true := by
  unfold findWindowHit at hbody ⊢
  cases hf : held.find? fun win => win.2.hit mx my with
  | none =>
    rw [hf] at hbody
    cases hbody
  | some win =>
    obtain ⟨w, snap⟩ := win
    rw [hf] at hbody
    dsimp only at hbody ⊢
    by_cases htitle : my.slt (snap.y + windowTitleHeight) = true
    · rw [if_pos htitle] at hbody
      cases hbody
    · rw [if_neg htitle]
      refine ⟨snap, rfl, ?_⟩
      unfold WindowSnapshot.body
      rw [Bool.eq_false_iff.mpr htitle]
      rfl

end Hits

/-! ## §3. The queues. -/

/-- The events pending are in the client area. -/
def Window.Inside (win : Window) : Prop := ∀ event ∈ win.pending, win.InClient event

/-- A record that is at least as good as another. -/
def KeepsInside (r r' : Window) : Prop := r.Inside → r'.Inside

/-- The window did not move or change its size, and was not destroyed. -/
structure SamePlace (r r' : Window) : Prop where
  x : r'.x = r.x
  y : r'.y = r.y
  w : r'.w = r.w
  h : r'.h = r.h
  destroyed : r'.destroyed = r.destroyed

/-- Every event that is pending for a window is in its client area. -/
def Desktop.Inside (d : Desktop) : Prop := ∀ w, d.Present w → (d.windows.window w).Inside

theorem bookkeeping_inside : Bookkeeping KeepsInside :=
  ⟨fun _ _ _ _ _ _ h => h, fun _ _ _ h h' hr => h' (h hr)⟩

theorem bookkeeping_place : Bookkeeping SamePlace :=
  ⟨fun _ _ _ _ _ _ => ⟨rfl, rfl, rfl, rfl, rfl⟩, fun _ _ _ h h' => ⟨h'.x.trans h.x, h'.y.trans h.y,
    h'.w.trans h.w, h'.h.trans h.h, h'.destroyed.trans h.destroyed⟩⟩

section Queues

variable {d d' : Desktop} {screen : Rect} {win : Word} {r : Window} {event : GuiEvent}

theorem inside_of_each (he : Desktop.Each KeepsInside d d') (h : d.Inside) : d'.Inside :=
  fun w hp => he.1 w (h w (he.2.1 w hp))

/-- A push of an event in the client area. -/
theorem pushEvent_inside (h : r.Inside) (he : r.InClient event) : (r.pushEvent event).Inside := by
  obtain ⟨hw, hh⟩ : (r.pushEvent event).w = r.w ∧ (r.pushEvent event).h = r.h := by
    unfold Window.pushEvent
    dsimp only
    split
    · exact ⟨rfl, rfl⟩
    · exact ⟨rfl, rfl⟩
  intro event' hmem
  unfold Window.InClient
  rw [hw, hh]
  unfold Window.pending at hmem
  rw [pushEvent_ring, Ring.contents_push] at hmem
  split at hmem
  · exact h event' hmem
  · rcases List.mem_append.mp hmem with hold | hnew
    · exact h event' hold
    · rw [List.mem_singleton.mp hnew]
      exact he

theorem pushEvent_place (r : Window) (event : GuiEvent) : SamePlace r (r.pushEvent event) := by
  unfold Window.pushEvent
  dsimp only
  split
  · exact ⟨rfl, rfl, rfl, rfl, rfl⟩
  · exact ⟨rfl, rfl, rfl, rfl, rfl⟩

/-- Taking the oldest event. -/
theorem pop_inside {e : GuiEvent} {ring : Ring 16 GuiEvent} (h : r.Inside) (hpop : r.ring.pop = some (e, ring)) :
    r.InClient e ∧ ∀ event ∈ ring.contents, r.InClient event := by
  have hcontents := Ring.contents_pop hpop
  constructor
  · exact h e (by unfold Window.pending; rw [hcontents]; exact List.mem_cons_self)
  · intro event hmem
    exact h event (by unfold Window.pending; rw [hcontents]; exact List.mem_cons_of_mem e hmem)

/-- **What `window_pop_event` returns** is in the client area of its window. -/
theorem popEvent_inside (h : d.Inside) {fuel : Nat} {id result : BitVec 32} {out : Word}
    {event : Option GuiEvent} (hpop : d.windowPopEvent fuel id out = some (result, event, d')) :
    d'.Inside ∧ ∀ e, event = some e → ∃ w, d.findWindow id fuel d.windows.windowList = some w ∧
      w ≠ 0 ∧ (d.windows.window w).InClient e := by
  unfold Desktop.windowPopEvent at hpop
  split at hpop
  · cases hpop
    exact ⟨h, fun e he => by cases he⟩
  · obtain ⟨curr, hfind, hpop⟩ := Option.bind_eq_some_iff.mp hpop
    split at hpop
    · cases hpop
      exact ⟨h, fun e he => by cases he⟩
    · rename_i hcurr
      obtain ⟨r, hload, hpop⟩ := Option.bind_eq_some_iff.mp hpop
      have hr := load_eq_some hload
      split at hpop
      · cases hpop
        exact ⟨h, fun e he => by cases he⟩
      · split at hpop
        · cases hpop
          exact ⟨h, fun e he => by cases he⟩
        · rename_i hne
          obtain ⟨d₁, hstore, hpop⟩ := Option.bind_eq_some_iff.mp hpop
          cases hpop
          rw [hr] at hne
          have hring : (d.windows.window curr).ring.pop =
              some ((d.windows.window curr).eventQueue (d.windows.window curr).eventHead,
                { (d.windows.window curr).ring with head := (d.windows.window curr).eventHead + 1 }) :=
            if_neg hne
          obtain ⟨hevent, hrest⟩ := pop_inside (h curr (present_of_load hload)) hring
          have hkeep : KeepsInside (d.windows.window curr) { d.windows.window curr with
            eventHead := (d.windows.window curr).eventHead + 1 } := fun _ => hrest
          refine ⟨inside_of_each (each_store bookkeeping_inside hkeep hstore) h, fun e he => ?_⟩
          cases he
          rw [hr]
          exact ⟨curr, hfind, hcurr, hevent⟩

/-- A window starts without events. -/
theorem windowCreate_inside (h : d.Inside) (x y w h' bg : BitVec 32) :
    (d.windowCreate screen win x y w h' bg).Inside := by
  intro v hp
  show ((windowCreate d.windows win x y w h' bg).window v).Inside
  by_cases hv : v = win
  · unfold Window.Inside
    rw [hv, pending_windowCreate]
    exact fun event hmem => absurd hmem List.not_mem_nil
  · have hold : d.Present v := by
      intro habsent
      refine hp ?_
      show windowStatus (if win = 0 then d.history else .created win :: d.history) v = .absent
      split
      · exact habsent
      · show (if v = win then WindowStatus.live else windowStatus d.history v) = .absent
        rw [if_neg hv]
        exact habsent
    have hsame : (windowCreate d.windows win x y w h' bg).window v = d.windows.window v :=
      Function.update_of_ne hv _ _
    rw [hsame]
    exact h v hold

end Queues

/-! ## §4. The second section of `window_update`. -/

namespace Desktop

/-- The call moves the window. -/
def Drags (d : Desktop) (p : PendingUpdate) (w : Word) : Prop :=
  leftDown p.mb = true ∧ d.draggingWindow = w ∧ w ≠ 0 ∧ (d.windows.window w).destroyed = false

instance (d : Desktop) (p : PendingUpdate) (w : Word) : Decidable (d.Drags p w) :=
  inferInstanceAs (Decidable (_ ∧ _ ∧ _ ∧ _))

/-- Where the window is when the call delivers its events. -/
def placeOf (d : Desktop) (p : PendingUpdate) (w : Word) : BitVec 32 × BitVec 32 :=
  if d.Drags p w then (p.mx - d.dragOffX, p.my - d.dragOffY)
  else ((d.windows.window w).x, (d.windows.window w).y)

/-- The call delivers an event to the window under the cursor: a click, or a
    move. -/
def Delivers (d : Desktop) (p : PendingUpdate) (moved : Bool) : Prop :=
  (leftDown p.mb = true ∧ p.dragCandidate = 0 ∧ d.draggingWindow = 0 ∧ leftDown d.lastMb = false) ∨
    (moved = true ∧ d.mouseMoved p.mx p.my = true)

/-- **The window that gets an event is where the snapshot has it**, and as
    large. -/
def HitStays (d : Desktop) (p : PendingUpdate) (moved : Bool) : Prop :=
  d.Delivers p moved → ∀ w snap, p.held.find? (fun win => win.2.hit p.mx p.my) = some (w, snap) →
    snap.body p.my = true → (d.windows.window w).destroyed = false →
      d.placeOf p w = (snap.x, snap.y) ∧ (d.windows.window w).w = snap.w ∧ (d.windows.window w).h = snap.h

end Desktop

section Update

variable {d d' : Desktop} {screen : Rect} {p : PendingUpdate} {fuel : Nat} {w : Word} {moved : Bool}

/-- An event at the cursor, for a window that is where the snapshot has it. -/
theorem inClient_of_stays {r : Window} {snap : WindowSnapshot} {mx my : BitVec 32} (hmy : my.toNat ≤ 768)
    (hhit : snap.hit mx my = true) (hbody : snap.body my = true) (hplace : (r.x, r.y) = (snap.x, snap.y))
    (hw : r.w = snap.w) (hh : r.h = snap.h) (type data : BitVec 32) :
    r.InClient ⟨type, mx - r.x, my - r.y - windowTitleHeight, data⟩ := by
  obtain ⟨hx, hy⟩ := Prod.mk.inj hplace
  unfold Window.InClient
  dsimp only
  rw [hx, hy, hw, hh]
  exact client_of_hit hmy hhit hbody

/-- What the button code does to the records: it moves the dragged window. -/
structure ButtonsPlace (d : Desktop) (p : PendingUpdate) (d' : Desktop) : Prop where
  place : ∀ w, (d.windows.window w).destroyed = false →
    ((d'.windows.window w).x, (d'.windows.window w).y) = d.placeOf p w
  size : ∀ w, (d'.windows.window w).w = (d.windows.window w).w ∧
    (d'.windows.window w).h = (d.windows.window w).h ∧
    (d'.windows.window w).destroyed = (d.windows.window w).destroyed
  lastMx : d'.lastMx = d.lastMx
  lastMy : d'.lastMy = d.lastMy

/-- Nothing moves where nothing is dragged. -/
theorem ButtonsPlace.of_each (h : Desktop.Each SamePlace d d')
    (hdrag : ∀ w, (d.windows.window w).destroyed = false → ¬ d.Drags p w) : ButtonsPlace d p d' := by
  refine ⟨fun w hw => ?_, fun w => ⟨(h.1 w).w, (h.1 w).h, (h.1 w).destroyed⟩, h.2.2.1, h.2.2.2⟩
  unfold Desktop.placeOf
  rw [if_neg (hdrag w hw), (h.1 w).x, (h.1 w).y]

/-- **A step of a drag** moves the dragged window, and no queue changes. -/
theorem dragWindow_place (h : d.dragWindow screen p.mx p.my = some d') (hdown : leftDown p.mb = true)
    (hdrag : d.draggingWindow ≠ 0) :
    ButtonsPlace d p d' ∧ Desktop.Each KeepsInside d d' := by
  obtain ⟨r, -, h⟩ := Option.bind_eq_some_iff.mp h
  obtain ⟨d₁, hstore, h⟩ := Option.bind_eq_some_iff.mp h
  obtain ⟨r₁, -, h⟩ := Option.bind_eq_some_iff.mp h
  cases h
  have hinside : Desktop.Each KeepsInside d d₁ :=
    each_store bookkeeping_inside (fun hr => hr) hstore
  have hrecord : ∀ w, d₁.windows.window w =
      if w = d.draggingWindow then { d.windows.window w with
        x := p.mx - d.dragOffX, y := p.my - d.dragOffY, dirty := true } else d.windows.window w := by
    intro w
    rw [store_eq_some hstore]
    by_cases hw : w = d.draggingWindow
    · rw [if_pos hw, hw]
      exact Function.update_self _ _ _
    · rw [if_neg hw]
      exact Function.update_of_ne hw _ _
  refine ⟨⟨fun w hw => ?_, fun w => ?_, hinside.2.2.1, hinside.2.2.2⟩, hinside⟩
  · show ((d₁.windows.window w).x, (d₁.windows.window w).y) = _
    rw [hrecord]
    unfold Desktop.placeOf
    by_cases hwd : w = d.draggingWindow
    · have hdrags : d.Drags p w := ⟨hdown, hwd.symm, hwd ▸ hdrag, hw⟩
      rw [if_pos hwd, if_pos hdrags]
    · have hdrags : ¬ d.Drags p w := fun hc => hwd hc.2.1.symm
      rw [if_neg hwd, if_neg hdrags]
  · show (d₁.windows.window w).w = _ ∧ (d₁.windows.window w).h = _ ∧ (d₁.windows.window w).destroyed = _
    rw [hrecord]
    split
    · exact ⟨rfl, rfl, rfl⟩
    · exact ⟨rfl, rfl, rfl⟩

/-- A hit in the body of a window that was not dragged. -/
theorem pressHit_body (hbody : (Desktop.pressHit p).inBody = true) :
    leftDown p.mb = true ∧ p.dragCandidate = 0 ∧
      ∃ snap, p.held.find? (fun win => win.2.hit p.mx p.my) = some ((Desktop.pressHit p).win, snap) ∧
        snap.body p.my = true := by
  unfold Desktop.pressHit at hbody ⊢
  by_cases hc : (leftDown p.mb && decide (p.dragCandidate = 0)) = true
  · rw [if_pos hc] at hbody ⊢
    rw [Bool.and_eq_true, decide_eq_true_eq] at hc
    exact ⟨hc.1, hc.2, findWindowHit_body hbody⟩
  · rw [if_neg hc] at hbody
    cases hbody

theorem moveHit_body (hbody : (Desktop.moveHit p moved).inBody = true) :
    moved = true ∧
      ∃ snap, p.held.find? (fun win => win.2.hit p.mx p.my) = some ((Desktop.moveHit p moved).win, snap) ∧
        snap.body p.my = true := by
  unfold Desktop.moveHit at hbody ⊢
  by_cases hc : moved = true
  · rw [if_pos hc] at hbody ⊢
    exact ⟨hc, findWindowHit_body hbody⟩
  · rw [if_neg hc] at hbody
    cases hbody

/-- **The button code** keeps the queues inside, and moves the dragged window
    only. -/
theorem updateButtons_inside (h : d.updateButtons fuel screen p (Desktop.pressHit p) = some d')
    (hin : d.Inside) (hmy : p.my.toNat ≤ 768) (hstays : d.HitStays p moved) :
    d'.Inside ∧ ButtonsPlace d p d' := by
  unfold Desktop.updateButtons at h
  by_cases hdown : leftDown p.mb = true
  · rw [if_pos hdown] at h
    by_cases hdrag : d.draggingWindow = 0
    · rw [if_pos hdrag] at h
      have hno : ∀ w, (d.windows.window w).destroyed = false → ¬ d.Drags p w :=
        fun w _ hc => hc.2.2.1 (hc.2.1.symm.trans hdrag)
      split at h
      · cases h
        exact ⟨hin, .of_each (each_refl bookkeeping_place d) hno⟩
      · obtain ⟨r, hload, h⟩ := Option.bind_eq_some_iff.mp h
        have hr := load_eq_some hload
        split at h
        · cases h
          exact ⟨hin, .of_each (each_refl bookkeeping_place d) hno⟩
        · rename_i hdestroyed
          split at h
          · -- a press on the title bar
            exact ⟨inside_of_each (each_startDrag bookkeeping_inside h) hin,
              .of_each (each_startDrag bookkeeping_place h) hno⟩
          · split at h
            · -- a click on the body
              rename_i hclick
              rw [Bool.and_eq_true, Bool.not_eq_true'] at hclick
              obtain ⟨-, hcandidate, snap, hfind, hbody⟩ := pressHit_body hclick.1
              have halive : (d.windows.window (Desktop.pressHit p).win).destroyed = false := by
                rw [← hr]
                exact Bool.eq_false_iff.mpr hdestroyed
              obtain ⟨hplace, hw, hh⟩ := hstays (.inl ⟨hdown, hcandidate, hdrag, hclick.2⟩) _ _ hfind
                hbody halive
              unfold Desktop.placeOf at hplace
              rw [if_neg (hno _ halive)] at hplace
              have hover : snap.hit p.mx p.my = true := by simpa using List.find?_some hfind
              have hevent := inClient_of_stays hmy hover hbody hplace hw hh 1 1
              exact ⟨inside_of_each (each_store bookkeeping_inside (fun hi => pushEvent_inside hi hevent) h) hin,
                .of_each (each_store bookkeeping_place (pushEvent_place _ _) h) hno⟩
            · cases h
              exact ⟨hin, .of_each (each_refl bookkeeping_place d) hno⟩
    · rw [if_neg hdrag] at h
      -- a drag is on
      obtain ⟨r, hload, h⟩ := Option.bind_eq_some_iff.mp h
      have hr := load_eq_some hload
      split at h
      · obtain ⟨hplace, hkeep⟩ := dragWindow_place h hdown hdrag
        exact ⟨inside_of_each hkeep hin, hplace⟩
      · rename_i hdestroyed
        cases h
        have hno : ∀ w, (d.windows.window w).destroyed = false → ¬ d.Drags p w := by
          intro w hw hc
          rw [hr, hc.2.1, hw] at hdestroyed
          exact hdestroyed rfl
        exact ⟨hin, .of_each ⟨fun _ => bookkeeping_place.refl _, fun _ hp => hp, rfl, rfl⟩ hno⟩
  · rw [if_neg hdown] at h
    -- the button is up: no record is touched
    cases h
    exact ⟨hin, .of_each ⟨fun _ => bookkeeping_place.refl _, fun _ hp => hp, rfl, rfl⟩ fun w _ hc => hdown hc.1⟩

/-- **The code for a move** keeps the queues inside. -/
theorem updateMove_inside {d₁ : Desktop} (h : d₁.updateMove screen p (Desktop.moveHit p moved) = some d')
    (hplace : ButtonsPlace d p d₁) (hin : d₁.Inside) (hmy : p.my.toNat ≤ 768)
    (hstays : d.HitStays p moved) : d'.Inside := by
  unfold Desktop.updateMove at h
  by_cases hmoved : d₁.mouseMoved p.mx p.my = true
  · rw [if_pos hmoved] at h
    dsimp only at h
    split at h
    · rename_i hhit
      obtain ⟨r, hload, h⟩ := Option.bind_eq_some_iff.mp h
      have hr := load_eq_some hload
      split at h
      · cases h
        exact hin
      · rename_i hdestroyed
        obtain ⟨hm, snap, hfind, hbody⟩ := moveHit_body hhit.2
        obtain ⟨hw₁, hh₁, hd₁⟩ := hplace.size (Desktop.moveHit p moved).win
        have halive : (d.windows.window (Desktop.moveHit p moved).win).destroyed = false := by
          rw [← hd₁]
          rw [hr] at hdestroyed
          exact Bool.eq_false_iff.mpr hdestroyed
        have hmoved' : d.mouseMoved p.mx p.my = true := by
          unfold Desktop.mouseMoved at hmoved ⊢
          rw [← hplace.lastMx, ← hplace.lastMy]
          exact hmoved
        obtain ⟨hat, hw, hh⟩ := hstays (.inr ⟨hm, hmoved'⟩) _ _ hfind hbody halive
        rw [← hplace.place _ halive] at hat
        have hover : snap.hit p.mx p.my = true := by simpa using List.find?_some hfind
        have hevent := inClient_of_stays hmy hover hbody hat (hw₁.trans hw) (hh₁.trans hh) 2 0
        refine inside_of_each (each_store bookkeeping_inside ?_ h) hin
        exact fun hi => pushEvent_inside hi hevent
    · cases h
      exact hin
  · rw [if_neg hmoved] at h
    cases h
    exact hin

/-- **The second section** keeps the queues inside, if the window that gets an
    event is where the snapshot has it. -/
theorem updateRelease_inside
    (h : d.updateRelease fuel screen p (Desktop.pressHit p) (Desktop.moveHit p moved) = some d')
    (hin : d.Inside) (hmy : p.my.toNat ≤ 768) (hstays : d.HitStays p moved) : d'.Inside := by
  unfold Desktop.updateRelease at h
  dsimp only at h
  obtain ⟨d₁, hbuttons, h⟩ := Option.bind_eq_some_iff.mp h
  -- drawing the cursor for the first time changes no record
  obtain ⟨d₀, hd₀⟩ : ∃ d₀, d₀ = (if !p.cursorWasInitialized then
      d.queueDirtyRect screen (cursorRect p.mx p.my) else d) := ⟨_, rfl⟩
  rw [← hd₀] at hbuttons
  have hin₀ : d₀.Inside := by
    rw [hd₀]
    split
    · exact hin
    · exact hin
  have hstays₀ : d₀.HitStays p moved := by
    rw [hd₀]
    split
    · exact hstays
    · exact hstays
  obtain ⟨hin₁, hplace⟩ := updateButtons_inside hbuttons hin₀ hmy hstays₀
  obtain ⟨d₂, hmove, h⟩ := Option.bind_eq_some_iff.mp h
  have hin₂ := updateMove_inside hmove hplace hin₁ hmy hstays₀
  obtain ⟨d₃, hrelease, h⟩ := Option.bind_eq_some_iff.mp h
  have hin₃ : d₃.Inside := inside_of_each (each_releaseRefs bookkeeping_inside hrelease) hin₂
  split at h
  · obtain ⟨r, -, h⟩ := Option.bind_eq_some_iff.mp h
    cases h
    split
    · exact hin₃
    · exact hin₃
  · cases h
    exact hin₃

end Update

/-! ## §5. Runs. -/

/-- The step delivers its events to a window that is where its snapshot has
    it, if it delivers any. -/
def WindowSystem.HitStays (s : WindowSystem) : WindowAct → Prop
  | .updateRelease i moved => ∀ p, s.pending[i]? = some (.update p) → s.desk.HitStays p moved
  | _ => True

/-- **Every event that `window_pop_event` returns** is in the client area of
    the window it is for. -/
def WindowSystem.PopsInside (s : WindowSystem) : Prop :=
  ∀ fuel id out result event d', s.desk.windowPopEvent fuel id out = some (result, some event, d') →
    ∃ w, s.desk.findWindow id fuel s.desk.windows.windowList = some w ∧ w ≠ 0 ∧
      (s.desk.windows.window w).InClient event

/-- The queues are inside, and the updates under way have read the mouse. -/
structure WindowSystem.Coordinates (s : WindowSystem) : Prop where
  inside : s.desk.Inside
  mouse : ∀ p, .update p ∈ s.pending → p.my.toNat ≤ 768

section Runs

variable {s s' : WindowSystem} {screen : Rect} {a : WindowAct}

/-- The desktop changed, the pending operations did not. -/
theorem WindowSystem.Coordinates.desk (h : s.Coordinates) {d : Desktop}
    (he : Desktop.Each KeepsInside s.desk d) : WindowSystem.Coordinates { s with desk := d } :=
  ⟨inside_of_each he h.inside, h.mouse⟩

/-- **One section.** -/
theorem WindowSystem.Coordinates.step (h : s.Coordinates) (hstays : s.HitStays a) (hmouse : ReadsMouse a)
    (hstep : SectionStep screen s a s') : s'.Coordinates := by
  obtain ⟨hen, bound, hrun⟩ := hstep
  have hexec := hrun bound (Nat.le_refl bound)
  cases a with
  | create win x y w h' bg =>
    cases hexec
    exact ⟨windowCreate_inside h.inside x y w h' bg, h.mouse⟩
  | markDirty win =>
    obtain ⟨d, hd, rfl⟩ := Option.map_eq_some_iff.mp hexec
    exact h.desk (each_markDirty bookkeeping_inside hd)
  | markRegionDirty win x y w h' =>
    obtain ⟨d, hd, rfl⟩ := Option.map_eq_some_iff.mp hexec
    exact h.desk (each_markRegionDirty bookkeeping_inside hd)
  | setOwner win pid =>
    obtain ⟨d, hd, rfl⟩ := Option.map_eq_some_iff.mp hexec
    exact h.desk (each_setOwner bookkeeping_inside hd)
  | setBuffer win buffer =>
    obtain ⟨d, hd, rfl⟩ := Option.map_eq_some_iff.mp hexec
    exact h.desk (each_setBuffer bookkeeping_inside hd)
  | destroyByPid pid =>
    obtain ⟨d, hd, rfl⟩ := Option.map_eq_some_iff.mp hexec
    exact h.desk (each_destroyByPid bookkeeping_inside (fun _ hr => hr) hd)
  | popEvent id out =>
    obtain ⟨⟨result, event, d⟩, hd, rfl⟩ := Option.map_eq_some_iff.mp hexec
    exact ⟨(popEvent_inside h.inside hd).1, h.mouse⟩
  | updateSnapshot mx my mb =>
    -- the only section that reads the mouse
    obtain ⟨⟨p, d⟩, hd, rfl⟩ := Option.map_eq_some_iff.mp hexec
    obtain ⟨⟨held, d'⟩, hsnap, hp⟩ := Option.bind_eq_some_iff.mp hd
    cases hp
    refine ⟨inside_of_each (each_snapshot bookkeeping_inside hsnap) ?_, fun q hq => ?_⟩
    · -- placing the cursor for the first time changes no record
      split
      · exact h.inside
      · exact h.inside
    · rcases List.mem_cons.mp hq with hnew | hold
      · cases hnew
        obtain ⟨-, input, hy⟩ := hmouse
        rw [← hy]
        exact (mouse_in_range input).2
      · exact h.mouse q hold
  | updateRelease i moved =>
    -- the update's coordinates are those that were read when it began
    obtain ⟨p, hi⟩ := hen
    have hmem := List.mem_of_getElem? hi
    unfold WindowSystem.exec at hexec
    dsimp only at hexec
    rw [hi] at hexec
    obtain ⟨d, hd, rfl⟩ := Option.map_eq_some_iff.mp hexec
    exact ⟨updateRelease_inside hd h.inside (h.mouse p hmem) (hstays p hi),
      fun q hq => h.mouse q (List.mem_of_mem_eraseIdx hq)⟩
  | drawSnapshot =>
    obtain ⟨⟨result, d⟩, hd, rfl⟩ := Option.map_eq_some_iff.mp hexec
    unfold Desktop.drawSnapshot at hd
    split at hd
    · cases hd
      exact h
    · obtain ⟨⟨held, d'⟩, hsnap, hd⟩ := Option.bind_eq_some_iff.mp hd
      cases hd
      refine ⟨inside_of_each (each_snapshot bookkeeping_inside hsnap) h.inside, fun q hq => ?_⟩
      rcases List.mem_cons.mp hq with hnew | hold
      · cases hnew
      · exact h.mouse q hold
  | drawRelease i =>
    obtain ⟨redraw, held, cursor, hi⟩ := hen
    unfold WindowSystem.exec at hexec
    dsimp only at hexec
    rw [hi] at hexec
    obtain ⟨d, hd, rfl⟩ := Option.map_eq_some_iff.mp hexec
    exact ⟨inside_of_each (each_releaseRefs bookkeeping_inside hd) h.inside,
      fun q hq => h.mouse q (List.mem_of_mem_eraseIdx hq)⟩

/-- **Events are inside.**  In every run of the sections, from the boot state
    on and with any input from the mouse, in which each call that delivers an
    event delivers it to a window that is where its snapshot has it, every
    event that is popped is in the client area of its window. -/
theorem events_inside {record : Word → Window} {tr : List (Transition WindowSystem WindowAct)}
    (hrun : Run (SectionStep screen) (bootWindows screen record) tr s)
    (hmouse : ∀ x ∈ tr, ReadsMouse x.2.1) (hstays : ∀ x ∈ tr, x.1.HitStays x.2.1) : s.PopsInside := by
  have hboot : (bootWindows screen record).Coordinates := by
    refine ⟨fun w hp => absurd rfl hp, fun p hp => ?_⟩
    cases hp
  have hinv : s.Coordinates :=
    hrun.invariant (C := fun s a => s.HitStays a ∧ ReadsMouse a)
      (fun _ _ _ h hc hstep => h.step hc.1 hc.2 hstep) (fun x hx => ⟨hstays x hx, hmouse x hx⟩) hboot
  intro fuel id out result event d' hpop
  exact (popEvent_inside hinv.inside hpop).2 event rfl

end Runs

/-! ## §6. A click and a drag. -/

/-- The sections one after the other, on a screen of 1024 by 768 pixels. -/
def afterActs (acts : List WindowAct) : WindowSystem :=
  acts.foldl (fun s a => (s.exec 2 ⟨0, 0, 1024, 768⟩ a).getD s)
    (bootWindows ⟨0, 0, 1024, 768⟩ fun _ => blankWindow)

/-- A window of 600 by 400 pixels is created at (350, `y`), and the button is
    pressed where the mouse starts, at (400, 300). -/
def pressActs (y : BitVec 32) : List WindowAct :=
  [.create 0x1000018 350 y 600 400 0xFF333333, .updateSnapshot 400 300 1, .updateRelease 0 true]

/-- The acts with the states they lead from and to. -/
def pressTrace (y : BitVec 32) : List (Transition WindowSystem WindowAct) :=
  [(afterActs [], .create 0x1000018 350 y 600 400 0xFF333333, afterActs ((pressActs y).take 1)),
    (afterActs ((pressActs y).take 1), .updateSnapshot 400 300 1, afterActs ((pressActs y).take 2)),
    (afterActs ((pressActs y).take 2), .updateRelease 0 true, afterActs (pressActs y))]

theorem readsMouse_press {y : BitVec 32} {x : Transition WindowSystem WindowAct} (hx : x ∈ pressTrace y) :
    ReadsMouse x.2.1 := by
  simp only [pressTrace, List.mem_cons, List.not_mem_nil, or_false] at hx
  rcases hx with rfl | rfl | rfl
  · trivial
  · exact ⟨⟨[], rfl⟩, [], rfl⟩
  · trivial

/-- **A click** in the window's body. -/
theorem events_inside_click : (afterActs (pressActs 200)).PopsInside := by
  have h₁ : SectionStep ⟨0, 0, 1024, 768⟩ (afterActs []) (.create 0x1000018 350 200 600 400 0xFF333333)
      (afterActs ((pressActs 200).take 1)) := ⟨.inr rfl, 2, fun _ _ => rfl⟩
  have h₂ : SectionStep ⟨0, 0, 1024, 768⟩ (afterActs ((pressActs 200).take 1)) (.updateSnapshot 400 300 1)
      (afterActs ((pressActs 200).take 2)) := ⟨trivial, 2, fun _ _ => rfl⟩
  have h₃ : SectionStep ⟨0, 0, 1024, 768⟩ (afterActs ((pressActs 200).take 2)) (.updateRelease 0 true)
      (afterActs (pressActs 200)) := ⟨⟨_, rfl⟩, 2, fun _ _ => rfl⟩
  have hrun : Run (SectionStep ⟨0, 0, 1024, 768⟩) (bootWindows ⟨0, 0, 1024, 768⟩ fun _ => blankWindow)
      (pressTrace 200) (afterActs (pressActs 200)) := (((Run.nil _).snoc h₁).snoc h₂).snoc h₃
  refine events_inside hrun (fun x hx => readsMouse_press hx) fun x hx => ?_
  simp only [pressTrace, List.mem_cons, List.not_mem_nil, or_false] at hx
  rcases hx with rfl | rfl | rfl
  · trivial
  · trivial
  · intro p hp _ w snap hfind _ _
    cases hp
    cases hfind
    exact ⟨rfl, rfl, rfl⟩

/-- **A drag.**  The button is pressed on the title bar, 10 pixels below the
    window's edge, and the mouse then moves down by 356 pixels before the next
    `window_update`.  The window is found under the cursor where it was, moved
    along, and told of a move of the mouse 15 pixels above its client area. -/
theorem drag_event_outside :
    ∃ tr s, Run (SectionStep ⟨0, 0, 1024, 768⟩) (bootWindows ⟨0, 0, 1024, 768⟩ fun _ => blankWindow) tr s ∧
      (∀ x ∈ tr, ReadsMouse x.2.1) ∧ ¬ s.PopsInside := by
  have h₁ : SectionStep ⟨0, 0, 1024, 768⟩ (afterActs []) (.create 0x1000018 350 290 600 400 0xFF333333)
      (afterActs ((pressActs 290).take 1)) := ⟨.inr rfl, 2, fun _ _ => rfl⟩
  have h₂ : SectionStep ⟨0, 0, 1024, 768⟩ (afterActs ((pressActs 290).take 1)) (.updateSnapshot 400 300 1)
      (afterActs ((pressActs 290).take 2)) := ⟨trivial, 2, fun _ _ => rfl⟩
  have h₃ : SectionStep ⟨0, 0, 1024, 768⟩ (afterActs ((pressActs 290).take 2)) (.updateRelease 0 true)
      (afterActs (pressActs 290)) := ⟨⟨_, rfl⟩, 2, fun _ _ => rfl⟩
  have h₄ : SectionStep ⟨0, 0, 1024, 768⟩ (afterActs (pressActs 290)) (.updateSnapshot 400 656 1)
      (afterActs (pressActs 290 ++ [.updateSnapshot 400 656 1])) := ⟨trivial, 2, fun _ _ => rfl⟩
  have h₅ : SectionStep ⟨0, 0, 1024, 768⟩ (afterActs (pressActs 290 ++ [.updateSnapshot 400 656 1]))
      (.updateRelease 0 true)
      (afterActs (pressActs 290 ++ [.updateSnapshot 400 656 1, .updateRelease 0 true])) :=
    ⟨⟨_, rfl⟩, 2, fun _ _ => rfl⟩
  have hpress : Run (SectionStep ⟨0, 0, 1024, 768⟩) (bootWindows ⟨0, 0, 1024, 768⟩ fun _ => blankWindow)
      (pressTrace 290) (afterActs (pressActs 290)) := (((Run.nil _).snoc h₁).snoc h₂).snoc h₃
  refine ⟨_, _, (hpress.snoc h₄).snoc h₅, fun x hx => ?_, fun hinside => ?_⟩
  · rcases List.mem_append.mp hx with hx | hx
    · rcases List.mem_append.mp hx with hx | hx
      · exact readsMouse_press hx
      · rw [List.mem_singleton.mp hx]
        -- the packet of a mouse that moves down with the button pressed
        exact ⟨⟨[], rfl⟩, [(0x21, 0x29), (0x21, 0), (0x21, 0x9C)], rfl⟩
    · rw [List.mem_singleton.mp hx]
      trivial
  · obtain ⟨w, hfind, -, -, hy⟩ := hinside 2 1 1 1 ⟨2, 50, 0xFFFFFFF1, 0⟩ _ rfl
    cases hfind
    exact absurd hy (by decide)

end ZohoOs
