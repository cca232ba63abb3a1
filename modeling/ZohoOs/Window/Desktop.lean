/-
  ZohoOs.Window.Desktop — the window manager's sections (window.c).

  The statics of window.c, and the code that runs while `window_lock` is held.
  `window_update` and `window_draw_all` release the lock in the middle: each is
  a section that takes a snapshot and one that releases it.

  Every access to a window record goes through `load`, `store` or
  `freeWindow`, which fail on a record that is not allocated.  What has been
  created, destroyed and freed is kept as ghost history; the rectangles passed
  to `queue_dirty_rect` are kept as well.  The list walks carry fuel: `none` is
  an access to a freed window, or a walk that has not ended.
-/
import ZohoOs.Window.Draw

namespace ZohoOs

open ZohoOs.Lib

/-! ## §1. The life of a window. -/

inductive WindowEvent where
  | created (win : Word)
  | destroyed (win : Word)
  | freed (win : Word)
  deriving DecidableEq

/-- What the block at an address holds: no window, a window of the list, or a
    destroyed window that is not freed yet. -/
inductive WindowStatus where
  | absent
  | live
  | doomed
  deriving DecidableEq

/-- The status after a history, newest event first. -/
def windowStatus : List WindowEvent → Word → WindowStatus
  | [], _ => .absent
  | .created w :: history, win => if win = w then .live else windowStatus history win
  | .destroyed w :: history, win => if win = w then .doomed else windowStatus history win
  | .freed w :: history, win => if win = w then .absent else windowStatus history win

/-- Windows are created in free blocks, destroyed once, and freed once, after
    that. -/
def LegalHistory : List WindowEvent → Prop
  | [] => True
  | .created w :: history => windowStatus history w = .absent ∧ LegalHistory history
  | .destroyed w :: history => windowStatus history w = .live ∧ LegalHistory history
  | .freed w :: history => windowStatus history w = .doomed ∧ LegalHistory history

/-! ## §2. The state. -/

/-- The statics of window.c. -/
structure Desktop where
  windows : Windows
  /-- `dirty_rects[0..dirty_count)`. -/
  dirtyRects : List Rect
  cursorX : BitVec 32
  cursorY : BitVec 32
  cursorInitialized : Bool
  draggingWindow : Word
  dragOffX : BitVec 32
  dragOffY : BitVec 32
  lastMb : BitVec 8
  lastMx : BitVec 32
  lastMy : BitVec 32
  /-- Ghost: what happened to windows, newest first. -/
  history : List WindowEvent
  /-- Ghost: the rectangles passed to `queue_dirty_rect`, newest first. -/
  queued : List Rect

/-- `window_outer_rect`. -/
def windowOuterRect (win : Window) : Rect :=
  ⟨win.x, win.y, win.w + windowShadowOffset, win.h + windowShadowOffset⟩

/-- `WINDOW_MAX_DIRTY_RECTS`. -/
def windowMaxDirtyRects : Nat := 32

/-- The queue after `queue_dirty_rect`. -/
def queueRect (screen : Rect) (dirtyRects : List Rect) (rect : Rect) : List Rect :=
  match rectIntersect rect screen with
  | none => dirtyRects
  | some clipped =>
      match dirtyRects.findIdx? fun dirty => (rectIntersect dirty clipped).isSome with
      | some i => dirtyRects.modify i fun dirty => rectUnion dirty clipped
      | none =>
          if dirtyRects.length < windowMaxDirtyRects then dirtyRects ++ [clipped]
          else (dirtyRects.take 1).map fun dirty => rectUnion dirty clipped

namespace Desktop

/-- The record of a window that is still allocated. -/
def load (d : Desktop) (win : Word) : Option Window :=
  if windowStatus d.history win = .absent then none else some (d.windows.window win)

/-- Write to the record of a window that is still allocated. -/
def store (d : Desktop) (win : Word) (f : Window → Window) : Option Desktop :=
  if windowStatus d.history win = .absent then none
  else some { d with windows := d.windows.setWindow win f }

/-- `queue_dirty_rect`. -/
def queueDirtyRect (d : Desktop) (screen rect : Rect) : Desktop :=
  { d with dirtyRects := queueRect screen d.dirtyRects rect, queued := rect :: d.queued }

/-- `free_window`.  The window's buffer is freed with it; buffers are not
    followed here. -/
def freeWindow (d : Desktop) (win : Word) : Option Desktop :=
  if win = 0 then some d
  else if windowStatus d.history win = .absent then none
  else some { d with history := .freed win :: d.history }

/-- `retain_window_locked`. -/
def retainWindowLocked (d : Desktop) (win : Word) : Option Desktop :=
  if win = 0 then some d
  else d.store win fun r => { r with refcount := r.refcount + 1 }

/-- `release_window_locked`. -/
def releaseWindowLocked (d : Desktop) (win : Word) : Option Desktop :=
  if win = 0 then some d
  else do
    let r ← d.load win
    if r.refcount = 0 then some d
    else do
      let d ← d.store win fun r => { r with refcount := r.refcount - 1 }
      let r ← d.load win
      if r.destroyed ∧ r.refcount = 0 then d.freeWindow win else some d

/-- `snapshot_window_list`, with the count left and the window at hand. -/
def snapshotWindowList : Nat → Desktop → Word → Option (List (Word × WindowSnapshot) × Desktop)
  | 0, d, _ => some ([], d)
  | n + 1, d, curr =>
      if curr = 0 then some ([], d)
      else do
        let d ← d.retainWindowLocked curr
        let r ← d.load curr
        let (held, d) ← snapshotWindowList n d r.next
        some ((curr, r.snapshot) :: held, d)

/-- `release_window_refs_locked`. -/
def releaseWindowRefsLocked (d : Desktop) (held : List (Word × WindowSnapshot)) : Option Desktop :=
  held.foldlM (fun d win => d.releaseWindowLocked win.1) d

/-! ## §3. Sections that are whole operations. -/

/-- `window_create`, with the pointer `kmalloc` returned.  Nothing checks it:
    the record of a null pointer is written at address 0. -/
def windowCreate (d : Desktop) (screen : Rect) (win : Word) (x y w h bgColor : BitVec 32) : Desktop :=
  let d := { d with
    windows := ZohoOs.windowCreate d.windows win x y w h bgColor
    history := if win = 0 then d.history else .created win :: d.history }
  d.queueDirtyRect screen (windowOuterRect (d.windows.window win))

/-- `window_mark_dirty`. -/
def windowMarkDirty (d : Desktop) (screen : Rect) (win : Word) : Option Desktop :=
  if win = 0 then some d
  else do
    let d ← d.store win fun r => { r with dirty := true }
    let r ← d.load win
    some (d.queueDirtyRect screen (windowOuterRect r))

/-- `window_mark_region_dirty`. -/
def windowMarkRegionDirty (d : Desktop) (screen : Rect) (win : Word) (x y w h : BitVec 32) :
    Option Desktop :=
  if win = 0 then some d
  else do
    let d ← d.store win fun r => { r with dirty := true }
    let r ← d.load win
    some (d.queueDirtyRect screen ⟨r.x + x, r.y + windowTitleHeight + y, w, h⟩)

/-- `window_set_owner`. -/
def windowSetOwner (d : Desktop) (win ownerPid : Word) : Option Desktop :=
  if win = 0 then some d
  else do
    let r ← d.load win
    if r.destroyed then some d
    else d.store win fun r => { r with ownerPid := ownerPid }

/-- `window_set_buffer`. -/
def windowSetBuffer (d : Desktop) (screen : Rect) (win buffer : Word) : Option Desktop :=
  if win = 0 then some d
  else do
    let r ← d.load win
    if r.destroyed then some d
    else do
      let d ← d.store win fun r => { r with buffer := buffer, dirty := true }
      let r ← d.load win
      some (d.queueDirtyRect screen (windowOuterRect r))

/-- The walk of `window_pop_event` for the window with the given id; `0` when
    there is none. -/
def findWindow (d : Desktop) (id : BitVec 32) : Nat → Word → Option Word
  | 0, _ => none
  | fuel + 1, curr =>
      if curr = 0 then some 0
      else do
        let r ← d.load curr
        if r.id = id then some curr else findWindow d id fuel r.next

/-- `window_pop_event`: the result, the event copied out, the state. -/
def windowPopEvent (fuel : Nat) (d : Desktop) (id : BitVec 32) (outEvent : Word) :
    Option (BitVec 32 × Option GuiEvent × Desktop) :=
  if outEvent = 0 then some (-1, none, d)
  else do
    let curr ← d.findWindow id fuel d.windows.windowList
    if curr = 0 then some (-1, none, d)
    else do
      let r ← d.load curr
      if r.destroyed then some (-1, none, d)
      else if r.eventHead = r.eventTail then some (0, none, d)
      else do
        let d ← d.store curr fun r => { r with eventHead := r.eventHead + 1 }
        some (1, some (r.eventQueue r.eventHead), d)

/-- The window before `next`, or the head of the list, is linked to it. -/
def unlinkWindow (d : Desktop) (prev next : Word) : Option Desktop :=
  if prev ≠ 0 then d.store prev fun p => { p with next := next }
  else some { d with windows := { d.windows with windowList := next } }

/-- What `window_destroy_by_pid` does to a window of the process. -/
def destroyWindow (d : Desktop) (screen : Rect) (curr prev : Word) : Option Desktop := do
  let r ← d.load curr
  let d := d.queueDirtyRect screen (windowOuterRect r)
  let d ← d.unlinkWindow prev r.next
  let d := if d.draggingWindow = curr then { d with draggingWindow := 0 } else d
  let d ← d.store curr fun r => { r with destroyed := true }
  let d := { d with history := .destroyed curr :: d.history }
  if r.refcount = 0 then d.freeWindow curr else some d

/-- The loop of `window_destroy_by_pid`. -/
def destroyLoop (screen : Rect) (pid : Word) : Nat → Desktop → Word → Word → Option Desktop
  | 0, _, _, _ => none
  | fuel + 1, d, curr, prev =>
      if curr = 0 then some d
      else do
        let r ← d.load curr
        if r.ownerPid = pid then do
          let d ← d.destroyWindow screen curr prev
          destroyLoop screen pid fuel d r.next prev
        else destroyLoop screen pid fuel d r.next curr

/-- `window_destroy_by_pid`. -/
def windowDestroyByPid (fuel : Nat) (d : Desktop) (screen : Rect) (pid : Word) : Option Desktop :=
  destroyLoop screen pid fuel d d.windows.windowList 0

end Desktop

/-! ## §4. `window_update`. -/

/-- `window_push_event`, on the record. -/
def Window.pushEvent (win : Window) (event : GuiEvent) : Window :=
  let next := win.eventTail + 1
  if next = win.eventHead then win
  else
    { win with
      eventQueue := Function.update win.eventQueue win.eventTail event
      eventTail := next }

/-- `window_hit_t`. -/
structure WindowHit where
  win : Word
  localX : BitVec 32
  localY : BitVec 32
  inTitle : Bool
  inBody : Bool

/-- The hit that `find_window_hit` starts from. -/
def noHit : WindowHit := ⟨0, 0, 0, false, false⟩

/-- The mouse is over the window. -/
def WindowSnapshot.hit (snap : WindowSnapshot) (mx my : BitVec 32) : Bool :=
  !(mx.slt snap.x || (snap.x + snap.w).sle mx) && !(my.slt snap.y || (snap.y + snap.h).sle my)

/-- `find_window_hit`. -/
def findWindowHit (held : List (Word × WindowSnapshot)) (mx my : BitVec 32) : WindowHit :=
  match held.find? fun win => win.2.hit mx my with
  | none => noHit
  | some (win, snap) =>
      if my.slt (snap.y + windowTitleHeight) then ⟨win, mx - snap.x, my - snap.y, true, false⟩
      else ⟨win, mx - snap.x, my - snap.y - windowTitleHeight, false, true⟩

/-- What `window_update` keeps while it does not hold the lock. -/
structure PendingUpdate where
  mx : BitVec 32
  my : BitVec 32
  mb : BitVec 8
  cursorWasInitialized : Bool
  dragCandidate : Word
  held : List (Word × WindowSnapshot)

/-- The size of `held_windows` and `snapshots`. -/
def maxSnapshots : Nat := 16

/-- The button is down. -/
def leftDown (mb : BitVec 8) : Bool := mb &&& 1 ≠ 0

namespace Desktop

/-- The unlocked test at the start of `window_update`. -/
def nothingToUpdate (d : Desktop) (mx my : BitVec 32) (mb : BitVec 8) : Bool :=
  d.cursorInitialized && d.draggingWindow = 0 && mx = d.lastMx && my = d.lastMy && mb = d.lastMb

/-- The first section of `window_update`. -/
def updateSnapshot (d : Desktop) (mx my : BitVec 32) (mb : BitVec 8) :
    Option (PendingUpdate × Desktop) := do
  let cursorWasInitialized := d.cursorInitialized
  let d := if !d.cursorInitialized then
      { d with cursorInitialized := true, cursorX := mx, cursorY := my } else d
  let dragCandidate := d.draggingWindow
  let (held, d) ← snapshotWindowList maxSnapshots d d.windows.windowList
  some (⟨mx, my, mb, cursorWasInitialized, dragCandidate, held⟩, d)

/-- The window pressed on, found without the lock. -/
def pressHit (p : PendingUpdate) : WindowHit :=
  if leftDown p.mb && p.dragCandidate = 0 then findWindowHit p.held p.mx p.my else noHit

/-- The window the mouse moved over, found without the lock; `moved` is what
    the test of the last position gave then. -/
def moveHit (p : PendingUpdate) (moved : Bool) : WindowHit :=
  if moved then findWindowHit p.held p.mx p.my else noHit

/-- The mouse is not where it was. -/
def mouseMoved (d : Desktop) (mx my : BitVec 32) : Bool := mx ≠ d.lastMx || my ≠ d.lastMy

/-- The walk to the window whose `next` is `win`; `0` when there is none. -/
def findPrev (d : Desktop) (win : Word) : Nat → Word → Option Word
  | 0, _ => none
  | fuel + 1, prev =>
      if prev = 0 then some 0
      else do
        let r ← d.load prev
        if r.next = win then some prev else findPrev d win fuel r.next

/-- Moving a window to the front of the list. -/
def raiseWindow (fuel : Nat) (d : Desktop) (screen : Rect) (win : Word) : Option Desktop := do
  let r ← d.load win
  let oldRect := windowOuterRect r
  let prev ← d.findPrev win fuel d.windows.windowList
  if prev = 0 then some d
  else do
    let d ← d.store prev fun p => { p with next := r.next }
    let d ← d.store win fun r => { r with next := d.windows.windowList }
    let d := { d with windows := { d.windows with windowList := win } }
    let d := d.queueDirtyRect screen oldRect
    let r ← d.load win
    some (d.queueDirtyRect screen (windowOuterRect r))

/-- A press on a title bar. -/
def startDrag (fuel : Nat) (d : Desktop) (screen : Rect) (win : Word) (mx my : BitVec 32) :
    Option Desktop := do
  let r ← d.load win
  let d := { d with draggingWindow := win, dragOffX := mx - r.x, dragOffY := my - r.y }
  if win ≠ d.windows.windowList then d.raiseWindow fuel screen win else some d

/-- A click on a window's body. -/
def clickBody (d : Desktop) (win : Word) (mx my : BitVec 32) : Option Desktop :=
  d.store win fun r => r.pushEvent ⟨1, mx - r.x, my - r.y - windowTitleHeight, 1⟩

/-- A step of a drag. -/
def dragWindow (d : Desktop) (screen : Rect) (mx my : BitVec 32) : Option Desktop := do
  let win := d.draggingWindow
  let r ← d.load win
  let oldRect := windowOuterRect r
  let d ← d.store win fun r =>
    { r with x := mx - d.dragOffX, y := my - d.dragOffY, dirty := true }
  let d := d.queueDirtyRect screen oldRect
  let r ← d.load win
  some (d.queueDirtyRect screen (windowOuterRect r))

/-- What the second section of `window_update` does about the buttons. -/
def updateButtons (fuel : Nat) (d : Desktop) (screen : Rect) (p : PendingUpdate) (press : WindowHit) :
    Option Desktop :=
  if leftDown p.mb then
    if d.draggingWindow = 0 then
      if press.win = 0 then some d
      else do
        let r ← d.load press.win
        if r.destroyed then some d
        else if press.inTitle then d.startDrag fuel screen press.win p.mx p.my
        else if press.inBody && !leftDown d.lastMb then d.clickBody press.win p.mx p.my
        else some d
    else do
      let r ← d.load d.draggingWindow
      if !r.destroyed then d.dragWindow screen p.mx p.my
      else some { d with draggingWindow := 0 }
  else some { d with draggingWindow := 0 }

/-- What it does about a move of the mouse. -/
def updateMove (d : Desktop) (screen : Rect) (p : PendingUpdate) (move : WindowHit) : Option Desktop :=
  if d.mouseMoved p.mx p.my then
    let d := d.queueDirtyRect screen (cursorRect d.cursorX d.cursorY)
    let d := d.queueDirtyRect screen (cursorRect p.mx p.my)
    if move.win ≠ 0 ∧ move.inBody then do
      let r ← d.load move.win
      if r.destroyed then some d
      else d.store move.win fun r => r.pushEvent ⟨2, p.mx - r.x, p.my - r.y - windowTitleHeight, 0⟩
    else some d
  else some d

/-- The second section of `window_update`. -/
def updateRelease (fuel : Nat) (d : Desktop) (screen : Rect) (p : PendingUpdate)
    (press move : WindowHit) : Option Desktop := do
  let d := if !p.cursorWasInitialized then d.queueDirtyRect screen (cursorRect p.mx p.my) else d
  let d ← d.updateButtons fuel screen p press
  let d ← d.updateMove screen p move
  let d := { d with
    cursorX := p.mx, cursorY := p.my, lastMb := p.mb, lastMx := p.mx, lastMy := p.my }
  let d ← d.releaseWindowRefsLocked p.held
  if d.draggingWindow ≠ 0 then do
    let r ← d.load d.draggingWindow
    some (if r.destroyed then { d with draggingWindow := 0 } else d)
  else some d

/-- `window_update`, with nothing running between its sections. -/
def windowUpdate (fuel : Nat) (d : Desktop) (screen : Rect) (mx my : BitVec 32) (mb : BitVec 8) :
    Option Desktop :=
  if d.nothingToUpdate mx my mb then some d
  else do
    let (p, d) ← d.updateSnapshot mx my mb
    d.updateRelease fuel screen p (pressHit p) (moveHit p (d.mouseMoved mx my))

/-! ## §5. `window_draw_all`. -/

/-- The first section of `window_draw_all`: the rectangles to redraw, the
    snapshots, the cursor; `none` inside when there is nothing to draw. -/
def drawSnapshot (d : Desktop) :
    Option (Option (List Rect × List (Word × WindowSnapshot) × Rect) × Desktop) :=
  if d.dirtyRects = [] then some (none, d)
  else do
    let redraw := d.dirtyRects
    let d := { d with dirtyRects := [] }
    let (held, d) ← snapshotWindowList maxSnapshots d d.windows.windowList
    some (some (redraw, held, cursorRect d.cursorX d.cursorY), d)

/-- `window_draw_all`, with nothing running between its sections; what it draws
    is `drawDesktop`. -/
def windowDrawAll (d : Desktop) (g : Graphics) (mem : Mem) : Option (Graphics × Desktop) := do
  match ← d.drawSnapshot with
  | (none, d) => some (g, d)
  | (some (redraw, held, cursor), d) =>
      let g := drawDesktop g mem redraw (held.map Prod.snd) cursor
      let d ← d.releaseWindowRefsLocked held
      some (g, d)

end Desktop

/-- The state after `window_init`; `record` is what memory holds. -/
def windowInit (screen : Rect) (record : Word → Window) : Desktop :=
  { windows := ⟨record, 0, 1⟩
    dirtyRects := queueRect screen [] screen
    cursorX := 0, cursorY := 0, cursorInitialized := false
    draggingWindow := 0, dragOffX := 0, dragOffY := 0
    lastMb := 0, lastMx := 0, lastMy := 0
    history := [], queued := [screen] }

end ZohoOs
