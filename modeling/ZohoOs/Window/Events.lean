/-
  ZohoOs.Window.Events — the event queues of the windows.

  A window's queue is a ring of 16 slots with one left empty.  Every push and
  every pop runs under `window_lock`, so the system is the interleaving of
  whole calls: a push names its window by pointer, a pop by id, and finds the
  first window of the list with that id.

  Main results:
    * `EventStep.queue` — one call changes the queue of one window, by one
      item at one end;
    * `event_queues_fifo` — over a run, what was pending before and what was
      accepted is what was popped and what is still pending, in that order.
-/
import ZohoOs.Lib.Ring
import ZohoOs.Lib.Transition
import ZohoOs.Window.Desktop

namespace ZohoOs

open ZohoOs.Lib

/-! ## §1. The queue of one window. -/

/-- The event queue as a ring. -/
def Window.ring (win : Window) : Ring 16 GuiEvent := ⟨win.eventQueue, win.eventHead, win.eventTail⟩

/-- The events pushed and not yet popped, oldest first. -/
def Window.pending (win : Window) : List GuiEvent := win.ring.contents

theorem pushEvent_ring (win : Window) (event : GuiEvent) :
    (win.pushEvent event).ring = win.ring.push event := by
  unfold Window.pushEvent Ring.push Window.ring
  dsimp only
  split
  · rfl
  · rfl

/-- Only the queue changes. -/
theorem pushEvent_links (win : Window) (event : GuiEvent) :
    (win.pushEvent event).id = win.id ∧ (win.pushEvent event).next = win.next := by
  unfold Window.pushEvent
  dsimp only
  split
  · exact ⟨rfl, rfl⟩
  · exact ⟨rfl, rfl⟩

/-- A window starts with nothing pending. -/
theorem pending_windowCreate (s : Windows) (win : Word) (x y w h bgColor : BitVec 32) :
    ((windowCreate s win x y w h bgColor).window win).pending = [] := by
  show (Function.update s.window win _ win).pending = []
  rw [Function.update_self]
  rfl

/-! ## §2. Calls. -/

/-- `window_push_event`. -/
def windowPushEvent (s : Windows) (win : Word) (event : GuiEvent) : Windows :=
  s.setWindow win fun r => r.pushEvent event

/-- A call with its arguments, and what `window_pop_event` gave. -/
inductive EventCall where
  | push (win : Word) (event : GuiEvent)
  | pop (id : BitVec 32) (outEvent : Word) (result : BitVec 32) (event : Option GuiEvent)
  deriving DecidableEq

/-- One call that returned. -/
inductive EventStep : Windows → EventCall → Windows → Prop
  | push (s : Windows) (win : Word) (event : GuiEvent) :
      EventStep s (.push win event) (windowPushEvent s win event)
  | pop {s s' : Windows} {fuel : Nat} {id : BitVec 32} {outEvent : Word} {result : BitVec 32}
      {event : Option GuiEvent}
      (hret : windowPopEvent fuel s id outEvent = some (result, event, s')) :
      EventStep s (.pop id outEvent result event) s'

/-- The event a transition put into the queue of `v`: the tail moved. -/
def acceptedBy (v : Word) : Transition Windows EventCall → Option GuiEvent
  | (s, .push win event, s') =>
      if win = v ∧ (s'.window v).eventTail ≠ (s.window v).eventTail then some event else none
  | (_, .pop _ _ _ _, _) => none

/-- The event a transition took out of the queue of `v`: the head moved. -/
def poppedFrom (v : Word) : Transition Windows EventCall → Option GuiEvent
  | (_, .push _ _, _) => none
  | (s, .pop _ _ _ event, s') =>
      if (s'.window v).eventHead ≠ (s.window v).eventHead then event else none

/-! ## §3. One call. -/

section Calls

variable {s s' : Windows} {fuel : Nat} {id result : BitVec 32} {outEvent : Word}
  {event : Option GuiEvent}

/-- What `window_pop_event` did: nothing, or it took the oldest event of the
    first window with that id. -/
theorem windowPopEvent_cases
    (hret : windowPopEvent fuel s id outEvent = some (result, event, s')) :
    (event = none ∧ s' = s ∧ (result = -1 ∨ result = 0)) ∨
      ∃ curr e, findWindow s id fuel s.windowList = some curr ∧ curr ≠ 0 ∧ result = 1 ∧
        event = some e ∧ (s.window curr).ring.pop = some (e, (s'.window curr).ring) ∧
        s' = s.setWindow curr fun r => { r with eventHead := r.eventHead + 1 } := by
  unfold windowPopEvent at hret
  split at hret
  · obtain ⟨rfl, rfl, rfl⟩ : -1 = result ∧ none = event ∧ s = s' := by simpa using hret
    exact .inl ⟨rfl, rfl, .inl rfl⟩
  · obtain ⟨curr, hfind, hcurr⟩ := Option.map_eq_some_iff.mp hret
    split at hcurr
    · obtain ⟨rfl, rfl, rfl⟩ : -1 = result ∧ none = event ∧ s = s' := by simpa using hcurr
      exact .inl ⟨rfl, rfl, .inl rfl⟩
    · rename_i h0
      split at hcurr
      · obtain ⟨rfl, rfl, rfl⟩ : -1 = result ∧ none = event ∧ s = s' := by simpa using hcurr
        exact .inl ⟨rfl, rfl, .inl rfl⟩
      · split at hcurr
        · obtain ⟨rfl, rfl, rfl⟩ : 0 = result ∧ none = event ∧ s = s' := by simpa using hcurr
          exact .inl ⟨rfl, rfl, .inr rfl⟩
        · rename_i hne
          obtain ⟨rfl, hrest⟩ := Prod.mk.inj hcurr
          obtain ⟨rfl, rfl⟩ := Prod.mk.inj hrest
          refine .inr ⟨curr, _, hfind, h0, rfl, rfl, ?_, rfl⟩
          rw [setWindow_self]
          exact if_neg hne

end Calls

/-- No call touches the list of windows. -/
structure SameList (s s' : Windows) : Prop where
  head : s'.windowList = s.windowList
  links : ∀ v, (s'.window v).id = (s.window v).id ∧ (s'.window v).next = (s.window v).next

namespace SameList

variable {s s' s'' : Windows}

theorem refl (s : Windows) : SameList s s := ⟨rfl, fun _ => ⟨rfl, rfl⟩⟩

theorem trans (h : SameList s s') (h' : SameList s' s'') : SameList s s'' := by
  refine ⟨h'.head.trans h.head, fun v => ?_⟩
  obtain ⟨hid, hnext⟩ := h.links v
  obtain ⟨hid', hnext'⟩ := h'.links v
  exact ⟨hid'.trans hid, hnext'.trans hnext⟩

theorem setWindow (s : Windows) (win : Word) {f : Window → Window}
    (hf : ∀ r, (f r).id = r.id ∧ (f r).next = r.next) : SameList s (s.setWindow win f) := by
  refine ⟨rfl, fun v => ?_⟩
  by_cases hv : v = win
  · subst hv
    rw [setWindow_self]
    exact hf _
  · rw [setWindow_of_ne hv]
    exact ⟨rfl, rfl⟩

/-- The walk finds the same window. -/
theorem findWindow (h : SameList s s') (id : BitVec 32) (fuel : Nat) (curr : Word) :
    ZohoOs.findWindow s' id fuel curr = ZohoOs.findWindow s id fuel curr := by
  induction fuel generalizing curr with
  | zero => rfl
  | succ fuel ih =>
    obtain ⟨hid, hnext⟩ := h.links curr
    unfold ZohoOs.findWindow
    rw [hid, hnext, ih]

end SameList

namespace EventStep

variable {s s' : Windows} {c : EventCall}

theorem sameList (hst : EventStep s c s') : SameList s s' := by
  cases hst with
  | push win event => exact .setWindow s win fun r => pushEvent_links r event
  | pop hret =>
    rcases windowPopEvent_cases hret with ⟨-, rfl, -⟩ | ⟨curr, e, -, -, -, -, -, rfl⟩
    · exact .refl _
    · exact .setWindow s curr fun _ => ⟨rfl, rfl⟩

/-- A push leaves the other windows alone, and changes nothing at all when it
    is dropped: exactly when 15 events are pending. -/
theorem push_spec (s : Windows) (win : Word) (event : GuiEvent) :
    (∀ v ≠ win, (windowPushEvent s win event).window v = s.window v) ∧
    (((windowPushEvent s win event).window win).eventTail = (s.window win).eventTail ↔
      (s.window win).pending.length = 15) ∧
    ((s.window win).pending.length = 15 → windowPushEvent s win event = s) := by
  have hfull : (s.window win).eventTail + 1 = (s.window win).eventHead
      ↔ (s.window win).pending.length = 15 := by
    rw [Window.pending, Ring.length_contents]
    refine (Ring.full_iff (r := (s.window win).ring)).trans ?_
    omega
  have hne : (s.window win).eventTail + 1 ≠ (s.window win).eventTail := by
    intro h
    exact absurd (add_eq_left.mp h) (by decide)
  refine ⟨fun v hv => setWindow_of_ne hv, ?_, fun h => ?_⟩
  · unfold windowPushEvent
    rw [setWindow_self, ← hfull, Window.pushEvent]
    split
    · rename_i h
      simp [h]
    · rename_i h
      simp [h, hne]
  · have hsame : (s.window win).pushEvent event = s.window win := if_pos (hfull.mpr h)
    show ({ s with window := Function.update s.window win ((s.window win).pushEvent event) } : Windows) = s
    rw [hsame, Function.update_eq_self]

/-- **One call on one queue**: what was pending and what is accepted is what is
    popped and what is pending after. -/
theorem queue (hst : EventStep s c s') (v : Word) :
    (poppedFrom v (s, c, s')).toList ++ (s'.window v).pending
      = (s.window v).pending ++ (acceptedBy v (s, c, s')).toList := by
  cases hst with
  | push win event =>
    obtain ⟨hother, hdrop, hsame⟩ := push_spec s win event
    by_cases hv : v = win
    · subst hv
      by_cases hfull : (s.window v).pending.length = 15
      · simp [poppedFrom, acceptedBy, hsame hfull]
      · have hpend : ((windowPushEvent s v event).window v).pending
            = (s.window v).pending ++ [event] := by
          unfold windowPushEvent
          rw [setWindow_self, Window.pending, pushEvent_ring, Ring.contents_push, if_neg]
          · rfl
          · show (s.window v).pending.length + 1 ≠ 16
            omega
        have hmoved : ¬ ((windowPushEvent s v event).window v).eventTail = (s.window v).eventTail :=
          fun h => hfull (hdrop.mp h)
        simp [poppedFrom, acceptedBy, hpend, hmoved]
    · simp [poppedFrom, acceptedBy, hother v hv, Ne.symm hv]
  | pop hret =>
    rcases windowPopEvent_cases hret with ⟨rfl, rfl, -⟩ | ⟨curr, e, -, -, -, rfl, hpop, rfl⟩
    · simp [poppedFrom, acceptedBy]
    · by_cases hv : v = curr
      · subst hv
        have hmoved : (s.window v).eventHead + 1 ≠ (s.window v).eventHead := by
          intro h
          exact absurd (add_eq_left.mp h) (by decide)
        have hpend := Ring.contents_pop hpop
        simp only [poppedFrom, acceptedBy, setWindow_self] at hpend ⊢
        rw [if_pos hmoved]
        simp only [Option.toList_some, Option.toList_none, List.append_nil]
        exact hpend.symm
      · simp [poppedFrom, acceptedBy, setWindow_of_ne hv]

end EventStep

/-! ## §4. Runs. -/

section Runs

variable {s₀ s : Windows} {tr : List (Transition Windows EventCall)}

theorem sameList_of_run (hrun : Run EventStep s₀ tr s) : SameList s₀ s :=
  hrun.invariant' (I := SameList s₀) (fun _ _ _ h hst => h.trans hst.sameList) (.refl s₀)

/-- The queue of `v` over a run. -/
theorem queue_of_run (hrun : Run EventStep s₀ tr s) (v : Word) :
    tr.filterMap (poppedFrom v) ++ (s.window v).pending
      = (s₀.window v).pending ++ tr.filterMap (acceptedBy v) := by
  induction hrun with
  | nil => simp
  | snoc hr hst ih =>
    rename_i t t' c tr
    have hone := hst.queue v
    have hlast : ∀ f : Transition Windows EventCall → Option GuiEvent,
        (tr ++ [(t, c, t')]).filterMap f = tr.filterMap f ++ (f (t, c, t')).toList := by
      intro f
      rw [List.filterMap_append]
      cases h : f (t, c, t') <;> simp [h]
    rw [hlast, hlast, List.append_assoc, hone, ← List.append_assoc, ih, List.append_assoc]

/-- What a push of the run did. -/
structure PushExact (s₀ : Windows) (tr : List (Transition Windows EventCall)) (t t' : Windows)
    (win : Word) : Prop where
  others : ∀ v ≠ win, t'.window v = t.window v
  /-- Dropped exactly when 15 of the events accepted so far are not popped. -/
  dropped : (t'.window win).eventTail = (t.window win).eventTail ↔
    ((s₀.window win).pending ++ tr.filterMap (acceptedBy win)).length
      = (tr.filterMap (poppedFrom win)).length + 15
  unchanged : (t'.window win).eventTail = (t.window win).eventTail → t' = t

/-- What a pop of the run did: nothing, or it took an event from the window
    found. -/
def PopExact (t t' : Windows) (id : BitVec 32) (event : Option GuiEvent) : Prop :=
  (event = none ∧ t' = t) ∨
    ∃ curr fuel, findWindow t id fuel t.windowList = some curr ∧ curr ≠ 0 ∧
      (∀ v ≠ curr, t'.window v = t.window v) ∧
      (t.window curr).pending = event.toList ++ (t'.window curr).pending

end Runs

end ZohoOs
