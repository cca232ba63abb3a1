/-
  ZohoOs.Window.Damage — everything that changes on the screen is queued.

  The composite of a state is what a pass over the whole screen would paint:
  the windows of the list, front to back, over the desktop, and the cursor on
  top.  An operation may change it only inside the rectangles it passes to
  `queue_dirty_rect`.

  Main results:
    * `layer_eq_none` — a window paints inside its outer rectangle only;
    * `damage_complete` — along every run of whole operations in which no
      `kmalloc` fails, every change is queued.
-/
import ZohoOs.Window.Runs

namespace ZohoOs

open ZohoOs.Lib

/-! ## §1. Where a window paints. -/

/-- The window is at least one pixel wide and as tall as its title bar, and
    nothing computed from its corner and size overflows. -/
structure WindowSnapshot.Regular (s : WindowSnapshot) : Prop extends s.NoOverflow where
  wide : 1 ≤ s.w.toInt
  tall : 25 ≤ s.h.toInt
  outerW : s.w.toInt + 5 < 2147483648
  outerH : s.h.toInt + 5 < 2147483648

section Geometry

variable {s : WindowSnapshot} {p : Int × Int} {mem : Mem}

theorem rectLayer_eq_none {r : Rect} {color : BitVec 32} (h : ¬ r.Mem p.1 p.2) :
    rectLayer r color p = none := if_neg h

theorem WindowSnapshot.Regular.toInt_outer (h : s.Regular) :
    s.outerRect.w.toInt = s.w.toInt + 5 ∧ s.outerRect.h.toInt = s.h.toInt + 5 := by
  have h5 : windowShadowOffset.toInt = 5 := rfl
  have hw := h.wide
  have hh := h.tall
  have hw' := h.outerW
  have hh' := h.outerH
  constructor
  · show (s.w + windowShadowOffset).toInt = _
    rw [toInt_add_of (by rw [h5]; unfold IsInt32; omega), h5]
  · show (s.h + windowShadowOffset).toInt = _
    rw [toInt_add_of (by rw [h5]; unfold IsInt32; omega), h5]

/-- The rectangles that make up a window lie in its outer rectangle. -/
theorem within_outer (h : s.Regular) :
    s.rightRect.Within s.outerRect ∧ s.leftRect.Within s.outerRect ∧ s.bottomRect.Within s.outerRect ∧
      s.topRect.Within s.outerRect ∧ s.titleRect.Within s.outerRect ∧ s.bodyRect.Within s.outerRect ∧
      s.shadowRect.Within s.outerRect := by
  obtain ⟨how, hoh⟩ := h.toInt_outer
  obtain ⟨hsx, hsy⟩ := h.toNoOverflow.toInt_shadow
  obtain ⟨hby, hbh⟩ := h.toNoOverflow.toInt_body
  have hlastY : s.bottomRect.y.toInt = s.y.toInt + s.h.toInt - 1 :=
    WindowSnapshot.NoOverflow.toInt_last h.top h.bottom
  have hlastX : s.rightRect.x.toInt = s.x.toInt + s.w.toInt - 1 :=
    WindowSnapshot.NoOverflow.toInt_last h.left h.right
  have hw := h.wide
  have hh := h.tall
  have hox : s.outerRect.x.toInt = s.x.toInt := rfl
  have hoy : s.outerRect.y.toInt = s.y.toInt := rfl
  have hrw : s.rightRect.w.toInt = 1 := rfl
  have hry : s.rightRect.y.toInt = s.y.toInt := rfl
  have hrh : s.rightRect.h.toInt = s.h.toInt := rfl
  have hlx : s.leftRect.x.toInt = s.x.toInt := rfl
  have hly : s.leftRect.y.toInt = s.y.toInt := rfl
  have hlw : s.leftRect.w.toInt = 1 := rfl
  have hlh : s.leftRect.h.toInt = s.h.toInt := rfl
  have hbx : s.bottomRect.x.toInt = s.x.toInt := rfl
  have hbw : s.bottomRect.w.toInt = s.w.toInt := rfl
  have hbh' : s.bottomRect.h.toInt = 1 := rfl
  have htx : s.topRect.x.toInt = s.x.toInt := rfl
  have hty : s.topRect.y.toInt = s.y.toInt := rfl
  have htw : s.topRect.w.toInt = s.w.toInt := rfl
  have hth : s.topRect.h.toInt = 1 := rfl
  have hux : s.titleRect.x.toInt = s.x.toInt := rfl
  have huy : s.titleRect.y.toInt = s.y.toInt := rfl
  have huw : s.titleRect.w.toInt = s.w.toInt := rfl
  have huh : s.titleRect.h.toInt = 25 := rfl
  have hdx : s.bodyRect.x.toInt = s.x.toInt := rfl
  have hdw : s.bodyRect.w.toInt = s.w.toInt := rfl
  have hsw : s.shadowRect.w.toInt = s.w.toInt := rfl
  have hsh : s.shadowRect.h.toInt = s.h.toInt := rfl
  refine ⟨⟨?_, ?_, ?_, ?_⟩, ⟨?_, ?_, ?_, ?_⟩, ⟨?_, ?_, ?_, ?_⟩, ⟨?_, ?_, ?_, ?_⟩, ⟨?_, ?_, ?_, ?_⟩,
    ⟨?_, ?_, ?_, ?_⟩, ⟨?_, ?_, ?_, ?_⟩⟩ <;> omega

/-- **A window paints inside its outer rectangle only.** -/
theorem layer_eq_none (h : s.Regular) (hp : ¬ s.outerRect.Mem p.1 p.2) : s.layer mem p = none := by
  obtain ⟨hright, hleft, hbottom, htop, htitle, hbody, hshadow⟩ := within_outer h
  have hrect : ∀ {r : Rect} (color : BitVec 32), r.Within s.outerRect → rectLayer r color p = none :=
    fun _ hr => rectLayer_eq_none fun hm => hp (hr.mem hm)
  have hb : s.bodyLayer mem p = none := by
    unfold WindowSnapshot.bodyLayer
    split_ifs
    · exact hrect _ hbody
    · exact if_neg fun hm => hp (hbody.mem hm)
  show Layer.above _ (Layer.above _ (Layer.above _ (Layer.above _ (Layer.above _ (Layer.above _
    (Layer.above _ Layer.clear)))))) p = none
  rw [Layer.above_of_none (hrect _ hright), Layer.above_of_none (hrect _ hleft),
    Layer.above_of_none (hrect _ hbottom), Layer.above_of_none (hrect _ htop),
    Layer.above_of_none (hrect _ htitle), Layer.above_of_none hb,
    Layer.above_of_none (hrect _ hshadow)]
  rfl

end Geometry

/-! ## §2. The composite of a state. -/

/-- The windows of the list, front to back. -/
def Desktop.IsList (d : Desktop) (l : List Word) : Prop :=
  Chain (fun w => (d.windows.window w).next) 0 d.windows.windowList l

/-- What the windows of a list show at a pixel, front to back. -/
def Desktop.shown (d : Desktop) (mem : Mem) (l : List Word) (p : Int × Int) : List (BitVec 32) :=
  l.filterMap fun w => (d.windows.window w).snapshot.layer mem p

/-- The colour of a pixel of the composite. -/
def Desktop.composite (d : Desktop) (mem : Mem) (l : List Word) (p : Int × Int) : BitVec 32 :=
  compositeColor mem (l.map fun w => (d.windows.window w).snapshot) d.cursorX d.cursorY p

/-- At most 16 windows, all of a regular size. -/
structure Desktop.Sized (d : Desktop) (l : List Word) : Prop where
  length : l.length ≤ 16
  regular : ∀ w ∈ l, (d.windows.window w).snapshot.Regular

/-- Some rectangle of the list has the pixel in it. -/
def Queued (rects : List Rect) (p : Int × Int) : Prop := ∃ r ∈ rects, r.Mem p.1 p.2

section Composite

variable {d d' : Desktop} {mem : Mem} {l l' : List Word} {p : Int × Int} {win : Word}

/-- The composite depends on what the windows show and on the cursor. -/
theorem composite_congr (hs : d'.shown mem l' p = d.shown mem l p)
    (hc : CursorPixel d'.cursorX d'.cursorY p ↔ CursorPixel d.cursorX d.cursorY p) :
    d'.composite mem l' p = d.composite mem l p := by
  have hstack : Layer.stack ((l'.map fun w => (d'.windows.window w).snapshot).map fun s => s.layer mem) p =
      Layer.stack ((l.map fun w => (d.windows.window w).snapshot).map fun s => s.layer mem) p := by
    rw [Layer.stack_map_apply, Layer.stack_map_apply, List.filterMap_map, List.filterMap_map]
    exact congrArg List.head? hs
  have hcur : cursorLayer d'.cursorX d'.cursorY p = cursorLayer d.cursorX d.cursorY p := by
    show (if CursorPixel d'.cursorX d'.cursorY p then _ else none) =
      if CursorPixel d.cursorX d.cursorY p then _ else none
    simp only [hc]
  unfold Desktop.composite compositeColor compositeLayer desktopLayer
  show (Layer.above _ (Layer.above _ _) p).getD _ = (Layer.above _ (Layer.above _ _) p).getD _
  unfold Layer.above
  rw [hstack, hcur]

/-- Leaving out entries that give nothing. -/
theorem filterMap_filter_of_none {A B : Type} {f : A → Option B} {keep : A → Bool} {l : List A}
    (h : ∀ a ∈ l, keep a = false → f a = none) : (l.filter keep).filterMap f = l.filterMap f := by
  induction l with
  | nil => rfl
  | cons a l ih =>
    have hrest := ih fun b hb => h b (List.mem_cons_of_mem _ hb)
    cases hk : keep a with
    | true => rw [List.filter_cons_of_pos hk, List.filterMap_cons, List.filterMap_cons, hrest]
    | false =>
      rw [List.filter_cons_of_neg (by rw [hk]; simp), hrest,
        List.filterMap_cons_none (h a List.mem_cons_self hk)]

theorem filterMap_erase_of_none {A B : Type} [DecidableEq A] {f : A → Option B} {a : A} (l : List A)
    (h : f a = none) : (l.erase a).filterMap f = l.filterMap f := by
  induction l with
  | nil => rfl
  | cons b l ih =>
    by_cases hb : b = a
    · subst hb
      rw [List.erase_cons_head, List.filterMap_cons_none h]
    · rw [List.erase_cons_tail (by simpa using hb), List.filterMap_cons, List.filterMap_cons, ih]

theorem shown_congr (h : ∀ w ∈ l, (d'.windows.window w).snapshot = (d.windows.window w).snapshot) :
    d'.shown mem l p = d.shown mem l p := by
  unfold Desktop.shown
  refine List.filterMap_congr fun w hw => ?_
  rw [h w hw]

variable (mem) in
/-- A window away from the pixel shows nothing there. -/
theorem layer_none_of_outside (h : d.Sized l) (hw : win ∈ l) (hp : ¬ (d.outer win).Mem p.1 p.2) :
    (d.windows.window win).snapshot.layer mem p = none :=
  layer_eq_none (h.regular win hw) hp

theorem Desktop.Sized.congr (h : d.Sized l)
    (hs : ∀ w ∈ l, (d'.windows.window w).snapshot = (d.windows.window w).snapshot) : d'.Sized l :=
  ⟨h.length, fun w hw => by rw [hs w hw]; exact h.regular w hw⟩

/-! ## §3. What each change queues. -/

/-- The change from `d` to `d'` shows only inside the rectangles `q`, which it
    queued. -/
def Shows (d : Desktop) (l : List Word) (d' : Desktop) (l' : List Word) (q : List Rect) : Prop :=
  d'.queued = q ++ d.queued ∧ ∀ mem p, d.Sized l → d'.Sized l' → ¬ Queued q p →
    d'.shown mem l' p = d.shown mem l p

theorem not_queued_cons {r : Rect} {q : List Rect} (h : ¬ Queued (r :: q) p) :
    ¬ r.Mem p.1 p.2 ∧ ¬ Queued q p :=
  ⟨fun hr => h ⟨r, List.mem_cons_self, hr⟩,
    fun ⟨t, ht, hm⟩ => h ⟨t, List.mem_cons_of_mem _ ht, hm⟩⟩

/-- Nothing that shows. -/
theorem shows_of_view (hs : ∀ w, (d'.windows.window w).snapshot = (d.windows.window w).snapshot)
    {q : List Rect} (hq : d'.queued = q ++ d.queued) : Shows d l d' l q :=
  ⟨hq, fun _ _ _ _ _ => shown_congr fun w _ => hs w⟩

/-- **The button code** queues what it changes: the place of the window it
    raised, the old and the new place of the window it moved. -/
theorem ButtonsEffect.shows (h : ButtonsEffect d l d' l') : ∃ q, Shows d l d' l' q := by
  cases h with
  | still hview hq => exact ⟨[], shows_of_view hview.snapshot hq⟩
  | raise win hmem hview hq =>
    refine ⟨[d.outer win, d.outer win], hq, fun mem p hd _ hp => ?_⟩
    have hnone := layer_none_of_outside mem hd hmem (not_queued_cons hp).1
    have hsame : d'.shown mem (win :: l.erase win) p = d.shown mem (win :: l.erase win) p :=
      shown_congr fun w _ => hview.snapshot w
    rw [hsame]
    show (win :: l.erase win).filterMap _ = l.filterMap _
    rw [List.filterMap_cons_none (f := fun w => (d.windows.window w).snapshot.layer mem p) hnone]
    exact filterMap_erase_of_none l hnone
  | move win hmem hsnap hcursor hq =>
    refine ⟨[d'.outer win, d.outer win], hq, fun mem p hd hd' hp => ?_⟩
    obtain ⟨hnew, hp⟩ := not_queued_cons hp
    obtain ⟨hold, -⟩ := not_queued_cons hp
    refine List.filterMap_congr fun w _ => ?_
    by_cases hw : w = win
    · subst hw
      rw [layer_none_of_outside mem hd hmem hold,
        layer_none_of_outside mem hd' hmem hnew]
    · rw [hsnap w hw]

/-- **A new window** queues its rectangle. -/
theorem windowCreate_shows (screen : Rect) {held : Word → Nat} (h : Tracked d.links held l)
    (hs : windowStatus d.history win = .absent) (x y w h' bg : BitVec 32) :
    Shows d l (d.windowCreate screen win x y w h' bg) (win :: l)
      [(d.windowCreate screen win x y w h' bg).outer win] := by
  refine ⟨rfl, fun mem p _ hd' hp => ?_⟩
  have hnone := layer_none_of_outside mem hd' List.mem_cons_self (not_queued_cons hp).1
  show (win :: l).filterMap _ = _
  rw [List.filterMap_cons_none (f := fun v =>
    ((d.windowCreate screen win x y w h' bg).windows.window v).snapshot.layer mem p) hnone]
  refine shown_congr fun v hv => ?_
  have hne : v ≠ win := by
    intro he
    have hlive : windowStatus d.history v = .live := (h.mem_iff v).mp hv
    rw [he, hs] at hlive
    cases hlive
  show (Function.update d.windows.window win _ v).snapshot = _
  rw [Function.update_of_ne hne]

/-- **Destroyed windows** queue their rectangles. -/
theorem destroyByPid_shows {pid : Word} (hview : SameView d d')
    (hq : d'.queued = ((l.filter fun w => (d.windows.window w).ownerPid = pid).map d.outer).reverse ++
      d.queued) :
    Shows d l d' (l.filter fun w => (d.windows.window w).ownerPid ≠ pid)
      ((l.filter fun w => (d.windows.window w).ownerPid = pid).map d.outer).reverse := by
  refine ⟨hq, fun mem p hd _ hp => ?_⟩
  rw [shown_congr fun w _ => hview.snapshot w]
  refine filterMap_filter_of_none fun w hw hgone => layer_none_of_outside mem hd hw fun hm => hp ?_
  have howner : (d.windows.window w).ownerPid = pid := by simpa using hgone
  refine ⟨d.outer w, ?_, hm⟩
  rw [List.mem_reverse]
  exact List.mem_map_of_mem (List.mem_filter.mpr ⟨hw, by simpa using howner⟩)

/-- **A new buffer** queues the rectangle of its window. -/
theorem setBuffer_shows (hmem : win ∈ l)
    (hq : d'.queued = d.outer win :: d.queued ∨
      d'.queued = d.queued ∧ (d'.windows.window win).snapshot = (d.windows.window win).snapshot)
    (hsnap : ∀ w, w ≠ win → (d'.windows.window w).snapshot = (d.windows.window w).snapshot)
    (houter : ∀ w, d'.outer w = d.outer w) : ∃ q, Shows d l d' l q := by
  rcases hq with hq | ⟨hq, hwin⟩
  · refine ⟨[d.outer win], hq, fun mem p hd hd' hp => List.filterMap_congr fun w _ => ?_⟩
    have hout := (not_queued_cons hp).1
    by_cases hw : w = win
    · subst hw
      rw [layer_none_of_outside mem hd hmem hout,
        layer_none_of_outside mem hd' hmem ((houter w).symm ▸ hout)]
    · rw [hsnap w hw]
  · refine ⟨[], shows_of_view (fun w => ?_) hq⟩
    by_cases hw : w = win
    · subst hw
      exact hwin
    · exact hsnap w hw

end Composite

/-! ## §4. Whole operations. -/

inductive DeskOp where
  /-- `window_create`; `kmalloc` returned `win`. -/
  | create (win : Word) (x y w h bgColor : BitVec 32)
  | setBuffer (win buffer : Word)
  | markDirty (win : Word)
  | markRegionDirty (win : Word) (x y w h : BitVec 32)
  | setOwner (win pid : Word)
  | destroyByPid (pid : Word)
  | popEvent (id : BitVec 32) (outEvent : Word)
  | update (mx my : BitVec 32) (mb : BitVec 8)
  | drawAll (g : Graphics) (mem : Mem)

/-- One operation, with nothing running in between. -/
def Desktop.exec (fuel : Nat) (screen : Rect) (d : Desktop) : DeskOp → Option Desktop
  | .create win x y w h bg => some (d.windowCreate screen win x y w h bg)
  | .setBuffer win buffer => d.windowSetBuffer screen win buffer
  | .markDirty win => d.windowMarkDirty screen win
  | .markRegionDirty win x y w h => d.windowMarkRegionDirty screen win x y w h
  | .setOwner win pid => d.windowSetOwner win pid
  | .destroyByPid pid => d.windowDestroyByPid fuel screen pid
  | .popEvent id out => (d.windowPopEvent fuel id out).map fun r => r.2.2
  | .update mx my mb => d.windowUpdate fuel screen mx my mb
  | .drawAll g mem => (d.windowDrawAll g mem).map Prod.snd

/-- Who may call what: `kmalloc` returns no block that still holds a window,
    and callers name windows that are not destroyed. -/
def Desktop.Enabled (d : Desktop) : DeskOp → Prop
  | .create win .. => win = 0 ∨ windowStatus d.history win = .absent
  | .setBuffer win _ | .markDirty win | .markRegionDirty win .. | .setOwner win _ =>
      windowStatus d.history win = .live
  | _ => True

/-- One operation, with fuel enough for its walks. -/
def DeskStep (screen : Rect) (d : Desktop) (a : DeskOp) (d' : Desktop) : Prop :=
  d.Enabled a ∧ ∃ bound, ∀ fuel, bound ≤ fuel → d.exec fuel screen a = some d'

/-- `kmalloc` did not fail. -/
def DeskOp.Allocated : DeskOp → Prop
  | .create win .. => win ≠ 0
  | _ => True

/-- **The damage is complete**: a pixel whose colour in the composite the
    operation changed lies in a rectangle that it queued. -/
def DamageComplete (d d' : Desktop) : Prop :=
  ∃ passed, d'.queued = passed ++ d.queued ∧
    ∀ mem l l', d.IsList l → d'.IsList l' → d.Sized l → d'.Sized l' →
      ∀ p, d'.composite mem l' p ≠ d.composite mem l p → Queued passed p

/-- What holds between operations. -/
structure DeskInv (d : Desktop) (l : List Word) : Prop where
  tracked : Tracked d.links (fun _ => 0) l
  cursor : d.cursorInitialized = true → d.cursorX = d.lastMx ∧ d.cursorY = d.lastMy

section Step

variable {d d' : Desktop} {l l' : List Word} {screen : Rect} {a : DeskOp}

/-- A change that shows only inside what it queued is complete damage: the
    cursor stayed, or its old and new rectangles are among those queued. -/
theorem Shows.complete {q : List Rect} (h : Shows d l d' l' q) (hl : d.IsList l) (hl' : d'.IsList l')
    (hcur : (d'.cursorX = d.cursorX ∧ d'.cursorY = d.cursorY) ∨
      (cursorRect d.cursorX d.cursorY ∈ q ∧ cursorRect d'.cursorX d'.cursorY ∈ q)) :
    DamageComplete d d' := by
  obtain ⟨hq, hshow⟩ := h
  refine ⟨q, hq, fun mem m m' hm hm' hd hd' p hne => ?_⟩
  by_contra hp
  have hml : m = l := hm.unique hl
  have hml' : m' = l' := hm'.unique hl'
  subst hml hml'
  refine hne (composite_congr (hshow mem p hd hd' hp) ?_)
  rcases hcur with ⟨hx, hy⟩ | ⟨hold, hnew⟩
  · rw [hx, hy]
  · -- the pixel is in neither cursor rectangle, so neither cursor has it
    constructor
    · exact fun hc => absurd ⟨_, hnew, mem_cursorRect hc⟩ hp
    · exact fun hc => absurd ⟨_, hold, mem_cursorRect hc⟩ hp

theorem DeskInv.isList (h : DeskInv d l) : d.IsList l := h.tracked.chain

theorem SameView.cursor (h : SameView d d') : d'.cursorX = d.cursorX ∧ d'.cursorY = d.cursorY :=
  ⟨h.cursorX, h.cursorY⟩

/-- Keeping the view keeps the last mouse position at the cursor. -/
theorem DeskInv.of_view (h : DeskInv d l) (ht : Tracked d'.links (fun _ => 0) l')
    (hv : SameView d d') : DeskInv d' l' := by
  refine ⟨ht, fun hi => ?_⟩
  rw [hv.cursorX, hv.cursorY, hv.lastMx, hv.lastMy]
  exact h.cursor (hv.cursorInitialized ▸ hi)

theorem held_zero (l : List Word) :
    (fun w => (0 + (firstWindows l).count w) - (firstWindows l).count w) = fun _ => 0 := by
  funext w
  omega

/-- The mouse has not moved. -/
theorem eq_of_not_mouseMoved {mx my : BitVec 32} (h : ¬ d.mouseMoved mx my = true) :
    mx = d.lastMx ∧ my = d.lastMy := by
  unfold Desktop.mouseMoved at h
  simpa using h

/-- **What the second section changes is queued**, cursor included. -/
theorem UpdateEffect.complete {ds : Desktop} {p : PendingUpdate} (he : UpdateEffect ds l screen p d' l')
    (hinit : p.cursorWasInitialized = true)
    (hsnap : ∀ w, (ds.windows.window w).snapshot = (d.windows.window w).snapshot)
    (hq : ds.queued = d.queued) (hcur : ds.cursorX = d.cursorX ∧ ds.cursorY = d.cursorY)
    (hlast : ds.lastMx = d.cursorX ∧ ds.lastMy = d.cursorY) (hl : d.IsList l) (hl' : d'.IsList l') :
    DamageComplete d d' := by
  obtain ⟨d₁, hb, hs₁, hq₁⟩ := he.buttons
  rw [hinit] at hb
  obtain ⟨q, hqb, hshow⟩ := hb.shows
  have hqb' : d₁.queued = q ++ ds.queued := hqb
  let c : List Rect := if ds.mouseMoved p.mx p.my
    then [cursorRect p.mx p.my, cursorRect ds.cursorX ds.cursorY] else []
  have hshows : Shows d l d' l' (c ++ q) := by
    refine ⟨?_, fun mem x hd hd' hx => ?_⟩
    · rw [hq₁, hqb', hq, List.append_assoc]
    · have hds : ds.Sized l := hd.congr fun w _ => hsnap w
      have hd₁ : d₁.Sized l' := hd'.congr fun w _ => (hs₁ w).symm
      have hx' : ¬ Queued q x := fun ⟨r, hr, hm⟩ => hx ⟨r, List.mem_append_right _ hr, hm⟩
      calc d'.shown mem l' x = d₁.shown mem l' x := shown_congr fun w _ => hs₁ w
        _ = ds.shown mem l x := hshow mem x hds hd₁ hx'
        _ = d.shown mem l x := shown_congr fun w _ => hsnap w
  refine hshows.complete hl hl' ?_
  rw [he.cursorX, he.cursorY]
  by_cases hmoved : ds.mouseMoved p.mx p.my = true
  · right
    have hc : c = [cursorRect p.mx p.my, cursorRect d.cursorX d.cursorY] := by
      show (if ds.mouseMoved p.mx p.my then _ else []) = _
      rw [if_pos hmoved, hcur.1, hcur.2]
    rw [hc]
    simp
  · left
    obtain ⟨hx, hy⟩ := eq_of_not_mouseMoved hmoved
    rw [hx, hy]
    exact hlast

/-- **`window_update`** as a whole. -/
theorem windowUpdate_spec (h : DeskInv d l) (mx my : BitVec 32) (mb : BitVec 8) :
    ∃ d' l', (∀ fuel, l.length < fuel → d.windowUpdate fuel screen mx my mb = some d') ∧
      DeskInv d' l' ∧ (d.cursorInitialized = true → DamageComplete d d') := by
  by_cases hnothing : d.nothingToUpdate mx my mb = true
  · refine ⟨d, l, fun fuel _ => ?_, h, fun _ => ?_⟩
    · unfold Desktop.windowUpdate
      exact if_pos hnothing
    · exact (shows_of_view (q := []) (fun _ => rfl) rfl).complete h.isList h.isList (.inl ⟨rfl, rfl⟩)
  · obtain ⟨p, ds, hrun, ht, hp, hmx, hmy, hci, hsnap, hq, hinit, hlx, hly, hcur⟩ :=
      updateSnapshot_spec h.tracked (fun _ _ => by show (0 : Nat) + 1 < _; decide) mx my mb
    obtain ⟨d', l', hrun', ht', he⟩ := updateRelease_spec screen ht p
      (fun w => by rw [hp]; omega) (pressHit_hitOf p) (moveHit_hitOf p (ds.mouseMoved mx my))
    rw [hp, held_zero] at ht'
    refine ⟨d', l', fun fuel hfuel => ?_, ⟨ht', fun _ => ?_⟩, fun hi => ?_⟩
    · unfold Desktop.windowUpdate
      rw [if_neg hnothing]
      show (d.updateSnapshot mx my mb).bind _ = _
      rw [hrun, Option.bind_some]
      exact hrun' fuel hfuel
    · rw [he.cursorX, he.cursorY, he.lastMx, he.lastMy]
      exact ⟨rfl, rfl⟩
    · obtain ⟨hcx, hcy⟩ := h.cursor hi
      refine he.complete (hci.trans hi) hsnap hq (hcur hi) ?_ h.isList ht'.chain
      rw [hlx, hly]
      exact ⟨hcx.symm, hcy.symm⟩

/-- **`window_draw_all`** leaves what the composite shows. -/
theorem windowDrawAll_spec (h : DeskInv d l) (g : Graphics) (mem : Mem) :
    ∃ g' d', d.windowDrawAll g mem = some (g', d') ∧ Tracked d'.links (fun _ => 0) l ∧
      SameView d d' ∧ d'.queued = d.queued := by
  rcases drawSnapshot_spec h.tracked (fun _ _ => by show (0 : Nat) + 1 < _; decide) with
    hnone | ⟨redraw, hs, cursor, ds, hrun, ht, hp, hview, hq⟩
  · refine ⟨g, d, ?_, h.tracked, .refl d, rfl⟩
    unfold Desktop.windowDrawAll
    rw [hnone]
    rfl
  · obtain ⟨d', hrelease, hforget, ht'⟩ := releaseRefs_spec hs ht fun w => by rw [hp]; omega
    rw [hp, held_zero] at ht'
    refine ⟨drawDesktop g mem redraw (hs.map Prod.snd) cursor, d', ?_, ht',
      hview.trans (.of_forget hforget), (congrArg Desktop.queued hforget).trans hq⟩
    unfold Desktop.windowDrawAll
    rw [hrun]
    show (ds.releaseWindowRefsLocked hs).bind _ = _
    rw [hrelease, Option.bind_some]

/-- The cursor stays where it is. -/
theorem Shows.complete_of_cursor {q : List Rect} (h : Shows d l d' l' q) (hl : d.IsList l)
    (hl' : d'.IsList l') (hx : d'.cursorX = d.cursorX) (hy : d'.cursorY = d.cursorY) :
    DamageComplete d d' :=
  h.complete hl hl' (.inl ⟨hx, hy⟩)

variable (screen) in
/-- **Every operation** runs to its end, keeps the invariant and queues what it
    changes. -/
theorem DeskInv.exec (h : DeskInv d l) (hen : d.Enabled a) (ha : a.Allocated) :
    ∃ d' l', (∀ fuel, l.length < fuel → d.exec fuel screen a = some d') ∧ DeskInv d' l' ∧
      (d.cursorInitialized = true → DamageComplete d d') := by
  -- a live window is in the list and may be read
  have hlive : ∀ {win}, windowStatus d.history win = .live → win ∈ l ∧ d.Present win ∧ win ≠ 0 := by
    intro win hw
    have hmem : win ∈ l := (h.tracked.mem_iff win).mpr hw
    have hp := h.tracked.present_of_mem hmem
    exact ⟨hmem, hp, h.tracked.present_ne_null hp⟩
  cases a with
  | create win x y w h' bg =>
    -- `kmalloc` gave a record, at an address that holds no window
    have hs := hen.resolve_left ha
    have ht := windowCreate_spec screen h.tracked ha hs x y w h' bg
    have hshow := windowCreate_shows screen h.tracked hs x y w h' bg
    exact ⟨_, win :: l, fun _ _ => rfl, ⟨ht, h.cursor⟩,
      fun _ => hshow.complete_of_cursor h.isList ht.chain rfl rfl⟩
  | setBuffer win buffer =>
    obtain ⟨hmem, hp, hne⟩ := hlive hen
    obtain ⟨d', hrun, hl, hq, hsnap, houter, hcx, hcy, hci, hlx, hly⟩ :=
      setBuffer_spec screen hp hne buffer
    have ht : Tracked d'.links (fun _ => 0) l := hl ▸ h.tracked
    obtain ⟨q, hshow⟩ := setBuffer_shows hmem hq hsnap houter
    refine ⟨d', l, fun _ _ => hrun, ⟨ht, fun hi => ?_⟩,
      fun _ => hshow.complete_of_cursor h.isList ht.chain hcx hcy⟩
    rw [hcx, hcy, hlx, hly]
    exact h.cursor (hci ▸ hi)
  | markDirty win =>
    obtain ⟨-, hp, hne⟩ := hlive hen
    obtain ⟨d', hrun, hl, hview, r, hq⟩ := markDirty_spec screen hp hne
    have ht : Tracked d'.links (fun _ => 0) l := hl ▸ h.tracked
    exact ⟨d', l, fun _ _ => hrun, h.of_view ht hview, fun _ =>
      (shows_of_view (q := [r]) hview.snapshot hq).complete_of_cursor h.isList ht.chain hview.cursorX
        hview.cursorY⟩
  | markRegionDirty win x y w h' =>
    obtain ⟨-, hp, hne⟩ := hlive hen
    obtain ⟨d', hrun, hl, hview, r, hq⟩ := markRegionDirty_spec screen hp hne x y w h'
    have ht : Tracked d'.links (fun _ => 0) l := hl ▸ h.tracked
    exact ⟨d', l, fun _ _ => hrun, h.of_view ht hview, fun _ =>
      (shows_of_view (q := [r]) hview.snapshot hq).complete_of_cursor h.isList ht.chain hview.cursorX
        hview.cursorY⟩
  | setOwner win pid =>
    obtain ⟨-, hp, hne⟩ := hlive hen
    obtain ⟨d', hrun, hl, hq, hsnap, hcx, hcy, hci, hlx, hly⟩ := setOwner_spec hp hne pid
    have ht : Tracked d'.links (fun _ => 0) l := hl ▸ h.tracked
    refine ⟨d', l, fun _ _ => hrun, ⟨ht, fun hi => ?_⟩, fun _ =>
      (shows_of_view (q := []) hsnap hq).complete_of_cursor h.isList ht.chain hcx hcy⟩
    rw [hcx, hcy, hlx, hly]
    exact h.cursor (hci ▸ hi)
  | destroyByPid pid =>
    obtain ⟨d', hrun, ht, hview, hq⟩ := destroyByPid_spec screen pid h.tracked
    exact ⟨d', _, hrun, h.of_view ht hview, fun _ =>
      (destroyByPid_shows hview hq).complete_of_cursor h.isList ht.chain hview.cursorX hview.cursorY⟩
  | popEvent id out =>
    obtain ⟨ret, event, d', hrun, hl, hview, hq⟩ := popEvent_spec h.tracked id out
    have ht : Tracked d'.links (fun _ => 0) l := hl ▸ h.tracked
    exact ⟨d', l, fun fuel hfuel => congrArg (Option.map _) (hrun fuel hfuel), h.of_view ht hview,
      fun _ => (shows_of_view (q := []) hview.snapshot hq).complete_of_cursor h.isList ht.chain
        hview.cursorX hview.cursorY⟩
  | update mx my mb => exact windowUpdate_spec h mx my mb
  | drawAll g mem =>
    obtain ⟨g', d', hrun, ht, hview, hq⟩ := windowDrawAll_spec h g mem
    exact ⟨d', l, fun _ _ => congrArg (Option.map _) hrun, h.of_view ht hview,
      fun _ => (shows_of_view (q := []) hview.snapshot hq).complete_of_cursor h.isList ht.chain
        hview.cursorX hview.cursorY⟩

/-- What an operation whose allocation did not fail does. -/
theorem DeskInv.step (h : DeskInv d l) (ha : a.Allocated) (hstep : DeskStep screen d a d') :
    ∃ l', DeskInv d' l' ∧ (d.cursorInitialized = true → DamageComplete d d') := by
  obtain ⟨hen, bound, hrun⟩ := hstep
  obtain ⟨t, l', hexec, ht⟩ := h.exec screen hen ha
  have h₁ := hrun (bound + l.length + 1) (by omega)
  have h₂ := hexec (bound + l.length + 1) (by omega)
  rw [h₁] at h₂
  injection h₂ with heq
  subst heq
  exact ⟨l', ht⟩

end Step

/-! ## §5. Runs. -/

theorem windowInit_inv (screen : Rect) (record : Word → Window) :
    DeskInv (windowInit screen record) [] := by
  refine ⟨(bootWindows_inv screen record).tracked, fun hi => ?_⟩
  cases hi

/-- **The damage is complete.**  Along every run of whole operations in which
    no `kmalloc` of a window fails, every operation after the cursor is
    initialised queues every pixel whose colour in the composite it changes,
    where at most 16 windows of regular sizes are on the screen before and
    after it. -/
theorem damage_complete {screen : Rect} {record : Word → Window}
    {tr : List (Transition Desktop DeskOp)} {d : Desktop}
    (hrun : Run (DeskStep screen) (windowInit screen record) tr d)
    (ha : ∀ x ∈ tr, x.2.1.Allocated) :
    ∀ x ∈ tr, x.1.cursorInitialized = true → DamageComplete x.1 x.2.2 := by
  intro x hx hi
  have hmem := hrun.step_of_mem (I := fun d => ∃ l, DeskInv d l) (C := fun _ a => a.Allocated)
    (fun _ _ _ ⟨_, h⟩ ha hstep => (h.step ha hstep).imp fun _ h' => h'.1) ha
    ⟨[], windowInit_inv screen record⟩ x hx
  obtain ⟨⟨l, h⟩, hstep⟩ := hmem
  obtain ⟨-, -, hcomplete⟩ := h.step (ha x hx) hstep
  exact hcomplete hi

/-- The desktop after a first update: the cursor is at (400, 300). -/
def firstUpdate : Desktop :=
  { windowInit ⟨0, 0, 1024, 768⟩ (fun _ => blankWindow) with
    dirtyRects := [⟨0, 0, 1024, 768⟩]
    cursorX := 400, cursorY := 300, cursorInitialized := true, lastMx := 400, lastMy := 300
    queued := [⟨400, 300, 10, 15⟩, ⟨400, 300, 10, 15⟩, ⟨400, 300, 10, 15⟩, ⟨0, 0, 1024, 768⟩] }

/-- And after a window was created on it. -/
def firstWindow : Desktop :=
  firstUpdate.windowCreate ⟨0, 0, 1024, 768⟩ 0x1000018 50 50 600 400 0xFF333333

theorem run_firstWindow :
    Run (DeskStep ⟨0, 0, 1024, 768⟩) (windowInit ⟨0, 0, 1024, 768⟩ fun _ => blankWindow)
      (([] ++ [(windowInit ⟨0, 0, 1024, 768⟩ fun _ => blankWindow, .update 400 300 0, firstUpdate)]) ++
        [(firstUpdate, .create 0x1000018 50 50 600 400 0xFF333333, firstWindow)]) firstWindow := by
  have hupdate : DeskStep ⟨0, 0, 1024, 768⟩ (windowInit ⟨0, 0, 1024, 768⟩ fun _ => blankWindow)
      (.update 400 300 0) firstUpdate := ⟨trivial, 0, fun _ _ => rfl⟩
  have hcreate : DeskStep ⟨0, 0, 1024, 768⟩ firstUpdate
      (.create 0x1000018 50 50 600 400 0xFF333333) firstWindow := ⟨.inr rfl, 0, fun _ _ => rfl⟩
  exact ((Run.nil _).snoc hupdate).snoc hcreate

/-- The damage of a window created after the first update is complete. -/
theorem damage_complete_create : DamageComplete firstUpdate firstWindow := by
  refine damage_complete run_firstWindow (fun x hx => ?_)
    (firstUpdate, .create 0x1000018 50 50 600 400 0xFF333333, firstWindow) (by simp) rfl
  rcases List.mem_append.mp hx with hx | hx
  · rw [List.mem_singleton.mp hx]
    trivial
  · rw [List.mem_singleton.mp hx]
    show (0x1000018 : Word) ≠ 0
    decide

/-- **A failed `kmalloc` leaves stale pixels**: the window at (50, 50) is lost
    from the list, and only the rectangle of the new window is queued. -/
theorem damage_incomplete_when_kmalloc_fails :
    ∃ tr d a d', Run (DeskStep ⟨0, 0, 1024, 768⟩)
        (windowInit ⟨0, 0, 1024, 768⟩ fun _ => blankWindow) tr d ∧
      DeskStep ⟨0, 0, 1024, 768⟩ d a d' ∧ d.cursorInitialized = true ∧ ¬ DamageComplete d d' := by
  refine ⟨_, firstWindow, .create 0 0 0 25 25 0, _, run_firstWindow, ⟨.inl rfl, 0, fun _ _ => rfl⟩, rfl,
    ?_⟩
  rintro ⟨passed, hq, hall⟩
  have hpassed : passed = [⟨0, 0, 30, 30⟩] := 
    (List.append_cancel_right (show [⟨0, 0, 30, 30⟩] ++ _ = passed ++ _ from hq)).symm
  subst hpassed
  have hregular : (firstWindow.windows.window 0x1000018).snapshot.Regular :=
    ⟨⟨by decide, by decide, by decide, by decide, by decide, by decide, by decide⟩, by decide,
      by decide, by decide, by decide⟩
  have hsized : firstWindow.Sized [0x1000018] := ⟨by decide, fun w hw => by
    rw [List.mem_singleton.mp hw]
    exact hregular⟩
  obtain ⟨r, hr, hmem⟩ := hall (fun _ => 0) [0x1000018] [] ⟨rfl, by decide, rfl⟩ rfl hsized
    ⟨by decide, fun w hw => by cases hw⟩ (60, 60) (by decide)
  rw [List.mem_singleton.mp hr] at hmem
  revert hmem
  decide

end ZohoOs
