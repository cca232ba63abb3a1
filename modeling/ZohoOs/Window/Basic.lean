/-
  ZohoOs.Window.Basic — windows and their shared buffers (window.c, syscall.c).

  A window is a record at the address `kmalloc` returned for it, linked into
  `window_list` through its `next` field; the records are kept as values by
  address, apart from the byte memory.  `sys_create_window` takes the memory
  manager's operation on the caller's address space as an argument.

  The list walks of the source are unbounded; here they carry fuel, and
  `none` is a walk that has not ended.  Dirty rectangles and drawing are left
  out.
-/
import ZohoOs.Kmalloc.Basic
import ZohoOs.Libc.Copy
import ZohoOs.Vmm.Basic

namespace ZohoOs

open ZohoOs.Lib

/-! ## §1. The records. -/

/-- `gui_event_t`. -/
structure GuiEvent where
  type : BitVec 32
  x : BitVec 32
  y : BitVec 32
  data : BitVec 32
  deriving DecidableEq

/-- The event queue has a slot 0. -/
instance eventSlotsNeZero : NeZero 16 := ⟨by decide⟩

/-- `window_t`. -/
structure Window where
  id : BitVec 32
  x : BitVec 32
  y : BitVec 32
  w : BitVec 32
  h : BitVec 32
  titleColor : BitVec 32
  bgColor : BitVec 32
  buffer : Word
  ownerPid : Word
  dirty : Bool
  destroyed : Bool
  refcount : BitVec 32
  eventQueue : Fin 16 → GuiEvent
  eventHead : Fin 16
  eventTail : Fin 16
  next : Word

/-- `sizeof(window_t)`. -/
def windowSize : Word := 328

/-- The window manager's state. -/
structure Windows where
  /-- The window records, by address. -/
  window : Word → Window
  windowList : Word
  nextWindowId : BitVec 32

/-- Write to the record at `win`. -/
def Windows.setWindow (s : Windows) (win : Word) (f : Window → Window) : Windows :=
  { s with window := Function.update s.window win (f (s.window win)) }

/-! ## §2. Window operations. -/

/-- `window_create`, with the pointer `kmalloc` returned.  The event queue
    keeps what the memory held. -/
def windowCreate (s : Windows) (win : Word) (x y w h bgColor : BitVec 32) : Windows :=
  let id := s.nextWindowId
  let s := { s with nextWindowId := s.nextWindowId + 1 }
  let s := s.setWindow win fun r =>
    { r with
      id := id, x := x, y := y, w := w, h := h, bgColor := bgColor, titleColor := 0xFF555555
      buffer := 0, ownerPid := 0, dirty := true, destroyed := false, refcount := 0
      eventHead := 0, eventTail := 0, next := s.windowList }
  { s with windowList := win }

/-- `window_set_owner`. -/
def windowSetOwner (s : Windows) (win ownerPid : Word) : Windows :=
  if win = 0 then s
  else if (s.window win).destroyed then s
  else s.setWindow win fun r => { r with ownerPid := ownerPid }

/-- `window_set_buffer`. -/
def windowSetBuffer (s : Windows) (win buffer : Word) : Windows :=
  if win = 0 then s
  else if (s.window win).destroyed then s
  else s.setWindow win fun r => { r with buffer := buffer, dirty := true }

/-- The walk for the first window with the given id; `0` when there is none. -/
def findWindow (s : Windows) (id : BitVec 32) : Nat → Word → Option Word
  | 0, _ => none
  | fuel + 1, curr =>
      if curr = 0 then some 0
      else if (s.window curr).id = id then some curr
      else findWindow s id fuel (s.window curr).next

/-- `window_pop_event`: the result and the event copied to `*out_event`. -/
def windowPopEvent (fuel : Nat) (s : Windows) (id : BitVec 32) (outEvent : Word) :
    Option (BitVec 32 × Option GuiEvent × Windows) :=
  if outEvent = 0 then some (-1, none, s)
  else
    (findWindow s id fuel s.windowList).map fun curr =>
      if curr = 0 then (-1, none, s)
      else if (s.window curr).destroyed then (-1, none, s)
      else if (s.window curr).eventHead = (s.window curr).eventTail then (0, none, s)
      else
        (1, some ((s.window curr).eventQueue (s.window curr).eventHead),
          s.setWindow curr fun r => { r with eventHead := r.eventHead + 1 })

/-! ## §3. `sys_create_window`. -/

/-- A buffer mapped for user space. -/
structure MappedBuffer where
  id : BitVec 32
  userAddr : Word
  numPages : BitVec 32

/-- What `sys_create_window` reads and writes; `S` stands for the memory
    manager and the caller's address space. -/
structure Gui (S : Type) where
  heap : Heap
  windows : Windows
  mem : Mem
  space : S
  /-- Ghost: the buffers mapped so far, newest first. -/
  mapped : List MappedBuffer

/-- `num_pages` of a `w` by `h` window: the title bar takes 25 lines. -/
def bufferPages (w h : BitVec 32) : BitVec 32 :=
  let clientH := h - 25
  let size := w * clientH * 4
  (size + 4095) / 4096

/-- `0xA0000000 + (win->id * 0x1000000)`, all of it in `uint32_t`. -/
def windowUserAddr (id : BitVec 32) : Word := (0xA0000000 + id * 0x1000000).setWidth 64

/-- The mapping loop: `user_addr + i * 4096` to `kernel_buf + i * 4096`. -/
def mapBuffer {S : Type} (vmmMap : S → Word → Word → Word → S) (space : S)
    (userAddr kernelBuf : Word) (numPages : BitVec 32) : S :=
  (List.range numPages.toNat).foldl
    (fun space i =>
      let offset := (BitVec.ofNat 32 i * 4096).setWidth 64
      vmmMap space (userAddr + offset) (kernelBuf + offset) (pageUser ||| pageWritable))
    space

/-- `sys_create_window` for the task `pid`; the result is the window's id.
    Neither pointer is checked. -/
def sysCreateWindow {S : Type} (vmmMap : S → Word → Word → Word → S) (fuel : Nat) (g : Gui S)
    (pid : Word) (x y w h : BitVec 32) : Option (BitVec 32 × Gui S) := do
  let (win, heap) ← kmalloc fuel g.heap windowSize
  let windows := windowCreate g.windows win x y w h 0xFFFFFFFF
  let numPages := bufferPages w h
  let (kernelBuf, heap) ← kmalloc fuel heap ((numPages * 4096).setWidth 64)
  let mem := memset g.mem kernelBuf 0 (numPages * 4096).toNat
  let windows := windowSetOwner windows win pid
  let windows := windowSetBuffer windows win kernelBuf
  let id := (windows.window win).id
  some (id,
    { heap := heap, windows := windows, mem := mem
      space := mapBuffer vmmMap g.space (windowUserAddr id) kernelBuf numPages
      mapped := ⟨id, windowUserAddr id, numPages⟩ :: g.mapped })

section Lemmas

variable {S : Type} {s : Windows} {win v : Word} {x y w h bg : BitVec 32}

@[simp] theorem windowCreate_id :
    ((windowCreate s win x y w h bg).window win).id = s.nextWindowId := by
  show (Function.update s.window win _ win).id = s.nextWindowId
  rw [Function.update_self]

@[simp] theorem windowCreate_next :
    (windowCreate s win x y w h bg).nextWindowId = s.nextWindowId + 1 := rfl

theorem setWindow_self {f : Window → Window} :
    (s.setWindow win f).window win = f (s.window win) := Function.update_self _ _ _

theorem setWindow_of_ne {f : Window → Window} (h : v ≠ win) :
    (s.setWindow win f).window v = s.window v := Function.update_of_ne h _ _

theorem setWindow_id {f : Window → Window} (hf : ∀ r, (f r).id = r.id) (v : Word) :
    ((s.setWindow win f).window v).id = (s.window v).id := by
  show (Function.update s.window win (f (s.window win)) v).id = (s.window v).id
  by_cases hv : v = win
  · subst hv
    rw [Function.update_self, hf]
  · rw [Function.update_of_ne hv]

@[simp] theorem windowSetOwner_id {pid : Word} :
    ((windowSetOwner s win pid).window v).id = (s.window v).id := by
  unfold windowSetOwner
  split_ifs
  · rfl
  · rfl
  · exact setWindow_id (f := fun r => { r with ownerPid := pid }) (fun _ => rfl) v

@[simp] theorem windowSetBuffer_id {b : Word} :
    ((windowSetBuffer s win b).window v).id = (s.window v).id := by
  unfold windowSetBuffer
  split_ifs
  · rfl
  · rfl
  · exact setWindow_id (f := fun r => { r with buffer := b, dirty := true }) (fun _ => rfl) v

@[simp] theorem windowSetOwner_next {pid : Word} :
    (windowSetOwner s win pid).nextWindowId = s.nextWindowId := by
  unfold windowSetOwner
  split_ifs <;> rfl

@[simp] theorem windowSetBuffer_next {b : Word} :
    (windowSetBuffer s win b).nextWindowId = s.nextWindowId := by
  unfold windowSetBuffer
  split_ifs <;> rfl

/-- What a call that returned has done: two allocations, and the window's
    pages mapped at the address its id gives. -/
theorem sysCreateWindow_eq_some {vmmMap : S → Word → Word → Word → S} {fuel : Nat} {g g' : Gui S}
    {pid : Word} {id : BitVec 32}
    (hret : sysCreateWindow vmmMap fuel g pid x y w h = some (id, g')) :
    ∃ win heap kernelBuf,
      kmalloc fuel g.heap windowSize = some (win, heap) ∧
      kmalloc fuel heap ((bufferPages w h * 4096).setWidth 64) = some (kernelBuf, g'.heap) ∧
      id = g.windows.nextWindowId ∧ g'.windows.nextWindowId = g.windows.nextWindowId + 1 ∧
      g'.space = mapBuffer vmmMap g.space (windowUserAddr id) kernelBuf (bufferPages w h) ∧
      g'.mapped = ⟨id, windowUserAddr id, bufferPages w h⟩ :: g.mapped := by
  unfold sysCreateWindow at hret
  obtain ⟨⟨win, heap⟩, hwin, hret⟩ := Option.bind_eq_some_iff.mp hret
  obtain ⟨⟨kernelBuf, heap'⟩, hbuf, hret⟩ := Option.bind_eq_some_iff.mp hret
  simp only [windowSetBuffer_id, windowSetOwner_id, windowCreate_id, Option.some.injEq,
    Prod.mk.injEq] at hret
  obtain ⟨rfl, rfl⟩ := hret
  refine ⟨win, heap, kernelBuf, hwin, hbuf, rfl, ?_, rfl, rfl⟩
  simp only [windowSetBuffer_next, windowSetOwner_next, windowCreate_next]

/-- When both allocations return, so does the call. -/
theorem sysCreateWindow_of_alloc (vmmMap : S → Word → Word → Word → S) {fuel : Nat} {g : Gui S}
    (pid : Word) (x y : BitVec 32) {kernelBuf : Word} {heap heap' : Heap}
    (hwin : kmalloc fuel g.heap windowSize = some (win, heap))
    (hbuf : kmalloc fuel heap ((bufferPages w h * 4096).setWidth 64) = some (kernelBuf, heap')) :
    ∃ g', sysCreateWindow vmmMap fuel g pid x y w h = some (g.windows.nextWindowId, g') ∧
      g'.heap = heap' := by
  unfold sysCreateWindow
  rw [hwin]
  show ∃ g', Option.bind (kmalloc fuel heap ((bufferPages w h * 4096).setWidth 64)) _ = _ ∧ _
  rw [hbuf, Option.bind_some]
  simp only [windowSetBuffer_id, windowSetOwner_id, windowCreate_id]
  exact ⟨_, rfl, rfl⟩

end Lemmas

end ZohoOs
