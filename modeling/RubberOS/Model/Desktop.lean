import RubberOS.Model.Framebuffer
import RubberOS.Model.Ps2Mouse

/-! # Invalidation and mouse messages

The functions of `window.c` that invalidate, and those that handle the mouse. Windows are known by
their addresses. A message to a window procedure is part of the result of the function that sends it.
-/

namespace RubberOS.Model.Gui

open Ps2

/-- `struct window`, less its links and the data of its procedure. -/
structure ManagedWindow extends Window where
  moving : Bool

/-- `struct winman`, less its lock, its slab and its backbuffer. The last window of the list is on top. -/
structure Desktop where
  painting : Bool
  sizingRect : Rect
  sizingPt : Point
  sizing : Bool
  windowList : List ℕ
  focused : Option ℕ
  mouseCapturing : Option ℕ
  scrSize : Size
  mousePos : Point
  globalInvalidated : Rect
  window : ℕ → ManagedWindow

/-- The fields that `gui_init` sets, of which drawing uses those in `wm`. -/
def desktopInit (wm : Winman) (window : ℕ → ManagedWindow) : Desktop where
  painting := wm.painting
  sizingRect := wm.sizingRect
  sizingPt := ⟨0, 0⟩
  sizing := wm.sizing
  windowList := []
  focused := none
  mouseCapturing := none
  scrSize := wm.scrSize
  mousePos := wm.mousePos
  globalInvalidated := wm.globalInvalidated
  window := window

/-- `struct gui_mouse_event`. -/
structure GuiMouseEvent where
  x : ℤ
  y : ℤ
  prevLeft : Bool
  prevRight : Bool
  prevMiddle : Bool
  left : Bool
  right : Bool
  middle : Bool
deriving DecidableEq, Repr

/-- `gui_mouse_event_down`, given a button and its previous state. -/
def guiMouseEventDown (btn prevBtn : Bool) : Bool := btn && !prevBtn

/-- `gui_mouse_event_up`, given a button and its previous state. -/
def guiMouseEventUp (btn prevBtn : Bool) : Bool := !btn && prevBtn

def CLIENT_X0 : ℤ := BORDER1 + BORDER2

def CLIENT_Y0 : ℤ := BORDER1 + BORDER2 + TITLE_HEIGHT

def clientRectForWindow (width height : ℤ) : Rect :=
  let width := width - 2 * CLIENT_X0
  let height := height - CLIENT_X0 - CLIENT_Y0
  { x := CLIENT_X0, y := CLIENT_Y0, width := if width < 0 then 0 else width,
    height := if height < 0 then 0 else height }

/-- A change to one window. -/
def Desktop.setWindow (d : Desktop) (w : ℕ) (change : ManagedWindow → ManagedWindow) : Desktop :=
  { d with window := Function.update d.window w (change (d.window w)) }

section SetWindow

variable {w v : ℕ} {change : ManagedWindow → ManagedWindow}

@[simp] theorem setWindow_self (d : Desktop) (w : ℕ) (change : ManagedWindow → ManagedWindow) :
    (d.setWindow w change).window w = change (d.window w) := Function.update_self ..

theorem setWindow_of_ne (d : Desktop) (change : ManagedWindow → ManagedWindow) (apart : v ≠ w) :
    (d.setWindow w change).window v = d.window v := Function.update_of_ne apart ..

/-- What the change keeps is kept of every window. -/
theorem setWindow_keeps {α : Type} (field : ManagedWindow → α) (d : Desktop) (w v : ℕ)
    (kept : ∀ m, field (change m) = field m) :
    field ((d.setWindow w change).window v) = field (d.window v) := by
  rcases eq_or_ne v w with rfl | apart
  · rw [setWindow_self, kept]
  · rw [setWindow_of_ne d change apart]

end SetWindow

/-! ## Invalidation -/

/-- The rectangle of a window in its own coordinates. -/
def windowArea (w : Window) : Rect := ⟨0, 0, w.scrRect.width, w.scrRect.height⟩

def invalidateWindowAll (d : Desktop) (w : ℕ) : Desktop :=
  d.setWindow w fun w => { w with winInvalidated := windowArea w.toWindow }

def invalidateGlobal (d : Desktop) (rt : Rect) : Desktop :=
  { d with globalInvalidated := rectUnion d.globalInvalidated rt }

def invalidateClient (d : Desktop) (w : ℕ) (rt : Option Rect) : Desktop :=
  match rt with
  | some rt =>
    let client : Rect := { rt with x := rt.x + CLIENT_X0, y := rt.y + CLIENT_Y0 }
    d.setWindow w fun w => { w with winInvalidated := rectUnion w.winInvalidated client }
  | none => invalidateWindowAll d w

def windowInvalidate (d : Desktop) (w : ℕ) (rt : Option Rect) : Desktop := invalidateClient d w rt

/-! ## Windows -/

/-- `window_new`, told which object `slab_alloc` returns. -/
def windowNew (d : Desktop) (w : ℕ) : Desktop :=
  let d := d.setWindow w fun _ =>
    { title := "New Window".toList.map fun c => BitVec.ofNat 8 c.toNat, scrRect := ⟨120, 120, 640, 480⟩,
      bgColor := 0xffffff, moving := false, proc := none, winInvalidated := ⟨0, 0, 640, 480⟩ }
  { d with windowList := d.windowList ++ [w] }

def moveToFront (d : Desktop) (w : ℕ) : Desktop :=
  invalidateWindowAll { d with focused := some w, windowList := d.windowList.erase w ++ [w] } w

/-! ## Mouse messages -/

def onNcMouse (d : Desktop) (w : ℕ) (evt : GuiMouseEvent) : Desktop :=
  let scrRect := (d.window w).scrRect
  let title : Rect := ⟨CLIENT_X0, CLIENT_X0, scrRect.width - 2 * CLIENT_X0, TITLE_HEIGHT⟩
  if rectContains title evt.x evt.y && guiMouseEventDown evt.left evt.prevLeft then
    let d := d.setWindow w fun w => { w with moving := true }
    invalidateGlobal { d with mouseCapturing := some w, sizing := true, sizingRect := scrRect,
                              sizingPt := ⟨evt.x + scrRect.x, evt.y + scrRect.y⟩ } scrRect
  else d

def onMoving (d : Desktop) (w : ℕ) (evt : GuiMouseEvent) : Desktop :=
  let old := d.sizingRect
  let scrRect := (d.window w).scrRect
  let sizingRect := { scrRect with x := scrRect.x + (evt.x - d.sizingPt.x), y := scrRect.y + (evt.y - d.sizingPt.y) }
  let inv := rectUnion old sizingRect
  if guiMouseEventUp evt.left evt.prevLeft then
    let inv := rectUnion inv scrRect
    let d := d.setWindow w fun w => { w with scrRect := sizingRect, moving := false }
    invalidateGlobal { d with sizingRect, mouseCapturing := none, sizing := false } inv
  else invalidateGlobal { d with sizingRect } inv

/-- The window that a mouse message at a place of the screen is for. -/
def mouseTarget (d : Desktop) (x y : ℤ) : Option ℕ :=
  match d.mouseCapturing with
  | some w => some w
  | none => d.windowList.reverse.find? fun w => rectContains (d.window w).scrRect x y

/-- `window_sendmsg_mouse`, with the `WM_MOUSE` message that it sends, if any. -/
def windowSendmsgMouse (d : Desktop) (x y : ℤ) (evt : GuiMouseEvent) : Desktop × Option (ℕ × GuiMouseEvent) :=
  match mouseTarget d x y with
  | none => (d, none)
  | some target =>
    if (d.window target).moving then (onMoving d target evt, none)
    else
      let pressed := guiMouseEventDown evt.left evt.prevLeft || guiMouseEventDown evt.right evt.prevRight ||
        guiMouseEventDown evt.middle evt.prevMiddle
      let d := if pressed then moveToFront d target else d
      let scrRect := (d.window target).scrRect
      let client := clientRectForWindow scrRect.width scrRect.height
      let evt := { evt with x := evt.x - scrRect.x, y := evt.y - scrRect.y }
      if rectContains client evt.x evt.y then
        let evt := { evt with x := evt.x - client.x, y := evt.y - client.y }
        (d, if (d.window target).proc.isSome then some (target, evt) else none)
      else (onNcMouse d target evt, none)

/-- One coordinate of the cursor, kept on the screen. -/
def clampCursor (pos size : ℤ) : ℤ := if pos < 0 then 0 else if pos ≥ size then size else pos

/-- The rectangle of the cursor. -/
def cursorRect (pos : Point) : Rect := ⟨pos.x, pos.y, MOUSE_WIDTH, MOUSE_HEIGHT⟩

def guiMouseMove (d : Desktop) (dx dy : ℤ) : Desktop × Point :=
  let old := cursorRect d.mousePos
  let pos : Point := ⟨clampCursor (d.mousePos.x + dx) d.scrSize.width, clampCursor (d.mousePos.y + dy) d.scrSize.height⟩
  (invalidateGlobal { d with mousePos := pos } (rectUnion old (cursorRect pos)), pos)

/-- The window manager with the static variables of `gui_on_mouse`. -/
structure MouseState where
  desktop : Desktop
  prevLeft : Bool
  prevRight : Bool
  prevMiddle : Bool

/-- The event that `gui_on_mouse` passes on. -/
def mouseEvent (s : MouseState) (pos : Point) (evt : HidMouseEvent) : GuiMouseEvent where
  x := pos.x
  y := pos.y
  prevLeft := s.prevLeft
  prevRight := s.prevRight
  prevMiddle := s.prevMiddle
  left := evt.left
  right := evt.right
  middle := evt.middle

/-- `gui_on_mouse`, with the `WM_MOUSE` message that is sent, if any. -/
def guiOnMouse (s : MouseState) (evt : HidMouseEvent) : MouseState × Option (ℕ × GuiMouseEvent) :=
  let (desktop, pos) := guiMouseMove s.desktop evt.dx (-evt.dy)
  let (desktop, sent) := windowSendmsgMouse desktop pos.x pos.y (mouseEvent s pos evt)
  (⟨desktop, evt.left, evt.right, evt.middle⟩, sent)

end RubberOS.Model.Gui
