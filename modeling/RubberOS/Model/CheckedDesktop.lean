import RubberOS.Model.CheckedWindow
import RubberOS.Model.DrawSteps

/-! # Invalidation and mouse messages in the arithmetic of C

The functions of `window.c` that invalidate and those that handle the mouse, and the steps of the drawing between which
they run.
-/

namespace RubberOS.Model.Gui.Checked

def clientRectForWindow (width height : ℤ) : Option Rect := do
  let width ← int (width - 2 * CLIENT_X0)
  let below ← int (height - CLIENT_X0)
  let height ← int (below - CLIENT_Y0)
  return { x := CLIENT_X0, y := CLIENT_Y0, width := if width < 0 then 0 else width,
           height := if height < 0 then 0 else height }

def invalidateGlobal (d : Desktop) (rt : Rect) : Option Desktop := do
  let globalInvalidated ← rectUnion d.globalInvalidated rt
  return { d with globalInvalidated }

def invalidateClient (d : Desktop) (w : ℕ) (rt : Option Rect) : Option Desktop :=
  match rt with
  | some rt => do
    let x ← int (rt.x + CLIENT_X0)
    let y ← int (rt.y + CLIENT_Y0)
    let winInvalidated ← rectUnion (d.window w).winInvalidated { rt with x, y }
    return d.setWindow w fun w => { w with winInvalidated }
  | none => some (invalidateWindowAll d w)

def windowInvalidate (d : Desktop) (w : ℕ) (rt : Option Rect) : Option Desktop := invalidateClient d w rt

def onNcMouse (d : Desktop) (w : ℕ) (evt : GuiMouseEvent) : Option Desktop := do
  let scrRect := (d.window w).scrRect
  let width ← int (scrRect.width - 2 * CLIENT_X0)
  let grabbed ← rectContains ⟨CLIENT_X0, CLIENT_X0, width, TITLE_HEIGHT⟩ evt.x evt.y
  if grabbed && guiMouseEventDown evt.left evt.prevLeft then
    let x ← int (evt.x + scrRect.x)
    let y ← int (evt.y + scrRect.y)
    let d := d.setWindow w fun w => { w with moving := true }
    invalidateGlobal { d with mouseCapturing := some w, sizing := true, sizingRect := scrRect, sizingPt := ⟨x, y⟩ } scrRect
  else return d

def onMoving (d : Desktop) (w : ℕ) (evt : GuiMouseEvent) : Option Desktop := do
  let old := d.sizingRect
  let scrRect := (d.window w).scrRect
  let right ← int (evt.x - d.sizingPt.x)
  let x ← int (scrRect.x + right)
  let down ← int (evt.y - d.sizingPt.y)
  let y ← int (scrRect.y + down)
  let sizingRect := { scrRect with x, y }
  let inv ← rectUnion old sizingRect
  if guiMouseEventUp evt.left evt.prevLeft then
    let inv ← rectUnion inv scrRect
    let d := d.setWindow w fun w => { w with scrRect := sizingRect, moving := false }
    invalidateGlobal { d with sizingRect, mouseCapturing := none, sizing := false } inv
  else invalidateGlobal { d with sizingRect } inv

/-- The first of the windows that contains a place of the screen. -/
def findWindow (d : Desktop) (x y : ℤ) : List ℕ → Option (Option ℕ)
  | [] => some none
  | w :: rest => do
    let inside ← rectContains (d.window w).scrRect x y
    if inside then return some w else findWindow d x y rest

/-- The window that a mouse message at a place of the screen is for. -/
def mouseTarget (d : Desktop) (x y : ℤ) : Option (Option ℕ) :=
  match d.mouseCapturing with
  | some w => some (some w)
  | none => findWindow d x y d.windowList.reverse

/-- What `window_sendmsg_mouse` does with a window that is not being moved. -/
def sendToTarget (d : Desktop) (target : ℕ) (evt : GuiMouseEvent) : Option (Desktop × Option (ℕ × GuiMouseEvent)) := do
  let scrRect := (d.window target).scrRect
  let client ← clientRectForWindow scrRect.width scrRect.height
  let x ← int (evt.x - scrRect.x)
  let y ← int (evt.y - scrRect.y)
  let inside ← rectContains client x y
  if inside then
    let x ← int (x - client.x)
    let y ← int (y - client.y)
    return (d, if (d.window target).proc.isSome then some (target, { evt with x, y }) else none)
  else
    let d ← onNcMouse d target { evt with x, y }
    return (d, none)

/-- `window_sendmsg_mouse`, with the `WM_MOUSE` message that it sends, if any. -/
def windowSendmsgMouse (d : Desktop) (x y : ℤ) (evt : GuiMouseEvent) : Option (Desktop × Option (ℕ × GuiMouseEvent)) := do
  let target ← mouseTarget d x y
  match target with
  | none => return (d, none)
  | some target =>
    if (d.window target).moving then
      let d ← onMoving d target evt
      return (d, none)
    else
      let pressed := guiMouseEventDown evt.left evt.prevLeft || guiMouseEventDown evt.right evt.prevRight ||
        guiMouseEventDown evt.middle evt.prevMiddle
      sendToTarget (if pressed then moveToFront d target else d) target evt

def guiMouseMove (d : Desktop) (dx dy : ℤ) : Option (Desktop × Point) := do
  let old := cursorRect d.mousePos
  let right ← int (d.mousePos.x + dx)
  let down ← int (d.mousePos.y + dy)
  let pos : Point := ⟨clampCursor right d.scrSize.width, clampCursor down d.scrSize.height⟩
  let inv ← rectUnion old (cursorRect pos)
  let d ← invalidateGlobal { d with mousePos := pos } inv
  return (d, pos)

/-! ## The steps of the drawing -/

/-- The next step of `gui_draw_all` while it draws with the damage `gi` and has collected `inv`. -/
def windowStep (d : Desktop) (gi inv : Rect) (w : ℕ) (rest : List ℕ) : DrawPoint → Option Redraw
  | .start => do
    let wiScr ← rectIntersect (d.window w).scrRect gi
    let wiWin ← scrToWin (d.window w).toWindow wiScr
    let united ← rectUnion (d.window w).winInvalidated wiWin
    return ⟨d, .drawing gi inv (w :: rest) (.united united)⟩
  | .united rt =>
    some ⟨d.setWindow w fun w => { w with winInvalidated := rt }, .drawing gi inv (w :: rest) .stored⟩
  | .stored => do
    let scrInv ← winToScr (d.window w).toWindow (d.window w).winInvalidated
    let inv ← rectUnion inv scrInv
    return ⟨d, .drawing gi inv (w :: rest) .collected⟩
  | .collected => some ⟨d, .drawing gi inv (w :: rest) (.clipped (d.window w).winInvalidated)⟩
  | .clipped _ =>
    some ⟨d.setWindow w fun w => { w with winInvalidated := ⟨0, 0, 0, 0⟩ }, .drawing gi inv rest .start⟩

/-- The next step of `gui_draw_all`, or a call of it. -/
def drawStep (s : Redraw) : Result (Option Redraw) :=
  match s.phase with
  | .drawing gi inv (w :: rest) point => return windowStep s.desktop gi inv w rest point
  | _ => some <$> Gui.drawStep s

def LockedSection.exec (d : Desktop) : LockedSection → Option Desktop
  | .guiMouseMove dx dy => (guiMouseMove d dx dy).map Prod.fst
  | .windowSendmsgMouse x y evt => (windowSendmsgMouse d x y evt).map Prod.fst
  | .windowInvalidate w rt => windowInvalidate d w rt

/-- A step, if it has a behaviour. -/
def Redraw.exec (s : Redraw) : RedrawEvent → Result (Option Redraw)
  | .draw => drawStep s
  | .locked code => return (LockedSection.exec s.desktop code).map fun desktop => { s with desktop }

end RubberOS.Model.Gui.Checked
