import RubberOS.Model.Desktop

/-! # Drawing while others invalidate

`gui_draw_all` in steps, of which the first and the last are its locked sections. Between any two of them
a locked section of another function can run, since the lock is free then. A step of the drawing reads or
writes the fields of one window; the pixels it draws are left out.
-/

namespace RubberOS.Model.Gui

/-- How far the drawing is with the next window of its list. -/
inductive DrawPoint where
  | start
  /-- `rect_union` has returned this for `win_invalidated`. -/
  | united (rt : Rect)
  | stored
  | collected
  /-- `draw_window` has clipped to this and draws. -/
  | clipped (clipping : Rect)
deriving DecidableEq, Repr

/-- Where `gui_draw_all` is. While it draws it has the damage it read under the lock, the rectangle to copy
and the windows left to draw. -/
inductive DrawPhase where
  | idle
  | drawing (gi inv : Rect) (drawList : List ℕ) (point : DrawPoint)

structure Redraw where
  desktop : Desktop
  phase : DrawPhase

/-- The next step of `gui_draw_all`, or a call of it. -/
def drawStep (s : Redraw) : Result Redraw :=
  let d := s.desktop
  match s.phase with
  | .idle => do
    assert (!d.painting) "!g_winman.painting"
    let drawList := d.windowList.reverse.foldl (fun drawList w => w :: drawList) []
    return ⟨{ d with painting := true }, .drawing d.globalInvalidated d.globalInvalidated drawList .start⟩
  | .drawing _ _ [] _ => return ⟨{ d with globalInvalidated := ⟨0, 0, 0, 0⟩, painting := false }, .idle⟩
  | .drawing gi inv (w :: rest) .start =>
    let wiScr := rectIntersect (d.window w).scrRect gi
    let wiWin := scrToWin (d.window w).toWindow wiScr
    return ⟨d, .drawing gi inv (w :: rest) (.united (rectUnion (d.window w).winInvalidated wiWin))⟩
  | .drawing gi inv (w :: rest) (.united rt) =>
    return ⟨d.setWindow w fun w => { w with winInvalidated := rt }, .drawing gi inv (w :: rest) .stored⟩
  | .drawing gi inv (w :: rest) .stored =>
    let scrInv := winToScr (d.window w).toWindow (d.window w).winInvalidated
    return ⟨d, .drawing gi (rectUnion inv scrInv) (w :: rest) .collected⟩
  | .drawing gi inv (w :: rest) .collected =>
    return ⟨d, .drawing gi inv (w :: rest) (.clipped (d.window w).winInvalidated)⟩
  | .drawing gi inv (w :: rest) (.clipped _) =>
    return ⟨d.setWindow w fun w => { w with winInvalidated := ⟨0, 0, 0, 0⟩ }, .drawing gi inv rest .start⟩

/-- A locked section that invalidates. -/
inductive LockedSection where
  | guiMouseMove (dx dy : ℤ)
  | windowSendmsgMouse (x y : ℤ) (evt : GuiMouseEvent)
  | windowInvalidate (w : ℕ) (rt : Option Rect)

def LockedSection.exec (d : Desktop) : LockedSection → Desktop
  | .guiMouseMove dx dy => (Gui.guiMouseMove d dx dy).1
  | .windowSendmsgMouse x y evt => (Gui.windowSendmsgMouse d x y evt).1
  | .windowInvalidate w rt => Gui.windowInvalidate d w rt

inductive RedrawEvent where
  | draw
  | locked (code : LockedSection)

def Redraw.exec (s : Redraw) : RedrawEvent → Result Redraw
  | .draw => drawStep s
  | .locked code => return { s with desktop := code.exec s.desktop }

end RubberOS.Model.Gui
