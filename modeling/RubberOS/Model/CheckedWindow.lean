import RubberOS.Model.CheckedGraphic

/-! # The drawing of the screen in the arithmetic of C

The functions of `window.c` that draw, which write to cells of the backbuffer and copy cells of it to the frontbuffer.
-/

namespace RubberOS.Model.Gui.Checked

def scrToWin (w : Window) (rt : Rect) : Option Rect := do
  let x ← int (rt.x - w.scrRect.x)
  let y ← int (rt.y - w.scrRect.y)
  return ⟨x, y, rt.width, rt.height⟩

def winToScr (w : Window) (rt : Rect) : Option Rect := do
  let x ← int (rt.x + w.scrRect.x)
  let y ← int (rt.y + w.scrRect.y)
  return ⟨x, y, rt.width, rt.height⟩

section Drawing

variable (font : ℕ → BitVec 8)

/-- The end of `draw_window`: the window procedure gets a graphic for the client area. -/
def paintClient (w : Window) (g : Graphic) (client : Rect) (proc : Graphic → List DrawCall) :
    Option (List Cell × Graphic) := do
  let clientInv ← rectIntersect w.winInvalidated client
  let clientScr ← winToScr w client
  let g ← graphicSetOffset g (some clientScr)
  let x ← int (clientInv.x - client.x)
  let y ← int (clientInv.y - client.y)
  let g ← graphicSetClipping g (some ⟨x, y, clientInv.width, clientInv.height⟩)
  let painted ← eachOf (drawCall font g) (proc g)
  return (painted, g)

/-- The part of `draw_window` before the window procedure: the writes and the client area. -/
def drawFrame (w : Window) (g : Graphic) : Option (List Cell × Rect) := do
  let outer ← graphicDrawRect g 0 0 w.scrRect.width w.scrRect.height BORDER1 0x2f2f2f
  let innerWidth ← int (w.scrRect.width - 2 * BORDER1)
  let innerHeight ← int (w.scrRect.height - 2 * BORDER1)
  let inner ← graphicDrawRect g BORDER1 BORDER1 innerWidth innerHeight BORDER2 0x3f3f3f
  let border := BORDER1 + BORDER2
  let inborderWidth ← int (w.scrRect.width - 2 * border)
  let inborderHeight ← int (w.scrRect.height - 2 * border)
  let titleHeight := if inborderHeight > TITLE_HEIGHT then TITLE_HEIGHT else inborderHeight
  let titleBar ← graphicFillRect g border border inborderWidth titleHeight 0x5f5f5f
  let titleWidth ← int (inborderWidth - TITLE_X_MARGIN)
  let titleStr : Rect := ⟨border + TITLE_X_MARGIN, border + 2, titleWidth, 16⟩
  let titleText ← graphicDrawString font g titleStr w.title 0x000000 false
  let clientHeight ← int (inborderHeight - TITLE_HEIGHT)
  let client : Rect := ⟨border, border + TITLE_HEIGHT, inborderWidth, clientHeight⟩
  let background ← graphicFillRect g client.x client.y client.width client.height w.bgColor
  return (outer ++ inner ++ titleBar ++ titleText ++ background, client)

/-- `draw_window`: the writes, the window and the graphic. -/
def drawWindow (w : Window) (g : Graphic) : Option (List Cell × Window × Graphic) := do
  let g ← graphicSetOffset g (some w.scrRect)
  let g ← graphicSetClipping g (some w.winInvalidated)
  let (frame, client) ← drawFrame font w g
  match w.proc with
  | some proc =>
    let (painted, g) ← paintClient font w g client proc
    return (frame ++ painted, { w with winInvalidated := ⟨0, 0, 0, 0⟩ }, g)
  | none => return (frame, { w with winInvalidated := ⟨0, 0, 0, 0⟩ }, g)

def drawMouse (g : Graphic) (x y : ℤ) : Option (List Cell) :=
  eachOf (fun (yi : ℕ) => eachOf (fun (xi : ℕ) =>
    match cursorColor xi yi with
    | some color => do
      let column ← int (x + xi)
      let row ← int (y + yi)
      graphicDrawPixel g column row color
    | none => some []) (List.range MOUSE_WIDTH)) (List.range MOUSE_HEIGHT)

/-- The outline of the window that is being moved. -/
def drawOutline (wm : Winman) (g : Graphic) : Option (List Cell) :=
  if wm.sizing then
    graphicDrawRectXor g wm.sizingRect.x wm.sizingRect.y wm.sizingRect.width wm.sizingRect.height 2 0xffffff
  else some []

/-- What `gui_draw_all` does. -/
structure Drawn where
  writes : List (Layer × Cell)
  copies : List CellCopy
  winman : Winman

/-- The backbuffer after the drawing. -/
def Drawn.backCells (drawn : Drawn) (back : ℕ → Color) : ℕ → Color :=
  (drawn.writes.map Prod.snd).foldl Cell.store back

/-- The frontbuffer after the final copy, which reads the backbuffer after the drawing. -/
def Drawn.frontCells (drawn : Drawn) (front back : ℕ → Color) : ℕ → Color :=
  drawn.copies.foldl (CellCopy.store (drawn.backCells back)) front

/-- The loop over the windows: the writes, the graphic, the rectangle to copy and the windows. -/
def drawWindows (gi : Rect) (index : ℕ) (g : Graphic) (inv : Rect) :
    List Window → Option (List (Layer × Cell) × Graphic × Rect × List Window)
  | [] => some ([], g, inv, [])
  | w :: rest => do
    let wiScr ← rectIntersect w.scrRect gi
    let wiWin ← scrToWin w wiScr
    let winInvalidated ← rectUnion w.winInvalidated wiWin
    let w := { w with winInvalidated }
    let scrInv ← winToScr w w.winInvalidated
    let inv ← rectUnion inv scrInv
    let (writes, w, g) ← drawWindow font w g
    let (more, g, inv, rest) ← drawWindows gi (index + 1) g inv rest
    return (writes.map (Prod.mk (.window index)) ++ more, g, inv, w :: rest)

/-- `gui_draw_all` behind its assertion. -/
def drawAll (fi : FbInfo) (wm : Winman) : Option Drawn := do
  let gi := wm.globalInvalidated
  let screen : Rect := ⟨0, 0, wm.scrSize.width, wm.scrSize.height⟩
  let g ← graphicSetOffset wm.backbuffer (some screen)
  let g ← graphicSetClipping g (some gi)
  let background ← graphicFillRect g 0 0 wm.scrSize.width wm.scrSize.height wm.bgColor
  let (windows, g, inv, windowList) ← drawWindows font gi 0 g gi (drawList wm.windowList)
  let g ← graphicSetOffset g (some screen)
  let g ← graphicSetClipping g (some gi)
  let outline ← drawOutline wm g
  let cursor ← drawMouse g wm.mousePos.x wm.mousePos.y
  let front := surface (fi.pitch / 4) fi.width fi.height
  let copies ← graphicBitblt front inv.x inv.y inv.width inv.height g inv.x inv.y
  return { writes := background.map (Prod.mk .background) ++ windows ++ outline.map (Prod.mk .outline) ++
             cursor.map (Prod.mk .cursor),
           copies,
           winman := { wm with backbuffer := g, painting := false, windowList, globalInvalidated := ⟨0, 0, 0, 0⟩ } }

def guiDrawAll (fi : FbInfo) (wm : Winman) : Result (Option Drawn) := do
  assert (!wm.painting) "!g_winman.painting"
  return drawAll font fi wm

end Drawing

end RubberOS.Model.Gui.Checked
