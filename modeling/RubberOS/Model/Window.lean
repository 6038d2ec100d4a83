import RubberOS.Model.Graphic

/-! # Windows and the drawing of the screen

`gui_draw_all` returns the writes to the backbuffer that it makes, each with the layer that makes it,
and the copies to the frontbuffer. A window procedure answers `WM_PAINT` with drawing calls on the
graphic it is given.
-/

namespace RubberOS.Model.Gui

/-- The fields of `struct window` that drawing uses. -/
structure Window where
  title : List (BitVec 8)
  scrRect : Rect
  bgColor : Color
  winInvalidated : Rect
  proc : Option (Graphic → List DrawCall)

/-- The fields of `struct winman` that drawing uses. The last window of the list is on top. -/
structure Winman where
  backbuffer : Graphic
  painting : Bool
  sizingRect : Rect
  sizing : Bool
  windowList : List Window
  scrSize : Size
  mousePos : Point
  globalInvalidated : Rect
  bgColor : Color

def BORDER1 : ℤ := 1

def BORDER2 : ℤ := 2

def TITLE_X_MARGIN : ℤ := 20

def TITLE_Y_MARGIN : ℤ := 2

def TITLE_HEIGHT : ℤ := 16 + 2 * TITLE_Y_MARGIN

def scrToWin (w : Window) (rt : Rect) : Rect := ⟨rt.x - w.scrRect.x, rt.y - w.scrRect.y, rt.width, rt.height⟩

def winToScr (w : Window) (rt : Rect) : Rect := ⟨rt.x + w.scrRect.x, rt.y + w.scrRect.y, rt.width, rt.height⟩

section Drawing

variable (font : ℕ → BitVec 8)

/-- `draw_window`: the writes, the window and the graphic. -/
def drawWindow (w : Window) (g : Graphic) : List Write × Window × Graphic :=
  let g := graphicSetOffset g (some w.scrRect)
  let g := graphicSetClipping g (some w.winInvalidated)
  let outer := graphicDrawRect g 0 0 w.scrRect.width w.scrRect.height BORDER1 0x2f2f2f
  let inner := graphicDrawRect g BORDER1 BORDER1 (w.scrRect.width - 2 * BORDER1) (w.scrRect.height - 2 * BORDER1)
    BORDER2 0x3f3f3f
  let border := BORDER1 + BORDER2
  let inborderWidth := w.scrRect.width - 2 * border
  let inborderHeight := w.scrRect.height - 2 * border
  let titleHeight := if inborderHeight > TITLE_HEIGHT then TITLE_HEIGHT else inborderHeight
  let titleBar := graphicFillRect g border border inborderWidth titleHeight 0x5f5f5f
  let titleStr : Rect := ⟨border + TITLE_X_MARGIN, border + 2, inborderWidth - TITLE_X_MARGIN, 16⟩
  let titleText := graphicDrawString font g titleStr w.title 0x000000 false
  let client : Rect := ⟨border, border + TITLE_HEIGHT, inborderWidth, inborderHeight - TITLE_HEIGHT⟩
  let background := graphicFillRect g client.x client.y client.width client.height w.bgColor
  let frame := outer ++ inner ++ titleBar ++ titleText ++ background
  match w.proc with
  | some proc =>
    let clientInv := rectIntersect w.winInvalidated client
    let clientScr := winToScr w client
    let g := graphicSetOffset g (some clientScr)
    let g := graphicSetClipping g
      (some ⟨clientInv.x - client.x, clientInv.y - client.y, clientInv.width, clientInv.height⟩)
    (frame ++ (proc g).flatMap (DrawCall.exec font g), { w with winInvalidated := ⟨0, 0, 0, 0⟩ }, g)
  | none => (frame, { w with winInvalidated := ⟨0, 0, 0, 0⟩ }, g)

/-! ## The cursor -/

def MOUSE_WIDTH : ℕ := 13

def MOUSE_HEIGHT : ℕ := 19

/-- The arrow in `blocks`. -/
def mouseBlock : List Char :=
  "*............".toList ++
  "**...........".toList ++
  "*-*..........".toList ++
  "*o-*.........".toList ++
  "*oo-*........".toList ++
  "*ooo-*.......".toList ++
  "*oooo-*......".toList ++
  "*ooooo-*.....".toList ++
  "*oooooo-*....".toList ++
  "*ooooooo-*...".toList ++
  "*oooooooo-*..".toList ++
  "*ooooooooo-*.".toList ++
  "*oooooo******".toList ++
  "*ooo*-o*.....".toList ++
  "*oo*.*oo*....".toList ++
  "*-*..*-o*....".toList ++
  "**....*oo*...".toList ++
  "*.....*--*...".toList ++
  ".......**....".toList

/-- The colour of a cell of the cursor, unless the cell is transparent. -/
def cellColor (c : Char) : Option Color :=
  match c with
  | '*' => some 0x000000
  | '@' => some 0x404040
  | '/' => some 0x808080
  | '-' => some 0xc0c0c0
  | 'o' => some 0xffffff
  | _ => none

/-- The colour of the cursor at a place in it. -/
def cursorColor (xi yi : ℕ) : Option Color := cellColor (mouseBlock.getD (yi * MOUSE_WIDTH + xi) '.')

def drawMouse (g : Graphic) (x y : ℤ) : List Write :=
  (List.range MOUSE_HEIGHT).flatMap fun yi =>
    (List.range MOUSE_WIDTH).flatMap fun xi =>
      match cursorColor xi yi with
      | some color => graphicDrawPixel g (x + xi) (y + yi) color
      | none => []

/-! ## The screen -/

/-- Who writes to the backbuffer: a window is known by its place in the list of windows. -/
inductive Layer where
  | background
  | window (index : ℕ)
  | outline
  | cursor
deriving DecidableEq, Repr

/-- What `gui_draw_all` does. -/
structure Drawn where
  writes : List (Layer × Write)
  copies : List Copy
  winman : Winman

/-- The windows in the order in which `gui_draw_all` links them, from the last one on. -/
def drawList (windowList : List Window) : List Window :=
  windowList.reverse.foldl (fun drawList w => w :: drawList) []

/-- The loop over the windows: the writes, the graphic, the rectangle to copy and the windows. -/
def drawWindows (gi : Rect) (index : ℕ) (g : Graphic) (inv : Rect) :
    List Window → List (Layer × Write) × Graphic × Rect × List Window
  | [] => ([], g, inv, [])
  | w :: rest =>
    let wiScr := rectIntersect w.scrRect gi
    let wiWin := scrToWin w wiScr
    let w := { w with winInvalidated := rectUnion w.winInvalidated wiWin }
    let scrInv := winToScr w w.winInvalidated
    let inv := rectUnion inv scrInv
    let (writes, w, g) := drawWindow font w g
    let (more, g, inv, rest) := drawWindows gi (index + 1) g inv rest
    (writes.map (Prod.mk (.window index)) ++ more, g, inv, w :: rest)

def guiDrawAll (fi : FbInfo) (wm : Winman) : Result Drawn := do
  let gi := wm.globalInvalidated
  assert (!wm.painting) "!g_winman.painting"
  let screen : Rect := ⟨0, 0, wm.scrSize.width, wm.scrSize.height⟩
  let g := graphicSetClipping (graphicSetOffset wm.backbuffer (some screen)) (some gi)
  let background := graphicFillRect g 0 0 wm.scrSize.width wm.scrSize.height wm.bgColor
  let (windows, g, inv, windowList) := drawWindows font gi 0 g gi (drawList wm.windowList)
  let g := graphicSetClipping (graphicSetOffset g (some screen)) (some gi)
  let outline :=
    if wm.sizing then
      graphicDrawRectXor g wm.sizingRect.x wm.sizingRect.y wm.sizingRect.width wm.sizingRect.height 2 0xffffff
    else []
  let cursor := drawMouse g wm.mousePos.x wm.mousePos.y
  let copies := graphicBitblt (graphicFromFb fi) inv.x inv.y inv.width inv.height g inv.x inv.y
  return { writes := background.map (Prod.mk .background) ++ windows ++ outline.map (Prod.mk .outline) ++
             cursor.map (Prod.mk .cursor),
           copies,
           winman := { wm with backbuffer := g, painting := false, windowList, globalInvalidated := ⟨0, 0, 0, 0⟩ } }

end Drawing

end RubberOS.Model.Gui
