import RubberOS.Model.Framebuffer

/-! # Rectangles and drawing in the arithmetic of C

The functions of `shapes.c` and `graphic.c` in the arithmetic of their C types. A sum that leaves `int` has no
behaviour, and a function that computes one has no result here. The index of a cell is a `uint32_t`, to which the
column and the row are converted. Whatever result a function has is the one with unbounded integers.
-/

namespace RubberOS.Model.Gui.Checked

/-- The value of an `int` expression, if `int` holds it. -/
def int (value : ℤ) : Option ℤ := if -2 ^ 31 ≤ value ∧ value < 2 ^ 31 then some value else none

/-- `(int)` of a `uint32_t`. -/
def toInt (n : ℕ) : ℤ := if u32 n < 2 ^ 31 then u32 n else u32 n - 2 ^ 32

def rectContains (r : Rect) (x y : ℤ) : Option Bool :=
  if r.x ≤ x then do
    let right ← int (r.x + r.width)
    if x < right ∧ r.y ≤ y then
      let bottom ← int (r.y + r.height)
      return y < bottom
    else return false
  else return false

def rectIntersect (r1 r2 : Rect) : Option Rect := do
  let x := max r1.x r2.x
  let y := max r1.y r2.y
  let right1 ← int (r1.x + r1.width)
  let right2 ← int (r2.x + r2.width)
  let width ← int (min right1 right2 - x)
  let bottom1 ← int (r1.y + r1.height)
  let bottom2 ← int (r2.y + r2.height)
  let height ← int (min bottom1 bottom2 - y)
  return if width < 0 ∨ height < 0 then ⟨x, y, 0, 0⟩ else ⟨x, y, width, height⟩

def rectUnion (r1 r2 : Rect) : Option Rect :=
  if r2.width = 0 ∨ r2.height = 0 then some r1
  else if r1.width = 0 ∨ r1.height = 0 then some r2
  else do
    let x := min r1.x r2.x
    let y := min r1.y r2.y
    let right1 ← int (r1.x + r1.width)
    let right2 ← int (r2.x + r2.width)
    let width ← int (max right1 right2 - x)
    let bottom1 ← int (r1.y + r1.height)
    let bottom2 ← int (r2.y + r2.height)
    let height ← int (max bottom1 bottom2 - y)
    return ⟨x, y, width, height⟩

/-- The graphic that `graphic_from_fb` and `graphic_create_memory` make of a framebuffer. -/
def surface (pitch width height : ℕ) : Graphic where
  pitch := pitch
  width := width
  height := height
  offset := ⟨0, 0, toInt width, toInt height⟩
  clipping := ⟨0, 0, toInt width, toInt height⟩

def graphicSetClipping (g : Graphic) (rt : Option Rect) : Option Graphic := do
  let right ← int (toInt g.width - g.offset.x)
  let bottom ← int (toInt g.height - g.offset.y)
  let ow := min g.offset.width right
  let oh := min g.offset.height bottom
  let x ← int (-min 0 g.offset.x)
  let y ← int (-min 0 g.offset.y)
  let w ← int (ow - x)
  let h ← int (oh - y)
  let base : Rect := ⟨x, y, max w 0, max h 0⟩
  match rt with
  | some rt =>
    let clipping ← rectIntersect rt base
    return { g with clipping }
  | none => return { g with clipping := base }

def graphicSetOffset (g : Graphic) (rt : Option Rect) : Option Graphic :=
  let base : Rect := ⟨0, 0, toInt g.width, toInt g.height⟩
  graphicSetClipping { g with offset := rt.getD base } none

/-- A write to the framebuffer, by the index of the cell. -/
structure Cell where
  index : ℕ
  paint : Paint
deriving DecidableEq, Repr

/-- The index `column + row * pitch`, computed in `uint32_t`. -/
def cellIndex (g : Graphic) (column row : ℤ) : ℕ := ((column + row * g.pitch) % 2 ^ 32).toNat

def cell (g : Graphic) (column row : ℤ) (paint : Paint) : Cell := ⟨cellIndex g column row, paint⟩

/-- What the passes of a loop write, in order. -/
def eachOf {ι α : Type} (body : ι → Option (List α)) : List ι → Option (List α)
  | [] => some []
  | i :: rest => do
    let first ← body i
    let later ← eachOf body rest
    return first ++ later

def graphicDrawPixel (g : Graphic) (x y : ℤ) (color : Color) : Option (List Cell) := do
  let inside ← rectContains g.clipping x y
  if inside then
    let column ← int (x + g.offset.x)
    let row ← int (y + g.offset.y)
    return [cell g column row (.set color)]
  else return []

/-- The loops of `graphic_fill_rect` and `graphic_fill_rect_xor`. -/
def fillRectWith (g : Graphic) (x y width height : ℤ) (paint : Paint) : Option (List Cell) := do
  let r ← rectIntersect g.clipping ⟨x, y, width, height⟩
  eachOf (fun (yi : ℕ) => eachOf (fun (xi : ℕ) => do
    let left ← int (g.offset.x + r.x)
    let column ← int (left + xi)
    let top ← int (g.offset.y + r.y)
    let row ← int (top + yi)
    return [cell g column row paint]) (List.range r.width.toNat)) (List.range r.height.toNat)

/-- The four strips of `graphic_draw_rect` and `graphic_draw_rect_xor`. -/
def drawRectWith (g : Graphic) (x y width height thickness : ℤ) (paint : Paint) : Option (List Cell) := do
  let top ← fillRectWith g x y width thickness paint
  let below ← int (y + height)
  let bottomY ← int (below - thickness)
  let bottom ← fillRectWith g x bottomY width thickness paint
  let sideY ← int (y + thickness)
  let twice ← int (2 * thickness)
  let sideHeight ← int (height - twice)
  let left ← fillRectWith g x sideY thickness sideHeight paint
  let beyond ← int (x + width)
  let rightX ← int (beyond - thickness)
  let right ← fillRectWith g rightX sideY thickness sideHeight paint
  return top ++ bottom ++ left ++ right

def graphicFillRect (g : Graphic) (x y width height : ℤ) (color : Color) : Option (List Cell) :=
  fillRectWith g x y width height (.set color)

def graphicFillRectXor (g : Graphic) (x y width height : ℤ) (color : Color) : Option (List Cell) :=
  fillRectWith g x y width height (.xor color)

def graphicDrawRect (g : Graphic) (x y width height thickness : ℤ) (color : Color) : Option (List Cell) :=
  drawRectWith g x y width height thickness (.set color)

def graphicDrawRectXor (g : Graphic) (x y width height thickness : ℤ) (color : Color) : Option (List Cell) :=
  drawRectWith g x y width height thickness (.xor color)

/-- `graphic_draw_char` with the bytes of `g_ascii_font`. -/
def graphicDrawChar (font : ℕ → BitVec 8) (g : Graphic) (x y : ℤ) (c : BitVec 8) (color : Color) :
    Option (List Cell) :=
  eachOf (fun (yi : ℕ) => eachOf (fun (xi : ℕ) =>
    if (font (c.toNat * 16 + yi)).getMsbD xi then do
      let column ← int (x + xi)
      let row ← int (y + yi)
      graphicDrawPixel g column row color
    else return []) (List.range 8)) (List.range 16)

/-- The place of the next character, which begins a row where wrapped text has reached the edge. -/
def wrapPlace (rt : Rect) (edge : ℤ) (wrap : Bool) (place : Point) : Option Point :=
  if wrap then do
    let right ← int (place.x + 8)
    if right > edge then
      let below ← int (place.y + 16)
      return ⟨rt.x, below⟩
    else return place
  else return place

/-- The loop of `graphic_draw_string` over the characters left, at a place. -/
def drawChars (font : ℕ → BitVec 8) (g : Graphic) (rt : Rect) (color : Color) (wrap : Bool) (place : Point) :
    List (BitVec 8) → Option (List Cell)
  | [] => some []
  | c :: rest =>
    if c = 10 then do
      let below ← int (place.y + 16)
      drawChars font g rt color wrap ⟨rt.x, below⟩ rest
    else do
      let edge ← int (g.clipping.x + g.clipping.width)
      if !wrap && place.x ≥ edge then return []
      else
        let place ← wrapPlace rt edge wrap place
        let first ← graphicDrawChar font g place.x place.y c color
        let next ← int (place.x + 8)
        let later ← drawChars font g rt color wrap ⟨next, place.y⟩ rest
        return first ++ later

def graphicDrawString (font : ℕ → BitVec 8) (g : Graphic) (rt : Rect) (str : List (BitVec 8)) (color : Color)
    (wrap : Bool) : Option (List Cell) := do
  let clipping ← rectIntersect g.clipping rt
  drawChars font { g with clipping } rt color wrap ⟨rt.x, rt.y⟩ str

/-- A call of a window procedure. -/
def drawCall (font : ℕ → BitVec 8) (g : Graphic) : DrawCall → Option (List Cell)
  | .pixel x y color => graphicDrawPixel g x y color
  | .fillRect x y width height color => graphicFillRect g x y width height color
  | .fillRectXor x y width height color => graphicFillRectXor g x y width height color
  | .drawRect x y width height thickness color => graphicDrawRect g x y width height thickness color
  | .drawRectXor x y width height thickness color => graphicDrawRectXor g x y width height thickness color
  | .char x y c color => graphicDrawChar font g x y c color
  | .string rt str color wrap => graphicDrawString font g rt str color wrap

/-- A cell of one framebuffer that takes the colour of a cell of another one, by their indices. -/
structure CellCopy where
  target : ℕ
  source : ℕ
deriving DecidableEq, Repr

/-- A pass of the loops of `graphic_bitblt`. -/
def bitbltCell (g g0 : Graphic) (clippedDst skippedSrc : Rect) (yi xi : ℕ) : Option (List CellCopy) := do
  let srcLeft ← int (g0.offset.x + skippedSrc.x)
  let fromColumn ← int (srcLeft + xi)
  let srcTop ← int (g0.offset.y + skippedSrc.y)
  let fromRow ← int (srcTop + yi)
  let dstLeft ← int (g.offset.x + clippedDst.x)
  let toColumn ← int (dstLeft + xi)
  let dstTop ← int (g.offset.y + clippedDst.y)
  let toRow ← int (dstTop + yi)
  return [⟨cellIndex g toColumn toRow, cellIndex g0 fromColumn fromRow⟩]

def graphicBitblt (g : Graphic) (x y cx cy : ℤ) (g0 : Graphic) (x0 y0 : ℤ) : Option (List CellCopy) := do
  let clippedDst ← rectIntersect g.clipping ⟨x, y, cx, cy⟩
  let skipX ← int (clippedDst.x - x)
  let skipY ← int (clippedDst.y - y)
  let srcX ← int (x0 + skipX)
  let srcY ← int (y0 + skipY)
  let srcWidth ← int (cx - skipX)
  let srcHeight ← int (cy - skipY)
  let skippedSrc : Rect := ⟨srcX, srcY, srcWidth, srcHeight⟩
  let copyWidth := min clippedDst.width skippedSrc.width
  let copyHeight := min clippedDst.height skippedSrc.height
  eachOf (fun yi => eachOf (bitbltCell g g0 clippedDst skippedSrc yi) (List.range copyWidth.toNat))
    (List.range copyHeight.toNat)

/-- A call that sets what a graphic shows. -/
inductive Setting where
  | offset (rt : Option Rect)
  | clipping (rt : Option Rect)

def Setting.apply (g : Graphic) : Setting → Option Graphic
  | .offset rt => graphicSetOffset g rt
  | .clipping rt => graphicSetClipping g rt

/-- A call that draws one figure. -/
inductive Figure where
  | pixel (x y : ℤ) (color : Color)
  | fillRect (x y width height : ℤ) (color : Color)
  | fillRectXor (x y width height : ℤ) (color : Color)
  | drawRect (x y width height thickness : ℤ) (color : Color)
  | drawRectXor (x y width height thickness : ℤ) (color : Color)
  | char (x y : ℤ) (c : BitVec 8) (color : Color)

def Figure.exec (font : ℕ → BitVec 8) (g : Graphic) : Figure → Option (List Cell)
  | .pixel x y color => graphicDrawPixel g x y color
  | .fillRect x y width height color => graphicFillRect g x y width height color
  | .fillRectXor x y width height color => graphicFillRectXor g x y width height color
  | .drawRect x y width height thickness color => graphicDrawRect g x y width height thickness color
  | .drawRectXor x y width height thickness color => graphicDrawRectXor g x y width height thickness color
  | .char x y c color => graphicDrawChar font g x y c color

/-- The framebuffer after a copy from another one. -/
def CellCopy.store (source framebuffer : ℕ → Color) (c : CellCopy) : ℕ → Color :=
  Function.update framebuffer c.target (source c.source)

/-- The framebuffer after a write. -/
def Cell.store (framebuffer : ℕ → Color) (c : Cell) : ℕ → Color :=
  Function.update framebuffer c.index (c.paint.apply (framebuffer c.index))

end RubberOS.Model.Gui.Checked
