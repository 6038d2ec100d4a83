import RubberOS.Model.Shapes

/-! # Drawing on a surface

A drawing function returns the writes to the framebuffer that it makes, in order. A write is kept
with its column and row: it goes to the cell `column + row * pitch`.
-/

namespace RubberOS.Model.Gui

/-- `color_t`. -/
abbrev Color := BitVec 32

/-- `struct graphic`, less its framebuffer. -/
structure Graphic where
  pitch : ℕ
  width : ℕ
  height : ℕ
  offset : Rect
  clipping : Rect
deriving DecidableEq, Repr

/-- What a write does with the colour in its cell. -/
inductive Paint where
  | set (color : Color)
  | xor (color : Color)
deriving DecidableEq, Repr

structure Write where
  column : ℤ
  row : ℤ
  paint : Paint
deriving DecidableEq, Repr

/-- The fields of `struct fb_info` that drawing reads. -/
structure FbInfo where
  pitch : ℕ
  width : ℕ
  height : ℕ

/-- `graphic_from_fb`; a cell of the framebuffer has four bytes. -/
def graphicFromFb (fi : FbInfo) : Graphic where
  pitch := fi.pitch / 4
  width := fi.width
  height := fi.height
  offset := ⟨0, 0, fi.width, fi.height⟩
  clipping := ⟨0, 0, fi.width, fi.height⟩

def graphicSetClipping (g : Graphic) (rt : Option Rect) : Graphic :=
  let ow := min g.offset.width (g.width - g.offset.x)
  let oh := min g.offset.height (g.height - g.offset.y)
  let x := -min 0 g.offset.x
  let y := -min 0 g.offset.y
  let w := max (ow - x) 0
  let h := max (oh - y) 0
  let base : Rect := ⟨x, y, w, h⟩
  { g with clipping := match rt with
                       | some rt => rectIntersect rt base
                       | none => base }

def graphicSetOffset (g : Graphic) (rt : Option Rect) : Graphic :=
  let base : Rect := ⟨0, 0, g.width, g.height⟩
  graphicSetClipping { g with offset := rt.getD base } none

def graphicDrawPixel (g : Graphic) (x y : ℤ) (color : Color) : List Write :=
  if rectContains g.clipping x y then [⟨x + g.offset.x, y + g.offset.y, .set color⟩] else []

/-- The loops of `graphic_fill_rect` and `graphic_fill_rect_xor`. -/
def fillRectWith (g : Graphic) (x y width height : ℤ) (paint : Paint) : List Write :=
  let r := rectIntersect g.clipping ⟨x, y, width, height⟩
  (List.range r.height.toNat).flatMap fun (yi : ℕ) =>
    (List.range r.width.toNat).map fun (xi : ℕ) => ⟨g.offset.x + r.x + xi, g.offset.y + r.y + yi, paint⟩

/-- The four strips of `graphic_draw_rect` and `graphic_draw_rect_xor`. -/
def drawRectWith (g : Graphic) (x y width height thickness : ℤ) (paint : Paint) : List Write :=
  fillRectWith g x y width thickness paint ++
  fillRectWith g x (y + height - thickness) width thickness paint ++
  fillRectWith g x (y + thickness) thickness (height - 2 * thickness) paint ++
  fillRectWith g (x + width - thickness) (y + thickness) thickness (height - 2 * thickness) paint

def graphicFillRect (g : Graphic) (x y width height : ℤ) (color : Color) : List Write :=
  fillRectWith g x y width height (.set color)

def graphicFillRectXor (g : Graphic) (x y width height : ℤ) (color : Color) : List Write :=
  fillRectWith g x y width height (.xor color)

def graphicDrawRect (g : Graphic) (x y width height thickness : ℤ) (color : Color) : List Write :=
  drawRectWith g x y width height thickness (.set color)

def graphicDrawRectXor (g : Graphic) (x y width height thickness : ℤ) (color : Color) : List Write :=
  drawRectWith g x y width height thickness (.xor color)

/-- `graphic_draw_char` with the bytes of `g_ascii_font`. -/
def graphicDrawChar (font : ℕ → BitVec 8) (g : Graphic) (x y : ℤ) (c : BitVec 8) (color : Color) : List Write :=
  (List.range 16).flatMap fun yi =>
    (List.range 8).flatMap fun xi =>
      if (font (c.toNat * 16 + yi)).getMsbD xi then graphicDrawPixel g (x + xi) (y + yi) color else []

/-- The loop of `graphic_draw_string` over the characters left, at a place. -/
def drawChars (font : ℕ → BitVec 8) (g : Graphic) (rt : Rect) (color : Color) (wrap : Bool) (x y : ℤ) :
    List (BitVec 8) → List Write
  | [] => []
  | c :: rest =>
    if c = 10 then drawChars font g rt color wrap rt.x (y + 16) rest
    else if !wrap && x ≥ g.clipping.x + g.clipping.width then []
    else if wrap && x + 8 > g.clipping.x + g.clipping.width then
      graphicDrawChar font g rt.x (y + 16) c color ++ drawChars font g rt color wrap (rt.x + 8) (y + 16) rest
    else graphicDrawChar font g x y c color ++ drawChars font g rt color wrap (x + 8) y rest

def graphicDrawString (font : ℕ → BitVec 8) (g : Graphic) (rt : Rect) (str : List (BitVec 8)) (color : Color)
    (wrap : Bool) : List Write :=
  drawChars font { g with clipping := rectIntersect g.clipping rt } rt color wrap rt.x rt.y str

/-- A call that a window procedure makes on the graphic it is given. -/
inductive DrawCall where
  | pixel (x y : ℤ) (color : Color)
  | fillRect (x y width height : ℤ) (color : Color)
  | fillRectXor (x y width height : ℤ) (color : Color)
  | drawRect (x y width height thickness : ℤ) (color : Color)
  | drawRectXor (x y width height thickness : ℤ) (color : Color)
  | char (x y : ℤ) (c : BitVec 8) (color : Color)
  | string (rt : Rect) (str : List (BitVec 8)) (color : Color) (wrap : Bool)

def DrawCall.exec (font : ℕ → BitVec 8) (g : Graphic) : DrawCall → List Write
  | .pixel x y color => graphicDrawPixel g x y color
  | .fillRect x y width height color => graphicFillRect g x y width height color
  | .fillRectXor x y width height color => graphicFillRectXor g x y width height color
  | .drawRect x y width height thickness color => graphicDrawRect g x y width height thickness color
  | .drawRectXor x y width height thickness color => graphicDrawRectXor g x y width height thickness color
  | .char x y c color => graphicDrawChar font g x y c color
  | .string rt str color wrap => graphicDrawString font g rt str color wrap

/-- A cell copied between two framebuffers. -/
structure Copy where
  toColumn : ℤ
  toRow : ℤ
  fromColumn : ℤ
  fromRow : ℤ
deriving DecidableEq, Repr

def graphicBitblt (g : Graphic) (x y cx cy : ℤ) (g0 : Graphic) (x0 y0 : ℤ) : List Copy :=
  let dstRect : Rect := ⟨x, y, cx, cy⟩
  let clippedDst := rectIntersect g.clipping dstRect
  let skipX := clippedDst.x - dstRect.x
  let skipY := clippedDst.y - dstRect.y
  let skippedSrc : Rect := ⟨x0 + skipX, y0 + skipY, cx - skipX, cy - skipY⟩
  let copyWidth := min clippedDst.width skippedSrc.width
  let copyHeight := min clippedDst.height skippedSrc.height
  (List.range copyHeight.toNat).flatMap fun (yi : ℕ) =>
    (List.range copyWidth.toNat).map fun (xi : ℕ) =>
      { toColumn := g.offset.x + clippedDst.x + xi, toRow := g.offset.y + clippedDst.y + yi,
        fromColumn := g0.offset.x + skippedSrc.x + xi, fromRow := g0.offset.y + skippedSrc.y + yi }

end RubberOS.Model.Gui
