import RubberOS.Model.Arraylist
import RubberOS.Model.Window

/-! # The terminal window

The characters are bytes at the addresses `0` to `80 * 25 - 1`, and an access beyond them is a fault. What
a function asks the window manager to invalidate is part of its result, in order.
-/

namespace RubberOS.Model.Gui

open Collections

def TTYW_WIDTH : ℕ := 80

def TTYW_HEIGHT : ℕ := 25

def CW : ℕ := 8

def CH : ℕ := 16

/-- `struct tty_window`, less its links; the cursors are `uint16_t`. -/
structure TtyWindow where
  buffer : Memory
  cursorX : ℕ
  cursorY : ℕ

/-- The extent of `buffer`. -/
def ttyBuffer : TaggedPtr := ⟨0, TTYW_WIDTH * TTYW_HEIGHT⟩

/-- The arguments of the calls of `window_invalidate`. -/
abbrev Invalidations := List (Option Rect)

/-- `struct lines`. -/
structure Lines where
  begin_ : ℕ
  end_ : ℕ
deriving DecidableEq, Repr

def linesUnion (a b : Lines) : Lines :=
  if b.begin_ = b.end_ then a
  else if a.begin_ = a.end_ then b
  else ⟨min a.begin_ b.begin_, max a.end_ b.end_⟩

/-- `memset` on the buffer. -/
def fillBuffer (buffer : Memory) (dest : ℕ) (ch : BitVec 8) (count : ℕ) : Result Memory :=
  if ttyBuffer.holds dest count then .ok (memset buffer dest ch count) else .error .outOfBounds

def scroll (tw : TtyWindow) : Result (TtyWindow × Invalidations) := do
  let buffer ← copy memmove tw.buffer ttyBuffer ttyBuffer 0 TTYW_WIDTH (TTYW_WIDTH * (TTYW_HEIGHT - 1))
  let buffer ← fillBuffer buffer (TTYW_WIDTH * (TTYW_HEIGHT - 1)) 32 TTYW_WIDTH
  let tw := { tw with buffer }
  let tw := if tw.cursorY > 0 then { tw with cursorY := tw.cursorY - 1 } else { tw with cursorX := 0 }
  return (tw, [none])

def newline (tw : TtyWindow) : Result (Lines × TtyWindow × Invalidations) := do
  let tw := { tw with cursorX := 0, cursorY := u16 (tw.cursorY + 1) }
  if tw.cursorY ≥ TTYW_HEIGHT then do
    let (tw, calls) ← scroll tw
    return (⟨0, TTYW_HEIGHT⟩, tw, calls)
  else return (⟨u16 (tw.cursorY + 2 ^ 16 - 1), tw.cursorY + 1⟩, tw, [])

def writeOne (tw : TtyWindow) (ch : BitVec 8) : Result (Lines × TtyWindow × Invalidations) :=
  if ch = 10 then newline tw
  else do
    let index := tw.cursorY * TTYW_WIDTH + tw.cursorX
    if ¬ ttyBuffer.holds index 1 then .error .outOfBounds
    let tw := { tw with buffer := Function.update tw.buffer index ch, cursorX := u16 (tw.cursorX + 1) }
    if tw.cursorX ≥ TTYW_WIDTH then newline tw
    else return (⟨tw.cursorY, u16 (tw.cursorY + 1)⟩, tw, [])

/-- The argument of `window_invalidate` in `invalidate_lines`. -/
def invalidateLines (lines : Lines) : Option Rect :=
  some ⟨0, lines.begin_ * CH, TTYW_WIDTH * CW, ((lines.end_ : ℤ) - lines.begin_) * CH⟩

/-- The loop of `write` over the bytes of a string, up to the first null byte. -/
def writeBytes (tw : TtyWindow) (lines : Lines) : List (BitVec 8) → Result (Lines × TtyWindow × Invalidations)
  | [] => .ok (lines, tw, [])
  | ch :: rest =>
    if ch = 0 then .ok (lines, tw, [])
    else do
      let (written, tw, calls) ← writeOne tw ch
      let (lines, tw, more) ← writeBytes tw (linesUnion lines written) rest
      return (lines, tw, calls ++ more)

/-- `write`. -/
def ttyWrite (tw : TtyWindow) (str : List (BitVec 8)) : Result (TtyWindow × Invalidations) := do
  let (lines, tw, calls) ← writeBytes tw ⟨0, 0⟩ str
  return (tw, calls ++ [invalidateLines lines])

/-- `proc` on `WM_CHAR`. -/
def ttyChar (tw : TtyWindow) (ch : BitVec 8) : Result (TtyWindow × Invalidations) := do
  let (lines, tw, calls) ← writeOne tw ch
  return (tw, calls ++ [invalidateLines lines])

def CURSOR_THICKNESS : ℤ := 4

def BOX_RADIUS : ℤ := 5

/-- `proc` on `WM_PAINT`, where `rp` is the place of the box. -/
def ttyPaint (tw : TtyWindow) (rp : Point) (g : Graphic) : List DrawCall :=
  let cy := max (g.clipping.y.tdiv CH) 0
  let cx := max (g.clipping.x.tdiv CW) 0
  let cheight := min ((g.clipping.y + g.clipping.height + CH - 1).tdiv CH) TTYW_HEIGHT
  let cwidth := min ((g.clipping.x + g.clipping.width + CW - 1).tdiv CW) TTYW_WIDTH
  let characters := (List.range (cheight - cy).toNat).flatMap fun (yi : ℕ) =>
    (List.range (cwidth - cx).toNat).map fun (xi : ℕ) =>
      let y := cy + yi
      let x := cx + xi
      DrawCall.char (x * CW) (y * CH) (tw.buffer (y * TTYW_WIDTH + x).toNat) 0x000000
  characters ++
    [.fillRect (tw.cursorX * CW) ((tw.cursorY + 1) * CH - CURSOR_THICKNESS) CW CURSOR_THICKNESS 0x1f1f1f,
     .fillRect (rp.x - BOX_RADIUS) (rp.y - BOX_RADIUS) BOX_RADIUS BOX_RADIUS 0xff0000]

/-- `tty_window_init` on the object as it is found: the cursors are not written. -/
def ttyWindowInit (tw : TtyWindow) : Result TtyWindow := do
  let buffer ← fillBuffer tw.buffer 0 32 (TTYW_WIDTH * TTYW_HEIGHT)
  return { tw with buffer }

/-- A string written to the terminal, or a character typed into it. -/
inductive TtyInput where
  | write (str : List (BitVec 8))
  | char (ch : BitVec 8)

def TtyWindow.feed (tw : TtyWindow) : TtyInput → Result (TtyWindow × Invalidations)
  | .write str => ttyWrite tw str
  | .char ch => ttyChar tw ch

end RubberOS.Model.Gui
