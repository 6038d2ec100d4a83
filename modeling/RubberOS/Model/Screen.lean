import RubberOS.Model.DrawSteps
import RubberOS.Model.Ps2Keyboard
import RubberOS.Model.TtyWindow

/-! # Windows and their procedures

The kernel has one window procedure, that of the terminal window. A window that has it keeps its
`struct tty_window` in `terminal`, and what it paints follows that. The messages to window procedures are
part of the results, in order.
-/

namespace RubberOS.Model.Gui

open Ps2

/-- `enum window_message` with the parameters, less `WM_PAINT`. -/
inductive WindowMessage where
  | mouse (evt : GuiMouseEvent)
  | key (evt : HidKeyevent)
  | char (c : HidChar)
deriving DecidableEq, Repr

/-- The messages that were sent, each with its window. -/
abbrev Sent := List (ℕ × WindowMessage)

/-- The window manager, what terminal windows have as their data, and the static variable of `proc`. -/
structure Screen extends MouseState where
  terminal : ℕ → TtyWindow
  rp : Point

/-- The byte of a character. -/
def charByte (ch : Char) : BitVec 8 := BitVec.ofNat 8 ch.toNat

/-- `proc` on a message other than `WM_PAINT`, with what it invalidates. -/
def ttyProc (tw : TtyWindow) (rp : Point) : WindowMessage → Result (TtyWindow × Point × Invalidations)
  | .char c => do
    let (tw, calls) ← ttyChar tw (charByte c.ch)
    return (tw, rp, calls)
  | .mouse evt =>
    if evt.left then
      let rp : Point := ⟨evt.x, evt.y⟩
      return (tw, rp, [some ⟨rp.x - BOX_RADIUS, rp.y - BOX_RADIUS, BOX_RADIUS, BOX_RADIUS⟩])
    else return (tw, rp, [])
  | .key _ => return (tw, rp, [])

/-- What the terminal windows paint from now on. -/
def repaint (d : Desktop) (terminal : ℕ → TtyWindow) (rp : Point) : Desktop :=
  { d with window := fun w => { d.window w with proc := (d.window w).proc.map fun _ => ttyPaint (terminal w) rp } }

/-- `w->proc(w, msg, param)`. -/
def callProc (s : Screen) (w : ℕ) (msg : WindowMessage) : Result Screen := do
  let (tw, rp, calls) ← ttyProc (s.terminal w) s.rp msg
  let terminal := Function.update s.terminal w tw
  let desktop := calls.foldl (fun d rt => windowInvalidate d w rt) s.desktop
  return { s with desktop := repaint desktop terminal rp, terminal, rp }

/-- The call of the procedure of a window, if it has one. -/
def sendmsg (s : Screen) (w : ℕ) (msg : WindowMessage) : Result (Screen × Sent) :=
  if (s.desktop.window w).proc.isSome then do
    let s ← callProc s w msg
    return (s, [(w, msg)])
  else return (s, [])

def windowSetFocus (d : Desktop) (w : ℕ) : Desktop := { d with focused := some w }

def windowSendmsgFocused (s : Screen) (msg : WindowMessage) : Result (Screen × Sent) :=
  match s.desktop.focused with
  | some focused => sendmsg s focused msg
  | none => return (s, [])

def guiOnKeyboard (s : Screen) (evt : HidKeyevent) (c : HidChar) : Result (Screen × Sent) := do
  let (s, sent) ← windowSendmsgFocused s (.key evt)
  if !c.raw then
    let (s, more) ← windowSendmsgFocused s (.char c)
    return (s, sent ++ more)
  else return (s, sent)

/-- `hid_on_keyboard`. -/
def hidOnKeyboard (s : Screen) (evt : HidKeyevent) (c : HidChar) : Result (Screen × Sent) := guiOnKeyboard s evt c

/-- `hid_on_mouse`: `gui_on_mouse` with what the window's procedure does. -/
def hidOnMouse (s : Screen) (evt : HidMouseEvent) : Result (Screen × Sent) :=
  match guiOnMouse s.toMouseState evt with
  | (mouse, some (w, evt)) => do
    let s ← callProc { s with toMouseState := mouse } w (.mouse evt)
    return (s, [(w, .mouse evt)])
  | (mouse, none) => return ({ s with toMouseState := mouse }, [])

/-! ## The windows of the kernel -/

def windowSizeForClient (width height : ℤ) : Size :=
  ⟨width + 2 * (BORDER1 + BORDER2), height + 2 * (BORDER1 + BORDER2) + TITLE_HEIGHT⟩

/-- `tty_window_init` with its window, told which object `slab_alloc` returns. -/
def newTtyWindow (s : Screen) (w : ℕ) (tw : TtyWindow) : Result Screen := do
  let size := windowSizeForClient (TTYW_WIDTH * CW) (TTYW_HEIGHT * CH)
  let tw ← ttyWindowInit tw
  let desktop := (windowNew s.desktop w).setWindow w fun m =>
    { m with scrRect := { m.scrRect with width := size.width, height := size.height },
             title := "TTY".toList.map fun c => BitVec.ofNat 8 c.toNat, proc := some (ttyPaint tw s.rp) }
  return { s with desktop := windowSetFocus desktop w, terminal := Function.update s.terminal w tw }

/-- A window that `kmain` makes at a place of its own. -/
def newWindowAt (d : Desktop) (w : ℕ) (scrRect : Rect) : Desktop :=
  (windowNew d w).setWindow w fun m => { m with scrRect }

/-- The windows of `kmain`: `tw`, `w1` and `w2`, over whatever the memory of their objects holds. -/
def kmainWindows (d : Desktop) (terminal : ℕ → TtyWindow) (tw w1 w2 : ℕ) : Result Screen := do
  let s ← newTtyWindow ⟨⟨d, false, false, false⟩, terminal, ⟨-10, -10⟩⟩ tw (terminal tw)
  let d := newWindowAt s.desktop w1 ⟨50, 50, 400, 300⟩
  return { s with desktop := newWindowAt d w2 ⟨75, 75, 400, 300⟩ }

end RubberOS.Model.Gui
