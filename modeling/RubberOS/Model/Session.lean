import RubberOS.Model.Kmain
import RubberOS.Model.Screen

/-! # The main loop with what it works on

`kmain` as before, with the decoders and the windows. No handler of an interrupt touches these, so the work of
a call is done where the call is made.
-/

namespace RubberOS.Model.Kmain

open Collections Interrupt Ps2 Gui

/-- `g_kb`, `g_ms` and the windows. -/
structure Input where
  kb : Ps2Keyboard
  ms : Ps2Mouse
  screen : Screen

def dispatchIntrMsg (s : Input) (msg : IntrMsg) : Result (Input × Sent) :=
  match msg.type with
  | .keyboard => do
    match ← intrMsgOnKeyboard s.kb msg with
    | (some (evt, c), kb) =>
      let (screen, sent) ← hidOnKeyboard s.screen evt c
      return ({ s with kb, screen }, sent)
    | (none, kb) => return ({ s with kb }, [])
  | .mouse => do
    match ← intrMsgOnMouse s.ms msg with
    | (some evt, ms) =>
      let (screen, sent) ← hidOnMouse s.screen evt
      return ({ s with ms, screen }, sent)
    | (none, ms) => return ({ s with ms }, [])

/-- These many steps of `gui_draw_all`. -/
def drawSteps : ℕ → Redraw → Result Redraw
  | 0, s => .ok s
  | n + 1, s => do drawSteps n (← drawStep s)

/-- The window manager after `gui_draw_all`, which has five steps for each window and two of its own. -/
def drawn (d : Desktop) : Result Desktop := do
  let s ← drawSteps (5 * d.windowList.length + 2) ⟨d, .idle⟩
  return s.desktop

def Input.drawn (s : Input) : Result Input := do
  let desktop ← Kmain.drawn s.screen.desktop
  return { s with screen.desktop := desktop }

structure Session where
  kernel : State
  input : Input

/-- What the next instruction of `kmain` does beside its step: a message is handled, or the screen is drawn. -/
def Session.work (s : Session) : Result (Input × Sent) :=
  match s.kernel.point with
  | .interruptEnable msg => dispatchIntrMsg s.input msg
  | .setup [] => do return (← s.input.drawn, [])
  | .intrQueueTryPop =>
    if ringbufferIsEmpty s.kernel.queue then do return (← s.input.drawn, []) else return (s.input, [])
  | _ => return (s.input, [])

def Session.exec (s : Session) (e : Event) : Result (Session × Sent) := do
  let (input, sent) ← match e with
    | .interrupt _ => pure (s.input, [])
    | .next _ => s.work
  let kernel ← Kmain.exec s.kernel e
  return (⟨kernel, input⟩, sent)

end RubberOS.Model.Kmain
