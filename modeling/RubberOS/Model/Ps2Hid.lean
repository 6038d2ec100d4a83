import RubberOS.Model.Interrupt
import RubberOS.Model.Ps2Keyboard
import RubberOS.Model.Ps2Mouse

/-! # Interrupt handlers and message handlers of the keyboard and the mouse

The handlers get the byte that they read from the controller as an argument. What a message handler
passes on to the user interface is part of its result.
-/

namespace RubberOS.Model.Ps2

open Collections Interrupt

/-- `isr_impl_keyboard`; the result of the push is not looked at. -/
def isrImplKeyboard (queue : Ringbuffer IntrMsg) (code : BitVec 8) : Result (Ringbuffer IntrMsg) := do
  let (_, queue) ← intrQueuePush queue { type := .keyboard, data := code }
  return queue

/-- `isr_impl_mouse`; the result of the push is not looked at. -/
def isrImplMouse (queue : Ringbuffer IntrMsg) (code : BitVec 8) : Result (Ringbuffer IntrMsg) := do
  let (_, queue) ← intrQueuePush queue { type := .mouse, data := code }
  return queue

/-- `intr_msg_on_keyboard`: the arguments of `hid_on_keyboard`, if it calls it. -/
def intrMsgOnKeyboard (kb : Ps2Keyboard) (msg : IntrMsg) : Result (Option (HidKeyevent × HidChar) × Ps2Keyboard) := do
  match ← ps2KeyboardPutByte kb msg.data with
  | (some evt, kb) =>
    let (c, kb) := ps2KeyboardProcessKeyevent kb evt
    return (some (evt, c), kb)
  | (none, kb) => return (none, kb)

/-- `intr_msg_on_mouse`: the argument of `hid_on_mouse`, if it calls it. -/
def intrMsgOnMouse (ms : Ps2Mouse) (msg : IntrMsg) : Result (Option HidMouseEvent × Ps2Mouse) :=
  ps2MousePutByte ms msg.data

end RubberOS.Model.Ps2
