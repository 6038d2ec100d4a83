import RubberOS.Model.Ps2Hid
import RubberOS.Model.Spinlock

/-! # The main loop and the interrupts

`kmain` from the end of `interrupt_init` on, one instruction a step. The code it calls is known by
what it does with locks, which is all it does to the interrupt flag.
-/

namespace RubberOS.Model.Kmain

open Collections Interrupt Ps2 Spinlock

/-- The interrupt locks of the kernel. -/
inductive Lock where
  | descriptor
  | meminfo
  | tty0
  | winman
deriving DecidableEq, Repr

/-- The lock operations of `gui_draw_all`: its two locked sections, and what the window procedures do in
between. -/
def guiDrawAll (paint : Nested Lock) : List (Instr Lock) :=
  intrlockAcquire .winman ++ intrlockRelease .winman ++ paint.instrs ++ intrlockAcquire .winman ++ intrlockRelease .winman

/-- Where `kmain` is. -/
inductive Point where
  | setup (rest : List (Instr Lock))
  | interruptEnableAndWait
  /-- Between the `sti` and the `hlt` of `interrupt_enable_and_wait`. -/
  | waitForIntr
  | halted
  | interruptDisable
  | intrQueueTryPop
  | interruptEnable (msg : IntrMsg)
  | dispatchIntrMsg (rest : List (Instr Lock))
  | guiDrawAll (rest : List (Instr Lock))

structure State where
  cpu : Cpu Lock
  queue : Ringbuffer IntrMsg
  point : Point

/-- The loader leaves the interrupt flag clear. -/
def initial (msgBuffer : ℕ → IntrMsg) (setup : Nested Lock) : State where
  cpu := ⟨false, false, fun _ => intrlockInit⟩
  queue := interruptInit msgBuffer
  point := .setup setup.instrs

inductive Event where
  /-- The handler of a device runs, with the flag clear, up to its `iretq`. -/
  | interrupt (msg : IntrMsg)
  /-- The next instruction of `kmain`. Where it is a call, `callee` says what the function called does
  with locks. -/
  | next (callee : Nested Lock)

/-- An interrupt arrives only while it can be taken. -/
def Arrives (s : State) : Event → Prop
  | .interrupt _ => s.cpu.interruptible = true
  | .next _ => True

def isr (queue : Ringbuffer IntrMsg) (msg : IntrMsg) : Result (Ringbuffer IntrMsg) :=
  match msg.type with
  | .keyboard => isrImplKeyboard queue msg.data
  | .mouse => isrImplMouse queue msg.data

/-- An interrupt ends a halt. -/
def Point.wake : Point → Point
  | .halted => .interruptDisable
  | point => point

def exec (s : State) : Event → Result State
  | .interrupt msg => return { s with queue := ← isr s.queue msg, point := s.point.wake }
  | .next callee =>
    match s.point with
    | .setup [] => return { s with point := .guiDrawAll (guiDrawAll callee) }
    | .setup (instr :: rest) => return { s with cpu := ← instr.exec s.cpu, point := .setup rest }
    | .guiDrawAll [] => return { s with point := .interruptEnableAndWait }
    | .guiDrawAll (instr :: rest) => return { s with cpu := ← instr.exec s.cpu, point := .guiDrawAll rest }
    | .interruptEnableAndWait => return { s with cpu := s.cpu.interruptEnable, point := .waitForIntr }
    | .waitForIntr => return { s with cpu.shadow := false, point := .halted }
    | .halted => return s
    | .interruptDisable => return { s with cpu := s.cpu.interruptDisable, point := .intrQueueTryPop }
    | .intrQueueTryPop => do
      let (found, queue) ← intrQueueTryPop s.queue
      match found with
      | none => return { s with queue, point := .guiDrawAll (guiDrawAll callee) }
      | some msg => return { s with queue, point := .interruptEnable msg }
    | .interruptEnable _ => return { s with cpu := s.cpu.interruptEnable, point := .dispatchIntrMsg callee.instrs }
    | .dispatchIntrMsg [] => return { s with cpu.shadow := false, point := .interruptDisable }
    | .dispatchIntrMsg (instr :: rest) => return { s with cpu := ← instr.exec s.cpu, point := .dispatchIntrMsg rest }

end RubberOS.Model.Kmain
