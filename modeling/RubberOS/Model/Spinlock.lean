import RubberOS.Model.Machine

/-! # Spinlocks that keep interrupts out

The lock operations are sequences of instructions, since an interrupt can arrive between any two of
them. `sti` delays interrupts by one instruction when it sets the flag, as on x86-64.
-/

namespace RubberOS.Model.Spinlock

/-- `struct intrlock`: whether its spinlock is taken, and the saved interrupt flag. -/
structure Intrlock where
  value : Bool
  intrFlag : Bool
deriving DecidableEq, Repr

def intrlockInit : Intrlock := ⟨false, false⟩

/-- The interrupt state of the processor, and the locks. -/
structure Cpu (Lock : Type) where
  flag : Bool
  shadow : Bool
  locks : Lock → Intrlock

/-- The instructions that the lock operations and the main loop are made of. -/
inductive Instr (Lock : Type) where
  | interruptDisable
  | interruptEnable
  | saveFlag (lock : Lock)
  | testAndSet (lock : Lock)
  | clear (lock : Lock)
  | restoreFlag (lock : Lock)

variable {Lock : Type} [DecidableEq Lock]

/-- `cli`. -/
def Cpu.interruptDisable (cpu : Cpu Lock) : Cpu Lock := { cpu with flag := false, shadow := false }

/-- `sti`. -/
def Cpu.interruptEnable (cpu : Cpu Lock) : Cpu Lock := { cpu with flag := true, shadow := !cpu.flag }

/-- An instruction that leaves the interrupt flag alone ends the delay. -/
def Cpu.setLock (cpu : Cpu Lock) (lock : Lock) (value : Intrlock) : Cpu Lock :=
  { cpu with shadow := false, locks := Function.update cpu.locks lock value }

/-- Whether an interrupt is taken before the next instruction. -/
def Cpu.interruptible (cpu : Cpu Lock) : Bool := cpu.flag && !cpu.shadow

def Instr.exec (cpu : Cpu Lock) : Instr Lock → Result (Cpu Lock)
  | .interruptDisable => return cpu.interruptDisable
  | .interruptEnable => return cpu.interruptEnable
  | .saveFlag lock => return cpu.setLock lock { cpu.locks lock with intrFlag := cpu.flag }
  | .testAndSet lock =>
    if (cpu.locks lock).value then panic "spinlock_acquire(): deadlock detected"
    else return cpu.setLock lock { cpu.locks lock with value := true }
  | .clear lock => return cpu.setLock lock { cpu.locks lock with value := false }
  | .restoreFlag lock =>
    if (cpu.locks lock).intrFlag then return cpu.interruptEnable else return { cpu with shadow := false }

def intrlockAcquire (lock : Lock) : List (Instr Lock) := [.saveFlag lock, .interruptDisable, .testAndSet lock]

def intrlockRelease (lock : Lock) : List (Instr Lock) := [.clear lock, .restoreFlag lock]

/-- What code does with locks when it releases what it acquires, last acquired first. -/
inductive Nested (Lock : Type) where
  | done
  | locked (lock : Lock) (inner rest : Nested Lock)

def Nested.instrs : Nested Lock → List (Instr Lock)
  | .done => []
  | .locked lock inner rest => intrlockAcquire lock ++ inner.instrs ++ intrlockRelease lock ++ rest.instrs

end RubberOS.Model.Spinlock
