import Mathlib.Data.BitVec
import Mathlib.Logic.Function.Basic

/-! # The interrupt controllers

`pic.c` programs two chips of eight lines each, the second one behind line 2 of the first. What it writes to their
ports comes first, and how the chips take it and hand on the requests of the devices, below. A chip is in the mode that
`pic_init` sets: edges are requests, lower lines go first, and a service ends when the kernel says so.
-/

namespace RubberOS.Model.Pic

/-- What a chip takes a write to its second port for. -/
inductive Expects where
  | icw2 | icw3 | icw4 | mask
deriving DecidableEq, Inhabited

structure Chip where
  expects : Expects
  /-- The vector of line 0. -/
  vector : BitVec 8
  /-- The lines with chips behind them, or the own line. -/
  wiring : BitVec 8
  request : ℕ → Bool
  masked : ℕ → Bool
  service : ℕ → Bool
deriving Inhabited

/-- A write to the first port starts the initialisation, or ends the service of one line. -/
def Chip.command (chip : Chip) (value : BitVec 8) : Chip :=
  if value.getLsbD 4 then
    { chip with expects := .icw2, request := fun _ => false, masked := fun _ => false, service := fun _ => false }
  else if value.extractLsb' 3 5 = 0b01100 then
    { chip with service := Function.update chip.service (value.extractLsb' 0 3).toNat false }
  else chip

/-- A write to the second port. -/
def Chip.data (chip : Chip) (value : BitVec 8) : Chip :=
  match chip.expects with
  | .icw2 => { chip with vector := value &&& 0xf8, expects := .icw3 }
  | .icw3 => { chip with wiring := value, expects := .icw4 }
  | .icw4 => { chip with expects := .mask }
  | .mask => { chip with masked := fun line => value.getLsbD line }

structure Pics where
  master : Chip
  slave : Chip
deriving Inhabited

def MASTER1 : BitVec 16 := 0x20

def MASTER2 : BitVec 16 := 0x21

def SLAVE1 : BitVec 16 := 0xa0

def SLAVE2 : BitVec 16 := 0xa1

def PIC_IRQ_SLAVE : ℕ := 2

def PIC_INT_VECTOR : BitVec 8 := 0x20

def out8 (pics : Pics) (port : BitVec 16) (value : BitVec 8) : Pics :=
  if port = MASTER1 then { pics with master := pics.master.command value }
  else if port = MASTER2 then { pics with master := pics.master.data value }
  else if port = SLAVE1 then { pics with slave := pics.slave.command value }
  else if port = SLAVE2 then { pics with slave := pics.slave.data value }
  else pics

/-! ## What the kernel writes -/

/-- The chips, and `g_mask`. -/
structure State where
  pics : Pics
  mask : BitVec 16

/-- The start value of `g_mask`. -/
def initialMask : BitVec 16 := ~~~((1 : BitVec 16) <<< PIC_IRQ_SLAVE)

def setMask (pics : Pics) (mask : BitVec 16) : Pics :=
  let pics := out8 pics MASTER2 (mask.setWidth 8)
  out8 pics SLAVE2 ((mask >>> 8).setWidth 8)

def picMarkIrqAsReady (s : State) (irq : ℕ) : State := { s with mask := s.mask &&& ~~~((1 : BitVec 16) <<< irq) }

def picInit (s : State) : State :=
  let pics := out8 s.pics MASTER1 0x11
  let pics := out8 pics MASTER2 PIC_INT_VECTOR
  let pics := out8 pics MASTER2 0x04
  let pics := out8 pics MASTER2 0x01
  let pics := out8 pics SLAVE1 0x11
  let pics := out8 pics SLAVE2 (PIC_INT_VECTOR + 8)
  let pics := out8 pics SLAVE2 0x02
  let pics := out8 pics SLAVE2 0x01
  { s with pics := setMask pics s.mask }

def picEnableInt (s : State) : State := { s with pics := setMask s.pics s.mask }

def picSendEoi (s : State) (irq : ℕ) : State :=
  if irq < 8 then { s with pics := out8 s.pics MASTER1 (0x60 ||| BitVec.ofNat 8 irq) }
  else
    let pics := out8 s.pics MASTER1 (0x60 ||| BitVec.ofNat 8 PIC_IRQ_SLAVE)
    { s with pics := out8 pics SLAVE1 (0x60 ||| BitVec.ofNat 8 (irq - 8)) }

/-! ## What the chips hand on -/

/-- A line is handed on when it has a request, is not masked, and no line up to it is in service. -/
def Chip.asks (chip : Chip) (line : ℕ) : Bool :=
  chip.request line && !chip.masked line && (List.range (line + 1)).all fun served => !chip.service served

def Chip.first (chip : Chip) : Option ℕ := (List.range 8).find? chip.asks

/-- The processor takes the request of this line. -/
def Chip.take (chip : Chip) (line : ℕ) : Chip :=
  { chip with
    request := Function.update chip.request line false, service := Function.update chip.service line true }

/-- The first chip, with the requests of the second one on its line. -/
def Pics.joined (pics : Pics) : Chip :=
  { pics.master with request := Function.update pics.master.request PIC_IRQ_SLAVE pics.slave.first.isSome }

/-- The vector of the interrupt that the chips ask for, and the chips once it is taken. -/
def Pics.acknowledge (pics : Pics) : Option (BitVec 8 × Pics) := do
  let line ← pics.joined.first
  if pics.master.wiring.getLsbD line ∧ pics.slave.wiring = BitVec.ofNat 8 line then
    let inner ← pics.slave.first
    return (pics.slave.vector + BitVec.ofNat 8 inner, ⟨pics.master.take line, pics.slave.take inner⟩)
  else
    return (pics.master.vector + BitVec.ofNat 8 line, { pics with master := pics.master.take line })

/-- A device asks for service on its line. -/
def Pics.raise (pics : Pics) (irq : ℕ) : Pics :=
  if irq < 8 then { pics with master := { pics.master with request := Function.update pics.master.request irq true } }
  else { pics with slave := { pics.slave with request := Function.update pics.slave.request (irq - 8) true } }

end RubberOS.Model.Pic
