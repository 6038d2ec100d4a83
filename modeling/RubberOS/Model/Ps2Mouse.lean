import Mathlib.Data.Int.Notation
import RubberOS.Model.Machine

/-! # The mouse decoder -/

namespace RubberOS.Model.Ps2

/-- `struct ps2_mouse`. -/
structure Ps2Mouse where
  packetIndex : ℕ
  packet : ℕ → BitVec 8

/-- `struct hid_mouse_event`. -/
structure HidMouseEvent where
  dx : ℤ
  dy : ℤ
  left : Bool
  right : Bool
  middle : Bool
deriving DecidableEq, Repr

def ps2MouseInit : Ps2Mouse := ⟨0, fun _ => 0⟩

/-- A movement byte, extended to `int16_t` by its sign bit in the flags. -/
def displacement (byte : BitVec 8) (negative : Bool) : ℤ :=
  (byte.zeroExtend 16 ||| if negative then 0xff00 else 0).toInt

/-- The event that a complete packet stands for. -/
def packetEvent (flags second third : BitVec 8) : HidMouseEvent where
  dx := displacement second (flags &&& 0x10 ≠ 0)
  dy := displacement third (flags &&& 0x20 ≠ 0)
  left := flags &&& 0x01 ≠ 0
  right := flags &&& 0x02 ≠ 0
  middle := flags &&& 0x04 ≠ 0

/-- `ps2_mouse_put_byte`: the event that it stores, or nothing when it returns false. -/
def ps2MousePutByte (ms : Ps2Mouse) (byte : BitVec 8) : Result (Option HidMouseEvent × Ps2Mouse) :=
  if 3 ≤ ms.packetIndex then .error .outOfBounds
  else
    let packet := Function.update ms.packet ms.packetIndex byte
    if ms.packetIndex + 1 < 3 then return (none, ⟨ms.packetIndex + 1, packet⟩)
    else return (some (packetEvent (packet 0) (packet 1) (packet 2)), ⟨0, packet⟩)

end RubberOS.Model.Ps2
