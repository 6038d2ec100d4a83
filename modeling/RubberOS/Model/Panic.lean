import RubberOS.Model.Desktop
import RubberOS.Model.Kmain
import RubberOS.Proofs.TtyWindow

/-! # Reporting a panic

`panic_impl` runs up to its wait loop, which is its successful end; a lock that it finds taken makes it
start again, which is the fault that `spinlock_acquire` raises. The text is what `snprintf` leaves in `buf`.
-/

namespace RubberOS.Model.Gui

open Spinlock Kmain

/-- A terminal window as a `tty_device`: `window` is the address of its window. -/
structure TtyWindowDevice where
  tw : TtyWindow
  window : ℕ
  inside : tw.Inside

/-- The devices of this repository. -/
inductive TtyDevice where
  | serial
  | ttyWindow (device : TtyWindowDevice)

/-- What reporting works on: the locks, the windows, what was sent to the serial port and what was drawn. -/
structure Console where
  cpu : Cpu Lock
  desktop : Desktop
  sent : List (BitVec 8)
  drawn : List Write

/-- A call of a device's function; the device is known by its place in the list. -/
inductive DeviceCall where
  | write (device : ℕ) (str : List (BitVec 8))
  | flush (device : ℕ)
deriving DecidableEq, Repr

section Console

variable (font : ℕ → BitVec 8) (fi : FbInfo)

def runInstrs (s : Console) (instrs : List (Instr Lock)) : Result Console := do
  let cpu ← instrs.foldlM Instr.exec s.cpu
  return { s with cpu }

/-- `window_invalidate`, with its lock. -/
def lockedInvalidate (s : Console) (w : ℕ) (rt : Option Rect) : Result Console := do
  let s ← runInstrs s (intrlockAcquire .winman)
  runInstrs { s with desktop := invalidateClient s.desktop w rt } (intrlockRelease .winman)

def windowRedraw (s : Console) (w : ℕ) (rt : Option Rect) : Result Console := do
  let s ← runInstrs s (intrlockAcquire .winman)
  let desktop := invalidateClient s.desktop w rt
  let (writes, window, _) := drawWindow font (desktop.window w).toWindow (graphicFromFb fi)
  let desktop := desktop.setWindow w fun w => { w with toWindow := window }
  runInstrs { s with desktop, drawn := s.drawn ++ writes } (intrlockRelease .winman)

/-- The `write` of a device. -/
def TtyDevice.write (s : Console) (str : List (BitVec 8)) : TtyDevice → Result (Console × TtyDevice)
  | .serial => .ok ({ s with sent := s.sent ++ str.takeWhile (· ≠ 0) }, .serial)
  | .ttyWindow device =>
    match written : ttyWrite device.tw str with
    | .error fault => .error fault
    | .ok (tw, calls) => do
      let s ← calls.foldlM (fun s rt => lockedInvalidate s device.window rt) s
      return (s, .ttyWindow ⟨tw, device.window, ttyWrite_keeps_inside device.inside written⟩)

/-- The `flush` of a device, which the serial port does not have. -/
def TtyDevice.flush : TtyDevice → Option (Console → Result Console)
  | .serial => none
  | .ttyWindow device => some fun s => windowRedraw font fi s device.window none

/-- The loop of `tty_puts_nolock` over the devices from this place on. -/
def ttyPutsNolock (s : Console) (str : List (BitVec 8)) (place : ℕ) :
    List TtyDevice → Result (Console × List TtyDevice × List DeviceCall)
  | [] => .ok (s, [], [])
  | device :: rest => do
    let (s, device) ← device.write s str
    let (s, rest, calls) ← ttyPutsNolock s str (place + 1) rest
    return (s, device :: rest, .write place str :: calls)

/-- The loop of `panic_impl` over the devices from this place on. -/
def flushDevices (s : Console) (place : ℕ) : List TtyDevice → Result (Console × List DeviceCall)
  | [] => .ok (s, [])
  | device :: rest =>
    match device.flush font fi with
    | none => flushDevices s (place + 1) rest
    | some flush => do
      let s ← flush s
      let (s, calls) ← flushDevices s (place + 1) rest
      return (s, .flush place :: calls)

/-- `panic_impl` with the devices of `g_tty0`, up to the wait loop: the calls that it makes. -/
def panicImpl (s : Console) (devices : List TtyDevice) (buf : List (BitVec 8)) : Result (Console × List DeviceCall) := do
  let s := { s with cpu := s.cpu.interruptDisable }
  let (s, devices, writes) ← ttyPutsNolock s buf 0 devices
  let (s, flushes) ← flushDevices font fi s 0 devices
  return (s, writes ++ flushes)

end Console

end RubberOS.Model.Gui
