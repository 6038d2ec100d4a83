import RubberOS.Model.Keycode
import RubberOS.Model.Machine

/-! # The keyboard decoder

`ps2_keyboard_put_byte` turns the bytes of translated scan code set 1 into key events, and
`ps2_keyboard_process_keyevent` keeps the modifiers and turns events into characters. Both follow
`ps2_keyboard.c` branch by branch.
-/

namespace RubberOS.Model.Ps2

def SC_EXT1 : BitVec 8 := 0xe0
def SC_EXT2 : BitVec 8 := 0xe1
def SC_PRTSCR_DOWN1 : BitVec 8 := 0x2a
def SC_PRTSCR_DOWN2 : BitVec 8 := 0x37
def SC_PRTSCR_UP1 : BitVec 8 := 0xb7
def SC_PRTSCR_UP2 : BitVec 8 := 0xaa
def SC_PAUSE_DOWN : BitVec 16 := 0x1d45
def SC_PAUSE_UP : BitVec 16 := 0x9dc5

inductive KeyboardState where
  | start | ext1 | ext1_1 | ext1_2 | ext2_1 | ext2_2
deriving DecidableEq, Repr

/-- `struct ps2_keyboard`. -/
structure Ps2Keyboard where
  state : KeyboardState
  data : BitVec 8
  lshift : Bool
  rshift : Bool
  lctrl : Bool
  rctrl : Bool
  lalt : Bool
  ralt : Bool
  caps : Bool
  scroll : Bool
  num : Bool
deriving DecidableEq, Repr

/-- `struct hid_keyevent`. -/
structure HidKeyevent where
  keycode : Keycode
  keydown : Bool
deriving DecidableEq, Repr

/-- `struct hid_char`. -/
structure HidChar where
  raw : Bool
  ch : Char
  keycode : Keycode
deriving DecidableEq, Repr

def ps2KeyboardInit : Ps2Keyboard where
  state := .start
  data := 0
  lshift := false
  rshift := false
  lctrl := false
  rctrl := false
  lalt := false
  ralt := false
  caps := false
  scroll := false
  num := false

/-! ## Decoding bytes -/

def keycodeNormal (byte : BitVec 8) : Keycode :=
  match byte.toNat with
  | 0x01 => .keyEscape
  | 0x02 => .key1
  | 0x03 => .key2
  | 0x04 => .key3
  | 0x05 => .key4
  | 0x06 => .key5
  | 0x07 => .key6
  | 0x08 => .key7
  | 0x09 => .key8
  | 0x0a => .key9
  | 0x0b => .key0
  | 0x0c => .keyMinus
  | 0x0d => .keyPlus
  | 0x0e => .keyBackspace
  | 0x0f => .keyTab
  | 0x10 => .keyQ
  | 0x11 => .keyW
  | 0x12 => .keyE
  | 0x13 => .keyR
  | 0x14 => .keyT
  | 0x15 => .keyY
  | 0x16 => .keyU
  | 0x17 => .keyI
  | 0x18 => .keyO
  | 0x19 => .keyP
  | 0x1a => .keyOemLbrace
  | 0x1b => .keyOemRbrace
  | 0x1c => .keyEnter
  | 0x1d => .keyLctrl
  | 0x1e => .keyA
  | 0x1f => .keyS
  | 0x20 => .keyD
  | 0x21 => .keyF
  | 0x22 => .keyG
  | 0x23 => .keyH
  | 0x24 => .keyJ
  | 0x25 => .keyK
  | 0x26 => .keyL
  | 0x27 => .keyOemColon
  | 0x28 => .keyOemQuote
  | 0x29 => .keyOemTilde
  | 0x2a => .keyLshift
  | 0x2b => .keyOemPipe
  | 0x2c => .keyZ
  | 0x2d => .keyX
  | 0x2e => .keyC
  | 0x2f => .keyV
  | 0x30 => .keyB
  | 0x31 => .keyN
  | 0x32 => .keyM
  | 0x33 => .keyComma
  | 0x34 => .keyPeriod
  | 0x35 => .keyOemSlash
  | 0x36 => .keyRshift
  | 0x37 => .keyNumpadMul
  | 0x38 => .keyLalt
  | 0x39 => .keySpace
  | 0x3a => .keyCapslock
  | 0x3b => .keyF1
  | 0x3c => .keyF2
  | 0x3d => .keyF3
  | 0x3e => .keyF4
  | 0x3f => .keyF5
  | 0x40 => .keyF6
  | 0x41 => .keyF7
  | 0x42 => .keyF8
  | 0x43 => .keyF9
  | 0x44 => .keyF10
  | 0x45 => .keyNumlock
  | 0x46 => .keyScrolllock
  | 0x47 => .keyNumpad7
  | 0x48 => .keyNumpad8
  | 0x49 => .keyNumpad9
  | 0x4a => .keyNumpadSub
  | 0x4b => .keyNumpad4
  | 0x4c => .keyNumpad5
  | 0x4d => .keyNumpad6
  | 0x4e => .keyNumpadAdd
  | 0x4f => .keyNumpad1
  | 0x50 => .keyNumpad2
  | 0x51 => .keyNumpad3
  | 0x52 => .keyNumpad0
  | 0x53 => .keyNumpadPeriod
  | 0x57 => .keyF11
  | 0x58 => .keyF12
  | _ => .keycodeUnknown

def keycodeExtended (byte : BitVec 8) : Keycode :=
  match byte.toNat with
  | 0x10 => .keyMmPrevtrack
  | 0x19 => .keyMmNexttrack
  | 0x1c => .keyNumpadEnter
  | 0x1d => .keyLctrl
  | 0x20 => .keyMmMute
  | 0x21 => .keyMmCalculator
  | 0x22 => .keyMmPlaypause
  | 0x24 => .keyMmStop
  | 0x2e => .keyMmVolumedown
  | 0x30 => .keyMmVolumeup
  | 0x32 => .keyMmWwwhome
  | 0x35 => .keyNumpadDiv
  | 0x38 => .keyRalt
  | 0x47 => .keyHome
  | 0x48 => .keyUp
  | 0x49 => .keyPageup
  | 0x4b => .keyLeft
  | 0x4d => .keyRight
  | 0x4f => .keyEnd
  | 0x50 => .keyDown
  | 0x51 => .keyPagedown
  | 0x52 => .keyInsert
  | 0x53 => .keyDelete
  | 0x5b => .keyLwin
  | 0x5c => .keyRwin
  | 0x5d => .keyApps
  | 0x5e => .keyAcpiPower
  | 0x5f => .keyAcpiSleep
  | 0x63 => .keyAcpiWake
  | 0x65 => .keyMmWwwsearch
  | 0x66 => .keyMmWwwfavorites
  | 0x67 => .keyMmWwwrefresh
  | 0x68 => .keyMmWwwstop
  | 0x69 => .keyMmWwwforward
  | 0x6a => .keyMmWwwback
  | 0x6b => .keyMmMycomputer
  | 0x6c => .keyMmEmail
  | 0x6d => .keyMmMediaselect
  | _ => .keycodeUnknown
/-- The event of a code whose key is known; an unknown one is swallowed. -/
def keyevent (keycode : Keycode) (keydown : Bool) : Option HidKeyevent :=
  if keycode = .keycodeUnknown then none else some { keycode, keydown }

/-- The bit that marks the release of a key. -/
def released (byte : BitVec 8) : Bool := byte &&& 0x80 ≠ 0

/-- The event of a byte under one of the two tables. -/
def codeEvent (table : BitVec 8 → Keycode) (byte : BitVec 8) : Option HidKeyevent :=
  if released byte then keyevent (table (byte &&& 0x7f)) false else keyevent (table byte) true

/-- The `switch` of `ps2_keyboard_put_byte`. -/
def putByteSwitch (kb : Ps2Keyboard) (byte : BitVec 8) : Result (Option HidKeyevent × Ps2Keyboard) :=
  match kb.state with
  | .start =>
    if byte = SC_EXT1 then return (none, { kb with state := .ext1 })
    else if byte = SC_EXT2 then return (none, { kb with state := .ext2_1 })
    else return (codeEvent keycodeNormal byte, kb)
  | .ext1 =>
    if byte = SC_PRTSCR_DOWN1 || byte = SC_PRTSCR_UP1 then
      return (none, { kb with state := .ext1_1, data := byte })
    else return (codeEvent keycodeExtended byte, { kb with state := .start })
  | .ext1_2 =>
    let kb := { kb with state := .start }
    if kb.data = SC_PRTSCR_UP1 && byte = SC_PRTSCR_UP2 then return (some ⟨.keyPrintscreen, false⟩, kb)
    else if kb.data = SC_PRTSCR_DOWN1 && byte = SC_PRTSCR_DOWN2 then return (some ⟨.keyPrintscreen, true⟩, kb)
    else return (none, kb)
  | .ext2_1 => return (none, { kb with state := .ext2_2, data := byte })
  | .ext2_2 =>
    let kb := { kb with state := .start }
    let data := kb.data ++ byte
    if data = SC_PAUSE_UP then return (some ⟨.keyPausebreak, false⟩, kb)
    else if data = SC_PAUSE_DOWN then return (some ⟨.keyPausebreak, true⟩, kb)
    else return (none, kb)
  | .ext1_1 => .error (.panic "panic")

/-- `ps2_keyboard_put_byte`: the event that it stores, or nothing when it returns false. -/
def ps2KeyboardPutByte (kb : Ps2Keyboard) (byte : BitVec 8) : Result (Option HidKeyevent × Ps2Keyboard) :=
  if kb.state = .ext1_1 then
    if byte = 0xe0 then return (none, { kb with state := .ext1_2 })
    -- something goes wrong; the byte is taken as the first of a code
    else putByteSwitch { kb with state := .start } byte
  else putByteSwitch kb byte

/-! ## Modifiers and characters -/

/-- The first `switch` of `ps2_keyboard_process_keyevent`. -/
def setModifier (kb : Ps2Keyboard) (evt : HidKeyevent) : Ps2Keyboard :=
  match evt.keycode with
  | .keyLshift => { kb with lshift := evt.keydown }
  | .keyRshift => { kb with rshift := evt.keydown }
  | .keyLctrl => { kb with lctrl := evt.keydown }
  | .keyRctrl => { kb with rctrl := evt.keydown }
  | .keyLalt => { kb with lalt := evt.keydown }
  | .keyRalt => { kb with ralt := evt.keydown }
  | _ => kb

/-- The second `switch`: a press toggles the locks. -/
def toggleLock (kb : Ps2Keyboard) (keycode : Keycode) : Ps2Keyboard :=
  match keycode with
  | .keyCapslock => { kb with caps := !kb.caps }
  | .keyScrolllock => { kb with scroll := !kb.scroll }
  | .keyNumlock => { kb with num := !kb.num }
  | _ => kb

/-- The characters of the third `switch`. The quotes, the backslash, the backtick and the braces are
given by their codes. -/
def charOf (keycode : Keycode) (shift upper : Bool) : Option Char :=
  match keycode with
  | .keyOemTilde => some (if shift then '~' else Char.ofNat 0x60)
  | .key1 => some (if shift then '!' else '1')
  | .key2 => some (if shift then '@' else '2')
  | .key3 => some (if shift then '#' else '3')
  | .key4 => some (if shift then '$' else '4')
  | .key5 => some (if shift then '%' else '5')
  | .key6 => some (if shift then '^' else '6')
  | .key7 => some (if shift then '&' else '7')
  | .key8 => some (if shift then '*' else '8')
  | .key9 => some (if shift then '(' else '9')
  | .key0 => some (if shift then ')' else '0')
  | .keyMinus => some (if shift then '_' else '-')
  | .keyPlus => some (if shift then '+' else '=')
  | .keyQ => some (if upper then 'Q' else 'q')
  | .keyW => some (if upper then 'W' else 'w')
  | .keyE => some (if upper then 'E' else 'e')
  | .keyR => some (if upper then 'R' else 'r')
  | .keyT => some (if upper then 'T' else 't')
  | .keyY => some (if upper then 'Y' else 'y')
  | .keyU => some (if upper then 'U' else 'u')
  | .keyI => some (if upper then 'I' else 'i')
  | .keyO => some (if upper then 'O' else 'o')
  | .keyP => some (if upper then 'P' else 'p')
  | .keyOemLbrace => some (if shift then Char.ofNat 0x7b else '[')
  | .keyOemRbrace => some (if shift then Char.ofNat 0x7d else ']')
  | .keyOemPipe => some (if shift then '|' else Char.ofNat 0x5c)
  | .keyA => some (if upper then 'A' else 'a')
  | .keyS => some (if upper then 'S' else 's')
  | .keyD => some (if upper then 'D' else 'd')
  | .keyF => some (if upper then 'F' else 'f')
  | .keyG => some (if upper then 'G' else 'g')
  | .keyH => some (if upper then 'H' else 'h')
  | .keyJ => some (if upper then 'J' else 'j')
  | .keyK => some (if upper then 'K' else 'k')
  | .keyL => some (if upper then 'L' else 'l')
  | .keyOemColon => some (if shift then ':' else ';')
  | .keyOemQuote => some (if shift then Char.ofNat 0x22 else Char.ofNat 0x27)
  | .keyZ => some (if upper then 'Z' else 'z')
  | .keyX => some (if upper then 'X' else 'x')
  | .keyC => some (if upper then 'C' else 'c')
  | .keyV => some (if upper then 'V' else 'v')
  | .keyB => some (if upper then 'B' else 'b')
  | .keyN => some (if upper then 'N' else 'n')
  | .keyM => some (if upper then 'M' else 'm')
  | .keyComma => some (if shift then '<' else ',')
  | .keyPeriod => some (if shift then '>' else '.')
  | .keyOemSlash => some (if shift then '?' else '/')
  | .keySpace => some ' '
  | .keyTab => some '\t'
  | .keyEnter => some '\n'
  | .keyNumpadMul => some '*'
  | .keyNumpadDiv => some '/'
  | .keyNumpadAdd => some '+'
  | .keyNumpadSub => some '-'
  | .keyNumpadEnter => some '\n'
  | _ => none

/-- The last `switch`: the number pad depends on num lock. -/
def numpadChar (kb : Ps2Keyboard) (keycode : Keycode) (control : Bool) : HidChar :=
  let raw : HidChar := ⟨true, Char.ofNat 0, keycode⟩
  let ps2Raw (k : Keycode) : HidChar := ⟨true, Char.ofNat 0, k⟩
  let ps2Char (c : Char) : HidChar := ⟨false, c, keycode⟩
  match keycode with
  | .keyNumpad0 => if kb.num then (if control then raw else ps2Char '0') else ps2Raw .keyInsert
  | .keyNumpad1 => if kb.num then (if control then raw else ps2Char '1') else ps2Raw .keyEnd
  | .keyNumpad2 => if kb.num then (if control then raw else ps2Char '2') else ps2Raw .keyDown
  | .keyNumpad3 => if kb.num then (if control then raw else ps2Char '3') else ps2Raw .keyPagedown
  | .keyNumpad4 => if kb.num then (if control then raw else ps2Char '4') else ps2Raw .keyLeft
  | .keyNumpad5 => if kb.num && !control then ps2Char '5' else raw
  | .keyNumpad6 => if kb.num then (if control then raw else ps2Char '6') else ps2Raw .keyRight
  | .keyNumpad7 => if kb.num then (if control then raw else ps2Char '7') else ps2Raw .keyHome
  | .keyNumpad8 => if kb.num then (if control then raw else ps2Char '8') else ps2Raw .keyUp
  | .keyNumpad9 => if kb.num then (if control then raw else ps2Char '9') else ps2Raw .keyPageup
  | .keyNumpadPeriod => if kb.num then (if control then raw else ps2Char '.') else ps2Raw .keyPeriod
  | _ => raw

def ps2KeyboardProcessKeyevent (kb : Ps2Keyboard) (evt : HidKeyevent) : HidChar × Ps2Keyboard :=
  let control := kb.lctrl || kb.rctrl || kb.lalt || kb.ralt
  let shift := kb.lshift || kb.rshift
  let upper := kb.caps ^^ shift
  let kb := setModifier kb evt
  if !evt.keydown then (⟨true, Char.ofNat 0, evt.keycode⟩, kb)
  else
    let kb := toggleLock kb evt.keycode
    let char := if control then none else charOf evt.keycode shift upper
    match char with
    | some c => (⟨false, c, evt.keycode⟩, kb)
    | none => (numpadChar kb evt.keycode control, kb)

end RubberOS.Model.Ps2
