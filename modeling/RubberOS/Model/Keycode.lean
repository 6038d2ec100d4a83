import Mathlib.Data.Nat.Notation

/-! # Key codes -/

namespace RubberOS.Model.Ps2

/-- `keycode_t`. Where the enumeration has two names for one value, this is the descriptive one. -/
inductive Keycode where
  | keyEscape | keyF1 | keyF2 | keyF3 | keyF4 | keyF5 | keyF6 | keyF7 | keyF8 | keyF9 | keyF10 | keyF11 | keyF12
  | keyPrintscreen | keySysrq | keyScrolllock | keyPausebreak | keyOemTilde | key1 | key2 | key3 | key4 | key5 | key6
  | key7 | key8 | key9 | key0 | keyMinus | keyPlus | keyBackspace | keyInsert | keyHome | keyPageup | keyTab | keyQ
  | keyW | keyE | keyR | keyT | keyY | keyU | keyI | keyO | keyP | keyOemLbrace | keyOemRbrace | keyOemPipe
  | keyDelete | keyEnd | keyPagedown | keyCapslock | keyA | keyS | keyD | keyF | keyG | keyH | keyJ | keyK | keyL
  | keyOemColon | keyOemQuote | keyEnter | keyLshift | keyZ | keyX | keyC | keyV | keyB | keyN | keyM | keyComma
  | keyPeriod | keyOemSlash | keyRshift | keyUp | keyLctrl | keyLwin | keyLalt | keySpace | keyRalt | keyRwin
  | keyApps | keyRctrl | keyLeft | keyDown | keyRight | keyNumlock | keyNumpadDiv | keyNumpadMul | keyNumpadSub
  | keyNumpad7 | keyNumpad8 | keyNumpad9 | keyNumpadAdd | keyNumpad4 | keyNumpad5 | keyNumpad6 | keyNumpad1
  | keyNumpad2 | keyNumpad3 | keyNumpadEnter | keyNumpad0 | keyNumpadPeriod | keyMmPrevtrack | keyMmNexttrack
  | keyMmMute | keyMmCalculator | keyMmPlaypause | keyMmStop | keyMmVolumedown | keyMmVolumeup | keyMmWwwhome
  | keyMmWwwsearch | keyMmWwwfavorites | keyMmWwwrefresh | keyMmWwwstop | keyMmWwwforward | keyMmWwwback
  | keyMmMycomputer | keyMmEmail | keyMmMediaselect | keyAcpiPower | keyAcpiSleep | keyAcpiWake | keycodeUnknown
deriving DecidableEq, Repr

end RubberOS.Model.Ps2
