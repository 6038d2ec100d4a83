import RubberOS.Model.Ps2Hid

/-! # Complete codes of the keyboard

Fed the bytes of a complete code from its start state, the decoder reports the event of the code's
key and is back in its start state. What the event does to the modifiers depends only on its key.
-/

namespace RubberOS.Model.Ps2

open Interrupt

/-- The keyboard after the messages of these bytes. -/
def feed (kb : Ps2Keyboard) : List (BitVec 8) → Result Ps2Keyboard
  | [] => .ok kb
  | byte :: bytes => do
    let (_, kb) ← intrMsgOnKeyboard kb { type := .keyboard, data := byte }
    feed kb bytes

/-- The keyboard after an event, if there is one. -/
def Ps2Keyboard.after (kb : Ps2Keyboard) : Option HidKeyevent → Ps2Keyboard
  | some evt => (ps2KeyboardProcessKeyevent kb evt).2
  | none => kb

variable {kb : Ps2Keyboard}

/-! ## What an event does -/

section Events

variable (evt : HidKeyevent)

/-- The flag of a modifier key. -/
def Ps2Keyboard.modifier (kb : Ps2Keyboard) : Keycode → Bool
  | .keyLshift => kb.lshift
  | .keyRshift => kb.rshift
  | .keyLctrl => kb.lctrl
  | .keyRctrl => kb.rctrl
  | .keyLalt => kb.lalt
  | .keyRalt => kb.ralt
  | _ => false

def modifiers : List Keycode := [.keyLshift, .keyRshift, .keyLctrl, .keyRctrl, .keyLalt, .keyRalt]

private theorem process_snd : (ps2KeyboardProcessKeyevent kb evt).2 =
    if evt.keydown then toggleLock (setModifier kb evt) evt.keycode else setModifier kb evt := by
  obtain ⟨keycode, keydown⟩ := evt
  cases keydown
  · rfl
  · rw [ps2KeyboardProcessKeyevent]
    dsimp only
    rw [if_neg (by decide), if_pos rfl]
    split <;> rfl

private theorem setModifier_state : (setModifier kb evt).state = kb.state := by
  unfold setModifier
  split <;> rfl

private theorem toggleLock_state (keycode : Keycode) : (toggleLock kb keycode).state = kb.state := by
  unfold toggleLock
  split <;> rfl

private theorem toggleLock_modifier (keycode m : Keycode) : (toggleLock kb keycode).modifier m = kb.modifier m := by
  unfold toggleLock
  split <;> rfl

private theorem setModifier_modifier {m : Keycode} (member : m ∈ modifiers) :
    (setModifier kb evt).modifier m = if evt.keycode = m then evt.keydown else kb.modifier m := by
  obtain ⟨keycode, keydown⟩ := evt
  simp only [modifiers, List.mem_cons, List.not_mem_nil, or_false] at member
  rcases member with rfl | rfl | rfl | rfl | rfl | rfl
  all_goals
    unfold setModifier
    dsimp only
    split <;> simp_all [Ps2Keyboard.modifier]

private theorem after_state (found : Option HidKeyevent) : (kb.after found).state = kb.state := by
  cases found with
  | none => rfl
  | some evt =>
    rw [Ps2Keyboard.after, process_snd, apply_ite Ps2Keyboard.state, toggleLock_state, ite_self,
      setModifier_state]

/-- An event sets the flag of its own key, if it is a modifier, and no other. -/
private theorem after_modifier {m : Keycode} (member : m ∈ modifiers) :
    (kb.after (some evt)).modifier m = if evt.keycode = m then evt.keydown else kb.modifier m := by
  rw [Ps2Keyboard.after, process_snd, apply_ite (Ps2Keyboard.modifier · m), toggleLock_modifier, ite_self,
    setModifier_modifier evt member]

private theorem after_keyevent {m : Keycode} (member : m ∈ modifiers) (keycode : Keycode) (keydown : Bool) :
    (kb.after (keyevent keycode keydown)).modifier m = if keycode = m then keydown else kb.modifier m := by
  rcases eq_or_ne keycode .keycodeUnknown with rfl | known
  · have other : Keycode.keycodeUnknown ≠ m := by
      rintro rfl
      exact absurd member (by decide)
    rw [if_neg other]
    rfl
  · rw [keyevent, if_neg known, after_modifier _ member]

end Events

/-! ## Complete codes -/

/-- A byte that starts no longer code. -/
def Single (byte : BitVec 8) : Prop := byte ≠ SC_EXT1 ∧ byte ≠ SC_EXT2

/-- A byte that ends an extended code. -/
def Extending (byte : BitVec 8) : Prop := byte ≠ SC_PRTSCR_DOWN1 ∧ byte ≠ SC_PRTSCR_UP1

instance (byte : BitVec 8) : Decidable (Single byte) := inferInstanceAs (Decidable (_ ∧ _))

instance (byte : BitVec 8) : Decidable (Extending byte) := inferInstanceAs (Decidable (_ ∧ _))

/-- A byte's message is handled by decoding the byte and processing the event. -/
private theorem feed_cons {kb' : Ps2Keyboard} {byte : BitVec 8} {found : Option HidKeyevent} (bytes : List (BitVec 8))
    (decoded : ps2KeyboardPutByte kb byte = .ok (found, kb')) :
    feed kb (byte :: bytes) = feed (kb'.after found) bytes := by
  rw [feed, intrMsgOnKeyboard, decoded]
  cases found <;> rfl

section Codes

variable {byte : BitVec 8}

private theorem feed_single (start : kb.state = .start) (single : Single byte) :
    feed kb [byte] = .ok (kb.after (codeEvent keycodeNormal byte)) := by
  have decoded : ps2KeyboardPutByte kb byte = .ok (codeEvent keycodeNormal byte, kb) := by
    simp only [ps2KeyboardPutByte, putByteSwitch, start, single.1, single.2]
    rfl
  rw [feed_cons _ decoded, feed]

private theorem put_prefixed (start : kb.state = .start) :
    ps2KeyboardPutByte kb SC_EXT1 = .ok (none, { kb with state := .ext1 }) := by
  simp only [ps2KeyboardPutByte, putByteSwitch, start]
  rfl

private theorem feed_extended (start : kb.state = .start) (extending : Extending byte) :
    feed kb [SC_EXT1, byte] = .ok (kb.after (codeEvent keycodeExtended byte)) := by
  have closed : ps2KeyboardPutByte { kb with state := .ext1 } byte =
      .ok (codeEvent keycodeExtended byte, kb) := by
    simp only [ps2KeyboardPutByte, putByteSwitch, extending.1, extending.2]
    rw [← start]
    rfl
  rw [feed_cons _ (put_prefixed start), Ps2Keyboard.after, feed_cons _ closed, feed]

/-- The two halves of a print screen code are decoded together. -/
private theorem feed_printscreen (start : kb.state = .start) {first second : BitVec 8} {found : Option HidKeyevent}
    (half : first = SC_PRTSCR_DOWN1 ∨ first = SC_PRTSCR_UP1)
    (word : putByteSwitch { kb with state := .ext1_2, data := first } second =
      .ok (found, { kb with data := first })) :
    feed kb [SC_EXT1, first, SC_EXT1, second] = .ok (Ps2Keyboard.after { kb with data := first } found) := by
  have kept : ps2KeyboardPutByte { kb with state := .ext1 } first =
      .ok (none, { kb with state := .ext1_1, data := first }) := by
    rcases half with rfl | rfl <;> rfl
  have again : ps2KeyboardPutByte { kb with state := .ext1_1, data := first } SC_EXT1 =
    .ok (none, { kb with state := .ext1_2, data := first }) := rfl
  have closed : ps2KeyboardPutByte { kb with state := .ext1_2, data := first } second =
    .ok (found, { kb with data := first }) := word
  rw [feed_cons _ (put_prefixed start), Ps2Keyboard.after, feed_cons _ kept, Ps2Keyboard.after,
    feed_cons _ again, Ps2Keyboard.after, feed_cons _ closed, feed]

/-- A pair of bytes behind the second prefix is decoded as one word. -/
private theorem feed_pause_half (start : kb.state = .start) {first second : BitVec 8} {found : Option HidKeyevent}
    (rest : List (BitVec 8))
    (word : putByteSwitch { kb with state := .ext2_2, data := first } second =
      .ok (found, { kb with data := first })) :
    feed kb (SC_EXT2 :: first :: second :: rest) =
        feed (Ps2Keyboard.after { kb with data := first } found) rest := by
  have opened : ps2KeyboardPutByte kb SC_EXT2 = .ok (none, { kb with state := .ext2_1 }) := by
    simp only [ps2KeyboardPutByte, putByteSwitch, start]
    rfl
  have kept : ps2KeyboardPutByte { kb with state := .ext2_1 } first =
    .ok (none, { kb with state := .ext2_2, data := first }) := rfl
  have closed : ps2KeyboardPutByte { kb with state := .ext2_2, data := first } second =
    .ok (found, { kb with data := first }) := word
  rw [feed_cons _ opened, Ps2Keyboard.after, feed_cons _ kept, Ps2Keyboard.after, feed_cons _ closed]

end Codes

/-! ## Physical keys -/

/-- A key of the keyboard with its translated scan codes: a plain byte, a byte behind the prefix
`E0`, or one of the two keys with longer codes. Bytes that open longer codes are no keys. -/
inductive PhysicalKey where
  | plain (code : BitVec 8) (valid : code.toNat < 0x80 ∧ code ≠ 0x60 ∧ code ≠ 0x61)
  | extended (code : BitVec 8) (valid : code.toNat < 0x80 ∧ code ≠ SC_PRTSCR_DOWN1 ∧ code ≠ SC_PRTSCR_DOWN2)
  | printscreen
  | pause
deriving DecidableEq

namespace PhysicalKey

def makeCode : PhysicalKey → List (BitVec 8)
  | plain code _ => [code]
  | extended code _ => [SC_EXT1, code]
  | printscreen => [SC_EXT1, SC_PRTSCR_DOWN1, SC_EXT1, SC_PRTSCR_DOWN2]
  | pause => [SC_EXT2, 0x1d, 0x45, SC_EXT2, 0x9d, 0xc5]

/-- The pause key sends nothing when it is released. -/
def breakCode : PhysicalKey → List (BitVec 8)
  | plain code _ => [code ||| 0x80]
  | extended code _ => [SC_EXT1, code ||| 0x80]
  | printscreen => [SC_EXT1, SC_PRTSCR_UP1, SC_EXT1, SC_PRTSCR_UP2]
  | pause => []

/-- The key code that the decoder reports for a key. -/
def keycode : PhysicalKey → Keycode
  | plain code _ => keycodeNormal code
  | extended code _ => keycodeExtended code
  | printscreen => .keyPrintscreen
  | pause => .keyPausebreak

end PhysicalKey

/-- The keyboard's start state is kept, and of the modifiers only the key's own flag is set. -/
def Sets (key : PhysicalKey) (keydown : Bool) (kb kb' : Ps2Keyboard) : Prop :=
  kb'.state = .start ∧ ∀ m ∈ modifiers, kb'.modifier m = if key.keycode = m then keydown else kb.modifier m

private theorem code_bytes : ∀ code : BitVec 8, code.toNat < 0x80 →
    released code = false ∧ released (code ||| 0x80) = true ∧ (code ||| 0x80) &&& 0x7f = code ∧
    (code ≠ 0x60 → code ≠ 0x61 → Single code ∧ Single (code ||| 0x80)) ∧
    (code ≠ SC_PRTSCR_DOWN1 → code ≠ SC_PRTSCR_DOWN2 → Extending code ∧ Extending (code ||| 0x80)) := by
  decide +kernel

theorem feed_makeCode (start : kb.state = .start) (key : PhysicalKey) :
    ∃ kb', feed kb key.makeCode = .ok kb' ∧ Sets key true kb kb' := by
  cases key with
  | plain code valid =>
    obtain ⟨press, _, _, single, _⟩ := code_bytes code valid.1
    refine ⟨_, feed_single start (single valid.2.1 valid.2.2).1, (after_state _).trans start,
      fun m member => ?_⟩
    rw [codeEvent, press, if_neg (by decide), after_keyevent member]
    rfl
  | extended code valid =>
    obtain ⟨press, _, _, _, extending⟩ := code_bytes code valid.1
    refine ⟨_, feed_extended start (extending valid.2.1 valid.2.2).1, (after_state _).trans start,
      fun m member => ?_⟩
    rw [codeEvent, press, if_neg (by decide), after_keyevent member]
    rfl
  | printscreen =>
    have word : putByteSwitch { kb with state := .ext1_2, data := SC_PRTSCR_DOWN1 } SC_PRTSCR_DOWN2 =
        .ok (some ⟨.keyPrintscreen, true⟩, { kb with data := SC_PRTSCR_DOWN1 }) := by rw [start]; rfl
    refine ⟨_, feed_printscreen start (.inl rfl) word, ?_, fun m member => ?_⟩
    · exact (after_state _).trans start
    · exact after_modifier _ member
  | pause =>
    have press : ((0x1d : BitVec 8) ++ (0x45 : BitVec 8)) ≠ SC_PAUSE_UP ∧
        ((0x1d : BitVec 8) ++ (0x45 : BitVec 8)) = SC_PAUSE_DOWN := by decide
    have release : ((0x9d : BitVec 8) ++ (0xc5 : BitVec 8)) = SC_PAUSE_UP := by decide
    have down : putByteSwitch { kb with state := .ext2_2, data := 0x1d } 0x45 =
        .ok (some ⟨.keyPausebreak, true⟩, { kb with data := 0x1d }) := by
      rw [putByteSwitch]
      dsimp only
      rw [if_neg press.1, if_pos press.2, start]
      rfl
    have up (kb : Ps2Keyboard) (start : kb.state = .start) :
        putByteSwitch { kb with state := .ext2_2, data := 0x9d }
        0xc5 = .ok (some ⟨.keyPausebreak, false⟩, { kb with data := 0x9d }) := by
      rw [putByteSwitch]
      dsimp only
      rw [if_pos release, start]
      rfl
    have kept : (Ps2Keyboard.after { kb with data := 0x1d } (some ⟨.keyPausebreak, true⟩)).state =
        kb.state := after_state _
    have between := kept.trans start
    have ran := feed_pause_half start [SC_EXT2, 0x9d, 0xc5] down
    rw [feed_pause_half between [] (up _ between), feed] at ran
    refine ⟨_, ran, (after_state _).trans between, fun m member => ?_⟩
    have other : Keycode.keyPausebreak ≠ m := by
      rintro rfl
      exact absurd member (by decide)
    rw [after_modifier _ member, if_neg other]
    exact after_modifier _ member

theorem feed_breakCode (start : kb.state = .start) (key : PhysicalKey) :
    ∃ kb', feed kb key.breakCode = .ok kb' ∧ Sets key false kb kb' := by
  cases key with
  | plain code valid =>
    obtain ⟨_, release, code_eq, single, _⟩ := code_bytes code valid.1
    refine ⟨_, feed_single start (single valid.2.1 valid.2.2).2, (after_state _).trans start,
      fun m member => ?_⟩
    rw [codeEvent, release, if_pos rfl, code_eq, after_keyevent member]
    rfl
  | extended code valid =>
    obtain ⟨_, release, code_eq, _, extending⟩ := code_bytes code valid.1
    refine ⟨_, feed_extended start (extending valid.2.1 valid.2.2).2, (after_state _).trans start,
      fun m member => ?_⟩
    rw [codeEvent, release, if_pos rfl, code_eq, after_keyevent member]
    rfl
  | printscreen =>
    have word : putByteSwitch { kb with state := .ext1_2, data := SC_PRTSCR_UP1 } SC_PRTSCR_UP2 =
        .ok (some ⟨.keyPrintscreen, false⟩, { kb with data := SC_PRTSCR_UP1 }) := by rw [start]; rfl
    exact ⟨_, feed_printscreen start (.inr rfl) word, (after_state _).trans start,
      fun m member => after_modifier _ member⟩
  | pause =>
    refine ⟨kb, rfl, start, fun m member => ?_⟩
    have other : Keycode.keyPausebreak ≠ m := by
      rintro rfl
      exact absurd member (by decide)
    exact (if_neg other).symm

end RubberOS.Model.Ps2
