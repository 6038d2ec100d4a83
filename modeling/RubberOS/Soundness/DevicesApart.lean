import RubberOS.Soundness.InputDelivery

/-! # The keyboard and the mouse do not disturb each other

The messages of the two devices reach the main loop in one queue, in any order. What the mouse does to the windows
is what its own messages do, whatever keys come in between, and the keys are decoded as if the mouse were not there.
All that the order decides is which window has the focus when a key comes.
-/

namespace RubberOS.Soundness.DevicesApart

open Model Model.Interrupt Model.Ps2 Model.Gui Model.Kmain InputDelivery

/-- The mouse has done the same to both. -/
structure MouseAlike (s s' : Input) : Prop where
  ms : s.ms = s'.ms
  desktop : Gui.Alike s.screen.desktop s'.screen.desktop
  buttons : { s.screen.toMouseState with desktop := s'.screen.desktop } = s'.screen.toMouseState
  rp : s.screen.rp = s'.screen.rp

/-- Whether a message to a window comes from the mouse. -/
def fromMouse : ℕ × WindowMessage → Bool
  | (_, .mouse _) => true
  | (_, .key _) | (_, .char _) => false

/-- The window messages of a key, whichever window gets them. -/
def strokesOf (evt : HidKeyevent) (c : HidChar) : List WindowMessage :=
  .key evt :: if c.raw then [] else [.char c]

/-- What the keyboard decoder makes of a message. -/
def decodeKey (kb : Ps2Keyboard) (msg : IntrMsg) : Result (List WindowMessage × Ps2Keyboard) := do
  let (found, kb) ← intrMsgOnKeyboard kb msg
  return (found.elim [] fun call => strokesOf call.1 call.2, kb)

/-- The window messages of all keys, from the messages of the keyboard alone. -/
def decodeKeys (kb : Ps2Keyboard) : List IntrMsg → Result (List WindowMessage × Ps2Keyboard)
  | [] => return ([], kb)
  | msg :: rest => do
    let (strokes, kb) ← decodeKey kb msg
    let (more, kb) ← decodeKeys kb rest
    return (strokes ++ more, kb)

/-- The messages that come from a device. -/
def fromDevice (type : IntrMsgType) (msgs : List IntrMsg) : List IntrMsg := msgs.filter (·.type = type)

section Apart

variable {s s' t : Input} {pages pages' : ℕ → Page} {msg : IntrMsg} {sent : Sent}

private theorem MouseAlike.refl (s : Input) : MouseAlike s s := ⟨rfl, .refl _, rfl, rfl⟩

private theorem MouseAlike.symm (alike : MouseAlike s s') : MouseAlike s' s := by
  refine ⟨alike.ms.symm, alike.desktop.symm, ?_, alike.rp.symm⟩
  rw [← alike.buttons]

private theorem MouseAlike.trans {s'' : Input} (first : MouseAlike s s') (second : MouseAlike s' s'') :
    MouseAlike s s'' := by
  refine ⟨first.ms.trans second.ms, first.desktop.trans second.desktop, ?_, first.rp.trans second.rp⟩
  rw [← second.buttons, ← first.buttons]

private theorem keyMessages_keys (d : Desktop) (evt : HidKeyevent) (c : HidChar) :
    (keyMessages d evt c).filter fromMouse = [] ∧
      ((keyMessages d evt c).map Prod.snd).Sublist (strokesOf evt c) := by
  rw [keyMessages, strokesOf]
  cases d.focused with
  | none => exact ⟨rfl, List.nil_sublist _⟩
  | some w =>
    dsimp only
    split
    · cases c.raw with
      | true => exact ⟨rfl, List.Sublist.refl _⟩
      | false => exact ⟨rfl, List.Sublist.refl _⟩
    · exact ⟨rfl, List.nil_sublist _⟩

/-- A message of the keyboard leaves the windows alone. -/
private theorem key_apart (ready : s.Ready pages) (type : msg.type = .keyboard) : ∃ t sent strokes,
    dispatchIntrMsg s msg = .ok (t, sent) ∧ t.Ready (hearAll pages sent) ∧ MouseAlike s t ∧
      decodeKey s.kb msg = .ok (strokes, t.kb) ∧ sent.filter fromMouse = [] ∧
      (sent.map Prod.snd).Sublist strokes := by
  obtain ⟨t, sent, ran, after⟩ := dispatch_ready ready msg
  obtain ⟨found, kb, d, terminal, sent', decoded, made, ran', alike, _⟩ := dispatch_keyboard ready type
  cases ran.symm.trans ran'
  refine ⟨_, sent, _, ran, after, ⟨rfl, alike, rfl, rfl⟩, Except.bind_ok_iff.mpr ⟨_, decoded, rfl⟩, ?_⟩
  rw [made]
  cases found with
  | none => exact ⟨rfl, List.Sublist.refl _⟩
  | some call => exact keyMessages_keys _ _ _

private theorem mouseMessages_mouse (mouse : MouseState) (evt : HidMouseEvent) :
    (mouseMessages mouse evt).filter fromMouse = mouseMessages mouse evt ∧
      ((mouseMessages mouse evt).filter fun message => !fromMouse message) = [] := by
  rw [mouseMessages]
  cases (guiOnMouse mouse evt).2 with
  | none => exact ⟨rfl, rfl⟩
  | some message => exact ⟨rfl, rfl⟩

/-- A message of the mouse does the same to inputs that the mouse has done the same to, and leaves the keyboard alone. -/
private theorem mouse_apart (ready : s.Ready pages) (ready' : s'.Ready pages') (type : msg.type = .mouse)
    (alike : MouseAlike s s') : ∃ t t' sent,
      dispatchIntrMsg s msg = .ok (t, sent) ∧ dispatchIntrMsg s' msg = .ok (t', sent) ∧ MouseAlike t t' ∧
      t.kb = s.kb ∧ sent.filter fromMouse = sent ∧ (sent.filter fun message => !fromMouse message) = [] := by
  obtain ⟨found, ms, decoded, _, ran⟩ := dispatch_mouse ready type
  obtain ⟨found', ms', decoded', _, ran'⟩ := dispatch_mouse ready' type
  rw [← alike.ms] at decoded'
  cases decoded.symm.trans decoded'
  cases found with
  | none => exact ⟨_, _, [], ran, ran', ⟨rfl, alike.desktop, alike.buttons, alike.rp⟩, rfl, rfl, rfl⟩
  | some evt =>
    obtain ⟨d, rp, ran, same, box, _⟩ := ran
    obtain ⟨d', rp', ran', same', box', _⟩ := ran'
    obtain ⟨e, moved, alike', sent⟩ := alike_guiOnMouse s.screen.toMouseState evt alike.desktop
    rw [alike.buttons] at moved sent
    have messages : mouseMessages s'.screen.toMouseState evt = mouseMessages s.screen.toMouseState evt := by
      rw [mouseMessages, mouseMessages, sent]
    rw [messages] at ran' box'
    obtain ⟨all, none⟩ := mouseMessages_mouse s.screen.toMouseState evt
    refine ⟨_, _, _, ran, ran', ⟨rfl, ?_, ?_, ?_⟩, rfl, all, none⟩
    · rw [moved] at same'
      exact (same.symm.trans alike').trans same'
    · dsimp only
      rw [moved]
    · dsimp only
      rw [box, box', alike.rp]

/-- The messages to windows that are not of the mouse. -/
def fromKeys (sent : Sent) : List WindowMessage := (sent.filter fun message => !fromMouse message).map Prod.snd

private theorem fromKeys_append (sent more : Sent) : fromKeys (sent ++ more) = fromKeys sent ++ fromKeys more := by
  rw [fromKeys, List.filter_append, List.map_append]
  rfl

/-- Without messages of the mouse, all are of keys. -/
private theorem fromKeys_all (none : sent.filter fromMouse = []) : fromKeys sent = sent.map Prod.snd := by
  have keys : ∀ message ∈ sent, (!fromMouse message) = true := by
    intro message member
    rw [Bool.not_eq_true']
    exact Bool.eq_false_iff.mpr (List.filter_eq_nil_iff.mp none message member)
  rw [fromKeys, List.filter_eq_self.mpr keys]

/-- Two inputs that the mouse has done the same to: one handles all messages, the other those of the mouse. -/
private theorem apart_all (ready : s.Ready pages) (ready' : s'.Ready pages') (alike : MouseAlike s s')
    (msgs : List IntrMsg) :
    ∃ t sent t' strokes, dispatchAll s msgs = .ok (t, sent) ∧
      dispatchAll s' (fromDevice .mouse msgs) = .ok (t', sent.filter fromMouse) ∧ MouseAlike t t' ∧
      decodeKeys s.kb (fromDevice .keyboard msgs) = .ok (strokes, t.kb) ∧ (fromKeys sent).Sublist strokes := by
  induction msgs generalizing s s' pages pages' with
  | nil => exact ⟨s, [], s', [], rfl, rfl, alike, rfl, List.Sublist.refl _⟩
  | cons msg rest ih =>
    cases type : msg.type with
    | keyboard =>
      obtain ⟨s₁, sent₁, strokes₁, ran₁, ready₁, same, decoded₁, none, sublist₁⟩ := key_apart ready type
      obtain ⟨t, sent, t', strokes, ran, ran', after, decoded, sublist⟩ := ih ready₁ ready' (same.symm.trans alike)
      have mouse : fromDevice .mouse (msg :: rest) = fromDevice .mouse rest :=
        List.filter_cons_of_neg (by rw [type]; decide)
      have keys : fromDevice .keyboard (msg :: rest) = msg :: fromDevice .keyboard rest :=
        List.filter_cons_of_pos (by rw [type]; decide)
      refine ⟨t, sent₁ ++ sent, t', strokes₁ ++ strokes, ?_, ?_, after, ?_, ?_⟩
      · exact Except.bind_ok_iff.mpr ⟨_, ran₁, Except.bind_ok_iff.mpr ⟨_, ran, rfl⟩⟩
      · rw [mouse, List.filter_append, none, List.nil_append]
        exact ran'
      · rw [keys]
        exact Except.bind_ok_iff.mpr ⟨_, decoded₁, Except.bind_ok_iff.mpr ⟨_, decoded, rfl⟩⟩
      · rw [fromKeys_append, fromKeys_all none]
        exact sublist₁.append sublist
    | mouse =>
      obtain ⟨s₁, s₁', sent₁, ran₁, ran₁', same, kb, all, none⟩ := mouse_apart ready ready' type alike
      obtain ⟨u, more, ran₂, ready₁⟩ := dispatch_ready ready msg
      cases ran₁.symm.trans ran₂
      obtain ⟨u, more, ran₂, ready₁'⟩ := dispatch_ready ready' msg
      cases ran₁'.symm.trans ran₂
      obtain ⟨t, sent, t', strokes, ran, ran', after, decoded, sublist⟩ := ih ready₁ ready₁' same
      have mouse : fromDevice .mouse (msg :: rest) = msg :: fromDevice .mouse rest :=
        List.filter_cons_of_pos (by rw [type]; decide)
      have keys : fromDevice .keyboard (msg :: rest) = fromDevice .keyboard rest :=
        List.filter_cons_of_neg (by rw [type]; decide)
      rw [kb] at decoded
      refine ⟨t, sent₁ ++ sent, t', strokes, ?_, ?_, after, ?_, ?_⟩
      · exact Except.bind_ok_iff.mpr ⟨_, ran₁, Except.bind_ok_iff.mpr ⟨_, ran, rfl⟩⟩
      · rw [mouse, List.filter_append, all]
        exact Except.bind_ok_iff.mpr ⟨_, ran₁', Except.bind_ok_iff.mpr ⟨_, ran', rfl⟩⟩
      · rw [keys]
        exact decoded
      · rw [fromKeys_append, fromKeys, none]
        exact sublist

/-- However the messages of the two devices are mixed: the windows, the pointer and the messages of the mouse are
those that the messages of the mouse lead to alone, the decoder of the keyboard is where the messages of the keyboard
alone lead, and the keys that windows get are among those that it decodes, in their order. -/
theorem devices_apart (ready : s.Ready pages) (msgs : List IntrMsg) : ∃ t sent t' strokes,
    dispatchAll s msgs = .ok (t, sent) ∧
    dispatchAll s (fromDevice .mouse msgs) = .ok (t', sent.filter fromMouse) ∧ MouseAlike t t' ∧
    decodeKeys s.kb (fromDevice .keyboard msgs) = .ok (strokes, t.kb) ∧ (fromKeys sent).Sublist strokes :=
  apart_all ready ready (.refl s) msgs

/-- A key in the middle of a packet of the mouse. -/
theorem devices_apart_mixed : ∃ s t sent t' strokes,
    dispatchAll s [⟨.mouse, 0x08⟩, ⟨.keyboard, 0x1e⟩, ⟨.mouse, 5⟩, ⟨.mouse, 7⟩] = .ok (t, sent) ∧
    dispatchAll s [⟨.mouse, 0x08⟩, ⟨.mouse, 5⟩, ⟨.mouse, 7⟩] = .ok (t', sent.filter fromMouse) ∧ MouseAlike t t' ∧
    decodeKeys s.kb [⟨.keyboard, 0x1e⟩] = .ok (strokes, t.kb) ∧ (fromKeys sent).Sublist strokes := by
  obtain ⟨screen, _, ready⟩ := @kmain_ready emptyDesktop (fun _ => ⟨fun _ => 0, 0, 0⟩) 1 rfl rfl rfl rfl rfl 2 3
  exact ⟨_, devices_apart ready [⟨.mouse, 0x08⟩, ⟨.keyboard, 0x1e⟩, ⟨.mouse, 5⟩, ⟨.mouse, 7⟩]⟩

end Apart

end RubberOS.Soundness.DevicesApart
