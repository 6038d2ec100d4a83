import RubberOS.Soundness.InputDelivery
import RubberOS.Soundness.MouseDrag
import RubberOS.ToMathlib.LastUse

/-! # The order of the windows

A window goes on top when it is made and when a button is pressed over it, and nothing else changes the order. So
the list of windows holds every window once, in the order of last use, and the focus is where the last call that
gave it has put it. What the mouse does goes to the topmost window under the cursor, and the keys go to the focus.
-/

namespace RubberOS.Soundness.WindowOrder

open Model Model.Ps2 Model.Gui Model.Kmain LabelledRuns MouseDrag

/-- What the rest of the kernel calls. -/
inductive Call where
  | newWindowAt (w : ℕ) (scrRect : Rect)
  | newTtyWindow (w : ℕ)
  | windowSetFocus (w : ℕ)
  | windowInvalidate (w : ℕ) (rt : Option Rect)
  | hidOnMouse (evt : HidMouseEvent)
  | hidOnKeyboard (evt : HidKeyevent) (c : HidChar)
  | guiDrawAll

def perform (s : Screen) : Call → Result (Screen × Sent)
  | .newWindowAt w scrRect => return ({ s with desktop := newWindowAt s.desktop w scrRect }, [])
  | .newTtyWindow w => do return (← newTtyWindow s w (s.terminal w), [])
  | .windowSetFocus w => return ({ s with desktop := windowSetFocus s.desktop w }, [])
  | .windowInvalidate w rt => return ({ s with desktop := windowInvalidate s.desktop w rt }, [])
  | .hidOnMouse evt => hidOnMouse s evt
  | .hidOnKeyboard evt c => hidOnKeyboard s evt c
  | .guiDrawAll => do
    let desktop ← drawn s.desktop
    return ({ s with desktop }, [])

/-- No window of the list contains the place but those from this one down. -/
def Topmost (d : Desktop) (x y : ℤ) (w : ℕ) : Prop := ∃ below above,
  d.windowList = below ++ w :: above ∧ rectContains (d.window w).scrRect x y = true ∧
    ∀ v ∈ above, rectContains (d.window v).scrRect x y = false

/-- The window that a button press raises. -/
def raised (d : Desktop) (x y : ℤ) (evt : GuiMouseEvent) : Option ℕ :=
  if guiMouseEventDown evt.left evt.prevLeft || guiMouseEventDown evt.right evt.prevRight ||
      guiMouseEventDown evt.middle evt.prevMiddle then
    match d.mouseCapturing with
    | some _ => none
    | none => d.windowList.reverse.find? fun w => rectContains (d.window w).scrRect x y
  else none

/-- The place of the cursor when the windows hear of an event. -/
def cursorAt (s : Screen) (evt : HidMouseEvent) : Gui.Point := (guiMouseMove s.desktop evt.dx (-evt.dy)).2

/-- The window that an event of the mouse raises. -/
def raisedBy (s : Screen) (evt : HidMouseEvent) : Option ℕ :=
  raised s.desktop (cursorAt s evt).x (cursorAt s evt).y (mouseEvent s.toMouseState (cursorAt s evt) evt)

/-- The window that a call uses. -/
def uses (s : Screen) : Call → Option ℕ
  | .newWindowAt w _ | .newTtyWindow w => some w
  | .hidOnMouse evt => raisedBy s evt
  | .windowSetFocus _ | .windowInvalidate .. | .hidOnKeyboard .. | .guiDrawAll => none

/-- The window that a call gives the focus. -/
def focuses (s : Screen) : Call → Option ℕ
  | .newTtyWindow w | .windowSetFocus w => some w
  | .hidOnMouse evt => raisedBy s evt
  | .newWindowAt .. | .windowInvalidate .. | .hidOnKeyboard .. | .guiDrawAll => none

/-- The windows with all uses so far and all windows that were given the focus. -/
structure Tracked where
  screen : Screen
  used : List ℕ
  focused : List ℕ

def Tracked.exec (s : Tracked) (call : Call) : Result Tracked := do
  let (screen, _) ← perform s.screen call
  return ⟨screen, s.used ++ (uses s.screen call).toList, s.focused ++ (focuses s.screen call).toList⟩

/-- The slab gives an object that no window has. -/
def Enabled (s : Tracked) : Call → Prop
  | .newWindowAt w _ | .newTtyWindow w => w ∉ s.screen.desktop.windowList
  | .windowSetFocus _ | .windowInvalidate .. | .hidOnMouse _ | .hidOnKeyboard .. | .guiDrawAll => True

abbrev Steps : Tracked → Call → Tracked → Prop := Guarded Enabled Tracked.exec

/-! ## What a call does to the order -/

/-- The list and the focus after these windows were used and focused. -/
structure Ordered (d d' : Desktop) (used focused : Option ℕ) : Prop where
  windowList : d'.windowList = match used with
    | some w => d.windowList.erase w ++ [w]
    | none => d.windowList
  focused : d'.focused = focused.or d.focused

section Calls

variable {d d' d'' : Desktop} {s t : Screen} {w : ℕ} {x y : ℤ} {evt : GuiMouseEvent} {sent : Sent}

private theorem Ordered.refl (d : Desktop) : Ordered d d none none := ⟨rfl, rfl⟩

private theorem Ordered.alike {used focused : Option ℕ} (ordered : Ordered d d' used focused) (alike : Alike d' d'') :
    Ordered d d'' used focused :=
  ⟨alike.windowList.symm.trans ordered.windowList, alike.focused.symm.trans ordered.focused⟩

private theorem ordered_alike (alike : Alike d d') : Ordered d d' none none := (Ordered.refl d).alike alike

private theorem unmoved_alike (alike : Alike d d') : Unmoved d d' := by
  refine ⟨alike.mouseCapturing.symm, alike.sizing.symm, fun v => ?_, fun v => (alike.window v).scrRect.symm,
    fun v => (alike.window v).moving.symm⟩
  rw [alike.windowList]

private theorem topmost_of_find (found : (d.windowList.reverse.find? fun w => rectContains (d.window w).scrRect x y) = some w) :
    Topmost d x y w := by
  obtain ⟨inside, above, below, split, outside⟩ := List.find?_eq_some_iff_append.mp found
  refine ⟨below.reverse, above.reverse, ?_, inside, fun v member => ?_⟩
  · rw [← List.reverse_reverse d.windowList, split, List.reverse_append, List.reverse_cons, List.append_assoc]
    rfl
  · have beside := outside v (List.mem_reverse.mp member)
    rw [Bool.not_eq_true'] at beside
    exact beside

private theorem onNcMouse_ordered (d : Desktop) (w : ℕ) (evt : GuiMouseEvent) :
    Ordered d (onNcMouse d w evt) none none := by
  rw [onNcMouse]
  split
  · exact ⟨rfl, rfl⟩
  · exact .refl d

private theorem onMoving_ordered (d : Desktop) (w : ℕ) (evt : GuiMouseEvent) :
    Ordered d (onMoving d w evt) none none := by
  rw [onMoving]
  split
  · exact ⟨rfl, rfl⟩
  · exact ⟨rfl, rfl⟩

/-- Nothing is raised while a window captures the mouse. -/
private theorem raised_captured (captured : d.mouseCapturing = some w) : raised d x y evt = none := by
  rw [raised, captured]
  split <;> rfl

/-- A message raises the window that it is for when a button goes down. -/
private theorem sendmsg_ordered (tidy : Tidy d) (x y : ℤ) (evt : GuiMouseEvent) :
    Ordered d (windowSendmsgMouse d x y evt).1 (raised d x y evt) (raised d x y evt) := by
  cases captured : d.mouseCapturing with
  | some w =>
    rw [sendmsg_captured tidy captured, raised_captured captured]
    exact onMoving_ordered d w evt
  | none =>
    rw [windowSendmsgMouse, raised, mouseTarget, captured]
    dsimp only
    generalize (guiMouseEventDown evt.left evt.prevLeft || guiMouseEventDown evt.right evt.prevRight ||
      guiMouseEventDown evt.middle evt.prevMiddle) = pressed
    cases found : d.windowList.reverse.find? fun w => rectContains (d.window w).scrRect x y with
    | none =>
      dsimp only
      rw [ite_self]
      exact .refl d
    | some w =>
      have member : w ∈ d.windowList := List.mem_reverse.mp (List.mem_of_find?_eq_some found)
      have still : ¬ (d.window w).moving = true := by
        intro moving
        rw [(tidy.moving w).mpr ⟨member, moving⟩] at captured
        cases captured
      dsimp only
      rw [if_neg still]
      have front : Ordered d (if pressed = true then moveToFront d w else d) (if pressed = true then some w else none)
          (if pressed = true then some w else none) := by
        cases pressed with
        | true => exact ⟨rfl, rfl⟩
        | false => exact .refl d
      generalize (if pressed = true then moveToFront d w else d) = d₁ at front ⊢
      split
      · exact front
      · have kept := onNcMouse_ordered d₁ w
          { evt with x := evt.x - (d₁.window w).scrRect.x, y := evt.y - (d₁.window w).scrRect.y }
        exact ⟨kept.windowList.trans front.windowList, kept.focused.trans front.focused⟩

/-- A call of a window procedure damages its window, and no more. -/
private theorem callProc_alike {msg : WindowMessage} (ran : callProc s w msg = .ok t) : Alike s.desktop t.desktop := by
  obtain ⟨⟨tw, rp, calls⟩, _, same⟩ := Except.bind_ok_iff.mp ran
  cases same
  have painted (d : Desktop) (terminal : ℕ → TtyWindow) : Alike d (repaint d terminal rp) := by
    refine { Alike.refl d with window := fun v => { WindowAlike.refl (d.window v) with proc := ?_ } }
    rw [repaint, Option.isSome_map]
  exact (alike_invalidations w calls s.desktop).symm.trans (painted _ _)

/-- What is sent to the focused window is sent to it alone. -/
private theorem sendmsgFocused_alike {msg : WindowMessage} (ran : windowSendmsgFocused s msg = .ok (t, sent)) :
    Alike s.desktop t.desktop ∧ ∀ message ∈ sent, s.desktop.focused = some message.1 := by
  rw [windowSendmsgFocused] at ran
  cases focus : s.desktop.focused with
  | none =>
    rw [focus] at ran
    cases ran
    exact ⟨.refl _, fun _ member => (List.not_mem_nil member).elim⟩
  | some w =>
    rw [focus] at ran
    dsimp only at ran
    rw [sendmsg] at ran
    split at ran
    · obtain ⟨u, called, same⟩ := Except.bind_ok_iff.mp ran
      cases same
      refine ⟨callProc_alike called, fun message member => ?_⟩
      rw [List.mem_singleton.mp member]
    · cases ran
      exact ⟨.refl _, fun _ member => (List.not_mem_nil member).elim⟩

private theorem hidOnKeyboard_alike {evt : HidKeyevent} {c : HidChar} (ran : hidOnKeyboard s evt c = .ok (t, sent)) :
    Alike s.desktop t.desktop ∧ ∀ message ∈ sent, s.desktop.focused = some message.1 := by
  obtain ⟨⟨u, first⟩, pressed, rest⟩ := Except.bind_ok_iff.mp ran
  obtain ⟨alike, toFocus⟩ := sendmsgFocused_alike pressed
  dsimp only at rest
  split at rest
  · obtain ⟨⟨v, second⟩, typed, same⟩ := Except.bind_ok_iff.mp rest
    cases same
    obtain ⟨alike', toFocus'⟩ := sendmsgFocused_alike typed
    refine ⟨alike.trans alike', fun message member => ?_⟩
    rcases List.mem_append.mp member with early | late
    · exact toFocus message early
    · exact alike.focused.trans (toFocus' message late)
  · cases rest
    exact ⟨alike, toFocus⟩

/-- An event of the mouse does what `window_sendmsg_mouse` does, at the place to which the cursor has gone. -/
private theorem hidOnMouse_alike {evt : HidMouseEvent} (ran : hidOnMouse s evt = .ok (t, sent)) :
    Alike (guiOnMouse s.toMouseState evt).1.desktop t.desktop ∧ sent = mouseMessages s.toMouseState evt := by
  rw [hidOnMouse] at ran
  rw [mouseMessages]
  generalize guiOnMouse s.toMouseState evt = r at ran ⊢
  obtain ⟨mouse, message⟩ := r
  cases message with
  | none =>
    cases ran
    exact ⟨.refl _, rfl⟩
  | some message =>
    obtain ⟨w, evt⟩ := message
    obtain ⟨u, called, same⟩ := Except.bind_ok_iff.mp ran
    cases same
    exact ⟨callProc_alike called, rfl⟩

/-- The cursor moves, and the windows stay as they are. -/
private theorem unmoved_mouseMove (d : Desktop) (dx dy : ℤ) : Unmoved d (guiMouseMove d dx dy).1 :=
  ⟨rfl, rfl, fun _ => Iff.rfl, fun _ => rfl, fun _ => rfl⟩

private theorem mouse_ordered {evt : HidMouseEvent} (tidy : Tidy s.desktop) (ran : hidOnMouse s evt = .ok (t, sent)) :
    Ordered s.desktop t.desktop (raisedBy s evt) (raisedBy s evt) ∧ Tidy t.desktop := by
  obtain ⟨alike, _⟩ := hidOnMouse_alike ran
  have moved := tidy.unmoved (unmoved_mouseMove s.desktop evt.dx (-evt.dy))
  have ordered := sendmsg_ordered moved (cursorAt s evt).x (cursorAt s evt).y
    (mouseEvent s.toMouseState (cursorAt s evt) evt)
  have kept := sendmsg_tidy moved (cursorAt s evt).x (cursorAt s evt).y
    (mouseEvent s.toMouseState (cursorAt s evt) evt)
  exact ⟨Ordered.alike ⟨ordered.windowList, ordered.focused⟩ alike, kept.unmoved (unmoved_alike alike)⟩

/-- A message of the mouse goes to the topmost window, in coordinates of its client area. -/
private theorem sendmsg_topmost {evt' : GuiMouseEvent} (tidy : Tidy d)
    (sent : (windowSendmsgMouse d x y evt).2 = some (w, evt')) :
    d.mouseCapturing = none ∧ Topmost d x y w ∧
      evt'.x = evt.x - (d.window w).scrRect.x - CLIENT_X0 ∧ evt'.y = evt.y - (d.window w).scrRect.y - CLIENT_Y0 ∧
      rectContains (clientRectForWindow (d.window w).scrRect.width (d.window w).scrRect.height)
        (evt'.x + CLIENT_X0) (evt'.y + CLIENT_Y0) = true := by
  cases captured : d.mouseCapturing with
  | some v =>
    rw [sendmsg_captured tidy captured] at sent
    cases sent
  | none =>
    refine ⟨rfl, ?_⟩
    rw [windowSendmsgMouse, mouseTarget, captured] at sent
    dsimp only at sent
    split at sent
    · cases sent
    · rename_i v found
      split at sent
      · cases sent
      · generalize (guiMouseEventDown evt.left evt.prevLeft || guiMouseEventDown evt.right evt.prevRight ||
          guiMouseEventDown evt.middle evt.prevMiddle) = pressed at sent
        have place : ((if pressed = true then moveToFront d v else d).window v).scrRect = (d.window v).scrRect := by
          cases pressed with
          | true =>
            have member : v ∈ d.windowList := List.mem_reverse.mp (List.mem_of_find?_eq_some found)
            exact (moveToFront_unmoved member).scrRect v
          | false => rfl
        generalize (if pressed = true then moveToFront d v else d) = d₁ at place sent
        rw [place] at sent
        split at sent
        · rename_i inside
          dsimp only at sent
          split at sent
          · cases sent
            refine ⟨topmost_of_find found, rfl, rfl, ?_⟩
            simp only [clientRectForWindow] at inside ⊢
            rw [Int.sub_add_cancel, Int.sub_add_cancel]
            exact inside
          · cases sent
        · cases sent

end Calls

/-! ## Runs -/

/-- The windows are in the order of last use, and the focus is where it was put last. -/
structure InOrder (s : Tracked) : Prop where
  tidy : Tidy s.screen.desktop
  windowList : s.screen.desktop.windowList = s.used.dedup
  focused : s.screen.desktop.focused = s.focused.getLast?

section Runs

variable {s t : Tracked} {call : Call} {calls : List Call}

/-- A window is made, on top of the others. -/
private theorem newWindow_ordered {d d' : Desktop} {w : ℕ} (fresh : w ∉ d.windowList)
    (change : ManagedWindow → ManagedWindow) (still : ∀ m, (change m).moving = m.moving)
    (made : d' = (windowNew d w).setWindow w change) (tidy : Tidy d) :
    Ordered d d' (some w) none ∧ Tidy d' := by
  subst made
  refine ⟨⟨?_, rfl⟩, ?_, fun v => ?_⟩
  · change d.windowList ++ [w] = d.windowList.erase w ++ [w]
    rw [List.erase_of_not_mem fresh]
  · exact tidy.sizing
  · rw [setWindow_keeps (·.moving) (windowNew d w) w v still]
    change d.mouseCapturing = some v ↔ v ∈ d.windowList ++ [w] ∧ ((windowNew d w).window v).moving = true
    rw [List.mem_append, List.mem_singleton]
    rcases eq_or_ne v w with rfl | apart
    · have stopped : ((windowNew d v).window v).moving = false := by
        rw [windowNew]
        dsimp only
        rw [setWindow_self]
      refine iff_of_false (fun captured => fresh ((tidy.moving v).mp captured).1) ?_
      rintro ⟨_, moves⟩
      rw [stopped] at moves
      cases moves
    · have other : (windowNew d w).window v = d.window v := by
        rw [windowNew]
        dsimp only
        rw [setWindow_of_ne _ _ apart]
      rw [other, or_iff_left apart]
      exact tidy.moving v

/-- What a call does to the order, and that it keeps the state of the mouse tidy. -/
private theorem call_ordered {screen : Screen} {sent : Sent} (tidy : Tidy s.screen.desktop) (enabled : Enabled s call)
    (ran : perform s.screen call = .ok (screen, sent)) :
    Ordered s.screen.desktop screen.desktop (uses s.screen call) (focuses s.screen call) ∧ Tidy screen.desktop := by
  cases call with
  | newWindowAt w scrRect =>
    cases ran
    exact newWindow_ordered enabled (fun m => { m with scrRect }) (fun _ => rfl) rfl tidy
  | newTtyWindow w =>
    obtain ⟨made, created, same⟩ := Except.bind_ok_iff.mp ran
    cases same
    obtain ⟨tw, _, same⟩ := Except.bind_ok_iff.mp created
    cases same
    obtain ⟨ordered, kept⟩ := newWindow_ordered enabled (fun m => { m with
      scrRect := { m.scrRect with
        width := (windowSizeForClient (TTYW_WIDTH * CW) (TTYW_HEIGHT * CH)).width,
        height := (windowSizeForClient (TTYW_WIDTH * CW) (TTYW_HEIGHT * CH)).height },
      title := "TTY".toList.map fun c => BitVec.ofNat 8 c.toNat, proc := some (ttyPaint tw s.screen.rp) })
      (fun _ => rfl) rfl tidy
    exact ⟨⟨ordered.windowList, rfl⟩, kept.sizing, kept.moving⟩
  | windowSetFocus w =>
    cases ran
    exact ⟨⟨rfl, rfl⟩, tidy.sizing, tidy.moving⟩
  | windowInvalidate w rt =>
    cases ran
    have alike := (alike_windowInvalidate s.screen.desktop w rt).symm
    exact ⟨ordered_alike alike, tidy.unmoved (unmoved_alike alike)⟩
  | hidOnMouse evt => exact mouse_ordered tidy ran
  | hidOnKeyboard evt c =>
    obtain ⟨alike, _⟩ := hidOnKeyboard_alike ran
    exact ⟨ordered_alike alike, tidy.unmoved (unmoved_alike alike)⟩
  | guiDrawAll =>
    obtain ⟨d, drew, same⟩ := Except.bind_ok_iff.mp ran
    cases same
    have alike : Alike s.screen.desktop d := by
      cases quiet : s.screen.desktop.painting with
      | true =>
        exfalso
        rw [drawn, drawSteps, drawStep] at drew
        dsimp only at drew
        rw [quiet] at drew
        cases drew
      | false =>
        obtain ⟨d', ran, alike⟩ := drawn_alike quiet
        cases ran.symm.trans drew
        exact alike
    exact ⟨ordered_alike alike, tidy.unmoved (unmoved_alike alike)⟩

private theorem InOrder.step (order : InOrder s) (step : Steps s call t) : InOrder t := by
  obtain ⟨enabled, ran⟩ := step
  obtain ⟨⟨screen, sent⟩, called, same⟩ := Except.bind_ok_iff.mp ran
  cases same
  obtain ⟨ordered, tidy⟩ := call_ordered order.tidy enabled called
  refine ⟨tidy, ?_, ?_⟩
  · rw [ordered.windowList]
    dsimp only
    cases uses s.screen call with
    | none => rw [Option.toList_none, List.append_nil, order.windowList]
    | some w => rw [Option.toList_some, List.dedup_concat, order.windowList]
  · rw [ordered.focused]
    dsimp only
    cases focuses s.screen call with
    | none => rw [Option.toList_none, List.append_nil, Option.none_or, order.focused]
    | some w => rw [Option.toList_some, List.getLast?_concat, Option.some_or]

private theorem inOrder_run {screen : Screen} (idle : Idle screen.desktop) (windows : screen.desktop.windowList = [])
    (focused : screen.desktop.focused = none) (run : Run Steps ⟨screen, [], []⟩ calls t) : InOrder t :=
  run.invariant (I := InOrder) ⟨idle.tidy, windows, focused⟩ fun _ _ _ order step => order.step step

/-- After every run of calls: the windows are those that were made, each once, in the order of their last uses, and
the focus is on the window that got it last. What the mouse does is told to the topmost window under the cursor and
only while none is dragged, in coordinates of its client area, and what is typed to the window with the focus. -/
theorem windows_in_order {screen : Screen} (idle : Idle screen.desktop) (windows : screen.desktop.windowList = [])
    (focused : screen.desktop.focused = none) (run : Run Steps ⟨screen, [], []⟩ calls t) :
    t.screen.desktop.windowList = t.used.dedup ∧ t.screen.desktop.focused = t.focused.getLast? ∧
    (∀ evt after sent w msg, hidOnMouse t.screen evt = .ok (after, sent) → (w, msg) ∈ sent →
      t.screen.desktop.mouseCapturing = none ∧
      Topmost t.screen.desktop (cursorAt t.screen evt).x (cursorAt t.screen evt).y w ∧
      ∃ evt', msg = .mouse evt' ∧
        evt'.x = (cursorAt t.screen evt).x - (t.screen.desktop.window w).scrRect.x - CLIENT_X0 ∧
        evt'.y = (cursorAt t.screen evt).y - (t.screen.desktop.window w).scrRect.y - CLIENT_Y0 ∧
        rectContains (clientRectForWindow (t.screen.desktop.window w).scrRect.width
          (t.screen.desktop.window w).scrRect.height) (evt'.x + CLIENT_X0) (evt'.y + CLIENT_Y0) = true) ∧
    (∀ evt c after sent w msg, hidOnKeyboard t.screen evt c = .ok (after, sent) → (w, msg) ∈ sent →
      t.focused.getLast? = some w) := by
  have order := inOrder_run idle windows focused run
  refine ⟨order.windowList, order.focused, fun evt after sent w msg ran member => ?_,
    fun evt c after sent w msg ran member => ?_⟩
  · obtain ⟨_, rfl⟩ := hidOnMouse_alike ran
    rw [mouseMessages, Option.mem_toList, Option.map_eq_some_iff] at member
    obtain ⟨⟨v, evt'⟩, sent, same⟩ := member
    cases same
    have moved := order.tidy.unmoved (unmoved_mouseMove t.screen.desktop evt.dx (-evt.dy))
    obtain ⟨free, topmost, x, y, inside⟩ := sendmsg_topmost moved sent
    exact ⟨free, topmost, evt', rfl, x, y, inside⟩
  · rw [← order.focused]
    exact (hidOnKeyboard_alike ran).2 _ member

/-- The screen before the first window. -/
def emptyScreen : Screen := ⟨⟨InputDelivery.emptyDesktop, false, false, false⟩, fun _ => ⟨fun _ => 0, 0, 0⟩, ⟨-10, -10⟩⟩

/-- A button is pressed where the other window leaves the terminal free. -/
theorem windows_in_order_pressed : ∃ calls t, Run Steps ⟨emptyScreen, [], []⟩ calls t ∧
    t.screen.desktop.windowList = [2, 1] ∧ t.screen.desktop.focused = some 1 := by
  have computed : (do
      let s ← Tracked.exec ⟨emptyScreen, [], []⟩ (.newTtyWindow 1)
      let t ← s.exec (.newWindowAt 2 ⟨450, 300, 400, 300⟩)
      let u ← t.exec (.hidOnMouse ⟨-100, 0, true, false, false⟩)
      return (s.screen.desktop.windowList, u.used, u.focused) : Result _) = .ok ([1], [1, 2, 1], [1, 1]) := rfl
  simp only [Except.bind_ok_iff, Except.pure_ok_iff, Prod.mk.injEq] at computed
  obtain ⟨s, made, t, covered, u, pressed, windows, used, focused⟩ := computed
  have run : Run Steps ⟨emptyScreen, [], []⟩ [.newTtyWindow 1, .newWindowAt 2 ⟨450, 300, 400, 300⟩,
      .hidOnMouse ⟨-100, 0, true, false, false⟩] u := by
    refine ((Run.single ⟨List.not_mem_nil, made⟩).snoc ⟨?_, covered⟩).snoc ⟨True.intro, pressed⟩
    rw [Enabled, windows]
    decide
  have idle : Idle emptyScreen.desktop := ⟨rfl, rfl, fun _ member => (List.not_mem_nil member).elim⟩
  obtain ⟨order, focus, _⟩ := windows_in_order idle rfl rfl run
  rw [used] at order
  rw [focused] at focus
  exact ⟨_, u, run, order, focus⟩

end Runs

end RubberOS.Soundness.WindowOrder
