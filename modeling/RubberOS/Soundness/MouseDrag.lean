import RubberOS.Model.Desktop
import RubberOS.ToMathlib.LabelledRuns

/-! # Dragging a window with the mouse

Only the title bar of a window starts a drag, and only the release of the left button ends one. In
between every message goes to the captured window, whose rectangle stays where it was, and the place of
the press stays in `sizing_pt`. So the release moves the window by the way that the cursor has gone.
-/

namespace RubberOS.Soundness.MouseDrag

open Model Model.Gui Model.Ps2 LabelledRuns

/-! ## What a message can do -/

section Message

variable {d d' : Desktop} {w v : ℕ} {x y : ℤ} {evt : GuiMouseEvent}

/-- The fields that a drag is made of are the same, and so are the windows. -/
structure Unmoved (d d' : Desktop) : Prop where
  mouseCapturing : d'.mouseCapturing = d.mouseCapturing
  sizing : d'.sizing = d.sizing
  windows : ∀ v, v ∈ d'.windowList ↔ v ∈ d.windowList
  scrRect : ∀ v, (d'.window v).scrRect = (d.window v).scrRect
  moving : ∀ v, (d'.window v).moving = (d.window v).moving

private theorem Unmoved.refl (d : Desktop) : Unmoved d d := ⟨rfl, rfl, fun _ => Iff.rfl, fun _ => rfl, fun _ => rfl⟩

theorem moveToFront_unmoved (member : w ∈ d.windowList) : Unmoved d (moveToFront d w) := by
  constructor
  case mouseCapturing => rfl
  case sizing => rfl
  case windows =>
    intro v
    change v ∈ d.windowList.erase w ++ [w] ↔ _
    rw [List.mem_append, List.mem_singleton]
    rcases eq_or_ne v w with rfl | apart
    · exact iff_of_true (.inr rfl) member
    · rw [List.mem_erase_of_ne apart, or_iff_left apart]
  case scrRect =>
    intro v
    rw [moveToFront, invalidateWindowAll]
    exact setWindow_keeps (·.scrRect) _ w v fun _ => rfl
  case moving =>
    intro v
    rw [moveToFront, invalidateWindowAll]
    exact setWindow_keeps (·.moving) _ w v fun _ => rfl

/-- A window is grabbed at a place of the screen. -/
structure Grabbed (d d' : Desktop) (w : ℕ) (pt : Point) : Prop where
  mouseCapturing : d'.mouseCapturing = some w
  sizing : d'.sizing = true
  sizingPt : d'.sizingPt = pt
  windows : ∀ v, v ∈ d'.windowList ↔ v ∈ d.windowList
  scrRect : ∀ v, (d'.window v).scrRect = (d.window v).scrRect
  moving : ∀ v, (d'.window v).moving = true ↔ v = w ∨ (d.window v).moving = true

/-- A button press in the title bar grabs the window, anything else leaves it alone. -/
private theorem onNcMouse_cases (d : Desktop) (w : ℕ) (evt : GuiMouseEvent) : onNcMouse d w evt = d ∨
    guiMouseEventDown evt.left evt.prevLeft = true ∧
      Grabbed d (onNcMouse d w evt) w ⟨evt.x + (d.window w).scrRect.x, evt.y + (d.window w).scrRect.y⟩ := by
  rw [onNcMouse]
  split
  · rename_i pressed
    right
    rw [Bool.and_eq_true] at pressed
    refine ⟨pressed.2, rfl, rfl, rfl, fun _ => Iff.rfl, fun v => ?_, fun v => ?_⟩
    · dsimp only [invalidateGlobal]
      exact setWindow_keeps (·.scrRect) d w v fun _ => rfl
    · dsimp only [invalidateGlobal]
      rcases eq_or_ne v w with rfl | apart
      · rw [setWindow_self]
        exact iff_of_true rfl (.inl rfl)
      · rw [setWindow_of_ne _ _ apart, or_iff_right apart]
  · exact .inl rfl

/-- The rectangle of a dragged window, moved by the way from the press to this event. -/
def draggedRect (d : Desktop) (w : ℕ) (evt : GuiMouseEvent) : Rect :=
  let scrRect := (d.window w).scrRect
  ⟨scrRect.x + (evt.x - d.sizingPt.x), scrRect.y + (evt.y - d.sizingPt.y), scrRect.width, scrRect.height⟩

/-- A window is dropped. -/
structure Dropped (d d' : Desktop) (w : ℕ) (evt : GuiMouseEvent) : Prop where
  mouseCapturing : d'.mouseCapturing = none
  sizing : d'.sizing = false
  windows : d'.windowList = d.windowList
  placed : (d'.window w).scrRect = draggedRect d w evt
  stopped : (d'.window w).moving = false
  others : ∀ v, v ≠ w → d'.window v = d.window v

private theorem onMoving_up (released : guiMouseEventUp evt.left evt.prevLeft = true) :
    Dropped d (onMoving d w evt) w evt := by
  rw [onMoving, if_pos released]
  refine ⟨rfl, rfl, rfl, ?_, ?_, fun v apart => ?_⟩
  · dsimp only [invalidateGlobal]
    rw [setWindow_self]
    rfl
  · dsimp only [invalidateGlobal]
    rw [setWindow_self]
  · dsimp only [invalidateGlobal]
    rw [setWindow_of_ne _ _ apart]

/-- Without a release a drag goes on. -/
private theorem onMoving_held (held : ¬ guiMouseEventUp evt.left evt.prevLeft = true) :
    Unmoved d (onMoving d w evt) ∧ (onMoving d w evt).sizingPt = d.sizingPt := by
  rw [onMoving, if_neg held]
  exact ⟨⟨rfl, rfl, fun _ => Iff.rfl, fun _ => rfl, fun _ => rfl⟩, rfl⟩

/-! ## The states of the mouse -/

/-- There is a drag exactly while a window captures the mouse, and that window alone is moving. -/
structure Tidy (d : Desktop) : Prop where
  sizing : d.sizing = true ↔ d.mouseCapturing ≠ none
  moving : ∀ w, d.mouseCapturing = some w ↔ w ∈ d.windowList ∧ (d.window w).moving = true

theorem Tidy.unmoved (tidy : Tidy d) (same : Unmoved d d') : Tidy d' := by
  constructor
  · rw [same.sizing, same.mouseCapturing]
    exact tidy.sizing
  · intro w
    rw [same.mouseCapturing, same.windows, same.moving]
    exact tidy.moving w

private theorem mouseTarget_listed (tidy : Tidy d) (target : mouseTarget d x y = some w) : w ∈ d.windowList := by
  rw [mouseTarget] at target
  split at target
  · rename_i captured
    cases target
    exact ((tidy.moving _).mp captured).1
  · exact List.mem_reverse.mp (List.mem_of_find?_eq_some target)

/-- A window that is grabbed while nothing captures the mouse. -/
private theorem Tidy.grabbed {pt : Point} (tidy : Tidy d) (free : d.mouseCapturing = none) (member : w ∈ d.windowList)
    (grabbed : Grabbed d d' w pt) : Tidy d' := by
  constructor
  · rw [grabbed.sizing, grabbed.mouseCapturing]
    exact iff_of_true rfl (Option.some_ne_none w)
  · intro v
    rw [grabbed.mouseCapturing, grabbed.windows, grabbed.moving, Option.some.injEq]
    constructor
    · rintro rfl
      exact ⟨member, .inl rfl⟩
    · rintro ⟨listed, same | moving⟩
      · exact same.symm
      · rw [(tidy.moving v).mpr ⟨listed, moving⟩] at free
        cases free

/-- The captured window is dropped. -/
private theorem Tidy.dropped (tidy : Tidy d) (captured : d.mouseCapturing = some w)
    (dropped : Dropped d d' w evt) : Tidy d' := by
  constructor
  · rw [dropped.sizing, dropped.mouseCapturing]
    exact iff_of_false Bool.false_ne_true fun apart => apart rfl
  · intro v
    rw [dropped.mouseCapturing, dropped.windows]
    refine iff_of_false (fun same => by cases same) ?_
    rintro ⟨listed, moving⟩
    rcases eq_or_ne v w with rfl | apart
    · rw [dropped.stopped] at moving
      cases moving
    · rw [dropped.others v apart] at moving
      have second := (tidy.moving v).mpr ⟨listed, moving⟩
      rw [captured] at second
      cases second
      exact apart rfl

/-- During a drag every message goes to the captured window, wherever the cursor is. -/
theorem sendmsg_captured (tidy : Tidy d) (captured : d.mouseCapturing = some w) (x y : ℤ)
    (evt : GuiMouseEvent) :
    windowSendmsgMouse d x y evt = (onMoving d w evt, none) := by
  have target : mouseTarget d x y = some w := by rw [mouseTarget, captured]
  rw [windowSendmsgMouse, target]
  exact if_pos ((tidy.moving w).mp captured).2

/-- Without a drag a message grabs a window at its place, or moves nothing. -/
private theorem sendmsg_free (tidy : Tidy d) (free : d.mouseCapturing = none) (x y : ℤ) (evt : GuiMouseEvent) :
    Unmoved d (windowSendmsgMouse d x y evt).1 ∨
    guiMouseEventDown evt.left evt.prevLeft = true ∧
      ∃ w ∈ d.windowList, Grabbed d (windowSendmsgMouse d x y evt).1 w ⟨evt.x, evt.y⟩ := by
  cases target : mouseTarget d x y with
  | none =>
    rw [windowSendmsgMouse, target]
    exact .inl (.refl d)
  | some w =>
    have member := mouseTarget_listed tidy target
    have still : ¬ (d.window w).moving = true := by
      intro moving
      rw [(tidy.moving w).mpr ⟨member, moving⟩] at free
      cases free
    rw [windowSendmsgMouse, target]
    dsimp only
    rw [if_neg still]
    generalize (guiMouseEventDown evt.left evt.prevLeft || guiMouseEventDown evt.right evt.prevRight ||
      guiMouseEventDown evt.middle evt.prevMiddle) = pressed
    obtain ⟨d₁, raised, same⟩ : ∃ d₁, (if pressed = true then moveToFront d w else d) = d₁ ∧
        Unmoved d d₁ := by
      cases pressed with
      | true => exact ⟨_, rfl, moveToFront_unmoved member⟩
      | false => exact ⟨_, rfl, .refl d⟩
    rw [raised]
    split
    · exact .inl same
    · rcases onNcMouse_cases d₁ w
        { evt with x := evt.x - (d₁.window w).scrRect.x, y := evt.y - (d₁.window w).scrRect.y }
        with ignored | ⟨down, grabbed⟩
      · rw [ignored]
        exact .inl same
      · dsimp only at grabbed
        rw [Int.sub_add_cancel, Int.sub_add_cancel] at grabbed
        refine .inr ⟨down, w, member, grabbed.mouseCapturing, grabbed.sizing, grabbed.sizingPt,
          fun v => ?_, fun v => ?_, fun v => ?_⟩
        · exact (grabbed.windows v).trans (same.windows v)
        · exact (grabbed.scrRect v).trans (same.scrRect v)
        · rw [grabbed.moving, same.moving]

/-- A message to a captured window drops it, or the drag goes on. -/
private theorem sendmsg_moving (tidy : Tidy d) (captured : d.mouseCapturing = some w) (x y : ℤ)
    (evt : GuiMouseEvent) :
    guiMouseEventUp evt.left evt.prevLeft = true ∧ Dropped d (windowSendmsgMouse d x y evt).1 w evt ∨
    ¬ guiMouseEventUp evt.left evt.prevLeft = true ∧ Unmoved d (windowSendmsgMouse d x y evt).1 ∧
      (windowSendmsgMouse d x y evt).1.sizingPt = d.sizingPt := by
  rw [sendmsg_captured tidy captured]
  by_cases released : guiMouseEventUp evt.left evt.prevLeft = true
  · exact .inl ⟨released, onMoving_up released⟩
  · exact .inr ⟨released, onMoving_held released⟩

theorem sendmsg_tidy (tidy : Tidy d) (x y : ℤ) (evt : GuiMouseEvent) :
    Tidy (windowSendmsgMouse d x y evt).1 := by
  cases captured : d.mouseCapturing with
  | none =>
    rcases sendmsg_free tidy captured x y evt with same | ⟨_, w, member, grabbed⟩
    · exact tidy.unmoved same
    · exact tidy.grabbed captured member grabbed
  | some w =>
    rcases sendmsg_moving tidy captured x y evt with ⟨_, dropped⟩ | ⟨_, same, _⟩
    · exact tidy.dropped captured dropped
    · exact tidy.unmoved same

end Message

/-! ## Runs -/

/-- A call of `gui_on_mouse`, or a call of `window_sendmsg_mouse` of its own. -/
inductive MouseInput where
  | event (evt : HidMouseEvent)
  | message (x y : ℤ) (evt : GuiMouseEvent)

def deliver (s : MouseState) : MouseInput → MouseState
  | .event evt => (guiOnMouse s evt).1
  | .message x y evt => { s with desktop := (windowSendmsgMouse s.desktop x y evt).1 }

/-- What `window_sendmsg_mouse` is called with, and on which state. -/
def handed (s : MouseState) : MouseInput → Desktop × Point × GuiMouseEvent
  | .event evt =>
    let (d, pos) := guiMouseMove s.desktop evt.dx (-evt.dy)
    (d, pos, mouseEvent s pos evt)
  | .message x y evt => (s.desktop, ⟨x, y⟩, evt)

/-- The event that `window_sendmsg_mouse` gets, in coordinates of the screen. -/
def heard (s : MouseState) (input : MouseInput) : GuiMouseEvent := (handed s input).2.2

def Delivers (s : MouseState) (input : MouseInput) (t : MouseState) : Prop := deliver s input = t

/-- A step of a drag: the window stays captured. -/
def Drags (w : ℕ) (s : MouseState) (input : MouseInput) (t : MouseState) : Prop :=
  Delivers s input t ∧ t.desktop.mouseCapturing = some w

/-- No window has been grabbed yet. -/
structure Idle (d : Desktop) : Prop where
  sizing : d.sizing = false
  mouseCapturing : d.mouseCapturing = none
  moving : ∀ w ∈ d.windowList, (d.window w).moving = false

/-- The event is released in the drag of a window. -/
def Releases (s : MouseState) (input : MouseInput) : Prop :=
  guiMouseEventUp (heard s input).left (heard s input).prevLeft = true

section Runs

variable {fi : FbInfo} {allocated : Bool} {wm : Winman} {d : Desktop} {s t u : MouseState} {input : MouseInput} {w : ℕ}
  {inputs : List MouseInput}

theorem idle_init (ran : guiInit fi allocated = .ok wm) (window : ℕ → ManagedWindow) :
    Idle (desktopInit wm window) := by
  simp only [guiInit, Except.bind_ok_iff] at ran
  obtain ⟨_, _, ran⟩ := ran
  cases ran
  exact ⟨rfl, rfl, fun w member => (List.not_mem_nil member).elim⟩

theorem idle_windowNew (idle : Idle d) (w : ℕ) : Idle (windowNew d w) := by
  refine ⟨idle.sizing, idle.mouseCapturing, fun v member => ?_⟩
  rcases eq_or_ne v w with rfl | apart
  · rw [windowNew]
    dsimp only
    rw [setWindow_self]
  · rw [windowNew]
    dsimp only
    rw [setWindow_of_ne _ _ apart]
    rcases List.mem_append.mp member with old | new
    · exact idle.moving v old
    · exact absurd (List.mem_singleton.mp new) apart

theorem Idle.tidy (idle : Idle d) : Tidy d := by
  constructor
  · rw [idle.sizing, idle.mouseCapturing]
    exact iff_of_false Bool.false_ne_true fun apart => apart rfl
  · intro w
    rw [idle.mouseCapturing]
    refine iff_of_false (fun same => by cases same) ?_
    rintro ⟨member, moving⟩
    rw [idle.moving w member] at moving
    cases moving

private theorem deliver_desktop (s : MouseState) (input : MouseInput) : (deliver s input).desktop =
    (windowSendmsgMouse (handed s input).1 (handed s input).2.1.x (handed s input).2.1.y
      (heard s input)).1 := by
  cases input <;> rfl

/-- The cursor moves before the message is sent, and nothing else that a drag is made of changes. -/
private theorem handed_unmoved (s : MouseState) (input : MouseInput) :
    Unmoved s.desktop (handed s input).1 ∧ (handed s input).1.sizingPt = s.desktop.sizingPt := by
  cases input with
  | event evt => exact ⟨⟨rfl, rfl, fun _ => Iff.rfl, fun _ => rfl, fun _ => rfl⟩, rfl⟩
  | message x y evt => exact ⟨.refl _, rfl⟩

private theorem tidy_step (tidy : Tidy s.desktop) (step : Delivers s input t) : Tidy t.desktop := by
  subst step
  rw [deliver_desktop]
  exact sendmsg_tidy (tidy.unmoved (handed_unmoved s input).1) _ _ _

private theorem tidy_run (idle : Idle s.desktop) (run : Run Delivers s inputs t) : Tidy t.desktop :=
  run.invariant (I := fun t => Tidy t.desktop) idle.tidy fun _ _ _ tidy step => tidy_step tidy step

/-- What holds of a drag under way: the rectangles are those before the press, and the place of the press
is kept. -/
structure Dragging (before : MouseState) (press : MouseInput) (w : ℕ) (s : MouseState) : Prop where
  tidy : Tidy s.desktop
  captured : s.desktop.mouseCapturing = some w
  sizingPt : s.desktop.sizingPt = ⟨(heard before press).x, (heard before press).y⟩
  scrRect : ∀ v, (s.desktop.window v).scrRect = (before.desktop.window v).scrRect

private theorem dragging_press (tidy : Tidy s.desktop) (free : s.desktop.mouseCapturing = none)
    (captured : (deliver s input).desktop.mouseCapturing = some w) :
    Dragging s input w (deliver s input) := by
  obtain ⟨same, _⟩ := handed_unmoved s input
  have freed := same.mouseCapturing.trans free
  refine ⟨tidy_step tidy rfl, captured, ?_, ?_⟩ <;>
  · rw [deliver_desktop] at captured ⊢
    rcases sendmsg_free (tidy.unmoved same) freed _ _ (heard s input) with unmoved | ⟨_, v, _, grabbed⟩
    · rw [unmoved.mouseCapturing, freed] at captured
      cases captured
    · first
      | exact grabbed.sizingPt
      | exact fun v => (grabbed.scrRect v).trans (same.scrRect v)

private theorem Dragging.step {before : MouseState} {press : MouseInput} (dragging : Dragging before press w s)
    (step : Drags w s input t) : Dragging before press w t := by
  obtain ⟨delivered, captured⟩ := step
  obtain ⟨same, samePt⟩ := handed_unmoved s input
  have capturing := same.mouseCapturing.trans dragging.captured
  have tidy := tidy_step dragging.tidy delivered
  subst delivered
  rw [deliver_desktop] at captured
  rcases sendmsg_moving (dragging.tidy.unmoved same) capturing _ _ (heard s input)
    with ⟨_, dropped⟩ | ⟨_, held, heldPt⟩
  · rw [dropped.mouseCapturing] at captured
    cases captured
  · refine ⟨tidy, by rw [deliver_desktop]; exact captured, ?_, fun v => ?_⟩
    · rw [deliver_desktop, heldPt, samePt, dragging.sizingPt]
    · rw [deliver_desktop, held.scrRect, same.scrRect, dragging.scrRect]

/-- The rectangle of a window after a drag. -/
def displaced (old : Rect) (press release : GuiMouseEvent) : Rect :=
  { old with x := old.x + (release.x - press.x), y := old.y + (release.y - press.y) }

/-- The drag of a window ends with a release, which moves the window by the way of the cursor. -/
private theorem Dragging.release {before : MouseState} {press : MouseInput} (dragging : Dragging before press w s)
    (freed : (deliver s input).desktop.mouseCapturing = none) :
    ((deliver s input).desktop.window w).scrRect =
      displaced (before.desktop.window w).scrRect (heard before press) (heard s input) ∧
    ∀ v, v ≠ w → ((deliver s input).desktop.window v).scrRect = (before.desktop.window v).scrRect := by
  obtain ⟨same, samePt⟩ := handed_unmoved s input
  have capturing := same.mouseCapturing.trans dragging.captured
  rw [deliver_desktop] at freed ⊢
  rcases sendmsg_moving (dragging.tidy.unmoved same) capturing _ _ (heard s input)
    with ⟨_, dropped⟩ | ⟨_, held, _⟩
  · constructor
    · rw [dropped.placed, draggedRect, samePt, dragging.sizingPt, same.scrRect, dragging.scrRect, displaced]
    · intro v apart
      rw [dropped.others v apart, same.scrRect, dragging.scrRect]
  · rw [held.mouseCapturing, capturing] at freed
    cases freed

/-- In a run of `gui_on_mouse` alone, the left button was down before every event of a drag. -/
def ButtonHeld (s : MouseState) : Prop := s.desktop.mouseCapturing ≠ none → s.prevLeft = true

private theorem buttonHeld_step {evt : HidMouseEvent} (tidy : Tidy s.desktop) (held : ButtonHeld s) :
    ButtonHeld (deliver s (.event evt)) := by
  intro captured
  change evt.left = true
  obtain ⟨same, _⟩ := handed_unmoved s (.event evt)
  rw [deliver_desktop] at captured
  cases capturing : s.desktop.mouseCapturing with
  | none =>
    rcases sendmsg_free (tidy.unmoved same) (same.mouseCapturing.trans capturing) _ _ (heard s (.event evt))
      with unmoved | ⟨down, _⟩
    · rw [unmoved.mouseCapturing, same.mouseCapturing, capturing] at captured
      exact absurd rfl captured
    · rw [guiMouseEventDown, Bool.and_eq_true] at down
      exact down.1
  | some w =>
    have previous : s.prevLeft = true := held (by rw [capturing]; exact Option.some_ne_none w)
    rcases sendmsg_moving (tidy.unmoved same) (same.mouseCapturing.trans capturing) _ _ (heard s (.event evt))
      with ⟨_, dropped⟩ | ⟨notReleased, _⟩
    · exact absurd dropped.mouseCapturing captured
    · change ¬ guiMouseEventUp evt.left s.prevLeft = true at notReleased
      rw [guiMouseEventUp, previous, Bool.and_true, Bool.not_eq_true'] at notReleased
      exact Bool.not_eq_false _ ▸ notReleased

/-- In every run of mouse events: there is a drag exactly while a window captures the mouse, which is then
the only window that is moving; a release goes to the captured window wherever the cursor is, and ends the
drag; and a drag displaces its window by the way of the cursor from the press to the release, and no other. -/
theorem drag_displaces (idle : Idle s.desktop) (run : Run Delivers s inputs t) :
    Tidy t.desktop ∧
    (∀ w, t.desktop.mouseCapturing = some w →
      (∀ x y evt, windowSendmsgMouse t.desktop x y evt = (onMoving t.desktop w evt, none)) ∧
      (∀ input, Releases t input → (deliver t input).desktop.mouseCapturing = none) ∧
      ((∀ input ∈ inputs, ∃ evt, input = .event evt) →
        ∀ evt, evt.left = false → Releases t (.event evt))) ∧
    (∀ press w moves u release, t.desktop.mouseCapturing = none →
      (deliver t press).desktop.mouseCapturing = some w → Run (Drags w) (deliver t press) moves u →
      (deliver u release).desktop.mouseCapturing = none →
      ((deliver u release).desktop.window w).scrRect =
        displaced (t.desktop.window w).scrRect (heard t press) (heard u release) ∧
      ∀ v, v ≠ w → ((deliver u release).desktop.window v).scrRect = (t.desktop.window v).scrRect) := by
  have tidy := tidy_run idle run
  refine ⟨tidy, fun w captured =>
    ⟨sendmsg_captured tidy captured, fun input released => ?_, fun events evt up => ?_⟩,
    fun press w moves u release free captured drag freed => ?_⟩
  · obtain ⟨same, _⟩ := handed_unmoved t input
    rw [deliver_desktop]
    rcases sendmsg_moving (tidy.unmoved same) (same.mouseCapturing.trans captured) _ _ (heard t input)
      with ⟨_, dropped⟩ | ⟨notReleased, _⟩
    · exact dropped.mouseCapturing
    · exact absurd released notReleased
  · have held : ButtonHeld t := by
      clear captured
      induction run with
      | nil =>
        intro captured
        exact absurd idle.mouseCapturing captured
      | @snoc t u es e before step ih =>
        obtain ⟨evt, rfl⟩ := events e (List.mem_append_right _ (List.mem_singleton_self e))
        cases step
        exact buttonHeld_step (tidy_run idle before)
          (ih (tidy_run idle before) fun input member => events input (List.mem_append_left _ member))
    have previous := held (by rw [captured]; exact Option.some_ne_none w)
    change guiMouseEventUp evt.left t.prevLeft = true
    rw [up, previous]
    rfl
  · have dragging : Dragging t press w u :=
      drag.invariant (I := Dragging t press w) (dragging_press tidy free captured)
        fun _ _ _ dragging step => dragging.step step
    exact dragging.release freed

/-- One window, with the cursor in its title bar. -/
def overTitle : MouseState where
  desktop :=
    { painting := false, sizingRect := ⟨0, 0, 0, 0⟩, sizingPt := ⟨0, 0⟩, sizing := false, windowList := [1],
      focused := none, mouseCapturing := none, scrSize := ⟨800, 600⟩, mousePos := ⟨60, 60⟩,
      globalInvalidated := ⟨0, 0, 0, 0⟩, window := fun _ => ⟨⟨[], ⟨50, 50, 400, 300⟩, 0, ⟨0, 0, 0, 0⟩, none⟩, false⟩ }
  prevLeft := false
  prevRight := false
  prevMiddle := false

/-- The left button goes down, the cursor goes to the right and up, the button goes up. -/
theorem drag_displaces_title :
    ((deliver (deliver (deliver overTitle (.event ⟨0, 0, true, false, false⟩)) (.event ⟨40, 15, true, false, false⟩))
      (.event ⟨0, 0, false, false, false⟩)).desktop.window 1).scrRect = ⟨90, 35, 400, 300⟩ := by
  have idle : Idle overTitle.desktop := ⟨rfl, rfl, fun _ _ => rfl⟩
  have drag : Run (Drags 1) (deliver overTitle (.event ⟨0, 0, true, false, false⟩)) [.event
    ⟨40, 15, true, false, false⟩]
      (deliver (deliver overTitle (.event ⟨0, 0, true, false, false⟩))
          (.event ⟨40, 15, true, false, false⟩)) :=
    .single ⟨rfl, by decide⟩
  exact ((drag_displaces idle .nil).2.2 (.event ⟨0, 0, true, false, false⟩) 1 _ _
    (.event ⟨0, 0, false, false, false⟩)
    rfl (by decide) drag (by decide)).1

end Runs

end RubberOS.Soundness.MouseDrag
