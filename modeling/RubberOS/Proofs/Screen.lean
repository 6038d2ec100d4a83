import RubberOS.Model.Session
import RubberOS.Proofs.TtyWindow
import RubberOS.ToMathlib.ExceptRelated

/-! # Damage does not steer the windows

What is invalidated says what is drawn next and nothing else: two screens that differ in it alone answer every
key and every movement of the mouse alike, and the drawing changes nothing else.
-/

namespace RubberOS.Model.Gui

open Ps2

/-- The windows differ in what is invalidated and in what they paint only. -/
structure WindowAlike (m m' : ManagedWindow) : Prop where
  title : m.title = m'.title
  scrRect : m.scrRect = m'.scrRect
  bgColor : m.bgColor = m'.bgColor
  moving : m.moving = m'.moving
  proc : m.proc.isSome = m'.proc.isSome

/-- The desktops differ in what is invalidated and in what their windows paint only. -/
structure Alike (d d' : Desktop) : Prop where
  painting : d.painting = d'.painting
  sizingRect : d.sizingRect = d'.sizingRect
  sizingPt : d.sizingPt = d'.sizingPt
  sizing : d.sizing = d'.sizing
  windowList : d.windowList = d'.windowList
  focused : d.focused = d'.focused
  mouseCapturing : d.mouseCapturing = d'.mouseCapturing
  scrSize : d.scrSize = d'.scrSize
  mousePos : d.mousePos = d'.mousePos
  window : ∀ w, WindowAlike (d.window w) (d'.window w)

section Alike

variable {d d' : Desktop}

theorem WindowAlike.refl (m : ManagedWindow) : WindowAlike m m := ⟨rfl, rfl, rfl, rfl, rfl⟩

private theorem WindowAlike.symm {m m' : ManagedWindow} (alike : WindowAlike m m') : WindowAlike m' m :=
  ⟨alike.title.symm, alike.scrRect.symm, alike.bgColor.symm, alike.moving.symm, alike.proc.symm⟩

private theorem WindowAlike.trans {m m' m'' : ManagedWindow} (first : WindowAlike m m') (second : WindowAlike m' m'') :
    WindowAlike m m'' :=
  ⟨first.title.trans second.title, first.scrRect.trans second.scrRect, first.bgColor.trans second.bgColor,
    first.moving.trans second.moving, first.proc.trans second.proc⟩

theorem Alike.refl (d : Desktop) : Alike d d :=
  ⟨rfl, rfl, rfl, rfl, rfl, rfl, rfl, rfl, rfl, fun w => .refl (d.window w)⟩

theorem Alike.symm (alike : Alike d d') : Alike d' d where
  painting := alike.painting.symm
  sizingRect := alike.sizingRect.symm
  sizingPt := alike.sizingPt.symm
  sizing := alike.sizing.symm
  windowList := alike.windowList.symm
  focused := alike.focused.symm
  mouseCapturing := alike.mouseCapturing.symm
  scrSize := alike.scrSize.symm
  mousePos := alike.mousePos.symm
  window := fun w => (alike.window w).symm

theorem Alike.trans {d'' : Desktop} (first : Alike d d') (second : Alike d' d'') : Alike d d'' where
  painting := first.painting.trans second.painting
  sizingRect := first.sizingRect.trans second.sizingRect
  sizingPt := first.sizingPt.trans second.sizingPt
  sizing := first.sizing.trans second.sizing
  windowList := first.windowList.trans second.windowList
  focused := first.focused.trans second.focused
  mouseCapturing := first.mouseCapturing.trans second.mouseCapturing
  scrSize := first.scrSize.trans second.scrSize
  mousePos := first.mousePos.trans second.mousePos
  window := fun w => (first.window w).trans (second.window w)

/-- A change to one window that takes alike windows to alike windows. -/
private theorem Alike.setWindow (alike : Alike d d') (w : ℕ) (change : ManagedWindow → ManagedWindow)
    (same : WindowAlike (change (d.window w)) (change (d'.window w))) :
    Alike (d.setWindow w change) (d'.setWindow w change) := by
  refine { alike with window := fun v => ?_ }
  rcases eq_or_ne v w with rfl | apart
  · rw [setWindow_self, setWindow_self]
    exact same
  · rw [setWindow_of_ne _ _ apart, setWindow_of_ne _ _ apart]
    exact alike.window v

/-- Damage to a window changes nothing else. -/
private theorem alike_damage (damage : ManagedWindow → Rect) (d : Desktop) (w : ℕ) :
    Alike (d.setWindow w fun m => { m with winInvalidated := damage m }) d := by
  refine { Alike.refl d with window := fun v => ?_ }
  rcases eq_or_ne v w with rfl | apart
  · rw [setWindow_self]
    exact ⟨rfl, rfl, rfl, rfl, rfl⟩
  · rw [setWindow_of_ne _ _ apart]
    exact .refl _

theorem alike_windowInvalidate (d : Desktop) (w : ℕ) (rt : Option Rect) : Alike (windowInvalidate d w rt) d := by
  rw [windowInvalidate]
  cases rt with
  | some rt =>
    rw [invalidateClient]
    exact alike_damage _ d w
  | none =>
    rw [invalidateClient, invalidateWindowAll]
    exact alike_damage _ d w

private theorem alike_moveToFront (w : ℕ) (alike : Alike d d') : Alike (moveToFront d w) (moveToFront d' w) := by
  rw [moveToFront, moveToFront, invalidateWindowAll, invalidateWindowAll, alike.windowList]
  have raised : Alike { d with focused := some w, windowList := d'.windowList.erase w ++ [w] }
      { d' with focused := some w, windowList := d'.windowList.erase w ++ [w] } :=
    { alike with focused := rfl, windowList := rfl }
  exact ((alike_damage _ _ w).trans raised).trans (alike_damage _ _ w).symm

private theorem alike_onNcMouse (w : ℕ) (evt : GuiMouseEvent) (alike : Alike d d') :
    Alike (onNcMouse d w evt) (onNcMouse d' w evt) := by
  have window := alike.window w
  rw [onNcMouse, onNcMouse, window.scrRect]
  dsimp only
  split
  · have marked := alike.setWindow w (fun w => { w with moving := true }) { window with moving := rfl }
    exact { marked with sizingRect := rfl, sizingPt := rfl, sizing := rfl, mouseCapturing := rfl }
  · exact alike

private theorem alike_onMoving (w : ℕ) (evt : GuiMouseEvent) (alike : Alike d d') :
    Alike (onMoving d w evt) (onMoving d' w evt) := by
  have window := alike.window w
  rw [onMoving, onMoving, window.scrRect, alike.sizingPt]
  dsimp only
  split
  · generalize { (d'.window w).scrRect with
      x := (d'.window w).scrRect.x + (evt.x - d'.sizingPt.x),
      y := (d'.window w).scrRect.y + (evt.y - d'.sizingPt.y) } = scrRect
    have moved := alike.setWindow w (fun w => { w with scrRect, moving := false })
      { window with scrRect := rfl, moving := rfl }
    exact { moved with sizingRect := rfl, sizing := rfl, mouseCapturing := rfl }
  · exact { alike with sizingRect := rfl, sizingPt := rfl }

private theorem Alike.mouseTarget (alike : Alike d d') (x y : ℤ) : mouseTarget d x y = mouseTarget d' x y := by
  have areas : (fun w => rectContains (d.window w).scrRect x y) = fun w => rectContains (d'.window w).scrRect x y :=
    funext fun w => by rw [(alike.window w).scrRect]
  rw [Gui.mouseTarget, Gui.mouseTarget, alike.mouseCapturing, alike.windowList, areas]

/-- A message of the mouse goes to the same window with the same coordinates. -/
private theorem alike_windowSendmsgMouse (x y : ℤ) (evt : GuiMouseEvent) (alike : Alike d d') :
    Alike (windowSendmsgMouse d x y evt).1 (windowSendmsgMouse d' x y evt).1 ∧
      (windowSendmsgMouse d x y evt).2 = (windowSendmsgMouse d' x y evt).2 := by
  rw [windowSendmsgMouse, windowSendmsgMouse, alike.mouseTarget x y]
  cases mouseTarget d' x y with
  | none => exact ⟨alike, rfl⟩
  | some w =>
    dsimp only
    rw [(alike.window w).moving]
    split
    · exact ⟨alike_onMoving w evt alike, rfl⟩
    · generalize (guiMouseEventDown evt.left evt.prevLeft || guiMouseEventDown evt.right evt.prevRight ||
        guiMouseEventDown evt.middle evt.prevMiddle) = pressed
      have raised : Alike (if pressed then moveToFront d w else d) (if pressed then moveToFront d' w else d') := by
        cases pressed with
        | true => exact alike_moveToFront w alike
        | false => exact alike
      generalize (if pressed then moveToFront d w else d) = front at raised ⊢
      generalize (if pressed then moveToFront d' w else d') = front' at raised ⊢
      rw [(raised.window w).scrRect, (raised.window w).proc]
      split
      · exact ⟨raised, rfl⟩
      · exact ⟨alike_onNcMouse w _ raised, rfl⟩

private theorem alike_guiMouseMove (dx dy : ℤ) (alike : Alike d d') :
    Alike (guiMouseMove d dx dy).1 (guiMouseMove d' dx dy).1 ∧
      (guiMouseMove d dx dy).2 = (guiMouseMove d' dx dy).2 := by
  rw [guiMouseMove, guiMouseMove, alike.mousePos, alike.scrSize]
  exact ⟨{ alike with mousePos := rfl, scrSize := rfl }, rfl⟩

end Alike

/-! ## Window procedures -/

/-- The screens differ in what is invalidated and painted only. -/
def Screen.Alike (s s' : Screen) : Prop := ∃ d, s' = { s with desktop := d } ∧ Gui.Alike s.desktop d

/-- What is sent is the same, and the screens stay alike. -/
def SentAlike (r r' : Screen × Sent) : Prop := r.1.Alike r'.1 ∧ r.2 = r'.2

section Procedures

variable {s s' : Screen} {d d' : Desktop}

private theorem Screen.Alike.refl (s : Screen) : s.Alike s := ⟨s.desktop, rfl, .refl _⟩

private theorem Screen.Alike.symm (alike : s.Alike s') : s'.Alike s := by
  obtain ⟨d, rfl, same⟩ := alike
  exact ⟨s.desktop, rfl, same.symm⟩

private theorem Screen.Alike.trans {s'' : Screen} (first : s.Alike s') (second : s'.Alike s'') : s.Alike s'' := by
  obtain ⟨d, rfl, same⟩ := first
  obtain ⟨d', rfl, same'⟩ := second
  exact ⟨d', rfl, same.trans same'⟩

theorem alike_invalidations (w : ℕ) (calls : Invalidations) (d : Desktop) :
    Alike (calls.foldl (fun d rt => windowInvalidate d w rt) d) d := by
  induction calls generalizing d with
  | nil => exact .refl d
  | cons rt rest ih => exact (ih _).trans (alike_windowInvalidate d w rt)

private theorem alike_repaint (terminal : ℕ → TtyWindow) (rp : Point) (alike : Alike d d') :
    Alike (repaint d terminal rp) (repaint d' terminal rp) := by
  refine { alike with window := fun v => { alike.window v with proc := ?_ } }
  rw [repaint, repaint, Option.isSome_map, Option.isSome_map]
  exact (alike.window v).proc

private theorem related_callProc (w : ℕ) (msg : WindowMessage) (alike : s.Alike s') :
    Except.Related Screen.Alike (callProc s w msg) (callProc s' w msg) := by
  obtain ⟨d, rfl, same⟩ := alike
  refine Except.Related.bind_same fun r => ?_
  obtain ⟨tw, rp, calls⟩ := r
  have invalidated := ((alike_invalidations w calls s.desktop).trans same).trans (alike_invalidations w calls d).symm
  exact .ok ⟨_, rfl, alike_repaint _ rp invalidated⟩

private theorem related_sendmsg (w : ℕ) (msg : WindowMessage) (alike : s.Alike s') :
    Except.Related SentAlike (sendmsg s w msg) (sendmsg s' w msg) := by
  have proc : (s.desktop.window w).proc.isSome = (s'.desktop.window w).proc.isSome := by
    obtain ⟨d, rfl, same⟩ := alike
    exact (same.window w).proc
  rw [sendmsg, sendmsg, proc]
  split
  · exact (related_callProc w msg alike).bind fun _ _ after => .ok ⟨after, rfl⟩
  · exact .ok ⟨alike, rfl⟩

private theorem related_windowSendmsgFocused (msg : WindowMessage) (alike : s.Alike s') :
    Except.Related SentAlike (windowSendmsgFocused s msg) (windowSendmsgFocused s' msg) := by
  have focused : s.desktop.focused = s'.desktop.focused := by
    obtain ⟨d, rfl, same⟩ := alike
    exact same.focused
  rw [windowSendmsgFocused, windowSendmsgFocused, focused]
  cases s'.desktop.focused with
  | none => exact .ok ⟨alike, rfl⟩
  | some w => exact related_sendmsg w msg alike

private theorem related_hidOnKeyboard (evt : HidKeyevent) (c : HidChar) (alike : s.Alike s') :
    Except.Related SentAlike (hidOnKeyboard s evt c) (hidOnKeyboard s' evt c) := by
  refine (related_windowSendmsgFocused (.key evt) alike).bind fun r r' first => ?_
  obtain ⟨s, sent⟩ := r
  obtain ⟨s', _⟩ := r'
  obtain ⟨alike, rfl⟩ := first
  dsimp only
  split
  · refine (related_windowSendmsgFocused (.char c) alike).bind fun r r' second => ?_
    obtain ⟨s, more⟩ := r
    obtain ⟨s', _⟩ := r'
    obtain ⟨alike, rfl⟩ := second
    exact .ok ⟨alike, rfl⟩
  · exact .ok ⟨alike, rfl⟩

/-- An event of the mouse: the messages are the same. -/
theorem alike_guiOnMouse (mouse : MouseState) (evt : HidMouseEvent) (alike : Alike mouse.desktop d') :
    ∃ d, (guiOnMouse { mouse with desktop := d' } evt).1 = { (guiOnMouse mouse evt).1 with desktop := d } ∧
      Alike (guiOnMouse mouse evt).1.desktop d ∧
      (guiOnMouse { mouse with desktop := d' } evt).2 = (guiOnMouse mouse evt).2 := by
  obtain ⟨moved, place⟩ := alike_guiMouseMove evt.dx (-evt.dy) alike
  rw [guiOnMouse, guiOnMouse]
  dsimp only
  rw [← place]
  obtain ⟨sent, same⟩ := alike_windowSendmsgMouse (guiMouseMove mouse.desktop evt.dx (-evt.dy)).2.x
    (guiMouseMove mouse.desktop evt.dx (-evt.dy)).2.y
    (mouseEvent mouse (guiMouseMove mouse.desktop evt.dx (-evt.dy)).2 evt) moved
  exact ⟨_, rfl, sent, same.symm⟩

private theorem related_hidOnMouse (evt : HidMouseEvent) (alike : s.Alike s') :
    Except.Related SentAlike (hidOnMouse s evt) (hidOnMouse s' evt) := by
  obtain ⟨d', rfl, same⟩ := alike
  obtain ⟨d, mouse, after, sent⟩ := alike_guiOnMouse s.toMouseState evt same
  rw [hidOnMouse, hidOnMouse]
  generalize guiOnMouse s.toMouseState evt = r at mouse after sent ⊢
  generalize guiOnMouse { s.toMouseState with desktop := d' } evt = r' at mouse sent ⊢
  obtain ⟨m, message⟩ := r
  obtain ⟨m', message'⟩ := r'
  dsimp only at mouse sent
  subst mouse sent
  have moved : Screen.Alike { s with toMouseState := m } { s with toMouseState := { m with desktop := d } } :=
    ⟨d, rfl, after⟩
  cases message' with
  | none => exact .ok ⟨moved, rfl⟩
  | some message =>
    obtain ⟨w, evt⟩ := message
    exact (related_callProc w (.mouse evt) moved).bind fun _ _ called => .ok ⟨called, rfl⟩

end Procedures

/-! ## Terminals -/

/-- What a message writes to a terminal. -/
def Page.hear (p : Page) : WindowMessage → Page
  | .char c => p.feed (.char (charByte c.ch))
  | .mouse _ | .key _ => p

/-- The pages of the windows after these messages. -/
def hearAll (pages : ℕ → Page) (sent : Sent) : ℕ → Page :=
  sent.foldl (fun pages message => Function.update pages message.1 ((pages message.1).hear message.2)) pages

/-- The terminal windows show these pages. -/
def Showing (pages : ℕ → Page) (s : Screen) : Prop :=
  ∀ w ∈ s.desktop.windowList, (s.desktop.window w).proc.isSome = true →
    (pages w).Shows (s.terminal w) ∧ (pages w).Neat

/-- The focused window and the one that captures the mouse are windows of the list. -/
structure Listed (d : Desktop) : Prop where
  focused : ∀ w, d.focused = some w → w ∈ d.windowList
  capturing : ∀ w, d.mouseCapturing = some w → w ∈ d.windowList

section Terminals

variable {s : Screen} {d : Desktop} {pages : ℕ → Page} {w : ℕ}

/-- Where the box is after a message. -/
def boxAfter (rp : Point) : WindowMessage → Point
  | .mouse evt => if evt.left then ⟨evt.x, evt.y⟩ else rp
  | .key _ | .char _ => rp

/-- A message to a terminal window: its terminal hears it, or the box moves, and no other window changes. -/
private theorem callProc_spec (showing : Showing pages s) (member : w ∈ s.desktop.windowList)
    (terminal : (s.desktop.window w).proc.isSome = true) (msg : WindowMessage) : ∃ d tw,
      callProc s w msg =
        .ok { s with desktop := d, terminal := Function.update s.terminal w tw, rp := boxAfter s.rp msg } ∧
      Alike s.desktop d ∧ ((pages w).hear msg).Shows tw ∧ ((pages w).hear msg).Neat ∧
      ((∀ c, msg ≠ .char c) → tw = s.terminal w) := by
  obtain ⟨shown, neat⟩ := showing w member terminal
  have calling {tw : TtyWindow} {rp : Point} {calls : Invalidations}
      (ran : ttyProc (s.terminal w) s.rp msg = .ok (tw, rp, calls)) : ∃ d,
        callProc s w msg = .ok { s with desktop := d, terminal := Function.update s.terminal w tw, rp } ∧
        Alike s.desktop d := by
    refine ⟨_, Except.bind_ok_iff.mpr ⟨_, ran, rfl⟩, ?_⟩
    have painted (d : Desktop) (terminal : ℕ → TtyWindow) : Alike d (repaint d terminal rp) := by
      refine { Alike.refl d with window := fun v => { WindowAlike.refl (d.window v) with proc := ?_ } }
      rw [repaint, Option.isSome_map]
    exact (alike_invalidations w calls s.desktop).symm.trans (painted _ _)
  cases msg with
  | char c =>
    obtain ⟨tw, calls, ran, shown', neat'⟩ := feed_shows shown neat (.char (charByte c.ch))
    obtain ⟨d, called, alike⟩ := calling (Except.bind_ok_iff.mpr ⟨(tw, calls), ran, rfl⟩)
    exact ⟨d, tw, called, alike, shown', neat', fun other => absurd rfl (other c)⟩
  | mouse evt =>
    have ran : ∃ calls, ttyProc (s.terminal w) s.rp (.mouse evt) =
        .ok (s.terminal w, boxAfter s.rp (.mouse evt), calls) := by
      rw [ttyProc, boxAfter]
      split
      · exact ⟨_, rfl⟩
      · exact ⟨_, rfl⟩
    obtain ⟨calls, ran⟩ := ran
    obtain ⟨d, called, alike⟩ := calling ran
    exact ⟨d, _, called, alike, shown, neat, fun _ => rfl⟩
  | key evt =>
    have ran : ttyProc (s.terminal w) s.rp (.key evt) = .ok (s.terminal w, s.rp, []) := rfl
    obtain ⟨d, called, alike⟩ := calling ran
    exact ⟨d, _, called, alike, shown, neat, fun _ => rfl⟩

/-- The window hears a message, the others show what they did. -/
private theorem Showing.heard (showing : Showing pages s) {tw : TtyWindow} (rp : Point) {p : Page} (shown : p.Shows tw)
    (neat : p.Neat) (alike : Alike s.desktop d) : Showing (Function.update pages w p)
      { s with desktop := d, terminal := Function.update s.terminal w tw, rp } := by
  intro v member terminal
  rcases eq_or_ne v w with rfl | apart
  · rw [Function.update_self]
    dsimp only
    rw [Function.update_self]
    exact ⟨shown, neat⟩
  · rw [Function.update_of_ne apart]
    dsimp only at member ⊢
    rw [Function.update_of_ne apart]
    rw [← alike.windowList] at member
    exact showing v member ((alike.window v).proc.trans terminal)

/-- A key goes to the focused window, if it is a terminal. -/
def keyMessages (d : Desktop) (evt : HidKeyevent) (c : HidChar) : Sent :=
  match d.focused with
  | some w => if (d.window w).proc.isSome then (w, .key evt) :: (if c.raw then [] else [(w, .char c)]) else []
  | none => []

/-- A key press changes what terminals show, and no more. -/
private theorem hidOnKeyboard_spec (listed : Listed s.desktop) (showing : Showing pages s) (evt : HidKeyevent)
    (c : HidChar) : ∃ d terminal,
    hidOnKeyboard s evt c = .ok ({ s with desktop := d, terminal }, keyMessages s.desktop evt c) ∧
      Alike s.desktop d ∧
      Showing (hearAll pages (keyMessages s.desktop evt c)) { s with desktop := d, terminal } := by
  rw [hidOnKeyboard, guiOnKeyboard, windowSendmsgFocused, keyMessages]
  cases focus : s.desktop.focused with
  | none =>
    refine ⟨s.desktop, s.terminal, ?_, .refl _, showing⟩
    dsimp only [pure, Except.pure]
    rw [Except.ok_bind]
    dsimp only
    rw [windowSendmsgFocused, focus]
    cases c.raw <;> rfl
  | some w =>
    dsimp only
    rw [sendmsg]
    split
    · rename_i terminal
      have member := listed.focused w focus
      obtain ⟨d₁, tw₁, ran₁, alike₁, shown₁, neat₁, _⟩ := callProc_spec showing member terminal (.key evt)
      dsimp only [boxAfter] at ran₁
      have showing₁ := showing.heard (w := w) s.rp shown₁ neat₁ alike₁
      rw [ran₁, Except.ok_bind]
      dsimp only [pure, Except.pure]
      rw [Except.ok_bind]
      dsimp only
      cases c.raw with
      | true => exact ⟨d₁, _, rfl, alike₁, showing₁⟩
      | false =>
        have terminal₁ : (d₁.window w).proc.isSome = true := (alike₁.window w).proc.symm.trans terminal
        have member₁ : w ∈ d₁.windowList := alike₁.windowList ▸ member
        obtain ⟨d₂, tw₂, ran₂, alike₂, shown₂, neat₂, _⟩ := callProc_spec showing₁ member₁ terminal₁ (.char c)
        have showing₂ := showing₁.heard (w := w) s.rp shown₂ neat₂ alike₂
        refine ⟨d₂, _, ?_, alike₁.trans alike₂, showing₂⟩
        rw [windowSendmsgFocused]
        dsimp only
        rw [← alike₁.focused, focus]
        dsimp only
        rw [sendmsg]
        dsimp only
        rw [if_pos terminal₁, ran₂]
        rfl
    · refine ⟨s.desktop, s.terminal, ?_, .refl _, showing⟩
      dsimp only [pure, Except.pure]
      rw [Except.ok_bind]
      dsimp only
      cases c.raw with
      | true => rfl
      | false =>
        rename_i plain
        rw [windowSendmsgFocused, focus]
        dsimp only
        rw [sendmsg, if_neg plain]
        rfl

/-- The message to a window procedure, if `gui_on_mouse` sends one. -/
def mouseMessages (mouse : MouseState) (evt : HidMouseEvent) : Sent :=
  ((guiOnMouse mouse evt).2.map fun message => (message.1, WindowMessage.mouse message.2)).toList

/-- The windows are the same with the same procedures, and none but a window of the list is known otherwise. -/
structure Keeps (d d' : Desktop) : Prop where
  painting : d'.painting = d.painting
  windows : ∀ v, v ∈ d'.windowList ↔ v ∈ d.windowList
  proc : ∀ v, (d'.window v).proc = (d.window v).proc
  listed : Listed d'

private theorem Keeps.refl (listed : Listed d) : Keeps d d := ⟨rfl, fun _ => Iff.rfl, fun _ => rfl, listed⟩

private theorem Keeps.trans {d' d'' : Desktop} (first : Keeps d d') (second : Keeps d' d'') : Keeps d d'' :=
  ⟨second.painting.trans first.painting, fun v => (second.windows v).trans (first.windows v),
    fun v => (second.proc v).trans (first.proc v), second.listed⟩

private theorem moveToFront_keeps (listed : Listed d) (member : w ∈ d.windowList) : Keeps d (moveToFront d w) := by
  have windows (v : ℕ) : v ∈ (moveToFront d w).windowList ↔ v ∈ d.windowList := by
    change v ∈ d.windowList.erase w ++ [w] ↔ _
    rw [List.mem_append, List.mem_singleton]
    rcases eq_or_ne v w with rfl | apart
    · exact iff_of_true (.inr rfl) member
    · rw [List.mem_erase_of_ne apart, or_iff_left apart]
  refine ⟨rfl, windows, fun v => ?_, fun v focused => ?_, fun v captured => ?_⟩
  · rw [moveToFront, invalidateWindowAll]
    exact setWindow_keeps (·.proc) _ w v fun _ => rfl
  · cases focused
    exact (windows w).mpr member
  · exact (windows v).mpr (listed.capturing v captured)

private theorem onNcMouse_keeps (listed : Listed d) (member : w ∈ d.windowList) (evt : GuiMouseEvent) :
    Keeps d (onNcMouse d w evt) := by
  rw [onNcMouse]
  split
  · refine ⟨rfl, fun _ => Iff.rfl, fun v => ?_, listed.focused, fun v captured => ?_⟩
    · dsimp only [invalidateGlobal]
      exact setWindow_keeps (·.proc) d w v fun _ => rfl
    · cases captured
      exact member
  · exact .refl listed

private theorem onMoving_keeps (listed : Listed d) (w : ℕ) (evt : GuiMouseEvent) : Keeps d (onMoving d w evt) := by
  rw [onMoving]
  split
  · refine ⟨rfl, fun _ => Iff.rfl, fun v => ?_, listed.focused, fun v captured => ?_⟩
    · dsimp only [invalidateGlobal]
      exact setWindow_keeps (·.proc) d w v fun _ => rfl
    · cases captured
  · exact ⟨rfl, fun _ => Iff.rfl, fun _ => rfl, listed.focused, listed.capturing⟩

private theorem target_listed {x y : ℤ} (listed : Listed d) (target : mouseTarget d x y = some w) :
    w ∈ d.windowList := by
  rw [mouseTarget] at target
  split at target
  · rename_i captured
    cases target
    exact listed.capturing w captured
  · exact List.mem_reverse.mp (List.mem_of_find?_eq_some target)

/-- A message is sent to a window of the list, and only if it has a procedure. -/
private theorem windowSendmsgMouse_keeps (listed : Listed d) (x y : ℤ) (evt : GuiMouseEvent) :
    Keeps d (windowSendmsgMouse d x y evt).1 ∧
      ∀ w evt', (windowSendmsgMouse d x y evt).2 = some (w, evt') →
        w ∈ d.windowList ∧ (d.window w).proc.isSome = true := by
  rw [windowSendmsgMouse]
  cases target : mouseTarget d x y with
  | none => exact ⟨.refl listed, fun _ _ sent => by cases sent⟩
  | some w =>
    have member := target_listed listed target
    dsimp only
    split
    · exact ⟨onMoving_keeps listed w evt, fun _ _ sent => by cases sent⟩
    · generalize (guiMouseEventDown evt.left evt.prevLeft || guiMouseEventDown evt.right evt.prevRight ||
        guiMouseEventDown evt.middle evt.prevMiddle) = pressed
      have raised : Keeps d (if pressed then moveToFront d w else d) := by
        cases pressed with
        | true => exact moveToFront_keeps listed member
        | false => exact .refl listed
      generalize (if pressed then moveToFront d w else d) = front at raised ⊢
      split
      · refine ⟨raised, fun v evt' sent => ?_⟩
        rw [raised.proc w] at sent
        dsimp only at sent
        split at sent
        · rename_i terminal
          cases sent
          exact ⟨member, terminal⟩
        · cases sent
      · have grabbed := onNcMouse_keeps raised.listed ((raised.windows w).mpr member)
          { evt with x := evt.x - (front.window w).scrRect.x, y := evt.y - (front.window w).scrRect.y }
        exact ⟨raised.trans grabbed, fun _ _ sent => by cases sent⟩

private theorem guiOnMouse_keeps {mouse : MouseState} (listed : Listed mouse.desktop) (evt : HidMouseEvent) :
    Keeps mouse.desktop (guiOnMouse mouse evt).1.desktop ∧
      ∀ w evt', (guiOnMouse mouse evt).2 = some (w, evt') →
        w ∈ mouse.desktop.windowList ∧ (mouse.desktop.window w).proc.isSome = true := by
  have moved : Listed (guiMouseMove mouse.desktop evt.dx (-evt.dy)).1 := ⟨listed.focused, listed.capturing⟩
  obtain ⟨keeps, addressed⟩ := windowSendmsgMouse_keeps moved
    (guiMouseMove mouse.desktop evt.dx (-evt.dy)).2.x (guiMouseMove mouse.desktop evt.dx (-evt.dy)).2.y
    (mouseEvent mouse (guiMouseMove mouse.desktop evt.dx (-evt.dy)).2 evt)
  exact ⟨⟨keeps.painting, keeps.windows, keeps.proc, keeps.listed⟩, addressed⟩

theorem Listed.alike {d' : Desktop} (listed : Listed d) (alike : Alike d d') : Listed d' := by
  refine ⟨fun w focused => ?_, fun w captured => ?_⟩
  · rw [← alike.windowList]
    exact listed.focused w (alike.focused.trans focused)
  · rw [← alike.windowList]
    exact listed.capturing w (alike.mouseCapturing.trans captured)

private theorem hearAll_mouse (pages : ℕ → Page) (mouse : MouseState) (evt : HidMouseEvent) :
    hearAll pages (mouseMessages mouse evt) = pages := by
  rw [mouseMessages]
  cases (guiOnMouse mouse evt).2 with
  | none => rfl
  | some message => exact Function.update_eq_self message.1 pages

/-- A movement of the mouse does to the windows what `gui_on_mouse` does, and no terminal changes. -/
private theorem hidOnMouse_spec (listed : Listed s.desktop) (showing : Showing pages s) (evt : HidMouseEvent) : ∃ d rp,
    hidOnMouse s evt = .ok ({ s with toMouseState := { (guiOnMouse s.toMouseState evt).1 with desktop := d }, rp },
      mouseMessages s.toMouseState evt) ∧
      Alike (guiOnMouse s.toMouseState evt).1.desktop d ∧
      rp = (mouseMessages s.toMouseState evt).foldl (fun rp message => boxAfter rp message.2) s.rp ∧
      Showing pages { s with toMouseState := { (guiOnMouse s.toMouseState evt).1 with desktop := d }, rp } := by
  obtain ⟨keeps, addressed⟩ := guiOnMouse_keeps listed evt
  have moved : Showing pages { s with toMouseState := (guiOnMouse s.toMouseState evt).1 } := by
    intro v member terminal
    dsimp only at member terminal
    rw [keeps.proc v] at terminal
    exact showing v ((keeps.windows v).mp member) terminal
  rw [hidOnMouse, mouseMessages]
  generalize guiOnMouse s.toMouseState evt = r at keeps addressed moved ⊢
  obtain ⟨mouse, message⟩ := r
  cases message with
  | none => exact ⟨mouse.desktop, s.rp, rfl, .refl _, rfl, moved⟩
  | some message =>
    obtain ⟨w, evt⟩ := message
    obtain ⟨member, terminal⟩ := addressed w evt rfl
    rw [← keeps.proc w] at terminal
    rw [← keeps.windows w] at member
    obtain ⟨d, tw, ran, alike, shown, neat, same⟩ := callProc_spec moved member terminal (.mouse evt)
    obtain rfl := same fun _ => WindowMessage.noConfusion
    have showing' := moved.heard (w := w) (boxAfter s.rp (.mouse evt)) shown neat alike
    rw [Page.hear, Function.update_eq_self] at showing'
    dsimp only at showing'
    rw [Function.update_eq_self] at showing'
    refine ⟨d, _, ?_, alike, rfl, showing'⟩
    dsimp only
    rw [ran, Except.ok_bind]
    dsimp only
    rw [Function.update_eq_self]
    rfl

end Terminals

end RubberOS.Model.Gui

namespace RubberOS.Model.Kmain

open Interrupt Ps2 Gui

/-! ## Drawing and dispatching -/

/-- What the drawing leaves of a list of windows: nothing but their damage has changed. -/
private theorem drawSteps_windows (windows : List ℕ) (d : Desktop) (gi inv : Rect) :
    ∃ d', drawSteps (5 * windows.length + 1) ⟨d, .drawing gi inv windows .start⟩ = .ok ⟨d', .idle⟩ ∧
      Alike { d with painting := false } d' := by
  induction windows generalizing d inv with
  | nil => exact ⟨_, rfl, { Alike.refl d with painting := rfl }⟩
  | cons w rest ih =>
    let united := rectUnion (d.window w).winInvalidated
      (scrToWin (d.window w).toWindow (rectIntersect (d.window w).scrRect gi))
    let stored := d.setWindow w fun w => { w with winInvalidated := united }
    let scrInv := winToScr (stored.window w).toWindow (stored.window w).winInvalidated
    obtain ⟨d', ran, after⟩ := ih (stored.setWindow w fun w => { w with winInvalidated := ⟨0, 0, 0, 0⟩ })
      (rectUnion inv scrInv)
    refine ⟨d', ran, ?_⟩
    have damaged : Alike (stored.setWindow w fun w => { w with winInvalidated := ⟨0, 0, 0, 0⟩ }) d :=
      (alike_damage _ stored w).trans (alike_damage _ d w)
    have same : Alike { d with painting := false }
        { stored.setWindow w (fun w => { w with winInvalidated := ⟨0, 0, 0, 0⟩ }) with painting := false } :=
      { damaged.symm with painting := rfl }
    exact same.trans after

/-- Drawing the screen returns, and changes nothing but what is invalidated. -/
theorem drawn_alike {d : Desktop} (quiet : d.painting = false) : ∃ d', drawn d = .ok d' ∧ Alike d d' := by
  have windows : d.windowList.reverse.foldl (fun drawList w => w :: drawList) [] = d.windowList := by
    rw [List.foldl_flip_cons_eq_append', List.reverse_reverse, List.append_nil]
  obtain ⟨d', ran, alike⟩ := drawSteps_windows d.windowList { d with painting := true } d.globalInvalidated
    d.globalInvalidated
  have first : drawStep ⟨d, .idle⟩ =
      .ok ⟨{ d with painting := true }, .drawing d.globalInvalidated d.globalInvalidated d.windowList .start⟩ := by
    rw [drawStep]
    dsimp only
    rw [quiet, windows]
    rfl
  refine ⟨d', ?_, ?_⟩
  · rw [drawn, drawSteps, first, Except.ok_bind, ran]
    rfl
  · have same : { d with painting := false } = d := by rw [← quiet]
    rw [← same]
    exact alike

/-- The inputs differ in what is invalidated and painted only. -/
def Input.Alike (s s' : Input) : Prop := ∃ screen, s' = { s with screen } ∧ s.screen.Alike screen

section Dispatch

variable {s s' : Input}

theorem Input.Alike.refl (s : Input) : s.Alike s := ⟨s.screen, rfl, .refl _⟩

theorem Input.Alike.symm (alike : s.Alike s') : s'.Alike s := by
  obtain ⟨screen, rfl, same⟩ := alike
  exact ⟨s.screen, rfl, same.symm⟩

theorem Input.Alike.trans {s'' : Input} (first : s.Alike s') (second : s'.Alike s'') : s.Alike s'' := by
  obtain ⟨screen, rfl, same⟩ := first
  obtain ⟨screen', rfl, same'⟩ := second
  exact ⟨screen', rfl, same.trans same'⟩

/-- What is sent is the same, and the inputs stay alike. -/
def DispatchAlike (r r' : Input × Sent) : Prop := r.1.Alike r'.1 ∧ r.2 = r'.2

/-- A message is handled alike whatever is invalidated. -/
theorem related_dispatchIntrMsg (msg : IntrMsg) (alike : s.Alike s') :
    Except.Related DispatchAlike (dispatchIntrMsg s msg) (dispatchIntrMsg s' msg) := by
  obtain ⟨screen, rfl, same⟩ := alike
  rw [dispatchIntrMsg, dispatchIntrMsg]
  cases msg.type with
  | keyboard =>
    refine Except.Related.bind_same fun r => ?_
    obtain ⟨found, kb⟩ := r
    cases found with
    | none => exact .ok ⟨⟨screen, rfl, same⟩, rfl⟩
    | some call =>
      obtain ⟨evt, c⟩ := call
      refine (related_hidOnKeyboard evt c same).bind fun r r' after => ?_
      obtain ⟨after, sent⟩ := after
      exact .ok ⟨⟨r'.1, rfl, after⟩, sent⟩
  | mouse =>
    refine Except.Related.bind_same fun r => ?_
    obtain ⟨found, ms⟩ := r
    cases found with
    | none => exact .ok ⟨⟨screen, rfl, same⟩, rfl⟩
    | some evt =>
      refine (related_hidOnMouse evt same).bind fun r r' after => ?_
      obtain ⟨after, sent⟩ := after
      exact .ok ⟨⟨r'.1, rfl, after⟩, sent⟩

/-! ## Messages -/

/-- Every byte of the keyboard is taken. -/
private theorem keyboard_total (kb : Ps2Keyboard) (msg : IntrMsg) :
    ∃ found kb', intrMsgOnKeyboard kb msg = .ok (found, kb') := by
  have put : ∃ found kb', ps2KeyboardPutByte kb msg.data = .ok (found, kb') := by
    rw [ps2KeyboardPutByte]
    have switched (kb : Ps2Keyboard) (state : kb.state ≠ .ext1_1) :
        ∃ found kb', putByteSwitch kb msg.data = .ok (found, kb') := by
      rw [putByteSwitch]
      cases here : kb.state with
      | start =>
        dsimp only
        split_ifs <;> exact ⟨_, _, rfl⟩
      | ext1 =>
        dsimp only
        split_ifs <;> exact ⟨_, _, rfl⟩
      | ext1_1 => exact absurd here state
      | ext1_2 =>
        dsimp only
        split_ifs <;> exact ⟨_, _, rfl⟩
      | ext2_1 => exact ⟨_, _, rfl⟩
      | ext2_2 =>
        dsimp only
        split_ifs <;> exact ⟨_, _, rfl⟩
    split_ifs with second follows
    · exact ⟨_, _, rfl⟩
    · exact switched { kb with state := .start } KeyboardState.noConfusion
    · exact switched kb second
  obtain ⟨found, kb', ran⟩ := put
  rw [intrMsgOnKeyboard, ran]
  cases found with
  | none => exact ⟨_, _, rfl⟩
  | some evt => exact ⟨_, _, rfl⟩

/-- A byte of the mouse is taken while a packet has room for it, which it has again afterwards. -/
private theorem mouse_total {ms : Ps2Mouse} (room : ms.packetIndex < 3) (msg : IntrMsg) :
    ∃ found ms', intrMsgOnMouse ms msg = .ok (found, ms') ∧ ms'.packetIndex < 3 := by
  rw [intrMsgOnMouse, ps2MousePutByte, if_neg (Nat.not_le.mpr room)]
  dsimp only
  split
  · rename_i more
    exact ⟨_, _, rfl, more⟩
  · exact ⟨_, _, rfl, Nat.zero_lt_succ 2⟩

/-- The packet has room, nothing is being drawn, and the terminals show these pages. -/
structure Input.Ready (pages : ℕ → Page) (s : Input) : Prop where
  packet : s.ms.packetIndex < 3
  painting : s.screen.desktop.painting = false
  listed : Listed s.screen.desktop
  showing : Showing pages s.screen

/-- A byte of the keyboard, for the decoder and for what the terminals show. -/
theorem dispatch_keyboard {pages : ℕ → Page} (ready : s.Ready pages) {msg : IntrMsg} (type : msg.type = .keyboard) :
    ∃ found kb' d terminal sent, intrMsgOnKeyboard s.kb msg = .ok (found, kb') ∧
      sent = found.elim [] (fun call => keyMessages s.screen.desktop call.1 call.2) ∧
      dispatchIntrMsg s msg = .ok ({ s with kb := kb', screen := { s.screen with desktop := d, terminal } }, sent) ∧
      Gui.Alike s.screen.desktop d ∧
      Showing (hearAll pages sent) { s.screen with desktop := d, terminal } := by
  obtain ⟨found, kb', ran⟩ := keyboard_total s.kb msg
  rw [dispatchIntrMsg, type]
  dsimp only
  rw [ran, Except.ok_bind]
  cases found with
  | none => exact ⟨none, kb', _, _, [], rfl, rfl, rfl, .refl _, ready.showing⟩
  | some call =>
    obtain ⟨evt, c⟩ := call
    obtain ⟨d, terminal, sent, alike, showing⟩ := hidOnKeyboard_spec ready.listed ready.showing evt c
    refine ⟨_, kb', d, terminal, _, rfl, rfl, ?_, alike, showing⟩
    dsimp only
    rw [sent]
    rfl

/-- A byte of the mouse, for the decoder and the windows. -/
theorem dispatch_mouse {pages : ℕ → Page} (ready : s.Ready pages) {msg : IntrMsg} (type : msg.type = .mouse) :
    ∃ found ms', intrMsgOnMouse s.ms msg = .ok (found, ms') ∧ ms'.packetIndex < 3 ∧
      match found with
      | none => dispatchIntrMsg s msg = .ok ({ s with ms := ms' }, [])
      | some evt => ∃ d rp, dispatchIntrMsg s msg =
          .ok ({ s with
            ms := ms',
            screen := { s.screen with
              toMouseState := { (guiOnMouse s.screen.toMouseState evt).1 with desktop := d }, rp } },
            mouseMessages s.screen.toMouseState evt) ∧
          Gui.Alike (guiOnMouse s.screen.toMouseState evt).1.desktop d ∧
          rp = (mouseMessages s.screen.toMouseState evt).foldl (fun rp message => boxAfter rp message.2) s.screen.rp ∧
          Showing pages { s.screen with
            toMouseState := { (guiOnMouse s.screen.toMouseState evt).1 with desktop := d }, rp } := by
  obtain ⟨found, ms', ran, room⟩ := mouse_total ready.packet msg
  refine ⟨found, ms', ran, room, ?_⟩
  rw [dispatchIntrMsg, type]
  dsimp only
  rw [ran, Except.ok_bind]
  cases found with
  | none => rfl
  | some evt =>
    obtain ⟨d, rp, sent, alike, box, showing⟩ := hidOnMouse_spec ready.listed ready.showing evt
    refine ⟨d, rp, ?_, alike, box, showing⟩
    dsimp only
    rw [sent]
    rfl

/-- Every message is handled, and the terminals show what they hear. -/
theorem dispatch_ready {pages : ℕ → Page} (ready : s.Ready pages) (msg : IntrMsg) :
    ∃ t sent, dispatchIntrMsg s msg = .ok (t, sent) ∧ t.Ready (hearAll pages sent) := by
  cases type : msg.type with
  | keyboard =>
    obtain ⟨found, kb', d, terminal, sent, _, _, ran, alike, showing⟩ := dispatch_keyboard ready type
    exact ⟨_, sent, ran, ready.packet, alike.painting.symm.trans ready.painting, ready.listed.alike alike, showing⟩
  | mouse =>
    obtain ⟨found, ms', _, room, rest⟩ := dispatch_mouse ready type
    cases found with
    | none => exact ⟨_, [], rest, room, ready.painting, ready.listed, ready.showing⟩
    | some evt =>
      obtain ⟨d, rp, ran, alike, _, showing⟩ := rest
      have keeps := (guiOnMouse_keeps ready.listed evt).1
      refine ⟨_, _, ran, room, ?_, keeps.listed.alike alike, ?_⟩
      · exact alike.painting.symm.trans (keeps.painting.trans ready.painting)
      · rw [hearAll_mouse]
        exact showing

end Dispatch

end RubberOS.Model.Kmain
