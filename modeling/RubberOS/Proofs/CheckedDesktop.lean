import RubberOS.Model.CheckedDesktop
import RubberOS.Proofs.CheckedBounds

/-! # Invalidation is that of unbounded integers

Where a function that invalidates or handles the mouse has a behaviour, it does what it does with unbounded integers. With
small coordinates it has one.
-/

namespace RubberOS.Model.Gui

/-- A desktop of small coordinates. -/
structure Desktop.Small (d : Desktop) : Prop where
  sizingRect : d.sizingRect.Within (2 ^ 26)
  sizingPt : (-2 ^ 26 ≤ d.sizingPt.x ∧ d.sizingPt.x ≤ 2 ^ 26) ∧ -2 ^ 26 ≤ d.sizingPt.y ∧ d.sizingPt.y ≤ 2 ^ 26
  scrSize : (0 ≤ d.scrSize.width ∧ d.scrSize.width ≤ 2 ^ 26) ∧ 0 ≤ d.scrSize.height ∧ d.scrSize.height ≤ 2 ^ 26
  mousePos : (-2 ^ 26 ≤ d.mousePos.x ∧ d.mousePos.x ≤ 2 ^ 26) ∧ -2 ^ 26 ≤ d.mousePos.y ∧ d.mousePos.y ≤ 2 ^ 26
  globalInvalidated : d.globalInvalidated.Within (2 ^ 28)
  scrRect : ∀ w, (d.window w).scrRect.Within (2 ^ 26)
  winInvalidated : ∀ w, (d.window w).winInvalidated.Within (2 ^ 28)

/-- A section of small coordinates. -/
def LockedSection.Small : LockedSection → Prop
  | .guiMouseMove dx dy => (-2 ^ 26 ≤ dx ∧ dx ≤ 2 ^ 26) ∧ -2 ^ 26 ≤ dy ∧ dy ≤ 2 ^ 26
  | .windowSendmsgMouse _ _ evt => (-2 ^ 26 ≤ evt.x ∧ evt.x ≤ 2 ^ 26) ∧ -2 ^ 26 ≤ evt.y ∧ evt.y ≤ 2 ^ 26
  | .windowInvalidate _ rt => ∀ r, rt = some r → r.Within (2 ^ 26)

def DrawPhase.Small : DrawPhase → Prop
  | .idle => True
  | .drawing gi inv _ _ => gi.Within (2 ^ 28) ∧ inv.Within (2 ^ 28)

namespace Checked

section Values

variable {d d' : Desktop} {w : ℕ} {x y : ℤ} {evt : GuiMouseEvent} {sent : Option (ℕ × GuiMouseEvent)}

private theorem clientRectForWindow_value {width height : ℤ} {client : Rect}
    (ran : clientRectForWindow width height = some client) : client = Gui.clientRectForWindow width height := by
  simp only [clientRectForWindow, Option.bind_eq_bind, Option.bind_eq_some_iff, int_eq_some] at ran
  obtain ⟨_, ⟨_, rfl⟩, _, ⟨_, rfl⟩, _, ⟨_, rfl⟩, ran⟩ := ran
  cases ran
  rfl

private theorem invalidateGlobal_value {rt : Rect} (ran : invalidateGlobal d rt = some d') :
    d' = Gui.invalidateGlobal d rt := by
  simp only [invalidateGlobal, Option.bind_eq_bind, Option.bind_eq_some_iff] at ran
  obtain ⟨globalInvalidated, united, ran⟩ := ran
  cases ran
  rw [rectUnion_value united]
  rfl

theorem windowInvalidate_value {rt : Option Rect} (ran : windowInvalidate d w rt = some d') :
    d' = Gui.windowInvalidate d w rt := by
  cases rt with
  | none => exact (Option.some.inj ran).symm
  | some rt =>
    simp only [windowInvalidate, invalidateClient, Option.bind_eq_bind, Option.bind_eq_some_iff, int_eq_some] at ran
    obtain ⟨_, ⟨_, rfl⟩, _, ⟨_, rfl⟩, winInvalidated, united, ran⟩ := ran
    cases ran
    rw [rectUnion_value united, Gui.windowInvalidate, Gui.invalidateClient, Desktop.setWindow, Desktop.setWindow]

private theorem onNcMouse_value (ran : onNcMouse d w evt = some d') : d' = Gui.onNcMouse d w evt := by
  simp only [onNcMouse, Option.bind_eq_bind, Option.bind_eq_some_iff, int_eq_some] at ran
  obtain ⟨_, ⟨_, rfl⟩, grabbed, contains, ran⟩ := ran
  rw [rectContains_value contains] at ran
  rw [Gui.onNcMouse]
  dsimp only
  split_ifs at ran ⊢ with title
  · simp only [Option.bind_eq_some_iff, int_eq_some] at ran
    obtain ⟨_, ⟨_, rfl⟩, _, ⟨_, rfl⟩, ran⟩ := ran
    exact invalidateGlobal_value ran
  · cases ran
    rfl

private theorem onMoving_value (ran : onMoving d w evt = some d') : d' = Gui.onMoving d w evt := by
  simp only [onMoving, Option.bind_eq_bind, Option.bind_eq_some_iff, int_eq_some] at ran
  obtain ⟨_, ⟨_, rfl⟩, _, ⟨_, rfl⟩, _, ⟨_, rfl⟩, _, ⟨_, rfl⟩, inv, united, ran⟩ := ran
  rw [Gui.onMoving]
  dsimp only
  split_ifs at ran ⊢ with released
  · simp only [Option.bind_eq_some_iff] at ran
    obtain ⟨all, more, ran⟩ := ran
    rw [invalidateGlobal_value ran, rectUnion_value more, rectUnion_value united]
  · rw [invalidateGlobal_value ran, rectUnion_value united]

private theorem findWindow_value {windowList : List ℕ} {target : Option ℕ}
    (ran : findWindow d x y windowList = some target) :
    target = windowList.find? fun w => Gui.rectContains (d.window w).scrRect x y := by
  induction windowList with
  | nil =>
    cases ran
    rfl
  | cons w rest ih =>
    simp only [findWindow, Option.bind_eq_bind, Option.bind_eq_some_iff] at ran
    obtain ⟨inside, contains, ran⟩ := ran
    rw [rectContains_value contains] at ran
    split_ifs at ran with here
    · cases ran
      rw [List.find?_cons, here]
    · rw [List.find?_cons, Bool.eq_false_iff.mpr here]
      exact ih ran

private theorem mouseTarget_value {target : Option ℕ} (ran : mouseTarget d x y = some target) :
    target = Gui.mouseTarget d x y := by
  rw [mouseTarget] at ran
  rw [Gui.mouseTarget]
  cases captured : d.mouseCapturing with
  | some w =>
    rw [captured] at ran
    exact (Option.some.inj ran).symm
  | none =>
    rw [captured] at ran
    exact findWindow_value ran

private theorem sendToTarget_value {target : ℕ} {result : Desktop × Option (ℕ × GuiMouseEvent)}
    (ran : sendToTarget d target evt = some result) : result =
      let scrRect := (d.window target).scrRect
      let client := Gui.clientRectForWindow scrRect.width scrRect.height
      let evt := { evt with x := evt.x - scrRect.x, y := evt.y - scrRect.y }
      if Gui.rectContains client evt.x evt.y then
        let evt := { evt with x := evt.x - client.x, y := evt.y - client.y }
        (d, if (d.window target).proc.isSome then some (target, evt) else none)
      else (Gui.onNcMouse d target evt, none) := by
  simp only [sendToTarget, Option.bind_eq_bind, Option.bind_eq_some_iff, int_eq_some] at ran
  obtain ⟨client, area, _, ⟨_, rfl⟩, _, ⟨_, rfl⟩, inside, contains, ran⟩ := ran
  rw [rectContains_value contains, clientRectForWindow_value area] at ran
  dsimp only
  by_cases shown : Gui.rectContains (Gui.clientRectForWindow (d.window target).scrRect.width (d.window target).scrRect.height)
      (evt.x - (d.window target).scrRect.x) (evt.y - (d.window target).scrRect.y) = true
  · rw [if_pos shown] at ran ⊢
    simp only [Option.bind_eq_some_iff, int_eq_some] at ran
    obtain ⟨_, ⟨_, rfl⟩, _, ⟨_, rfl⟩, ran⟩ := ran
    exact (Option.some.inj ran).symm
  · rw [if_neg shown] at ran ⊢
    simp only [Option.bind_eq_some_iff] at ran
    obtain ⟨after, grabbed, ran⟩ := ran
    rw [← onNcMouse_value grabbed]
    exact (Option.some.inj ran).symm

private theorem windowSendmsgMouse_value (ran : windowSendmsgMouse d x y evt = some (d', sent)) :
    Gui.windowSendmsgMouse d x y evt = (d', sent) := by
  simp only [windowSendmsgMouse, Option.bind_eq_bind, Option.bind_eq_some_iff] at ran
  obtain ⟨target, found, ran⟩ := ran
  rw [Gui.windowSendmsgMouse, ← mouseTarget_value found]
  cases target with
  | none =>
    cases ran
    rfl
  | some target =>
    dsimp only at ran ⊢
    by_cases moving : (d.window target).moving = true
    · rw [if_pos moving] at ran ⊢
      simp only [Option.bind_eq_some_iff] at ran
      obtain ⟨after, moved, ran⟩ := ran
      rw [← onMoving_value moved]
      exact Option.some.inj ran
    · rw [if_neg moving] at ran ⊢
      exact (sendToTarget_value ran).symm

private theorem guiMouseMove_value {dx dy : ℤ} {pos : Point} (ran : guiMouseMove d dx dy = some (d', pos)) :
    Gui.guiMouseMove d dx dy = (d', pos) := by
  simp only [guiMouseMove, Option.bind_eq_bind, Option.bind_eq_some_iff, int_eq_some] at ran
  obtain ⟨_, ⟨_, rfl⟩, _, ⟨_, rfl⟩, inv, united, after, invalidated, ran⟩ := ran
  cases ran
  rw [invalidateGlobal_value invalidated, rectUnion_value united]
  rfl

/-! ## Steps -/

private theorem LockedSection.exec_value {code : LockedSection} (ran : LockedSection.exec d code = some d') :
    d' = code.exec d := by
  cases code with
  | guiMouseMove dx dy =>
    obtain ⟨⟨after, pos⟩, moved, rfl⟩ := Option.map_eq_some_iff.mp ran
    rw [Gui.LockedSection.exec, guiMouseMove_value moved]
  | windowSendmsgMouse x y evt =>
    obtain ⟨⟨after, sent⟩, message, rfl⟩ := Option.map_eq_some_iff.mp ran
    rw [Gui.LockedSection.exec, windowSendmsgMouse_value message]
  | windowInvalidate w rt => exact windowInvalidate_value ran

private theorem windowStep_value {gi inv : Rect} {rest : List ℕ} {point : DrawPoint} {next : Redraw}
    (ran : windowStep d gi inv w rest point = some next) : Gui.drawStep ⟨d, .drawing gi inv (w :: rest) point⟩ = .ok next := by
  cases point with
  | start =>
    simp only [windowStep, Option.bind_eq_bind, Option.bind_eq_some_iff] at ran
    obtain ⟨wiScr, met, wiWin, moved, united, damage, ran⟩ := ran
    cases ran
    rw [rectUnion_value damage, scrToWin_value moved, rectIntersect_value met]
    rfl
  | stored =>
    simp only [windowStep, Option.bind_eq_bind, Option.bind_eq_some_iff] at ran
    obtain ⟨scrInv, moved, more, united, ran⟩ := ran
    cases ran
    rw [rectUnion_value united, winToScr_value moved]
    rfl
  | united rt =>
    cases ran
    rfl
  | collected =>
    cases ran
    rfl
  | clipped clipping =>
    cases ran
    rfl

/-- A step that has a behaviour is one with unbounded integers. -/
theorem exec_step {s next : Redraw} {e : RedrawEvent} (ran : Redraw.exec s e = .ok (some next)) :
    s.exec e = .ok next := by
  cases e with
  | locked code =>
    obtain ⟨after, section_, rfl⟩ := Option.map_eq_some_iff.mp (Except.ok.inj ran)
    rw [Gui.Redraw.exec, ← LockedSection.exec_value section_]
    rfl
  | draw =>
    have ran : drawStep s = .ok (some next) := ran
    rw [drawStep] at ran
    rw [Gui.Redraw.exec]
    obtain ⟨d, phase⟩ := s
    rcases phase with _ | ⟨gi, inv, _ | ⟨w, rest⟩, point⟩
    · cases stepped : Gui.drawStep ⟨d, .idle⟩ with
      | error fault =>
        rw [stepped] at ran
        cases ran
      | ok after =>
        rw [stepped] at ran
        cases ran
        rfl
    · cases ran
      rfl
    · exact windowStep_value (Except.ok.inj ran)

end Values

section Bounds

variable {d : Desktop} {w : ℕ} {evt : GuiMouseEvent}

theorem windowInvalidate_some {rt : Option Rect} (damage : (d.window w).winInvalidated.Within (2 ^ 28))
    (within : ∀ r, rt = some r → r.Within (2 ^ 26)) : ∃ after, windowInvalidate d w rt = some after := by
  cases rt with
  | none => exact ⟨_, rfl⟩
  | some rt =>
    obtain ⟨left, right, top, bottom⟩ := within rt rfl
    have x0 : CLIENT_X0 = 3 := rfl
    have y0 : CLIENT_Y0 = 23 := rfl
    have client : (⟨rt.x + CLIENT_X0, rt.y + CLIENT_Y0, rt.width, rt.height⟩ : Rect).Within (2 ^ 28) :=
      within_iff.mpr (by omega)
    exact run_int (by omega) (run_int (by omega) (run_bind (rectUnion_some damage client (by decide)).1 ⟨_, rfl⟩))

end Bounds

end Checked

end RubberOS.Model.Gui
