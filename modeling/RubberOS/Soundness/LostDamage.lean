import RubberOS.Proofs.CheckedDesktop
import RubberOS.ToMathlib.LabelledRuns

/-! # What is invalidated while the screen is drawn

The drawing reads the global damage once, at its start, and clears it at its end; it reads the damage of
a window twice, and stores over it twice. What a locked section invalidates survives unless it is stored
over before it is read, and this is the only way in which it is lost.
-/

namespace RubberOS.Soundness.LostDamage

open Model Model.Gui LabelledRuns

/-! ## What a locked section invalidates -/

/-- The same windows with nothing invalidated. -/
def clean (d : Desktop) : Desktop :=
  { d with globalInvalidated := ⟨0, 0, 0, 0⟩,
           window := fun w => { d.window w with winInvalidated := ⟨0, 0, 0, 0⟩ } }

/-- The section invalidates this pixel of the screen: it does so where nothing was invalidated before. -/
def InvalidatesScreen (d : Desktop) (code : LockedSection) (x y : ℤ) : Prop :=
  rectContains (code.exec (clean d)).globalInvalidated x y = true

/-- The section invalidates this pixel of a window. -/
def InvalidatesWindow (d : Desktop) (code : LockedSection) (w : ℕ) (x y : ℤ) : Prop :=
  rectContains (windowArea (d.window w).toWindow) x y = true ∧
    rectContains ((code.exec (clean d)).window w).winInvalidated x y = true

/-- What becomes of a window's damage: `invalidate_client` with such an argument. -/
def damagedBy (w : Window) : Option Rect → Rect
  | some rt => rectUnion w.winInvalidated rt
  | none => windowArea w

/-- A section adds this to the global damage and this to the damage of each window. -/
structure Effect (d d' : Desktop) (rt : Rect) (rts : ℕ → Option Rect) : Prop where
  screen : d'.globalInvalidated = rectUnion d.globalInvalidated rt
  window : ∀ v, (d'.window v).winInvalidated = damagedBy (d.window v).toWindow (rts v)
  area : ∀ v, windowArea (d'.window v).toWindow = windowArea (d.window v).toWindow

section Sections

variable {d d' : Desktop} {w v : ℕ} {x y : ℤ} {rt : Rect} {rts : ℕ → Option Rect}

/-- No window is damaged. -/
def spared : ℕ → Option Rect := fun _ => some ⟨0, 0, 0, 0⟩

private theorem union_empty (a : Rect) : rectUnion a ⟨0, 0, 0, 0⟩ = a := if_pos (.inl rfl)

private theorem effect_refl (d : Desktop) : Effect d d ⟨0, 0, 0, 0⟩ spared :=
  ⟨(union_empty _).symm, fun _ => (union_empty _).symm, fun _ => rfl⟩

private theorem guiMouseMove_effect (d : Desktop) (dx dy : ℤ) : Effect d (guiMouseMove d dx dy).1
    (rectUnion (cursorRect d.mousePos) (cursorRect (guiMouseMove d dx dy).2)) spared :=
  ⟨rfl, fun _ => (union_empty _).symm, fun _ => rfl⟩

/-- The damage of one window. -/
private theorem setWindow_effect (d : Desktop) (w : ℕ) (rt : Option Rect) :
    Effect d (d.setWindow w fun w => { w with winInvalidated := damagedBy w.toWindow rt }) ⟨0, 0, 0, 0⟩
      (Function.update spared w rt) := by
  refine ⟨(union_empty _).symm, fun v => ?_,
    fun v => setWindow_keeps (windowArea ·.toWindow) d w v fun _ => rfl⟩
  rcases eq_or_ne v w with rfl | apart
  · rw [setWindow_self, Function.update_self]
  · rw [setWindow_of_ne d _ apart, Function.update_of_ne apart, spared, damagedBy, union_empty]

/-- Two changes in a row, of which the second spares the windows. -/
private theorem Effect.then {d₁ d₂ : Desktop} (first : Effect d d₁ ⟨0, 0, 0, 0⟩ rts)
    (second : Effect d₁ d₂ rt spared) :
    Effect d d₂ rt rts := by
  refine ⟨?_, fun v => ?_, fun v => (second.area v).trans (first.area v)⟩
  · rw [second.screen, first.screen, union_empty]
  · rw [second.window, spared, damagedBy, union_empty]
    exact first.window v

private theorem moveToFront_effect (d : Desktop) (w : ℕ) :
    Effect d (moveToFront d w) ⟨0, 0, 0, 0⟩ (Function.update spared w none) := by
  obtain ⟨screen, window, area⟩ := setWindow_effect d w none
  exact ⟨screen, window, area⟩

/-- What `on_nc_mouse` invalidates of the screen. -/
def ncDamage (scrRect : Rect) (evt : GuiMouseEvent) : Rect :=
  let title : Rect := ⟨CLIENT_X0, CLIENT_X0, scrRect.width - 2 * CLIENT_X0, TITLE_HEIGHT⟩
  if rectContains title evt.x evt.y && guiMouseEventDown evt.left evt.prevLeft then scrRect else ⟨0, 0, 0, 0⟩

private theorem onNcMouse_effect (d : Desktop) (w : ℕ) (evt : GuiMouseEvent) :
    Effect d (onNcMouse d w evt) (ncDamage (d.window w).scrRect evt) spared := by
  rw [onNcMouse, ncDamage]
  split
  · refine ⟨rfl, fun v => ?_, fun v => ?_⟩ <;> dsimp only [invalidateGlobal]
    · rw [spared, damagedBy, union_empty]
      exact setWindow_keeps (·.winInvalidated) d w v fun _ => rfl
    · exact setWindow_keeps (windowArea ·.toWindow) d w v fun _ => rfl
  · exact effect_refl d

/-- What `on_moving` invalidates of the screen. -/
def movingDamage (d : Desktop) (w : ℕ) (evt : GuiMouseEvent) : Rect :=
  let scrRect := (d.window w).scrRect
  let sizingRect := { scrRect with x := scrRect.x + (evt.x - d.sizingPt.x), y := scrRect.y + (evt.y - d.sizingPt.y) }
  let inv := rectUnion d.sizingRect sizingRect
  if guiMouseEventUp evt.left evt.prevLeft then rectUnion inv scrRect else inv

private theorem onMoving_effect (d : Desktop) (w : ℕ) (evt : GuiMouseEvent) :
    Effect d (onMoving d w evt) (movingDamage d w evt) spared := by
  rw [onMoving, movingDamage]
  split
  · refine ⟨rfl, fun v => ?_, fun v => ?_⟩ <;> dsimp only [invalidateGlobal]
    · rw [spared, damagedBy, union_empty]
      exact setWindow_keeps (·.winInvalidated) d w v fun _ => rfl
    · rcases eq_or_ne v w with rfl | apart
      · rw [setWindow_self, windowArea, windowArea]
      · rw [setWindow_of_ne d _ apart]
  · exact ⟨rfl, fun _ => (union_empty _).symm, fun _ => rfl⟩

/-- What `window_sendmsg_mouse` invalidates: of the screen and of the windows. -/
def sendmsgDamage (d : Desktop) (x y : ℤ) (evt : GuiMouseEvent) : Rect × (ℕ → Option Rect) :=
  match mouseTarget d x y with
  | none => (⟨0, 0, 0, 0⟩, spared)
  | some w =>
    let scrRect := (d.window w).scrRect
    if (d.window w).moving then (movingDamage d w evt, spared)
    else
      let pressed := guiMouseEventDown evt.left evt.prevLeft || guiMouseEventDown evt.right evt.prevRight ||
        guiMouseEventDown evt.middle evt.prevMiddle
      let evt := { evt with x := evt.x - scrRect.x, y := evt.y - scrRect.y }
      (if rectContains (clientRectForWindow scrRect.width scrRect.height) evt.x evt.y then ⟨0, 0, 0, 0⟩
       else ncDamage scrRect evt,
       if pressed then Function.update spared w none else spared)

private theorem windowSendmsgMouse_effect (d : Desktop) (x y : ℤ) (evt : GuiMouseEvent) :
    Effect d (windowSendmsgMouse d x y evt).1 (sendmsgDamage d x y evt).1 (sendmsgDamage d x y evt).2 := by
  rw [windowSendmsgMouse, sendmsgDamage]
  cases mouseTarget d x y with
  | none => exact effect_refl d
  | some w =>
    dsimp only
    by_cases moving : (d.window w).moving = true
    · rw [if_pos moving, if_pos moving]
      exact onMoving_effect d w evt
    · rw [if_neg moving, if_neg moving]
      generalize (guiMouseEventDown evt.left evt.prevLeft || guiMouseEventDown evt.right evt.prevRight ||
        guiMouseEventDown evt.middle evt.prevMiddle) = pressed
      have raised : Effect d (if pressed = true then moveToFront d w else d) ⟨0, 0, 0, 0⟩
          (if pressed = true then Function.update spared w none else spared) := by
        split
        · exact moveToFront_effect d w
        · exact effect_refl d
      have place : ((if pressed = true then moveToFront d w else d).window w).scrRect =
          (d.window w).scrRect := by
        split
        · rw [moveToFront, invalidateWindowAll, setWindow_self]
        · rfl
      rw [place]
      split
      · exact raised
      · have grabbed := onNcMouse_effect (if pressed = true then moveToFront d w else d) w
          { evt with x := evt.x - (d.window w).scrRect.x, y := evt.y - (d.window w).scrRect.y }
        rw [place] at grabbed
        exact raised.then grabbed

/-- What a section adds does not depend on what is invalidated. -/
private theorem section_effect (d : Desktop) (code : LockedSection) :
    ∃ rt rts, Effect d (code.exec d) rt rts ∧ Effect (clean d) (code.exec (clean d)) rt rts := by
  cases code with
  | guiMouseMove dx dy => exact ⟨_, _, guiMouseMove_effect d dx dy, guiMouseMove_effect (clean d) dx dy⟩
  | windowSendmsgMouse x y evt =>
    exact ⟨_, _, windowSendmsgMouse_effect d x y evt, windowSendmsgMouse_effect (clean d) x y evt⟩
  | windowInvalidate w rt =>
    cases rt with
    | none => exact ⟨_, _, setWindow_effect d w none, setWindow_effect (clean d) w none⟩
    | some rt =>
      exact ⟨_, _, setWindow_effect d w (some { rt with x := rt.x + CLIENT_X0, y := rt.y + CLIENT_Y0 }),
        setWindow_effect (clean d) w (some { rt with x := rt.x + CLIENT_X0, y := rt.y + CLIENT_Y0 })⟩

/-- A section keeps what is invalidated of the screen, and adds what it invalidates. -/
private theorem section_screen (d : Desktop) (code : LockedSection) (x y : ℤ)
    (invalid : rectContains d.globalInvalidated x y = true ∨ InvalidatesScreen d code x y) :
    rectContains (code.exec d).globalInvalidated x y = true := by
  obtain ⟨rt, rts, effect, fresh⟩ := section_effect d code
  rw [effect.screen]
  rcases invalid with old | new
  · exact rectContains_union_left rt old
  · rw [InvalidatesScreen, fresh.screen, clean, rectContains_union_empty] at new
    exact rectContains_union_right _ new

/-- A section keeps what is invalidated of a window's area, and adds what it invalidates. -/
private theorem section_window (d : Desktop) (code : LockedSection) (w : ℕ) (x y : ℤ)
    (inside : rectContains (windowArea (d.window w).toWindow) x y = true)
    (invalid : rectContains (d.window w).winInvalidated x y = true ∨ InvalidatesWindow d code w x y) :
    rectContains ((code.exec d).window w).winInvalidated x y = true := by
  obtain ⟨rt, rts, effect, fresh⟩ := section_effect d code
  rw [effect.window]
  cases damage : rts w with
  | none => exact inside
  | some rt =>
    rw [damagedBy]
    rcases invalid with old | ⟨_, new⟩
    · exact rectContains_union_left rt old
    · rw [fresh.window, damage, damagedBy, clean, rectContains_union_empty] at new
      exact rectContains_union_right _ new

private theorem section_area (d : Desktop) (code : LockedSection) (w : ℕ) :
    windowArea ((code.exec d).window w).toWindow = windowArea (d.window w).toWindow := by
  obtain ⟨rt, rts, effect, _⟩ := section_effect d code
  exact effect.area w

end Sections

/-! ## Runs -/

/-- The pixels that were invalidated since the drawing read the damage of the screen, less those of a window
that its drawing was clipped to after that. -/
structure Pending where
  screen : Set (ℤ × ℤ)
  window : ℕ → Set (ℤ × ℤ)

def Pending.none : Pending := ⟨∅, fun _ => ∅⟩

/-- The pending pixels after a step from this state. -/
def Pending.after (pending : Pending) (s : Redraw) : RedrawEvent → Pending
  | .draw =>
    match s.phase with
    | .idle => .none
    | .drawing _ _ (w :: _) .collected =>
      let undrawn := {q | q ∈ pending.window w ∧ ¬ rectContains (s.desktop.window w).winInvalidated q.1 q.2 = true}
      { pending with window := Function.update pending.window w undrawn }
    | _ => pending
  | .locked code =>
    { screen := pending.screen ∪ {q | InvalidatesScreen s.desktop code q.1 q.2},
      window := fun w => pending.window w ∪ {q | InvalidatesWindow s.desktop code w q.1 q.2} }

/-- A run with the pending pixels on the side. -/
structure Watched where
  redraw : Redraw
  pending : Pending

/-- A step in the arithmetic of C: one that leaves `int` has no behaviour. -/
def Watches (s : Watched) (e : RedrawEvent) (t : Watched) : Prop :=
  Checked.Redraw.exec s.redraw e = .ok (some t.redraw) ∧ t.pending = s.pending.after s.redraw e

/-- The window whose damage the drawing will store over before it reads it again, and what it will store. -/
def overwrites : DrawPhase → Option (ℕ × Rect)
  | .drawing _ _ (w :: _) (.united rt) => some (w, rt)
  | .drawing _ _ (w :: _) (.clipped _) => some (w, ⟨0, 0, 0, 0⟩)
  | _ => none

/-- While the screen is drawn, no section invalidates a pixel of the screen, or one of a window that the
drawing is about to store over. -/
def Timely (s : Redraw) : RedrawEvent → Prop
  | .draw => True
  | .locked code => s.phase ≠ .idle →
      (∀ x y, ¬ InvalidatesScreen s.desktop code x y) ∧
      ∀ w rt, overwrites s.phase = some (w, rt) →
        ∀ x y, InvalidatesWindow s.desktop code w x y → rectContains rt x y = true

def TimelyStep (s : Watched) (e : RedrawEvent) (t : Watched) : Prop := Watches s e t ∧ Timely s.redraw e

/-- The damage of a window that the drawing is going to read. -/
def surviving (s : Redraw) (v : ℕ) : Rect :=
  match overwrites s.phase with
  | some (w, rt) => if v = w then rt else (s.desktop.window v).winInvalidated
  | none => (s.desktop.window v).winInvalidated

/-- Pending pixels are still invalidated in a place that the drawing reads. -/
structure Safe (s : Watched) : Prop where
  screen : ∀ q ∈ s.pending.screen,
    s.redraw.phase = .idle ∧ rectContains s.redraw.desktop.globalInvalidated q.1 q.2 = true
  area : ∀ v, ∀ q ∈ s.pending.window v, rectContains (windowArea (s.redraw.desktop.window v).toWindow) q.1 q.2 = true
  window : ∀ v, ∀ q ∈ s.pending.window v, rectContains (surviving s.redraw v) q.1 q.2 = true

section Runs

variable {s t : Watched} {e : RedrawEvent} {es : List RedrawEvent}

/-- A timely section keeps the pending pixels safe. -/
private theorem Safe.locked {code : LockedSection} (safe : Safe s) (timely : Timely s.redraw (.locked code)) :
    Safe ⟨{ s.redraw with desktop := code.exec s.redraw.desktop },
      s.pending.after s.redraw (.locked code)⟩ := by
  have area (v : ℕ) : ∀ q ∈ s.pending.window v ∪ {q | InvalidatesWindow s.redraw.desktop code v q.1 q.2},
      rectContains (windowArea (s.redraw.desktop.window v).toWindow) q.1 q.2 = true := by
    rintro q (old | new)
    · exact safe.area v q old
    · exact new.1
  constructor
  case screen =>
    rintro q (old | new)
    · exact ⟨(safe.screen q old).1, section_screen _ _ _ _ (.inl (safe.screen q old).2)⟩
    · refine ⟨?_, section_screen _ _ _ _ (.inr new)⟩
      by_contra drawing
      exact (timely drawing).1 q.1 q.2 new
  case area =>
    intro v q pending
    dsimp only
    rw [section_area]
    exact area v q pending
  case window =>
    intro v q pending
    have inside := area v q pending
    rw [surviving]
    dsimp only
    cases overwritten : overwrites s.redraw.phase with
    | none =>
      apply section_window _ _ _ _ _ inside
      rcases pending with old | new
      · have kept := safe.window v q old
        rw [surviving, overwritten] at kept
        exact .inl kept
      · exact .inr new
    | some window =>
      obtain ⟨w, rt⟩ := window
      have drawing : s.redraw.phase ≠ .idle := by
        intro idle
        rw [idle] at overwritten
        cases overwritten
      dsimp only
      split
      · rename_i same
        subst same
        rcases pending with old | new
        · have kept := safe.window v q old
          rw [surviving, overwritten] at kept
          dsimp only at kept
          rwa [if_pos rfl] at kept
        · exact (timely drawing).2 v rt overwritten q.1 q.2 new
      · rename_i apart
        apply section_window _ _ _ _ _ inside
        rcases pending with old | new
        · have kept := safe.window v q old
          rw [surviving, overwritten] at kept
          dsimp only at kept
          rw [if_neg apart] at kept
          exact .inl kept
        · exact .inr new

private theorem surviving_read {s : Redraw} (unwritten : overwrites s.phase = none) (v : ℕ) :
    surviving s v = (s.desktop.window v).winInvalidated := by
  rw [surviving, unwritten]

/-- While the screen is drawn, no pixel of the screen is pending. -/
private theorem Safe.quiet (safe : Safe s) (drawing : s.redraw.phase ≠ .idle) (q : ℤ × ℤ) : q ∉ s.pending.screen :=
  fun pending => drawing (safe.screen q pending).1

/-- The drawing stores over the damage of a window. -/
private theorem Safe.store {d : Desktop} {phase phase' : DrawPhase} {pending : Pending} {w : ℕ} {rt : Rect}
    (safe : Safe ⟨⟨d, phase⟩, pending⟩) (overwritten : overwrites phase = some (w, rt))
    (unwritten : overwrites phase' = none) :
    Safe ⟨⟨d.setWindow w fun w => { w with winInvalidated := rt }, phase'⟩, pending⟩ := by
  have drawing : phase ≠ .idle := by
    intro idle
    rw [idle] at overwritten
    cases overwritten
  refine ⟨fun q old => absurd old (safe.quiet drawing q), fun v q old => ?_, fun v q old => ?_⟩
  · have kept := safe.area v q old
    have same : windowArea ((d.setWindow w fun w => { w with winInvalidated := rt }).window v).toWindow =
        windowArea (d.window v).toWindow := setWindow_keeps (windowArea ·.toWindow) d w v fun _ => rfl
    dsimp only
    rwa [same]
  · have kept := safe.window v q old
    rw [surviving, overwritten] at kept
    rw [surviving_read unwritten]
    dsimp only at kept ⊢
    rcases eq_or_ne v w with rfl | apart
    · rw [if_pos rfl] at kept
      rwa [setWindow_self]
    · rw [if_neg apart] at kept
      rwa [setWindow_of_ne d _ apart]

/-- A step of the drawing keeps the pending pixels safe. -/
private theorem Safe.draw (safe : Safe s) {next : Redraw} (ran : drawStep s.redraw = .ok next) :
    Safe ⟨next, s.pending.after s.redraw .draw⟩ := by
  obtain ⟨⟨d, phase⟩, pending⟩ := s
  cases phase with
  | idle =>
    obtain ⟨_, _, ran⟩ := Except.bind_ok_iff.mp ran
    cases ran
    exact ⟨fun q old => old.elim, fun _ q old => old.elim, fun _ q old => old.elim⟩
  | drawing gi inv drawList point =>
    have quiet := safe.quiet (by rintro ⟨⟩)
    cases drawList with
    | nil =>
      cases ran
      exact ⟨fun q old => absurd old (quiet q), safe.area, safe.window⟩
    | cons w rest =>
      cases point with
      | start =>
        cases ran
        refine ⟨fun q old => absurd old (quiet q), safe.area, fun v q old => ?_⟩
        have kept := safe.window v q old
        rw [surviving_read rfl] at kept
        dsimp only [surviving, overwrites]
        split
        · rename_i same
          subst same
          exact rectContains_union_left _ kept
        · exact kept
      | united rt =>
        cases ran
        exact safe.store rfl rfl
      | stored =>
        cases ran
        exact ⟨fun q old => absurd old (quiet q), safe.area, safe.window⟩
      | collected =>
        cases ran
        refine ⟨fun q old => absurd old (quiet q), fun v q old => ?_, fun v q old => ?_⟩
        · dsimp only [Pending.after] at old
          rcases eq_or_ne v w with rfl | apart
          · rw [Function.update_self] at old
            exact safe.area v q old.1
          · rw [Function.update_of_ne apart] at old
            exact safe.area v q old
        · dsimp only [Pending.after] at old
          dsimp only [surviving, overwrites]
          rcases eq_or_ne v w with rfl | apart
          · rw [Function.update_self] at old
            exact absurd (safe.window v q old.1) old.2
          · rw [Function.update_of_ne apart] at old
            rw [if_neg apart]
            exact safe.window v q old
      | clipped clipping =>
        cases ran
        refine safe.store rfl ?_
        cases rest <;> rfl

private theorem Safe.step (safe : Safe s) (step : TimelyStep s e t) : Safe t := by
  obtain ⟨⟨ran, pending⟩, timely⟩ := step
  obtain ⟨next, pending'⟩ := t
  have stepped : s.redraw.exec e = .ok next := Checked.exec_step ran
  dsimp only at pending
  subst pending
  cases e with
  | draw => exact safe.draw stepped
  | locked code =>
    cases stepped
    exact safe.locked timely

/-- Nothing is pending before the drawing begins. -/
structure Fresh (s : Watched) : Prop where
  phase : s.redraw.phase = .idle
  pending : s.pending = .none

private theorem Fresh.safe (fresh : Fresh s) : Safe s := by
  constructor
  case screen =>
    rw [fresh.pending]
    exact fun q old => old.elim
  case area =>
    rw [fresh.pending]
    exact fun _ q old => old.elim
  case window =>
    rw [fresh.pending]
    exact fun _ q old => old.elim

end Runs

end RubberOS.Soundness.LostDamage
