import RubberOS.Model.Window
import RubberOS.Proofs.Graphic

/-! # The pixels that windows and overlays write

Border, title bar and client background cover a window of any size. So a window writes exactly its
pixels on the surface that lie in its invalidated rectangle, and nothing that its text or its
procedure draws goes beyond it.
-/

namespace RubberOS.Model.Gui

/-! ## One window -/

/-- The rectangle of the title bar. -/
def titleBar (width height : ℤ) : Rect :=
  ⟨3, 3, width - 6, if height - 6 > TITLE_HEIGHT then TITLE_HEIGHT else height - 6⟩

/-- The rectangle of the client area. -/
def clientArea (width height : ℤ) : Rect := ⟨3, 23, width - 6, height - 6 - 20⟩

/-- The borders, the title bar and the client area leave no gap. -/
private theorem frame_covers {width height a b : ℤ} (column : 0 ≤ a ∧ a < width) (row : 0 ≤ b ∧ b < height) :
    (∃ r, BorderStrip 0 0 width height 1 r ∧ rectContains r a b = true) ∨
    (∃ r, BorderStrip 1 1 (width - 2) (height - 2) 2 r ∧ rectContains r a b = true) ∨
    rectContains (titleBar width height) a b = true ∨ rectContains (clientArea width height) a b = true := by
  simp only [BorderStrip, or_and_right, exists_or, exists_eq_left, rectContains_iff, titleBar, clientArea]
  rcases Int.lt_or_le b 1 with top | row₁
  · exact .inl (.inl (by omega))
  rcases (Int.lt_or_le b (height - 1)).symm with bottom | row₂
  · exact .inl (.inr (.inl (by omega)))
  rcases Int.lt_or_le a 1 with left | column₁
  · exact .inl (.inr (.inr (.inl (by omega))))
  rcases (Int.lt_or_le a (width - 1)).symm with right | column₂
  · exact .inl (.inr (.inr (.inr (by omega))))
  rcases Int.lt_or_le b 3 with top | row₃
  · exact .inr (.inl (.inl (by omega)))
  rcases (Int.lt_or_le b (height - 3)).symm with bottom | row₄
  · exact .inr (.inl (.inr (.inl (by omega))))
  rcases Int.lt_or_le a 3 with left | column₃
  · exact .inr (.inl (.inr (.inr (.inl (by omega)))))
  rcases (Int.lt_or_le a (width - 3)).symm with right | column₄
  · exact .inr (.inl (.inr (.inr (.inr (by omega)))))
  rcases Int.lt_or_le b 23 with title | client
  · refine .inr (.inr (.inl ?_))
    have titleHeight : TITLE_HEIGHT = 20 := rfl
    by_cases tall : height - 6 > TITLE_HEIGHT
    · rw [if_pos tall]
      omega
    · rw [if_neg tall]
      omega
  · exact .inr (.inr (.inr (by omega)))

/-- The client area lies inside the window. -/
private theorem clientArea_inside {width height a b : ℤ}
    (inside : rectContains (clientArea width height) a b = true) :
    (0 ≤ a ∧ a < width) ∧ 0 ≤ b ∧ b < height := by
  rw [rectContains_iff, clientArea] at inside
  dsimp only at inside
  omega

section Window

variable {font : ℕ → BitVec 8} {g : Graphic} {w : Window} {x y : ℤ}

/-- The pixel lies in the window's rectangle and in its invalidated rectangle, on the surface. -/
def Window.Exposed (w : Window) (g : Graphic) (x y : ℤ) : Prop :=
  rectContains w.winInvalidated (x - w.scrRect.x) (y - w.scrRect.y) = true ∧ rectContains w.scrRect x y = true ∧
    g.Surface x y

/-- What `draw_window` draws before it calls the window procedure. -/
def frameWrites (font : ℕ → BitVec 8) (w : Window) (g : Graphic) : List Write :=
  let g := g.window w.scrRect w.winInvalidated
  graphicDrawRect g 0 0 w.scrRect.width w.scrRect.height 1 0x2f2f2f ++
    graphicDrawRect g 1 1 (w.scrRect.width - 2) (w.scrRect.height - 2) 2 0x3f3f3f ++
    graphicFillRect g 3 3 (w.scrRect.width - 6) (titleBar w.scrRect.width w.scrRect.height).height 0x5f5f5f ++
    graphicDrawString font g ⟨23, 5, w.scrRect.width - 6 - 20, 16⟩ w.title 0x000000 false ++
    graphicFillRect g 3 23 (w.scrRect.width - 6) (w.scrRect.height - 6 - 20) w.bgColor

/-- The frame covers the exposed pixels. -/
private theorem touches_frame : Touches (frameWrites font w g) x y ↔ w.Exposed g x y := by
  have visible : (g.window w.scrRect w.winInvalidated).Inside
    (g.window w.scrRect w.winInvalidated).clipping x y ↔
      w.Exposed g x y := clipping_window w.scrRect w.winInvalidated
  simp only [frameWrites, touches_append, graphicDrawRect, graphicFillRect, touches_drawRect,
    touches_fillRect]
  constructor
  · rintro ((((outer | inner) | bar) | text) | client)
    · exact visible.mp outer.1
    · exact visible.mp inner.1
    · exact visible.mp bar.1
    · exact visible.mp (clipped_string font _ _ _ _ _ x y text)
    · exact visible.mp client.1
  · intro exposed
    have shown := visible.mpr exposed
    have inside := rectContains_iff.mp exposed.2.1
    have column : 0 ≤ x - w.scrRect.x ∧ x - w.scrRect.x < w.scrRect.width := by omega
    have row : 0 ≤ y - w.scrRect.y ∧ y - w.scrRect.y < w.scrRect.height := by omega
    rcases frame_covers column row with outer | inner | bar | client
    · exact .inl (.inl (.inl (.inl ⟨shown, outer⟩)))
    · exact .inl (.inl (.inl (.inr ⟨shown, inner⟩)))
    · exact .inl (.inl (.inr ⟨shown, bar⟩))
    · exact .inr ⟨shown, client⟩

/-- What a window procedure may paint, in its own coordinates. -/
def clientDamage (w : Window) : Rect :=
  let client := clientArea w.scrRect.width w.scrRect.height
  let clientInv := rectIntersect w.winInvalidated client
  ⟨clientInv.x - client.x, clientInv.y - client.y, clientInv.width, clientInv.height⟩

/-- The graphic that a window procedure is given. -/
def procGraphic (w : Window) (g : Graphic) : Graphic :=
  (g.window w.scrRect w.winInvalidated).window (winToScr w (clientArea w.scrRect.width w.scrRect.height)) (clientDamage w)

/-- A window procedure paints exposed pixels only. -/
private theorem procGraphic_exposed (inside : (procGraphic w g).Inside (procGraphic w g).clipping x y) :
    w.Exposed g x y := by
  obtain ⟨damaged, -, surface⟩ := (clipping_window _ (clientDamage w)).mp inside
  have both : rectContains (rectIntersect w.winInvalidated (clientArea w.scrRect.width w.scrRect.height))
      (x - w.scrRect.x) (y - w.scrRect.y) = true := by
    simp only [Graphic.Inside, window_offset, clientDamage, winToScr, clientArea, rectContains_iff]
      at damaged ⊢
    omega
  obtain ⟨invalidated, client⟩ := rectContains_intersect.mp both
  obtain ⟨column, row⟩ := clientArea_inside client
  exact ⟨invalidated, rectContains_iff.mpr (by omega), surface⟩

theorem drawWindow_none (font : ℕ → BitVec 8) (g : Graphic) (silent : w.proc = none) : drawWindow font w g =
    (frameWrites font w g, { w with winInvalidated := ⟨0, 0, 0, 0⟩ },
      g.window w.scrRect w.winInvalidated) := by
  rw [drawWindow, silent]
  rfl

theorem drawWindow_some (font : ℕ → BitVec 8) (g : Graphic) {proc : Graphic → List DrawCall}
    (called : w.proc = some proc) : drawWindow font w g =
      (frameWrites font w g ++ (proc (procGraphic w g)).flatMap (DrawCall.exec font (procGraphic w g)),
        { w with winInvalidated := ⟨0, 0, 0, 0⟩ }, procGraphic w g) := by
  rw [drawWindow, called]
  rfl

/-- A window writes its exposed pixels, and nothing of it stays invalidated. -/
theorem drawWindow_spec (font : ℕ → BitVec 8) (w : Window) (g : Graphic) :
    ∃ writes g', drawWindow font w g = (writes, { w with winInvalidated := ⟨0, 0, 0, 0⟩ }, g') ∧
      g'.width = g.width ∧ g'.height = g.height ∧ ∀ x y, Touches writes x y ↔ w.Exposed g x y := by
  rcases Option.eq_none_or_eq_some w.proc with silent | ⟨proc, called⟩
  · exact ⟨frameWrites font w g, g.window w.scrRect w.winInvalidated, drawWindow_none font g silent, rfl, rfl,
      fun _ _ => touches_frame⟩
  · refine ⟨_, procGraphic w g, drawWindow_some font g called, rfl, rfl, fun x y => ?_⟩
    rw [touches_append, touches_frame, or_iff_left_iff_imp]
    intro painted
    exact procGraphic_exposed (Clipped.flatMap (fun call _ => clipped_call font _ call) x y painted)

end Window

/-! ## The whole screen -/

/-- Some of the writes of this layer goes to this pixel. -/
def Paints (writes : List (Layer × Write)) (layer : Layer) (x y : ℤ) : Prop :=
  ∃ w, (layer, w) ∈ writes ∧ w.column = x ∧ w.row = y

/-- Writes of the first layer come before those of the second, or both are one layer. -/
def Layer.Under : Layer → Layer → Prop
  | .background, _ => True
  | .window i, .window j => i ≤ j
  | .window _, .outline | .window _, .cursor => True
  | .outline, .outline | .outline, .cursor => True
  | .cursor, .cursor => True
  | _, _ => False

/-- What `gui_draw_all` adds to the window's own damage: the part of the global damage inside it. -/
def Window.damage (w : Window) (gi : Rect) : Rect := rectUnion w.winInvalidated (scrToWin w (rectIntersect w.scrRect gi))

/-- `gui_draw_all` repaints this pixel of the window. -/
def Window.Repaints (w : Window) (gi : Rect) (g : Graphic) (x y : ℤ) : Prop :=
  { w with winInvalidated := w.damage gi }.Exposed g x y

/-- The pixel lies on the screen. -/
def Winman.OnScreen (wm : Winman) (x y : ℤ) : Prop :=
  rectContains ⟨0, 0, wm.scrSize.width, wm.scrSize.height⟩ x y = true ∧ wm.backbuffer.Surface x y

/-- The pixel lies under an opaque cell of the cursor. -/
def Winman.UnderCursor (wm : Winman) (x y : ℤ) : Prop :=
  ∃ xi < MOUSE_WIDTH, ∃ yi < MOUSE_HEIGHT, cursorColor xi yi ≠ none ∧ x = wm.mousePos.x + xi ∧ y = wm.mousePos.y + yi

/-- The pixel lies under the outline of the window that is being moved. -/
def Winman.UnderOutline (wm : Winman) (x y : ℤ) : Prop :=
  wm.sizing = true ∧ ∃ r, BorderStrip wm.sizingRect.x wm.sizingRect.y wm.sizingRect.width wm.sizingRect.height 2 r ∧
    rectContains r x y = true

section Screen

variable {font : ℕ → BitVec 8} {first second : List (Layer × Write)} {writes : List Write} {layer other : Layer} {x y : ℤ}

private theorem paints_append : Paints (first ++ second) layer x y ↔ Paints first layer x y ∨
      Paints second layer x y := by
  simp only [Paints, List.mem_append, or_and_right, exists_or]

/-- The writes of one layer. -/
private theorem paints_layer : Paints (writes.map (Prod.mk other)) layer x y ↔ layer = other ∧
      Touches writes x y := by
  simp only [Paints, List.mem_map, Prod.mk.injEq, Touches]
  constructor
  · rintro ⟨w, ⟨w', member, rfl, rfl⟩, place⟩
    exact ⟨rfl, w', member, place⟩
  · rintro ⟨rfl, w, member, place⟩
    exact ⟨w, ⟨w, member, rfl, rfl⟩, place⟩

@[simp] theorem drawList_eq (windowList : List Window) : drawList windowList = windowList := by
  rw [drawList, List.foldl_reverse]
  exact List.foldr_cons_nil

private theorem surface_congr {g g' : Graphic} (width : g'.width = g.width) (height : g'.height = g.height) :
    g'.Surface x y ↔ g.Surface x y := by
  rw [Graphic.Surface, width, height, Graphic.Surface]

/-- The cursor is drawn where an opaque cell of it meets the clipping rectangle. -/
private theorem touches_mouse {g : Graphic} {a b : ℤ} : Touches (drawMouse g a b) x y ↔ g.Inside g.clipping x y ∧
    ∃ xi < MOUSE_WIDTH, ∃ yi < MOUSE_HEIGHT, cursorColor xi yi ≠ none ∧ x = a + xi + g.offset.x ∧
      y = b + yi + g.offset.y := by
  simp only [drawMouse, touches_flatMap, List.mem_range]
  constructor
  · rintro ⟨yi, row, xi, column, touched⟩
    cases cell : cursorColor xi yi with
    | none =>
      rw [cell] at touched
      exact absurd touched touches_nil
    | some color =>
      rw [cell] at touched
      obtain ⟨inside, place⟩ := touches_pixel.mp touched
      exact ⟨inside, xi, column, yi, row, by rw [cell]; exact Option.some_ne_none color, place⟩
  · rintro ⟨inside, xi, column, yi, row, opaque_, place⟩
    obtain ⟨color, cell⟩ := Option.ne_none_iff_exists'.mp opaque_
    refine ⟨yi, row, xi, column, ?_⟩
    rw [cell]
    exact touches_pixel.mpr ⟨inside, place⟩

/-- The windows repaint in order, each its exposed part of both sources of damage. -/
theorem drawWindows_spec (font : ℕ → BitVec 8) (gi : Rect) (windowList : List Window) (index : ℕ)
    (g : Graphic) (inv : Rect) :
    ∃ writes g' inv' windowList', drawWindows font gi index g inv windowList =
      (writes, g', inv', windowList') ∧
      g'.width = g.width ∧ g'.height = g.height ∧
      writes.Pairwise (fun p q => p.1.Under q.1) ∧
      (∀ p ∈ writes, ∃ i, p.1 = .window (index + i)) ∧
      ∀ i x y, Paints writes (.window (index + i)) x y ↔ ∃ w, windowList[i]? = some w ∧
        w.Repaints gi g x y := by
  induction windowList generalizing index g inv with
  | nil =>
    refine ⟨[], g, inv, [], rfl, rfl, rfl, .nil, fun p member => (List.not_mem_nil member).elim,
      fun i x y => ?_⟩
    refine iff_of_false ?_ ?_
    · rintro ⟨w, member, _⟩
      exact List.not_mem_nil member
    · rintro ⟨w, found, _⟩
      cases found
  | cons w rest ih =>
    obtain ⟨own, g₁, drawn, width₁, height₁, touched⟩ :=
        drawWindow_spec font { w with winInvalidated := w.damage gi } g
    obtain ⟨more, g₂, inv', rest', drawnRest, width₂, height₂, ordered, windows, painted⟩ :=
      ih (index + 1) g₁ (rectUnion inv (winToScr w (w.damage gi)))
    refine ⟨own.map (Prod.mk (.window index)) ++ more, g₂, inv',
      { w with winInvalidated := ⟨0, 0, 0, 0⟩ } :: rest', ?_,
      width₂.trans width₁, height₂.trans height₁, ?_, fun p member => ?_, fun i x y => ?_⟩
    · rw [drawWindows]
      dsimp only
      rw [← Window.damage, drawn]
      dsimp only
      rw [show winToScr { w with winInvalidated := w.damage gi } (w.damage gi) =
        winToScr w (w.damage gi) from rfl, drawnRest]
    · rw [List.pairwise_append]
      refine ⟨?_, ordered, fun p below q above => ?_⟩
      · rw [List.pairwise_map]
        exact List.pairwise_of_forall fun _ _ => Nat.le_refl index
      · obtain ⟨write, _, rfl⟩ := List.mem_map.mp below
        obtain ⟨i, place⟩ := windows q above
        rw [place]
        exact Nat.le_trans (Nat.le_succ index) (Nat.le_add_right _ i)
    · rcases List.mem_append.mp member with here | later
      · obtain ⟨write, _, rfl⟩ := List.mem_map.mp here
        exact ⟨0, rfl⟩
      · obtain ⟨i, place⟩ := windows p later
        exact ⟨i + 1, by rw [place, Nat.add_right_comm, Nat.add_assoc]⟩
    · rw [paints_append, paints_layer, touched]
      cases i with
      | zero =>
        have apart : ¬ Paints more (.window (index + 0)) x y := by
          rintro ⟨write, member, _⟩
          obtain ⟨i, place⟩ := windows _ member
          rw [Layer.window.injEq] at place
          omega
        rw [or_iff_left apart, List.getElem?_cons_zero]
        constructor
        · rintro ⟨_, exposed⟩
          exact ⟨w, rfl, exposed⟩
        · rintro ⟨_, found, exposed⟩
          cases found
          exact ⟨rfl, exposed⟩
      | succ i =>
        have apart : ¬ (Layer.window (index + (i + 1)) = .window index ∧
            { w with winInvalidated := w.damage gi }.Exposed g x y) := by
          rw [Layer.window.injEq]
          omega
        rw [or_iff_right apart, List.getElem?_cons_succ,
          show index + (i + 1) = index + 1 + i by omega, painted]
        refine exists_congr fun w' => and_congr_right fun _ => and_congr_right fun _ =>
          and_congr_right fun _ => ?_
        exact surface_congr width₁ height₁

/-- The pixel is repainted by the background. -/
def Winman.Refreshed (wm : Winman) (x y : ℤ) : Prop :=
  rectContains wm.globalInvalidated x y = true ∧ wm.OnScreen x y

/-- What the layers of the screen write, bottom layer first. -/
structure Winman.Layers (wm : Winman) (writes : List (Layer × Write)) : Prop where
  ordered : writes.Pairwise fun p q => p.1.Under q.1
  background : ∀ x y, Paints writes .background x y ↔ wm.Refreshed x y
  window : ∀ i x y, Paints writes (.window i) x y ↔
    ∃ w, wm.windowList[i]? = some w ∧ w.Repaints wm.globalInvalidated wm.backbuffer x y
  outline : ∀ x y, Paints writes .outline x y ↔ wm.Refreshed x y ∧ wm.UnderOutline x y
  cursor : ∀ x y, Paints writes .cursor x y ↔ wm.Refreshed x y ∧ wm.UnderCursor x y

/-- The graphic for the whole screen shows what the background repaints. -/
private theorem clipping_screen {wm : Winman} {g : Graphic} (width : g.width = wm.backbuffer.width)
    (height : g.height = wm.backbuffer.height) :
    (g.window ⟨0, 0, wm.scrSize.width, wm.scrSize.height⟩ wm.globalInvalidated).Inside
      (g.window ⟨0, 0, wm.scrSize.width, wm.scrSize.height⟩ wm.globalInvalidated).clipping x y ↔
        wm.Refreshed x y := by
  rw [clipping_window, surface_congr width height]
  simp only [Graphic.Inside, window_offset, Int.sub_zero]
  rfl

/-- In the graphic for the whole screen, coordinates are those of the surface. -/
private theorem inside_screen {g : Graphic} {width height : ℤ} {clipping r : Rect} :
    (g.window ⟨0, 0, width, height⟩ clipping).Inside r x y ↔ rectContains r x y = true := by
  simp only [Graphic.Inside, window_offset, Int.sub_zero]

/-- The layers are written one above the other. -/
private theorem layers_ordered (background outline cursor : List Write) {windows : List (Layer × Write)}
    (ordered : windows.Pairwise fun p q => p.1.Under q.1) (places : ∀ p ∈ windows, ∃ i, p.1 = .window i) :
    List.Pairwise (fun p q => p.1.Under q.1) (background.map (Prod.mk Layer.background) ++ windows ++
      outline.map (Prod.mk Layer.outline) ++ cursor.map (Prod.mk Layer.cursor)) := by
  have single (layer : Layer) (same : layer.Under layer) (writes : List Write) :
      (writes.map (Prod.mk layer)).Pairwise fun p q => p.1.Under q.1 := by
    rw [List.pairwise_map]
    exact List.pairwise_of_forall fun _ _ => same
  have sole (layer : Layer) (writes : List Write) {q : Layer × Write}
    (member : q ∈ writes.map (Prod.mk layer)) :
      q.1 = layer := by
    obtain ⟨_, _, rfl⟩ := List.mem_map.mp member
    rfl
  simp only [List.append_assoc]
  rw [List.pairwise_append]
  refine ⟨single .background trivial background, ?_, fun p below q _ => by rw [sole _ _ below]; exact trivial⟩
  rw [List.pairwise_append]
  refine ⟨ordered, ?_, fun p below q above => ?_⟩
  · rw [List.pairwise_append]
    refine ⟨single .outline trivial outline, single .cursor trivial cursor, fun p below q above => ?_⟩
    rw [sole _ _ below, sole _ _ above]
    exact trivial
  · obtain ⟨i, place⟩ := places p below
    rcases List.mem_append.mp above with outlined | cursored
    · rw [place, sole _ _ outlined]
      exact trivial
    · rw [place, sole _ _ cursored]
      exact trivial

theorem guiDrawAll_layers {fi : FbInfo} {wm : Winman} {drawn : Drawn}
    (ran : guiDrawAll font fi wm = .ok drawn) :
    wm.Layers drawn.writes := by
  obtain ⟨_, _, ran⟩ := Except.bind_ok_iff.mp ran
  rw [drawList_eq] at ran
  obtain ⟨windows, g, inv, windowList, ranWindows, width, height, ordered, places, painted⟩ :=
    drawWindows_spec font wm.globalInvalidated wm.windowList 0
      (wm.backbuffer.window ⟨0, 0, wm.scrSize.width, wm.scrSize.height⟩ wm.globalInvalidated) wm.globalInvalidated
  rw [Graphic.window] at ranWindows
  dsimp only at ran
  rw [ranWindows] at ran
  cases ran
  dsimp only
  have elsewhere {layer : Layer} (other : ∀ i, layer ≠ .window i) (x y : ℤ) : ¬ Paints windows layer x y := by
    rintro ⟨write, member, _⟩
    obtain ⟨i, place⟩ := places _ member
    exact other _ place
  constructor
  · exact layers_ordered _ _ _ ordered fun p member =>
      (places p member).imp fun i place => by rw [place, Nat.zero_add]
  · intro x y
    simp only [paints_append, paints_layer, reduceCtorEq, false_and, or_false, true_and, elsewhere,
      ne_eq, not_false_eq_true, implies_true]
    rw [graphicFillRect, touches_fillRect]
    refine Iff.trans (and_congr (clipping_screen rfl rfl) inside_screen)
      (and_iff_left_of_imp fun refreshed => ?_)
    exact refreshed.2.1
  · intro i x y
    simp only [paints_append, paints_layer, reduceCtorEq, false_and, or_false, false_or]
    have here := painted i x y
    rw [Nat.zero_add] at here
    exact here
  · intro x y
    simp only [paints_append, paints_layer, reduceCtorEq, false_and, or_false, false_or, true_and, elsewhere,
      ne_eq, not_false_eq_true, implies_true]
    cases sizing : wm.sizing with
    | true =>
      rw [if_pos rfl, graphicDrawRectXor, touches_drawRect]
      refine and_congr (clipping_screen width height) ?_
      simp only [Winman.UnderOutline, sizing, true_and]
      exact exists_congr fun r => and_congr_right fun _ => inside_screen
    | false =>
      rw [if_neg Bool.false_ne_true]
      refine iff_of_false touches_nil fun outline => ?_
      exact Bool.false_ne_true (sizing.symm.trans outline.2.1)
  · intro x y
    simp only [paints_append, paints_layer, reduceCtorEq, false_and, false_or, true_and, elsewhere,
      ne_eq, not_false_eq_true, implies_true]
    rw [touches_mouse]
    refine and_congr (clipping_screen width height) ?_
    simp only [Winman.UnderCursor]
    refine exists_congr fun xi => and_congr_right fun _ => exists_congr fun yi => and_congr_right fun _ =>
      and_congr_right fun _ => ?_
    exact and_congr (iff_of_eq (congrArg _ (Int.add_zero _))) (iff_of_eq (congrArg _ (Int.add_zero _)))

end Screen

end RubberOS.Model.Gui
