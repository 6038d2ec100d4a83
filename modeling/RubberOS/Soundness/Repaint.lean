import RubberOS.Proofs.CheckedBounds

/-! # Which window and which overlay ends up on top

A window is repainted inside its own damage, also where a window above it is not, and the overlays are
redrawn inside the global damage only. So a window's own damage can cover a window above it, and can
erase the cursor and the outline. Pixel by pixel, this is the only way in which it goes wrong.
-/

namespace RubberOS.Soundness.Repaint

open Model Model.Gui

/-- Of the windows that contain the pixel, this one is the last of the list. -/
def IsTopmost (windowList : List Window) (i : ℕ) (x y : ℤ) : Prop :=
  ∃ w, windowList[i]? = some w ∧ rectContains w.scrRect x y = true ∧
    ∀ j w', i < j → windowList[j]? = some w' → rectContains w'.scrRect x y = false

/-- Of the windows that write to the cell, this one does so last. -/
def IsLastPainter (cells : List (Layer × Checked.Cell)) (i index : ℕ) : Prop :=
  ∃ before c after, cells = before ++ (.window i, c) :: after ∧ c.index = index ∧
    ∀ j, ¬ Checked.Stores after (.window j) index

/-- No lower window ends up on top of the topmost window at this pixel. -/
def TopmostLast (wm : Winman) (drawn : Checked.Drawn) (column row : ℕ) : Prop :=
  ∀ i, IsLastPainter drawn.writes i (column + row * wm.backbuffer.pitch) → IsTopmost wm.windowList i column row

/-- The pixel lies in the window's damage: the bounding box of its own and of the global damage in it. -/
def Damaged (wm : Winman) (w : Window) (x y : ℤ) : Prop :=
  rectContains (w.damage wm.globalInvalidated) (x - w.scrRect.x) (y - w.scrRect.y) = true

/-- Where a window is damaged, the topmost window at the pixel is damaged too. -/
def TopmostDamaged (wm : Winman) (x y : ℤ) : Prop :=
  ∀ w ∈ wm.windowList, rectContains w.scrRect x y = true → Damaged wm w x y →
    ∀ i top, wm.windowList[i]? = some top → IsTopmost wm.windowList i x y → Damaged wm top x y

section Order

variable {font : ℕ → BitVec 8} {fi : FbInfo} {wm : Winman} {drawn : Checked.Drawn} {writes : List (Layer × Write)}
  {cells : List (Layer × Checked.Cell)} {i index column row : ℕ} {x y : ℤ}

/-- The last item of a list with some property. -/
private theorem exists_last {α : Type} {P : α → Prop} {items : List α} (some_ : ∃ a ∈ items, P a) :
    ∃ before a after, items = before ++ a :: after ∧ P a ∧ ∀ b ∈ after, ¬ P b := by
  induction items with
  | nil =>
    obtain ⟨a, member, _⟩ := some_
    cases member
  | cons first rest ih =>
    by_cases later : ∃ a ∈ rest, P a
    · obtain ⟨before, a, after, split, here, none_⟩ := ih later
      exact ⟨first :: before, a, after, by rw [split, List.cons_append], here, none_⟩
    · obtain ⟨a, member, here⟩ := some_
      rcases List.mem_cons.mp member with rfl | inside
      · exact ⟨[], a, rest, rfl, here, fun b inside there => later ⟨b, inside, there⟩⟩
      · exact absurd ⟨a, inside, here⟩ later

/-- A cell that a window writes has a window that writes it last. -/
private theorem exists_lastPainter (stored : Checked.Stores cells (.window i) index) :
    ∃ k, IsLastPainter cells k index := by
  obtain ⟨c, member, place⟩ := stored
  obtain ⟨before, ⟨layer, c'⟩, after, split, ⟨⟨k, isWindow⟩, there⟩, none_⟩ :=
    exists_last (P := fun p : Layer × Checked.Cell => (∃ k, p.1 = .window k) ∧ p.2.index = index)
      ⟨_, member, ⟨i, rfl⟩, place⟩
  dsimp only at isWindow
  subst isWindow
  refine ⟨k, before, c', after, split, there, fun j stored => ?_⟩
  obtain ⟨c'', later, place⟩ := stored
  exact none_ _ later ⟨⟨j, rfl⟩, place⟩

/-- The last window to write a cell is the highest one that does. -/
private theorem isLastPainter_iff (ordered : cells.Pairwise fun p q => p.1.Under q.1) :
    IsLastPainter cells i index ↔ Checked.Stores cells (.window i) index ∧ ∀ j, i < j →
      ¬ Checked.Stores cells (.window j) index := by
  constructor
  · rintro ⟨before, c, after, rfl, place, none_⟩
    refine ⟨⟨c, List.mem_append_right _ List.mem_cons_self, place⟩, fun j above stored => ?_⟩
    obtain ⟨c', member, place⟩ := stored
    rw [List.pairwise_append] at ordered
    rcases List.mem_append.mp member with earlier | later
    · have under : j ≤ i := ordered.2.2 _ earlier _ List.mem_cons_self
      omega
    · rcases List.mem_cons.mp later with same | later
      · cases same
        omega
      · exact none_ j ⟨c', later, place⟩
  · rintro ⟨stored, highest⟩
    obtain ⟨k, before, c', after, split, there, none_⟩ := exists_lastPainter stored
    obtain ⟨c, member, place⟩ := stored
    have same : k = i := by
      have low : ¬ i < k := fun above =>
        highest k above ⟨c', split ▸ List.mem_append_right _ List.mem_cons_self, there⟩
      rw [split, List.pairwise_append] at ordered
      rw [split] at member
      rcases List.mem_append.mp member with earlier | later
      · have under : i ≤ k := ordered.2.2 _ earlier _ List.mem_cons_self
        omega
      · rcases List.mem_cons.mp later with same | later
        · cases same
          rfl
        · exact absurd ⟨c, later, place⟩ (none_ i)
    subst same
    exact ⟨before, c', after, split, there, none_⟩

/-! ## Windows -/

private theorem exists_topmost {windowList : List Window} {w : Window} (member : w ∈ windowList)
    (inside : rectContains w.scrRect x y = true) : ∃ i, IsTopmost windowList i x y := by
  obtain ⟨before, top, after, split, there, none_⟩ :=
    exists_last (P := fun w : Window => rectContains w.scrRect x y = true) ⟨w, member, inside⟩
  refine ⟨before.length, top, ?_, there, fun j w' above found => ?_⟩
  · rw [split, List.getElem?_append_right (Nat.le_refl _), Nat.sub_self, List.getElem?_cons_zero]
  · rw [split, List.getElem?_append_right (Nat.le_of_lt above)] at found
    obtain ⟨k, offset⟩ : ∃ k, j - before.length = k + 1 := Nat.exists_eq_succ_of_ne_zero (by omega)
    rw [offset, List.getElem?_cons_succ] at found
    exact Bool.eq_false_iff.mpr (none_ w' (List.mem_of_getElem? found))

private theorem isTopmost_unique {windowList : List Window} {i j : ℕ} (first : IsTopmost windowList i x y)
    (second : IsTopmost windowList j x y) : i = j := by
  obtain ⟨v, foundI, insideI, aboveI⟩ := first
  obtain ⟨w, foundJ, insideJ, aboveJ⟩ := second
  rcases Nat.lt_trichotomy i j with below | same | above
  · exact absurd (insideJ.symm.trans (aboveI j w below foundJ)) (by decide)
  · exact same
  · exact absurd (insideI.symm.trans (aboveJ i v above foundI)) (by decide)

/-- On the screen, a window writes the pixels of its rectangle that are damaged. -/
private theorem stores_window_iff (back : Checked.Addressed wm.backbuffer) (layers : wm.Layers writes)
    (onScreen : wm.OnScreen column row) :
    Checked.Stores (writes.map (Checked.layerCell wm.backbuffer)) (.window i) (column + row * wm.backbuffer.pitch) ↔
      ∃ w, wm.windowList[i]? = some w ∧ rectContains w.scrRect column row = true ∧ Damaged wm w column row := by
  rw [Checked.stores_iff back layers (Int.ofNat_lt.mp onScreen.2.1.2), layers.window]
  refine exists_congr fun w => and_congr_right fun _ => ?_
  constructor
  · rintro ⟨damaged, inside, _⟩
    exact ⟨inside, damaged⟩
  · rintro ⟨inside, damaged⟩
    exact ⟨damaged, inside, onScreen.2⟩

/-- The cells that `gui_draw_all` writes are those of the layers. -/
private theorem guiDrawAll_cells (back : Checked.Addressed wm.backbuffer) (front : Checked.Addressed (graphicFromFb fi))
    (ran : Checked.guiDrawAll font fi wm = .ok (some drawn)) :
    ∃ writes, drawn.writes = writes.map (Checked.layerCell wm.backbuffer) ∧ wm.Layers writes := by
  obtain ⟨ideal, ranIdeal, same, _⟩ := Checked.guiDrawAll_value back front ran
  exact ⟨ideal.writes, same, guiDrawAll_layers ranIdeal⟩

/-- With small coordinates, drawing has a behaviour. Whenever it has one, the topmost window keeps a pixel of the screen
exactly if it is damaged there itself whenever a window under it is. -/
theorem topmost_last_iff (font : ℕ → BitVec 8) (fi : FbInfo) (wm : Winman) (back : Checked.Addressed wm.backbuffer)
    (front : Checked.Addressed (graphicFromFb fi)) :
    (wm.Small fi → wm.painting = false → ∃ drawn, Checked.guiDrawAll font fi wm = .ok (some drawn)) ∧
      ∀ drawn, Checked.guiDrawAll font fi wm = .ok (some drawn) → ∀ column row : ℕ, wm.OnScreen column row →
        (TopmostLast wm drawn column row ↔ TopmostDamaged wm column row) := by
  refine ⟨Checked.guiDrawAll_some font, fun drawn ran column row onScreen => ?_⟩
  obtain ⟨writes, cells, layers⟩ := guiDrawAll_cells back front ran
  have ordered := Checked.ordered_cells layers
  rw [TopmostLast, cells]
  constructor
  · intro last w member inside damaged i top found topmost
    obtain ⟨j, place⟩ := List.mem_iff_getElem?.mp member
    obtain ⟨k, lastPainter⟩ :=
      exists_lastPainter ((stores_window_iff back layers onScreen).mpr ⟨w, place, inside, damaged⟩)
    obtain rfl := isTopmost_unique topmost (last k lastPainter)
    obtain ⟨top', found', _, damaged'⟩ :=
      (stores_window_iff back layers onScreen).mp ((isLastPainter_iff ordered).mp lastPainter).1
    rwa [Option.some.inj (found.symm.trans found')]
  · intro topDamaged i lastPainter
    obtain ⟨stored, highest⟩ := (isLastPainter_iff ordered).mp lastPainter
    obtain ⟨w, found, inside, damaged⟩ := (stores_window_iff back layers onScreen).mp stored
    obtain ⟨k, topmost⟩ := exists_topmost (List.mem_of_getElem? found) inside
    obtain ⟨top, foundTop, insideTop, above⟩ := topmost
    have storedTop := (stores_window_iff back layers onScreen).mpr ⟨top, foundTop, insideTop,
      topDamaged w (List.mem_of_getElem? found) inside damaged k top foundTop ⟨top, foundTop, insideTop, above⟩⟩
    have same : k = i := by
      rcases Nat.lt_trichotomy k i with below | same | higher
      · exact absurd (inside.symm.trans (above i w below found)) (by decide)
      · exact same
      · exact absurd storedTop (highest k higher)
    subst same
    exact ⟨top, foundTop, insideTop, above⟩

/-- Two windows, of which the lower one is damaged where the upper one lies on it. -/
def overlapping : Winman where
  backbuffer := ⟨100, 100, 100, ⟨0, 0, 100, 100⟩, ⟨0, 0, 100, 100⟩⟩
  painting := false
  sizingRect := ⟨0, 0, 0, 0⟩
  sizing := false
  windowList := [⟨[], ⟨0, 0, 50, 50⟩, 0, ⟨0, 0, 50, 50⟩, none⟩, ⟨[], ⟨10, 10, 30, 30⟩, 0, ⟨0, 0, 0, 0⟩, none⟩]
  scrSize := ⟨100, 100⟩
  mousePos := ⟨5, 5⟩
  globalInvalidated := ⟨0, 0, 0, 0⟩
  bgColor := 0

private theorem overlapping_onScreen : overlapping.OnScreen (20 : ℕ) (20 : ℕ) ∧ overlapping.OnScreen (5 : ℕ)
    (5 : ℕ) := by
  refine ⟨⟨by decide, ?_⟩, ⟨by decide, ?_⟩⟩ <;>
  · rw [Graphic.Surface, overlapping]
    decide

private theorem overlapping_back : Checked.Addressed overlapping.backbuffer :=
  ⟨⟨by decide, by decide⟩, by decide, by decide⟩

private theorem overlapping_front : Checked.Addressed (graphicFromFb ⟨400, 100, 100⟩) :=
  ⟨⟨by decide, by decide⟩, by decide, by decide⟩

private theorem overlapping_small : overlapping.Small ⟨400, 100, 100⟩ where
  windowList w member := by
    rcases List.mem_pair.mp member with rfl | rfl
    · exact ⟨within_iff.mpr (by decide), within_iff.mpr (by decide), by decide, fun _ called => by cases called⟩
    · exact ⟨within_iff.mpr (by decide), within_iff.mpr (by decide), by decide, fun _ called => by cases called⟩
  globalInvalidated := within_iff.mpr (by decide)
  sizingRect := within_iff.mpr (by decide)
  mousePos := by decide
  scrSize := within_iff.mpr (by decide)
  backbuffer := by decide
  frontbuffer := by decide

theorem topmost_last_iff_alone : ∃ drawn, Checked.guiDrawAll (fun _ => 0) ⟨400, 100, 100⟩ overlapping = .ok (some drawn) ∧
    overlapping.OnScreen (5 : ℕ) (5 : ℕ) ∧ TopmostLast overlapping drawn 5 5 := by
  obtain ⟨runs, exact_⟩ := topmost_last_iff (fun _ => 0) ⟨400, 100, 100⟩ overlapping overlapping_back overlapping_front
  obtain ⟨drawn, ran⟩ := runs overlapping_small rfl
  refine ⟨drawn, ran, overlapping_onScreen.2, (exact_ drawn ran 5 5 overlapping_onScreen.2).mpr ?_⟩
  intro w member inside damaged i top found topmost
  obtain ⟨top', found', inside', _⟩ := topmost
  match i with
  | 0 =>
    cases found
    rw [Damaged]
    decide
  | 1 =>
    cases found'
    exact absurd inside' (by decide)
  | i + 2 => cases found

/-- The lower window is painted over the upper one. -/
theorem lower_covers_upper : ∃ drawn, Checked.guiDrawAll (fun _ => 0) ⟨400, 100, 100⟩ overlapping = .ok (some drawn) ∧
    overlapping.OnScreen (20 : ℕ) (20 : ℕ) ∧ ¬ TopmostLast overlapping drawn 20 20 := by
  obtain ⟨drawn, ran⟩ := Checked.guiDrawAll_some (fun _ => 0) overlapping_small rfl
  obtain ⟨writes, cells, layers⟩ := guiDrawAll_cells overlapping_back overlapping_front ran
  have window (j : ℕ) := @stores_window_iff overlapping writes j 20 20 overlapping_back layers overlapping_onScreen.1
  refine ⟨drawn, ran, overlapping_onScreen.1, fun last => ?_⟩
  rw [TopmostLast, cells] at last
  have lower : IsLastPainter (writes.map (Checked.layerCell overlapping.backbuffer)) 0
      (20 + 20 * overlapping.backbuffer.pitch) := by
    refine (isLastPainter_iff (Checked.ordered_cells layers)).mpr ⟨?_, fun j above stored => ?_⟩
    · refine (window 0).mpr ⟨_, rfl, by decide, ?_⟩
      rw [Damaged]
      decide
    · obtain ⟨w, found, _, damaged⟩ := (window j).mp stored
      match j with
      | 1 =>
        cases found
        exact absurd damaged (by rw [Damaged]; decide)
      | j + 2 => cases found
  obtain ⟨_, _, _, above⟩ := last 0 lower
  exact absurd (above 1 _ Nat.zero_lt_one rfl) (by decide)

/-! ## Overlays -/

/-- The pixel's cell is written by the background or by a window. -/
def Repainted (cells : List (Layer × Checked.Cell)) (index : ℕ) : Prop :=
  Checked.Stores cells .background index ∨ ∃ i, Checked.Stores cells (.window i) index

/-- The layer is drawn on the cell after all writes of the background and of the windows. -/
def DrawnOnTop (cells : List (Layer × Checked.Cell)) (layer : Layer) (index : ℕ) : Prop :=
  ∃ before after, cells = before ++ after ∧ Checked.Stores after layer index ∧
    ∀ p ∈ after, p.1 ≠ .background ∧ ∀ i, p.1 ≠ .window i

/-- Where the screen is repainted under an overlay, the overlay is drawn again. -/
def OverlaysKept (wm : Winman) (drawn : Checked.Drawn) (column row : ℕ) : Prop :=
  Repainted drawn.writes (column + row * wm.backbuffer.pitch) →
    (wm.UnderCursor column row → DrawnOnTop drawn.writes .cursor (column + row * wm.backbuffer.pitch)) ∧
    (wm.UnderOutline column row → DrawnOnTop drawn.writes .outline (column + row * wm.backbuffer.pitch))

/-- Where a window is damaged under an overlay, the pixel lies in the global damage. -/
def OverlaysDamaged (wm : Winman) (x y : ℤ) : Prop :=
  ∀ w ∈ wm.windowList, rectContains w.scrRect x y = true → Damaged wm w x y → wm.UnderCursor x y ∨ wm.UnderOutline x y →
    rectContains wm.globalInvalidated x y = true

/-- An overlay is drawn on top wherever it is drawn. -/
private theorem drawnOnTop_iff {layer : Layer} (ordered : cells.Pairwise fun p q => p.1.Under q.1)
    (overlay : layer = .outline ∨ layer = .cursor) :
    DrawnOnTop cells layer index ↔ Checked.Stores cells layer index := by
  constructor
  · rintro ⟨before, after, rfl, stored, _⟩
    exact Checked.stores_append.mpr (.inr stored)
  · rintro ⟨c, member, place⟩
    obtain ⟨before, after, split⟩ := List.append_of_mem member
    refine ⟨before, (layer, c) :: after, split, ⟨c, List.mem_cons_self, place⟩, fun p inside => ?_⟩
    have under : layer.Under p.1 := by
      rcases List.mem_cons.mp inside with rfl | later
      · rcases overlay with rfl | rfl <;> exact trivial
      · rw [split, List.pairwise_append, List.pairwise_cons] at ordered
        exact ordered.2.1.1 p later
    constructor
    · intro isBackground
      rw [isBackground] at under
      rcases overlay with rfl | rfl <;> exact under
    · intro i isWindow
      rw [isWindow] at under
      rcases overlay with rfl | rfl <;> exact under

/-- What the overlays write on the screen. -/
private theorem drawnOnTop_overlay (back : Checked.Addressed wm.backbuffer) (layers : wm.Layers writes)
    (onScreen : wm.OnScreen column row) :
    (DrawnOnTop (writes.map (Checked.layerCell wm.backbuffer)) .cursor (column + row * wm.backbuffer.pitch) ↔
      wm.Refreshed column row ∧ wm.UnderCursor column row) ∧
    (DrawnOnTop (writes.map (Checked.layerCell wm.backbuffer)) .outline (column + row * wm.backbuffer.pitch) ↔
      wm.Refreshed column row ∧ wm.UnderOutline column row) := by
  have left : column < wm.backbuffer.width := Int.ofNat_lt.mp onScreen.2.1.2
  have ordered := Checked.ordered_cells layers
  rw [drawnOnTop_iff ordered (.inr rfl), drawnOnTop_iff ordered (.inl rfl), Checked.stores_iff back layers left,
    Checked.stores_iff back layers left]
  exact ⟨layers.cursor column row, layers.outline column row⟩

/-- With small coordinates, drawing has a behaviour. Whenever it has one, the overlays keep a pixel of the screen exactly
if it lies in the global damage whenever it lies in the damage of a window. -/
theorem overlays_kept_iff (font : ℕ → BitVec 8) (fi : FbInfo) (wm : Winman) (back : Checked.Addressed wm.backbuffer)
    (front : Checked.Addressed (graphicFromFb fi)) :
    (wm.Small fi → wm.painting = false → ∃ drawn, Checked.guiDrawAll font fi wm = .ok (some drawn)) ∧
      ∀ drawn, Checked.guiDrawAll font fi wm = .ok (some drawn) → ∀ column row : ℕ, wm.OnScreen column row →
        (OverlaysKept wm drawn column row ↔ OverlaysDamaged wm column row) := by
  refine ⟨Checked.guiDrawAll_some font, fun drawn ran column row onScreen => ?_⟩
  obtain ⟨writes, cells, layers⟩ := guiDrawAll_cells back front ran
  obtain ⟨cursor, outline⟩ := drawnOnTop_overlay back layers onScreen
  rw [OverlaysKept, cells, cursor, outline]
  constructor
  · intro kept w member inside damaged under
    obtain ⟨j, place⟩ := List.mem_iff_getElem?.mp member
    obtain ⟨keptCursor, keptOutline⟩ :=
      kept (.inr ⟨j, (stores_window_iff back layers onScreen).mpr ⟨w, place, inside, damaged⟩⟩)
    cases under with
    | inl underCursor => exact (keptCursor underCursor).1.1
    | inr underOutline => exact (keptOutline underOutline).1.1
  · intro damagedToo repainted
    have refreshed (under : wm.UnderCursor column row ∨ wm.UnderOutline column row) : wm.Refreshed column row := by
      cases repainted with
      | inl background =>
        rw [Checked.stores_iff back layers (Int.ofNat_lt.mp onScreen.2.1.2)] at background
        exact (layers.background column row).mp background
      | inr window =>
        obtain ⟨i, stored⟩ := window
        obtain ⟨w, found, inside, damaged⟩ := (stores_window_iff back layers onScreen).mp stored
        exact ⟨damagedToo w (List.mem_of_getElem? found) inside damaged under, onScreen⟩
    exact ⟨fun under => ⟨refreshed (.inl under), under⟩, fun under => ⟨refreshed (.inr under), under⟩⟩

theorem overlays_kept_iff_outside :
    ∃ drawn, Checked.guiDrawAll (fun _ => 0) ⟨400, 100, 100⟩ overlapping = .ok (some drawn) ∧
      overlapping.OnScreen (20 : ℕ) (20 : ℕ) ∧ OverlaysKept overlapping drawn 20 20 := by
  obtain ⟨runs, exact_⟩ := overlays_kept_iff (fun _ => 0) ⟨400, 100, 100⟩ overlapping overlapping_back overlapping_front
  obtain ⟨drawn, ran⟩ := runs overlapping_small rfl
  refine ⟨drawn, ran, overlapping_onScreen.1, (exact_ drawn ran 20 20 overlapping_onScreen.1).mpr ?_⟩
  rintro w _ _ _ (⟨xi, column, _, _, _, place, _⟩ | ⟨sizing, _⟩)
  · have bound : xi < 13 := column
    have here : (20 : ℤ) = 5 + xi := place
    omega
  · cases sizing

/-- A window paints over the tip of the cursor, which is not drawn again. -/
theorem window_erases_cursor : ∃ drawn, Checked.guiDrawAll (fun _ => 0) ⟨400, 100, 100⟩ overlapping = .ok (some drawn) ∧
    overlapping.OnScreen (5 : ℕ) (5 : ℕ) ∧ ¬ OverlaysKept overlapping drawn 5 5 := by
  obtain ⟨drawn, ran⟩ := Checked.guiDrawAll_some (fun _ => 0) overlapping_small rfl
  obtain ⟨writes, cells, layers⟩ := guiDrawAll_cells overlapping_back overlapping_front ran
  obtain ⟨cursor, _⟩ := drawnOnTop_overlay overlapping_back layers overlapping_onScreen.2
  refine ⟨drawn, ran, overlapping_onScreen.2, fun kept => ?_⟩
  rw [OverlaysKept, cells] at kept
  have painted := (@stores_window_iff overlapping writes 0 5 5 overlapping_back layers overlapping_onScreen.2).mpr
    ⟨_, rfl, by decide, by rw [Damaged]; decide⟩
  have tip : overlapping.UnderCursor (5 : ℕ) (5 : ℕ) := ⟨0, by decide, 0, by decide, by decide, rfl, rfl⟩
  have refreshed := (cursor.mp ((kept (.inr ⟨0, painted⟩)).1 tip)).1
  exact absurd refreshed.1 (by decide)

end Order

end RubberOS.Soundness.Repaint
