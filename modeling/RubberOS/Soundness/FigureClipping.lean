import RubberOS.Proofs.CheckedGraphic

/-! # Clipped figures

Whatever offset and clipping rectangles were set, a figure is drawn into cells of the surface, and the clipping
rectangle selects among the pixels that the same call draws without it.
-/

namespace RubberOS.Soundness.FigureClipping

open Model Model.Gui

/-! ## Settings -/

/-- The part of the offset rectangle that lies on the surface, in the graphic's own coordinates. -/
def visible (g : Graphic) : Rect where
  x := -min 0 g.offset.x
  y := -min 0 g.offset.y
  width := max (min g.offset.width (Checked.toInt g.width - g.offset.x) - -min 0 g.offset.x) 0
  height := max (min g.offset.height (Checked.toInt g.height - g.offset.y) - -min 0 g.offset.y) 0

/-- A graphic of a surface of this pitch and size that clips to visible pixels. -/
structure Configured (pitch width height : ℕ) (g : Graphic) : Prop where
  pitch : g.pitch = pitch
  width : g.width = width
  height : g.height = height
  clipping : ∀ x y, rectContains g.clipping x y = true → rectContains (visible g) x y = true

section Settings

variable {g after : Graphic} {x y : ℤ} {pitch width height : ℕ}

private theorem toInt_le (n : ℕ) : Checked.toInt n ≤ n := by
  have small : u32 n ≤ n := Nat.mod_le n _
  rw [Checked.toInt]
  split
  · exact Int.ofNat_le.mpr small
  · omega

private theorem visible_onSurface (shown : rectContains (visible g) x y = true) :
    (0 ≤ x + g.offset.x ∧ x + g.offset.x < g.width) ∧ 0 ≤ y + g.offset.y ∧ y + g.offset.y < g.height := by
  have width := toInt_le g.width
  have height := toInt_le g.height
  rw [rectContains_iff, visible] at shown
  dsimp only at shown
  generalize Checked.toInt g.width = right at *
  generalize Checked.toInt g.height = bottom at *
  omega

private theorem graphicSetClipping_value {rt : Option Rect} (ran : Checked.graphicSetClipping g rt = some after) :
    after = { g with clipping := (rt.map (rectIntersect · (visible g))).getD (visible g) } := by
  simp only [Checked.graphicSetClipping, Option.bind_eq_bind, Option.bind_eq_some_iff, Checked.int_eq_some] at ran
  obtain ⟨_, ⟨_, rfl⟩, _, ⟨_, rfl⟩, _, ⟨_, rfl⟩, _, ⟨_, rfl⟩, _, ⟨_, rfl⟩, _, ⟨_, rfl⟩, ran⟩ := ran
  cases rt with
  | none =>
    cases ran
    rfl
  | some rt =>
    simp only [Option.bind_eq_some_iff] at ran
    obtain ⟨clipping, intersection, ran⟩ := ran
    cases ran
    rw [Checked.rectIntersect_value intersection]
    rfl

private theorem graphicSetClipping_configured {rt : Option Rect} (ran : Checked.graphicSetClipping g rt = some after) :
    Configured g.pitch g.width g.height after := by
  rw [graphicSetClipping_value ran]
  refine ⟨rfl, rfl, rfl, fun x y shown => ?_⟩
  cases rt with
  | none => exact shown
  | some rt => exact (rectContains_intersect.mp shown).2

/-- A rectangle at the origin is visible as a whole. -/
private theorem origin_visible {right bottom : ℤ} (shown : rectContains ⟨0, 0, right, bottom⟩ x y = true) :
    rectContains ⟨-min 0 0, -min 0 0, max (min right (right - 0) - -min 0 0) 0, max (min bottom (bottom - 0) - -min 0 0) 0⟩
      x y = true := by
  rw [rectContains_iff] at shown ⊢
  dsimp only at shown ⊢
  omega

private theorem surface_configured (pitch width height : ℕ) :
    Configured pitch width height (Checked.surface pitch width height) :=
  ⟨rfl, rfl, rfl, fun _ _ shown => origin_visible shown⟩

/-- Every setting keeps the graphic on its surface. -/
private theorem Configured.apply {setting : Checked.Setting} (configured : Configured pitch width height g)
    (ran : setting.apply g = some after) : Configured pitch width height after := by
  obtain ⟨rfl, rfl, rfl, _⟩ := configured
  cases setting with
  | offset rt =>
    have ran : Checked.graphicSetClipping { g with offset := rt.getD ⟨0, 0, Checked.toInt g.width, Checked.toInt g.height⟩ } none =
      some after := ran
    have kept := graphicSetClipping_configured ran
    exact kept
  | clipping rt => exact graphicSetClipping_configured ran

private theorem Configured.run {settings : List Checked.Setting} (configured : Configured pitch width height g)
    (ran : settings.foldlM Checked.Setting.apply g = some after) : Configured pitch width height after := by
  induction settings generalizing g with
  | nil =>
    cases ran
    exact configured
  | cons setting rest ih =>
    simp only [List.foldlM_cons, Option.bind_eq_bind, Option.bind_eq_some_iff] at ran
    obtain ⟨next, first, ran⟩ := ran
    exact ih (configured.apply first) ran

end Settings

/-! ## Figures -/

/-- The writes go to pixels of the surface. -/
def OnSurface (g : Graphic) (writes : List Write) : Prop := ∀ w ∈ writes, g.Surface w.column w.row

section Figures

variable {font : ℕ → BitVec 8} {g : Graphic} {base : Rect} {figure : Checked.Figure} {writes all : List Write}
  {pitch width height : ℕ}

private theorem clips_figure (wider : ∀ x y, rectContains g.clipping x y = true → rectContains base x y = true) :
    Clips g (figure.call.exec font g) (figure.call.exec font { g with clipping := base }) := by
  cases figure with
  | pixel x y color => exact clips_pixel wider x y color
  | fillRect x y width height color => exact clips_fillRect wider x y width height _
  | fillRectXor x y width height color => exact clips_fillRect wider x y width height _
  | drawRect x y width height thickness color => exact clips_drawRect wider x y width height thickness _
  | drawRectXor x y width height thickness color => exact clips_drawRect wider x y width height thickness _
  | char x y c color => exact clips_char wider font x y c color

private theorem Configured.onSurface (configured : Configured pitch width height g) (call : DrawCall) :
    OnSurface g (call.exec font g) := by
  intro w member
  have shown : g.Inside g.clipping w.column w.row := clipped_call font g call _ _ ⟨w, member, rfl, rfl⟩
  have inside := visible_onSurface (configured.clipping _ _ shown)
  rwa [Int.sub_add_cancel, Int.sub_add_cancel] at inside

section Pixel

variable {column : ℕ} (row : ℕ) (inside : OnSurface g writes) (left : column < g.width) (wide : g.width ≤ g.pitch)
  (indexed : g.pitch * g.height ≤ 2 ^ 32)

include inside left wide indexed

private theorem touched_iff : (∃ c ∈ writes.map (Checked.writeCell g), c.index = column + row * g.pitch) ↔
    writesAt writes column row ≠ [] :=
  (Checked.stored_iff row inside left wide indexed).trans writesAt_ne_nil.symm

private theorem store_pixel (framebuffer : ℕ → Color) :
    (writes.map (Checked.writeCell g)).foldl Checked.Cell.store framebuffer (column + row * g.pitch) =
      (writesAt writes column row).foldl (fun color w => w.paint.apply color) (framebuffer (column + row * g.pitch)) := by
  induction writes generalizing framebuffer with
  | nil => rfl
  | cons w rest ih =>
    have index : (Checked.writeCell g w).index = column + row * g.pitch ↔ w.column = column ∧ w.row = row :=
      Checked.cellIndex_iff (inside w List.mem_cons_self) left wide indexed
    rw [List.map_cons, List.foldl_cons, ih fun w member => inside w (List.mem_cons_of_mem _ member), writesAt, writesAt,
      List.filter_cons, Checked.Cell.store, Function.update_apply]
    by_cases here : w.column = column ∧ w.row = row
    · rw [if_pos (index.mpr here).symm, if_pos (decide_eq_true here), index.mpr here]
      rfl
    · rw [if_neg fun same => here (index.mp same.symm), if_neg (by rwa [decide_eq_true_eq])]

end Pixel

/-- After any settings, a figure is drawn into cells of the surface only, and it changes the pixels of the clipping
rectangle as the same call does with the clipping opened. -/
theorem figures_clipped {settings : List Checked.Setting} {cells : List Checked.Cell} (wide : width ≤ pitch)
    (indexed : pitch * height ≤ 2 ^ 32)
    (set : settings.foldlM Checked.Setting.apply (Checked.surface pitch width height) = some g)
    (ran : figure.exec font g = some cells) :
    (∀ c ∈ cells, ∃ column < width, ∃ row < height, c.index = column + row * pitch) ∧
      (∀ opened allCells, Checked.graphicSetClipping g none = some opened → figure.exec font opened = some allCells →
        ∀ column < width, ∀ row < height,
          ((∃ c ∈ cells, c.index = column + row * pitch) ↔
            g.Inside g.clipping column row ∧ ∃ c ∈ allCells, c.index = column + row * pitch) ∧
          ∀ framebuffer, cells.foldl Checked.Cell.store framebuffer (column + row * pitch) =
            if rectContains g.clipping (column - g.offset.x) (row - g.offset.y)
            then allCells.foldl Checked.Cell.store framebuffer (column + row * pitch)
            else framebuffer (column + row * pitch)) := by
  have configured := (surface_configured pitch width height).run set
  have inside : OnSurface g (figure.call.exec font g) := configured.onSurface figure.call
  have selected : Clips g (figure.call.exec font g) (figure.call.exec font { g with clipping := visible g }) :=
    clips_figure configured.clipping
  obtain ⟨rfl, rfl, rfl, _⟩ := configured
  rw [Checked.exec_value ran]
  refine ⟨fun c stored => ?_, fun opened allCells opening all column left row top => ?_⟩
  · obtain ⟨w, member, rfl⟩ := List.mem_map.mp stored
    obtain ⟨⟨first, last⟩, upper, lower⟩ := inside w member
    obtain ⟨column, onColumn⟩ := Int.eq_ofNat_of_zero_le first
    obtain ⟨row, onRow⟩ := Int.eq_ofNat_of_zero_le upper
    have left : column < g.width := by omega
    have top : row < g.height := by omega
    refine ⟨column, left, row, top, ?_⟩
    rw [Checked.writeCell, Checked.cell, onColumn, onRow]
    exact Checked.cellIndex_eq (Nat.lt_of_lt_of_le left wide) top indexed
  · have whole := graphicSetClipping_configured opening
    have openedEq : opened = { g with clipping := visible g } := graphicSetClipping_value opening
    subst openedEq
    have allInside : OnSurface g (figure.call.exec font { g with clipping := visible g }) :=
      whole.onSurface figure.call
    have same := selected column row
    have touched := touched_iff row inside left wide indexed
    have allTouched := touched_iff row allInside left wide indexed
    rw [same] at touched
    rw [Checked.exec_value all]
    refine ⟨touched.trans ?_, fun framebuffer => ?_⟩
    · refine Iff.trans ?_ (and_congr_right' allTouched.symm)
      rw [Graphic.Inside, ite_ne_right_iff]
    · have stored := store_pixel row inside left wide indexed framebuffer
      have allStored := store_pixel row allInside left wide indexed framebuffer
      rw [same] at stored
      rw [stored]
      split
      · exact allStored.symm
      · rfl

/-- The right edge of a wide rectangle leaves `int`, so the call has no behaviour. On a surface of more than `2 ^ 32` cells,
a pixel of the clipping rectangle is drawn into the cell of one outside it. -/
theorem figures_wrapped : Checked.graphicFillRect (Checked.surface 8 5 4) 10 10 (2 ^ 31 - 1) 5 0xffffff = none ∧
    ∃ g, Checked.graphicSetClipping (Checked.surface 65536 65536 65537) (some ⟨0, 65536, 1, 1⟩) = some g ∧
      Checked.graphicDrawPixel g 0 65536 0xffffff = some [⟨0, .set 0xffffff⟩] ∧ ¬ g.Inside g.clipping 0 0 := by
  refine ⟨by decide, ⟨65536, 65536, 65537, ⟨0, 0, 65536, 65537⟩, ⟨0, 65536, 1, 1⟩⟩, by decide, by decide, ?_⟩
  rw [Graphic.Inside]
  decide

/-- A graphic that begins left of its surface and shows two columns and rows. -/
def beyondLeft : Graphic := ⟨8, 5, 4, ⟨-2, 1, 6, 6⟩, ⟨2, 0, 2, 2⟩⟩

/-- The cells of these indices are inverted. -/
def inverted (indices : List ℕ) : List Checked.Cell := indices.map fun index => ⟨index, .xor 0xffffff⟩

theorem figures_clipped_beyondLeft :
    (∀ c ∈ inverted [8, 9, 16, 17], ∃ column < 5, ∃ row < 4, c.index = column + row * 8) ∧
      ∀ column < 5, ∀ row < 4,
        ((∃ c ∈ inverted [8, 9, 16, 17], c.index = column + row * 8) ↔
          beyondLeft.Inside beyondLeft.clipping column row ∧
            ∃ c ∈ inverted [8, 9, 10, 11, 16, 17, 18, 19, 24, 25, 26, 27], c.index = column + row * 8) ∧
        ∀ framebuffer, (inverted [8, 9, 16, 17]).foldl Checked.Cell.store framebuffer (column + row * 8) =
          if rectContains beyondLeft.clipping (column - beyondLeft.offset.x) (row - beyondLeft.offset.y)
          then (inverted [8, 9, 10, 11, 16, 17, 18, 19, 24, 25, 26, 27]).foldl Checked.Cell.store framebuffer (column + row * 8)
          else framebuffer (column + row * 8) := by
  have set : [.offset (some ⟨-2, 1, 6, 6⟩), .clipping (some ⟨1, 0, 3, 2⟩)].foldlM Checked.Setting.apply (Checked.surface 8 5 4) =
      some beyondLeft := by decide
  have ran : (Checked.Figure.fillRectXor 0 0 9 9 0xffffff).exec (fun _ => 0) beyondLeft = some (inverted [8, 9, 16, 17]) := by
    decide
  obtain ⟨inside, selected⟩ := figures_clipped (by decide) (by decide) set ran
  exact ⟨inside, selected { beyondLeft with clipping := ⟨2, 0, 4, 3⟩ } _ (by decide) (by decide)⟩

end Figures

end RubberOS.Soundness.FigureClipping
