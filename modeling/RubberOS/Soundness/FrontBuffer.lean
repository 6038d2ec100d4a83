import RubberOS.Proofs.CheckedBounds

/-! # The copied rectangle holds every change of the backbuffer

A bounding box contains both of its rectangles, empty ones by having no pixels. So the rectangle that
`gui_draw_all` collects contains the global damage and every window's damage, which is all it draws in.
The copy reads the pixels it writes, and both framebuffers have the size of the screen.
-/

namespace RubberOS.Soundness.FrontBuffer

open Model Model.Gui

/-! ## The collected rectangle -/

/-- The rectangle `inv` after the windows of this list. -/
def collected (gi : Rect) (windowList : List Window) (inv : Rect) : Rect :=
  windowList.foldl (fun inv w => rectUnion inv (winToScr w (w.damage gi))) inv

section Collected

variable {gi inv : Rect} {windowList : List Window} {w : Window} {x y : ℤ}

private theorem contains_collected (inside : rectContains inv x y = true) :
    rectContains (collected gi windowList inv) x y = true := by
  induction windowList generalizing inv with
  | nil => exact inside
  | cons first rest ih =>
    apply ih
    exact rectContains_union_left _ inside

private theorem contains_collected_window (member : w ∈ windowList)
    (inside : rectContains (winToScr w (w.damage gi)) x y = true) :
    rectContains (collected gi windowList inv) x y = true := by
  induction windowList generalizing inv with
  | nil => cases member
  | cons first rest ih =>
    cases member with
    | head =>
      exact @contains_collected gi (rectUnion inv (winToScr w (w.damage gi))) rest x y
        (rectContains_union_right _ inside)
    | tail _ later => exact ih later

/-- The loop over the windows collects this rectangle. -/
private theorem drawWindows_collected (font : ℕ → BitVec 8) (gi : Rect) (windowList : List Window)
    (index : ℕ) (g : Graphic)
    (inv : Rect) : (drawWindows font gi index g inv windowList).2.2.1 = collected gi windowList inv := by
  induction windowList generalizing index g inv with
  | nil => rfl
  | cons w rest ih =>
    rw [drawWindows]
    exact ih _ _ _

end Collected

/-! ## Stores to a framebuffer -/

section Stores

/-- Some of the copies goes to this pixel. -/
def Reaches (copies : List Copy) (x y : ℤ) : Prop := ∃ c ∈ copies, c.toColumn = x ∧ c.toRow = y

variable {cells : List Checked.Cell} {copies : List Checked.CellCopy} {index target place : ℕ}

/-- A cell that no write goes to keeps its colour. -/
private theorem stores_untouched (framebuffer : ℕ → Color) (untouched : ∀ c ∈ cells, c.index ≠ index) :
    cells.foldl Checked.Cell.store framebuffer index = framebuffer index := by
  induction cells generalizing framebuffer with
  | nil => rfl
  | cons c rest ih =>
    rw [List.foldl_cons, ih _ fun c' member => untouched c' (List.mem_cons_of_mem _ member), Checked.Cell.store,
      Function.update_of_ne (untouched c List.mem_cons_self).symm]

/-- Copies to one cell from one place make the cell equal to that place. -/
private theorem copies_store (source framebuffer : ℕ → Color)
    (same : ∀ c ∈ copies, c.target = target → c.source = place)
    (agrees : (∃ c ∈ copies, c.target = target) ∨ framebuffer target = source place) :
    copies.foldl (Checked.CellCopy.store source) framebuffer target = source place := by
  induction copies generalizing framebuffer with
  | nil =>
    rcases agrees with ⟨c, member, _⟩ | agrees
    · cases member
    · exact agrees
  | cons c rest ih =>
    apply ih
    · intro c' member
      exact same c' (List.mem_cons_of_mem c member)
    · by_cases here : c.target = target
      · right
        rw [Checked.CellCopy.store, here, Function.update_self, same c List.mem_cons_self here]
      · rw [Checked.CellCopy.store, Function.update_of_ne (Ne.symm here)]
        rcases agrees with ⟨c', member, there⟩ | agrees
        · rcases List.mem_cons.mp member with rfl | later
          · exact absurd there here
          · exact .inl ⟨c', later, there⟩
        · exact .inr agrees

end Stores

/-! ## The copy -/

section Copying

variable {fi : FbInfo} {g : Graphic} {inv : Rect} {x y : ℤ}

/-- The copy of a rectangle between graphics on whole framebuffers: each copy stays in place, and the
pixels of the frontbuffer in the rectangle are reached. -/
private theorem bitblt_whole (origin : g.offset.x = 0 ∧ g.offset.y = 0) :
    (∀ c ∈ graphicBitblt (graphicFromFb fi) inv.x inv.y inv.width inv.height g inv.x inv.y,
      (c.fromColumn = c.toColumn ∧ c.fromRow = c.toRow) ∧ (graphicFromFb fi).Surface c.toColumn c.toRow) ∧
    ((graphicFromFb fi).Surface x y → rectContains inv x y = true →
      Reaches (graphicBitblt (graphicFromFb fi) inv.x inv.y inv.width inv.height g inv.x inv.y) x y) := by
  simp only [graphicBitblt, graphicFromFb, Reaches, Graphic.Surface, origin.1, origin.2,
    List.mem_flatMap, List.mem_map, List.mem_range]
  have clipped := @rectContains_intersect ⟨0, 0, fi.width, fi.height⟩ inv
  generalize rectIntersect ⟨0, 0, fi.width, fi.height⟩ inv = dst at clipped
  constructor
  · rintro c ⟨yi, row, xi, column, rfl⟩
    have inside : rectContains dst (dst.x + xi) (dst.y + yi) = true := by
      rw [rectContains_iff]
      omega
    have onScreen := rectContains_iff.mp (clipped.mp inside).1
    dsimp only at onScreen ⊢
    omega
  · intro surface inside
    have both : rectContains dst x y = true := by
      rw [clipped, rectContains_iff]
      dsimp only
      exact ⟨by omega, inside⟩
    rw [rectContains_iff] at inside both
    refine ⟨_, ⟨(y - dst.y).toNat, by omega, (x - dst.x).toNat, by omega, rfl⟩, ?_, ?_⟩
    · dsimp only
      omega
    · dsimp only
      omega

end Copying

/-! ## The frame -/

/-- The backbuffer and the window manager's screen have the size of the framebuffer. -/
structure Fits (fi : FbInfo) (wm : Winman) : Prop where
  width : wm.backbuffer.width = fi.width
  height : wm.backbuffer.height = fi.height
  scrSize : wm.scrSize = ⟨fi.width, fi.height⟩

/-- The frontbuffer shows what is in the backbuffer. -/
def Agree (fi : FbInfo) (wm : Winman) (front back : ℕ → Color) : Prop :=
  ∀ column < fi.width, ∀ row < fi.height,
    front (column + row * (fi.pitch / 4)) = back (column + row * wm.backbuffer.pitch)

/-- `gui_draw_all` copies this rectangle, and changes the backbuffer in it only. -/
structure CopiesChanges (fi : FbInfo) (wm : Winman) (drawn : Checked.Drawn) (inv : Rect) : Prop where
  blits : Checked.graphicBitblt (Checked.surface (fi.pitch / 4) fi.width fi.height) inv.x inv.y inv.width inv.height
    drawn.winman.backbuffer inv.x inv.y = some drawn.copies
  changes : ∀ back index, drawn.backCells back index ≠ back index → ∃ column < fi.width, ∃ row < fi.height,
    index = column + row * wm.backbuffer.pitch ∧ rectContains inv column row = true
  bounds : ∀ c ∈ drawn.copies, ∃ column < fi.width, ∃ row < fi.height,
    c.target = column + row * (fi.pitch / 4) ∧ c.source = column + row * wm.backbuffer.pitch

section Frame

variable {font : ℕ → BitVec 8} {fi : FbInfo} {wm : Winman} {drawn : Checked.Drawn} {ideal : Drawn} {allocated : Bool}

theorem guiInit_fits (ran : guiInit fi allocated = .ok wm) : Fits fi wm := by
  simp only [guiInit, graphicCreateMemory, Except.bind_ok_iff] at ran
  obtain ⟨g, ⟨_, _, created⟩, ran⟩ := ran
  cases created
  cases ran
  exact ⟨rfl, rfl, rfl⟩

/-- What `gui_draw_all` leaves behind. -/
private theorem guiDrawAll_winman (ran : guiDrawAll font fi wm = .ok ideal) :
    ideal.winman.backbuffer.width = wm.backbuffer.width ∧
      ideal.winman.backbuffer.height = wm.backbuffer.height ∧
    ideal.winman.scrSize = wm.scrSize ∧
    ideal.winman.backbuffer.offset = ⟨0, 0, wm.scrSize.width, wm.scrSize.height⟩ ∧
    let inv := collected wm.globalInvalidated wm.windowList wm.globalInvalidated
    ideal.copies =
      graphicBitblt (graphicFromFb fi) inv.x inv.y inv.width inv.height ideal.winman.backbuffer inv.x inv.y := by
  obtain ⟨_, _, ran⟩ := Except.bind_ok_iff.mp ran
  rw [drawList_eq] at ran
  have gathered := drawWindows_collected font wm.globalInvalidated wm.windowList 0
    (wm.backbuffer.window ⟨0, 0, wm.scrSize.width, wm.scrSize.height⟩ wm.globalInvalidated) wm.globalInvalidated
  obtain ⟨windows, g, inv, windowList, ranWindows, width, height, _⟩ :=
    drawWindows_spec font wm.globalInvalidated wm.windowList 0
      (wm.backbuffer.window ⟨0, 0, wm.scrSize.width, wm.scrSize.height⟩ wm.globalInvalidated) wm.globalInvalidated
  rw [ranWindows] at gathered
  rw [Graphic.window] at ranWindows
  dsimp only at ran gathered
  rw [ranWindows] at ran
  cases ran
  subst gathered
  exact ⟨width, height, rfl, rfl, rfl⟩

/-- The rectangle that is copied is the collected one. -/
private theorem guiDrawAll_blits (back : Checked.Addressed wm.backbuffer)
    (ran : Checked.guiDrawAll font fi wm = .ok (some drawn)) :
    let inv := collected wm.globalInvalidated wm.windowList wm.globalInvalidated
    Checked.graphicBitblt (Checked.surface (fi.pitch / 4) fi.width fi.height) inv.x inv.y inv.width inv.height
      drawn.winman.backbuffer inv.x inv.y = some drawn.copies := by
  obtain ⟨_, _, ran⟩ := Except.bind_ok_iff.mp ran
  have ran := Except.ok.inj ran
  simp only [Checked.drawAll, Option.bind_eq_bind, Option.bind_eq_some_iff, drawList_eq] at ran
  obtain ⟨placed, first, g, second, background, _, ⟨windows, g₁, inv, windowList⟩, loop, placed', _, g', _, outline, _,
    cursor, _, copies, copied, ran⟩ := ran
  cases ran
  have screen := Checked.window_value back.toSmallSurface first second
  have small : Checked.SmallSurface g := by
    rw [screen]
    exact back.toSmallSurface.window _ _
  obtain ⟨writes, windowsDrawn, _⟩ := Checked.drawWindows_value small loop
  have gathered := drawWindows_collected font wm.globalInvalidated wm.windowList 0 g wm.globalInvalidated
  rw [windowsDrawn] at gathered
  dsimp only at gathered copied ⊢
  rw [← gathered]
  exact copied

/-- Every layer paints inside the collected rectangle. -/
private theorem painted_collected {layer : Layer} {x y : ℤ} (ran : guiDrawAll font fi wm = .ok ideal)
    (painted : Paints ideal.writes layer x y) :
    rectContains (collected wm.globalInvalidated wm.windowList wm.globalInvalidated) x y = true := by
  have layers := guiDrawAll_layers ran
  cases layer with
  | background => exact contains_collected ((layers.background x y).mp painted).1
  | outline => exact contains_collected ((layers.outline x y).mp painted).1.1
  | cursor => exact contains_collected ((layers.cursor x y).mp painted).1.1
  | window i =>
    obtain ⟨w, found, damaged, _⟩ := (layers.window i x y).mp painted
    apply contains_collected_window (List.mem_of_getElem? found)
    rw [rectContains_iff] at damaged ⊢
    dsimp only [winToScr] at damaged ⊢
    omega

/-- A pixel of the surface in columns and rows. -/
private theorem surface_pixel {g : Graphic} {x y : ℤ} (inside : g.Surface x y) :
    ∃ column < g.width, ∃ row < g.height, x = (column : ℕ) ∧ y = (row : ℕ) := by
  obtain ⟨⟨first, last⟩, upper, lower⟩ := inside
  exact ⟨x.toNat, by omega, y.toNat, by omega, by omega, by omega⟩

private theorem guiDrawAll_copies (fits : Fits fi wm) (back : Checked.Addressed wm.backbuffer)
    (front : Checked.Addressed (graphicFromFb fi)) (ran : Checked.guiDrawAll font fi wm = .ok (some drawn)) :
    CopiesChanges fi wm drawn (collected wm.globalInvalidated wm.windowList wm.globalInvalidated) := by
  obtain ⟨ideal, ranIdeal, writes, copies, _⟩ := Checked.guiDrawAll_value back front ran
  obtain ⟨_, _, _, offset, blits⟩ := guiDrawAll_winman ranIdeal
  refine ⟨guiDrawAll_blits back ran, fun framebuffer index changed => ?_, fun c member => ?_⟩
  · obtain ⟨c, member, here⟩ : ∃ c ∈ drawn.writes.map Prod.snd, c.index = index := by
      by_contra untouched
      exact changed (stores_untouched framebuffer fun c member here => untouched ⟨c, member, here⟩)
    rw [writes, List.map_map] at member
    obtain ⟨⟨layer, w⟩, inside, rfl⟩ := List.mem_map.mp member
    have painted : Paints ideal.writes layer w.column w.row := ⟨w, inside, rfl, rfl⟩
    have contained := painted_collected ranIdeal painted
    obtain ⟨column, left, row, top, onColumn, onRow⟩ :=
      surface_pixel (Checked.Layers.surface (guiDrawAll_layers ranIdeal) painted)
    rw [onColumn, onRow] at contained
    refine ⟨column, by rwa [← fits.width], row, by rwa [← fits.height], ?_, contained⟩
    rw [← here]
    exact (Checked.cellIndex_iff (Checked.Layers.surface (guiDrawAll_layers ranIdeal) painted) left back.wide
      back.indexed).mpr ⟨onColumn, onRow⟩
  · rw [copies] at member
    obtain ⟨copy, inside, rfl⟩ := List.mem_map.mp member
    rw [blits] at inside
    obtain ⟨⟨sameColumn, sameRow⟩, surface⟩ :=
      (@bitblt_whole fi _ _ 0 0 (by rw [offset]; exact ⟨rfl, rfl⟩)).1 copy inside
    obtain ⟨column, left, row, top, onColumn, onRow⟩ := surface_pixel surface
    have from_ : wm.backbuffer.Surface copy.fromColumn copy.fromRow := by
      rw [Graphic.Surface, fits.width, fits.height, sameColumn, sameRow]
      exact surface
    exact ⟨column, left, row, top, (Checked.cellIndex_iff surface left front.wide front.indexed).mpr ⟨onColumn, onRow⟩,
      (Checked.cellIndex_iff from_ (by rwa [fits.width]) back.wide back.indexed).mpr
        ⟨sameColumn.trans onColumn, sameRow.trans onRow⟩⟩

/-- Every pixel of the collected rectangle is copied. -/
private theorem guiDrawAll_reaches (back : Checked.Addressed wm.backbuffer)
    (front : Checked.Addressed (graphicFromFb fi)) (ran : Checked.guiDrawAll font fi wm = .ok (some drawn))
    {column row : ℕ} (left : column < fi.width) (top : row < fi.height)
    (inside : rectContains (collected wm.globalInvalidated wm.windowList wm.globalInvalidated) column row = true) :
    ∃ c ∈ drawn.copies, c.target = column + row * (fi.pitch / 4) := by
  obtain ⟨ideal, ranIdeal, _, copies, _⟩ := Checked.guiDrawAll_value back front ran
  obtain ⟨_, _, _, offset, blits⟩ := guiDrawAll_winman ranIdeal
  have surface : (graphicFromFb fi).Surface column row :=
    ⟨⟨Int.natCast_nonneg _, Int.ofNat_lt.mpr left⟩, Int.natCast_nonneg _, Int.ofNat_lt.mpr top⟩
  obtain ⟨copy, member, place⟩ := (@bitblt_whole fi _ _ column row (by rw [offset]; exact ⟨rfl, rfl⟩)).2 surface inside
  rw [copies, blits]
  refine ⟨_, List.mem_map_of_mem member, ?_⟩
  rw [Checked.copyCells, place.1, place.2]
  exact Checked.cellIndex_eq (Nat.lt_of_lt_of_le left front.wide) top front.indexed

/-- With small coordinates, drawing has a behaviour. Whenever it has one, every cell of the backbuffer that changes is that
of a pixel in the rectangle that is copied, the copy stays inside both framebuffers, and a frontbuffer that agreed with the
backbuffer before the call agrees with it after the call. -/
theorem frontbuffer_follows (font : ℕ → BitVec 8) (fi : FbInfo) (wm : Winman) (fits : Fits fi wm)
    (back : Checked.Addressed wm.backbuffer) (front : Checked.Addressed (graphicFromFb fi)) :
    (wm.Small fi → wm.painting = false → ∃ drawn, Checked.guiDrawAll font fi wm = .ok (some drawn)) ∧
      ∀ drawn, Checked.guiDrawAll font fi wm = .ok (some drawn) → ∃ inv, CopiesChanges fi wm drawn inv ∧
        ∀ frontCells backCells, Agree fi wm frontCells backCells →
          Agree fi wm (drawn.frontCells frontCells backCells) (drawn.backCells backCells) := by
  refine ⟨Checked.guiDrawAll_some font, fun drawn ran => ?_⟩
  have copied := guiDrawAll_copies fits back front ran
  refine ⟨_, copied, fun frontCells backCells agree column left row top => copies_store _ _ (fun c member here => ?_) ?_⟩
  · obtain ⟨column', left', row', _, target, source⟩ := copied.bounds c member
    obtain ⟨rfl, rfl⟩ := Checked.index_inj (Nat.lt_of_lt_of_le left' front.wide) (Nat.lt_of_lt_of_le left front.wide)
      (target.symm.trans here)
    exact source
  · have wide : fi.width ≤ wm.backbuffer.pitch := fits.width ▸ back.wide
    by_cases changed : drawn.backCells backCells (column + row * wm.backbuffer.pitch) =
        backCells (column + row * wm.backbuffer.pitch)
    · right
      rw [changed]
      exact agree column left row top
    · left
      obtain ⟨column', left', row', _, index, inside⟩ := copied.changes _ _ changed
      obtain ⟨rfl, rfl⟩ := Checked.index_inj (Nat.lt_of_lt_of_le left wide) (Nat.lt_of_lt_of_le left' wide) index
      exact guiDrawAll_reaches back front ran left top inside

/-- The screen that `gui_init` sets up on a framebuffer of 100 by 100 cells. -/
def initial : Winman where
  backbuffer := ⟨100, 100, 100, ⟨0, 0, 100, 100⟩, ⟨0, 0, 100, 100⟩⟩
  painting := false
  sizingRect := ⟨0, 0, 0, 0⟩
  sizing := false
  windowList := []
  scrSize := ⟨100, 100⟩
  mousePos := ⟨50, 50⟩
  globalInvalidated := ⟨0, 0, 100, 100⟩
  bgColor := 0x001f00

/-- A window that hangs over the upper left corner of the screen, damaged in its lower right part. -/
def corner : Winman := { initial with windowList := [⟨[], ⟨-20, -10, 50, 40⟩, 0, ⟨30, 20, 20, 20⟩, none⟩] }

private theorem corner_small : corner.Small ⟨400, 100, 100⟩ where
  windowList w member := by
    rw [List.mem_singleton.mp member]
    exact ⟨within_iff.mpr (by decide), within_iff.mpr (by decide), by decide, fun _ called => by cases called⟩
  globalInvalidated := within_iff.mpr (by decide)
  sizingRect := within_iff.mpr (by decide)
  mousePos := by decide
  scrSize := within_iff.mpr (by decide)
  backbuffer := by decide
  frontbuffer := by decide

theorem frontbuffer_follows_corner : guiInit ⟨400, 100, 100⟩ true = .ok initial ∧
    ∃ drawn, Checked.guiDrawAll (fun _ => 0) ⟨400, 100, 100⟩ corner = .ok (some drawn) ∧
      ∃ inv, CopiesChanges ⟨400, 100, 100⟩ corner drawn inv ∧
        ∀ frontCells backCells, Agree ⟨400, 100, 100⟩ corner frontCells backCells →
          Agree ⟨400, 100, 100⟩ corner (drawn.frontCells frontCells backCells) (drawn.backCells backCells) := by
  refine ⟨rfl, ?_⟩
  obtain ⟨runs, follows⟩ := frontbuffer_follows (fun _ => 0) ⟨400, 100, 100⟩ corner ⟨rfl, rfl, rfl⟩
    ⟨⟨by decide, by decide⟩, by decide, by decide⟩ ⟨⟨by decide, by decide⟩, by decide, by decide⟩
  obtain ⟨drawn, ran⟩ := runs corner_small rfl
  exact ⟨drawn, ran, follows drawn ran⟩

/-- A damaged window whose right edge is no value of `int`. -/
def beyondInt : Winman :=
  { initial with windowList := [⟨[], ⟨10, 0, 2 ^ 31 - 1, 50⟩, 0, ⟨0, 0, 2 ^ 31 - 1, 50⟩, none⟩]
                 globalInvalidated := ⟨0, 0, 0, 0⟩ }

/-- The edges of the window are added up, which has no behaviour where the sum leaves `int`. -/
theorem beyondInt_undrawn : (∀ w ∈ beyondInt.windowList, 0 ≤ w.scrRect.width ∧ 0 ≤ w.scrRect.height) ∧
    beyondInt.painting = false ∧ Checked.guiDrawAll (fun _ => 0) ⟨400, 100, 100⟩ beyondInt = .ok none :=
  ⟨by decide, rfl, rfl⟩

end Frame

end RubberOS.Soundness.FrontBuffer
