import RubberOS.Model.CheckedWindow
import RubberOS.Proofs.CheckedGraphic
import RubberOS.Proofs.Window

/-! # The drawing of the screen is that of unbounded integers

Where `gui_draw_all` has a behaviour, it writes and copies the cells of the pixels that it does with unbounded integers.
-/

namespace RubberOS.Model.Gui.Checked

section Values

variable {font : ℕ → BitVec 8} {g after : Graphic} {r rt : Rect} {w w' : Window} {cells : List Cell}

theorem scrToWin_value (ran : scrToWin w rt = some r) : r = Gui.scrToWin w rt := by
  simp only [scrToWin, Option.bind_eq_bind, Option.bind_eq_some_iff, int_eq_some] at ran
  obtain ⟨_, ⟨_, rfl⟩, _, ⟨_, rfl⟩, ran⟩ := ran
  exact (Option.some.inj ran).symm

theorem winToScr_value (ran : winToScr w rt = some r) : r = Gui.winToScr w rt := by
  simp only [winToScr, Option.bind_eq_bind, Option.bind_eq_some_iff, int_eq_some] at ran
  obtain ⟨_, ⟨_, rfl⟩, _, ⟨_, rfl⟩, ran⟩ := ran
  exact (Option.some.inj ran).symm

theorem SmallSurface.window (surface : SmallSurface g) (offset clipping : Rect) :
    SmallSurface (g.window offset clipping) := ⟨surface.width, surface.height⟩

/-- The two settings of a graphic for a rectangle of the surface. -/
theorem window_value {offset clipping : Rect} {placed : Graphic} (surface : SmallSurface g)
    (first : graphicSetOffset g (some offset) = some placed)
    (second : graphicSetClipping placed (some clipping) = some after) : after = g.window offset clipping := by
  have place := graphicSetOffset_value surface first
  subst place
  exact graphicSetClipping_value ⟨surface.width, surface.height⟩ second

/-- The index of a cell depends on the pitch of the surface alone. -/
private theorem writeCell_congr {g' : Graphic} (same : g'.pitch = g.pitch) : writeCell g' = writeCell g := by
  funext w
  rw [writeCell, cell, cellIndex, same, writeCell, cell, cellIndex]

private theorem paintClient_value {client : Rect} {proc : Graphic → List DrawCall} (surface : SmallSurface g)
    (ran : paintClient font w g client proc = some (cells, after)) :
    after = g.window (Gui.winToScr w client) (let clientInv := Gui.rectIntersect w.winInvalidated client
      ⟨clientInv.x - client.x, clientInv.y - client.y, clientInv.width, clientInv.height⟩) ∧
    cells = ((proc after).flatMap (DrawCall.exec font after)).map (writeCell g) := by
  simp only [paintClient, Option.bind_eq_bind, Option.bind_eq_some_iff, int_eq_some] at ran
  obtain ⟨clientInv, damaged, clientScr, moved, placed, first, _, ⟨_, rfl⟩, _, ⟨_, rfl⟩, clipped, second, painted,
    drawn, ran⟩ := ran
  cases ran
  have shown := window_value surface first second
  rw [winToScr_value moved, rectIntersect_value damaged] at shown
  refine ⟨shown, ?_⟩
  have same : writeCell after = writeCell g := writeCell_congr (by rw [shown]; rfl)
  rw [← same]
  exact eachOf_value (fun call cells ran => drawCall_value ran) drawn

private theorem drawFrame_value {client : Rect} (ran : drawFrame font w after = some (cells, client))
    (shown : after = g.window w.scrRect w.winInvalidated) : cells = (frameWrites font w g).map (writeCell g) := by
  simp only [drawFrame, Option.bind_eq_bind, Option.bind_eq_some_iff, int_eq_some] at ran
  obtain ⟨outer, one, _, ⟨_, rfl⟩, _, ⟨_, rfl⟩, inner, two, _, ⟨_, rfl⟩, _, ⟨_, rfl⟩, titleBar, three, _, ⟨_, rfl⟩,
    titleText, four, _, ⟨_, rfl⟩, background, five, ran⟩ := ran
  cases ran
  have same : writeCell after = writeCell g := writeCell_congr (by rw [shown]; rfl)
  rw [drawRectWith_value one, drawRectWith_value two, fillRectWith_value three, graphicDrawString_value four,
    fillRectWith_value five, same, shown, ← List.map_append, ← List.map_append, ← List.map_append, ← List.map_append]
  rfl

theorem drawFrame_client {frame : List Cell × Rect} (ran : drawFrame font w g = some frame) :
    frame.2 = clientArea w.scrRect.width w.scrRect.height := by
  simp only [drawFrame, Option.bind_eq_bind, Option.bind_eq_some_iff, int_eq_some] at ran
  obtain ⟨_, _, _, ⟨_, rfl⟩, _, ⟨_, rfl⟩, _, _, _, ⟨_, rfl⟩, _, ⟨_, rfl⟩, _, _, _, _, _, _, _, ⟨_, rfl⟩, _, _, ran⟩ := ran
  cases ran
  rfl

theorem drawWindow_value (surface : SmallSurface g) (ran : drawWindow font w g = some (cells, w', after)) :
    ∃ writes, Gui.drawWindow font w g = (writes, w', after) ∧ cells = writes.map (writeCell g) ∧
      SmallSurface after ∧ after.pitch = g.pitch := by
  simp only [drawWindow, Option.bind_eq_bind, Option.bind_eq_some_iff] at ran
  obtain ⟨placed, first, clipped, second, ⟨frame, client⟩, drawn, ran⟩ := ran
  have shown := window_value surface first second
  have same : writeCell clipped = writeCell g := writeCell_congr (by rw [shown]; rfl)
  obtain rfl : client = _ := drawFrame_client drawn
  obtain rfl := drawFrame_value drawn shown
  rcases Option.eq_none_or_eq_some w.proc with called | ⟨proc, called⟩
  · rw [called] at ran
    cases ran
    rw [drawWindow_none font g called, shown]
    exact ⟨_, by rw [called], rfl, surface.window _ _, rfl⟩
  · rw [called] at ran
    simp only [Option.bind_eq_some_iff] at ran
    obtain ⟨⟨painted, last⟩, clientDrawn, ran⟩ := ran
    cases ran
    have small : SmallSurface clipped := by
      rw [shown]
      exact surface.window _ _
    obtain ⟨given, drawn⟩ := paintClient_value small clientDrawn
    rw [shown] at given
    have graphic : last = procGraphic w g := given
    subst graphic
    rw [drawWindow_some font g called, drawn, same]
    exact ⟨_, by rw [called], by rw [List.map_append], (surface.window _ _).window _ _, rfl⟩

private theorem drawMouse_value {x y : ℤ} (ran : drawMouse g x y = some cells) :
    cells = (Gui.drawMouse g x y).map (writeCell g) := by
  refine eachOf_value (fun yi cells ran => eachOf_value (fun xi cells ran => ?_) ran) ran
  cases opaque_ : cursorColor xi yi with
  | none =>
    rw [opaque_] at ran
    cases ran
    rfl
  | some color =>
    rw [opaque_] at ran
    simp only [Option.bind_eq_bind, Option.bind_eq_some_iff, int_eq_some] at ran
    obtain ⟨_, ⟨_, rfl⟩, _, ⟨_, rfl⟩, ran⟩ := ran
    exact graphicDrawPixel_value ran

/-- The cell of a write of a layer. -/
def layerCell (g : Graphic) (p : Layer × Write) : Layer × Cell := (p.1, writeCell g p.2)

private theorem map_layerCell (layer : Layer) (writes : List Write) :
    (writes.map (writeCell g)).map (Prod.mk layer) = (writes.map (Prod.mk layer)).map (layerCell g) := by
  rw [List.map_map, List.map_map]
  rfl

theorem drawWindows_value {gi inv inv' : Rect} {index : ℕ} {windowList windowList' : List Window}
    {cells : List (Layer × Cell)} (surface : SmallSurface g)
    (ran : drawWindows font gi index g inv windowList = some (cells, after, inv', windowList')) :
    ∃ writes, Gui.drawWindows font gi index g inv windowList = (writes, after, inv', windowList') ∧
      cells = writes.map (layerCell g) ∧ SmallSurface after ∧ after.pitch = g.pitch := by
  induction windowList generalizing index g inv cells windowList' with
  | nil =>
    cases ran
    exact ⟨[], rfl, rfl, surface, rfl⟩
  | cons w rest ih =>
    simp only [drawWindows, Option.bind_eq_bind, Option.bind_eq_some_iff] at ran
    obtain ⟨wiScr, met, wiWin, moved, winInvalidated, damaged, scrInv, back, inv₁, collected, ⟨own, w', g₁⟩, drawn,
      ⟨more, g₂, inv₂, rest'⟩, others, ran⟩ := ran
    cases ran
    obtain ⟨writes, here, rfl, small, pitch⟩ := drawWindow_value surface drawn
    obtain ⟨later, there, rfl, smallAfter, pitchAfter⟩ := ih small others
    refine ⟨writes.map (Prod.mk (.window index)) ++ later, ?_, ?_, smallAfter, pitchAfter.trans pitch⟩
    · rw [rectUnion_value damaged, scrToWin_value moved, rectIntersect_value met] at here back
      rw [rectUnion_value collected, winToScr_value back] at there
      rw [Gui.drawWindows]
      dsimp only
      rw [here]
      dsimp only
      rw [there]
    · have same : layerCell g₁ = layerCell g := by
        funext p
        rw [layerCell, layerCell, writeCell_congr pitch]
      rw [map_layerCell, List.map_append, same]

theorem front_value {fi : FbInfo} (width : fi.width < 2 ^ 31) (height : fi.height < 2 ^ 31) :
    surface (fi.pitch / 4) fi.width fi.height = graphicFromFb fi := by
  rw [surface, toInt_of_lt width, toInt_of_lt height]
  rfl

private theorem copyCells_congr {front g' : Graphic} (same : g'.pitch = g.pitch) :
    copyCells front g' = copyCells front g := by
  funext c
  rw [copyCells, cellIndex, cellIndex, same, copyCells, cellIndex, cellIndex]

private theorem drawOutline_value {wm : Winman} (ran : drawOutline wm g = some cells) :
    cells = (if wm.sizing then
      Gui.graphicDrawRectXor g wm.sizingRect.x wm.sizingRect.y wm.sizingRect.width wm.sizingRect.height 2 0xffffff
    else []).map (writeCell g) := by
  rw [drawOutline] at ran
  split_ifs at ran ⊢ with sizing
  · exact drawRectWith_value ran
  · cases ran
    rfl

/-- Where `gui_draw_all` has a behaviour, it does what it does with unbounded integers. -/
private theorem drawAll_value {fi : FbInfo} {wm : Winman} {drawn : Drawn} (surface : SmallSurface wm.backbuffer)
    (width : fi.width < 2 ^ 31) (height : fi.height < 2 ^ 31) (idle : wm.painting = false)
    (ran : drawAll font fi wm = some drawn) :
    ∃ ideal, Gui.guiDrawAll font fi wm = .ok ideal ∧ drawn.writes = ideal.writes.map (layerCell wm.backbuffer) ∧
      drawn.copies = ideal.copies.map (copyCells (graphicFromFb fi) wm.backbuffer) ∧ drawn.winman = ideal.winman := by
  simp only [drawAll, Option.bind_eq_bind, Option.bind_eq_some_iff] at ran
  obtain ⟨placed, first, g, second, background, one, ⟨windows, g₁, inv, windowList⟩, loop, placed', third, g', fourth,
    outline, two, cursor, three, copies, four, ran⟩ := ran
  cases ran
  have screen := window_value surface first second
  have small : SmallSurface g := by
    rw [screen]
    exact surface.window _ _
  obtain ⟨writes, windowsDrawn, rfl, small₁, pitch₁⟩ := drawWindows_value small loop
  have screen' := window_value small₁ third fourth
  rw [Gui.guiDrawAll, assert_of (by rw [idle]; rfl)]
  rw [screen, Graphic.window] at windowsDrawn
  dsimp only
  rw [windowsDrawn]
  dsimp only
  have same : writeCell g = writeCell wm.backbuffer := writeCell_congr (by rw [screen]; rfl)
  have pitch : g'.pitch = wm.backbuffer.pitch := by
    rw [screen']
    exact pitch₁.trans (by rw [screen]; rfl)
  have layer : layerCell g = layerCell wm.backbuffer := by
    funext p
    rw [layerCell, layerCell, same]
  refine ⟨_, rfl, ?_, ?_, ?_⟩
  · rw [fillRectWith_value one, drawOutline_value two, drawMouse_value three, same, writeCell_congr pitch,
      map_layerCell, map_layerCell, map_layerCell, layer, screen, screen']
    simp only [List.map_append]
    rfl
  · rw [front_value width height] at four
    rw [graphicBitblt_value four, copyCells_congr pitch, screen']
    rfl
  · rw [screen']
    rfl

theorem guiDrawAll_value {fi : FbInfo} {wm : Winman} {drawn : Drawn} (back : Addressed wm.backbuffer)
    (front : Addressed (graphicFromFb fi)) (ran : guiDrawAll font fi wm = .ok (some drawn)) :
    ∃ ideal, Gui.guiDrawAll font fi wm = .ok ideal ∧ drawn.writes = ideal.writes.map (layerCell wm.backbuffer) ∧
      drawn.copies = ideal.copies.map (copyCells (graphicFromFb fi) wm.backbuffer) ∧ drawn.winman = ideal.winman := by
  obtain ⟨_, idle, ran⟩ := Except.bind_ok_iff.mp ran
  rw [assert_ok_iff, Bool.not_eq_true'] at idle
  exact drawAll_value back.toSmallSurface front.width front.height idle (Except.ok.inj ran)

/-! ## Layers of cells -/

/-- Some of the writes of this layer goes to this cell. -/
def Stores (cells : List (Layer × Cell)) (layer : Layer) (index : ℕ) : Prop := ∃ c, (layer, c) ∈ cells ∧ c.index = index

theorem stores_append {first second : List (Layer × Cell)} {layer : Layer} {index : ℕ} :
    Stores (first ++ second) layer index ↔ Stores first layer index ∨ Stores second layer index := by
  simp only [Stores, List.mem_append, or_and_right, exists_or]

section Layers

variable {wm : Winman} {writes : List (Layer × Write)} {layer : Layer}

/-- Every layer paints pixels of the surface. -/
theorem Layers.surface (layers : wm.Layers writes) {x y : ℤ} (painted : Paints writes layer x y) :
    wm.backbuffer.Surface x y := by
  cases layer with
  | background => exact ((layers.background x y).mp painted).2.2
  | outline => exact ((layers.outline x y).mp painted).1.2.2
  | cursor => exact ((layers.cursor x y).mp painted).1.2.2
  | window i =>
    obtain ⟨w, _, exposed⟩ := (layers.window i x y).mp painted
    exact exposed.2.2

/-- A layer writes to the cell of a pixel exactly if it paints the pixel. -/
theorem stores_iff (back : Addressed wm.backbuffer) (layers : wm.Layers writes) {column row : ℕ}
    (left : column < wm.backbuffer.width) :
    Stores (writes.map (layerCell wm.backbuffer)) layer (column + row * wm.backbuffer.pitch) ↔
      Paints writes layer column row := by
  have index {w : Write} (member : (layer, w) ∈ writes) :
      (writeCell wm.backbuffer w).index = column + row * wm.backbuffer.pitch ↔ w.column = column ∧ w.row = row :=
    cellIndex_iff (Layers.surface layers ⟨w, member, rfl, rfl⟩) left back.wide back.indexed
  constructor
  · rintro ⟨c, stored, place⟩
    obtain ⟨⟨_, w⟩, member, same⟩ := List.mem_map.mp stored
    cases same
    exact ⟨w, member, (index member).mp place⟩
  · rintro ⟨w, member, place⟩
    exact ⟨writeCell wm.backbuffer w, List.mem_map.mpr ⟨_, member, rfl⟩, (index member).mpr place⟩

theorem ordered_cells (layers : wm.Layers writes) :
    (writes.map (layerCell wm.backbuffer)).Pairwise fun p q => p.1.Under q.1 := by
  rw [List.pairwise_map]
  exact layers.ordered

end Layers

end Values

end RubberOS.Model.Gui.Checked
