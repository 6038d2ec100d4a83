import RubberOS.Proofs.CheckedWindow

/-! # Small coordinates do not overflow

A sum of a few coordinates of at most `2 ^ 26` is a value of `int`. So the drawing of a screen with coordinates of this
size has a behaviour: the bounds grow from the rectangles that are given to those that `gui_draw_all` forms of them.
-/

namespace RubberOS.Model.Gui

/-- The edges of the rectangle lie at most this far from the axes. -/
structure Rect.Within (r : Rect) (b : ℤ) : Prop where
  left : -b ≤ r.x ∧ r.x ≤ b
  right : -b ≤ r.x + r.width ∧ r.x + r.width ≤ b
  top : -b ≤ r.y ∧ r.y ≤ b
  bottom : -b ≤ r.y + r.height ∧ r.y + r.height ≤ b

theorem within_iff {x y width height b : ℤ} : (⟨x, y, width, height⟩ : Rect).Within b ↔
    (-b ≤ x ∧ x ≤ b) ∧ (-b ≤ x + width ∧ x + width ≤ b) ∧ (-b ≤ y ∧ y ≤ b) ∧ -b ≤ y + height ∧ y + height ≤ b :=
  ⟨fun within => ⟨within.left, within.right, within.top, within.bottom⟩,
    fun ⟨left, right, top, bottom⟩ => ⟨left, right, top, bottom⟩⟩

theorem Rect.Within.mono {r : Rect} {b c : ℤ} (within : r.Within b) (wider : b ≤ c) : r.Within c := by
  obtain ⟨left, right, top, bottom⟩ := within
  exact ⟨by omega, by omega, by omega, by omega⟩

/-- What the arguments of a drawing call may be. -/
def DrawCall.Small : DrawCall → Prop
  | .pixel _ _ _ => True
  | .fillRect x y width height _ | .fillRectXor x y width height _ => (⟨x, y, width, height⟩ : Rect).Within (2 ^ 26)
  | .drawRect x y width height thickness _ | .drawRectXor x y width height thickness _ =>
    (⟨x, y, width, height⟩ : Rect).Within (2 ^ 26) ∧ -2 ^ 26 ≤ thickness ∧ thickness ≤ 2 ^ 26
  | .char x y _ _ => (-2 ^ 26 ≤ x ∧ x ≤ 2 ^ 26) ∧ -2 ^ 26 ≤ y ∧ y ≤ 2 ^ 26
  | .string rt str _ _ => rt.Within (2 ^ 26) ∧ str.length ≤ 2 ^ 22

/-- A window of small coordinates, whose procedure draws at small coordinates. -/
structure Window.Small (w : Window) : Prop where
  scrRect : w.scrRect.Within (2 ^ 26)
  winInvalidated : w.winInvalidated.Within (2 ^ 26)
  title : w.title.length ≤ 2 ^ 22
  proc : ∀ proc, w.proc = some proc → ∀ g, ∀ call ∈ proc g, call.Small

/-- A screen of small coordinates. -/
structure Winman.Small (fi : FbInfo) (wm : Winman) : Prop where
  windowList : ∀ w ∈ wm.windowList, w.Small
  globalInvalidated : wm.globalInvalidated.Within (2 ^ 26)
  sizingRect : wm.sizingRect.Within (2 ^ 26)
  mousePos : (-2 ^ 26 ≤ wm.mousePos.x ∧ wm.mousePos.x ≤ 2 ^ 26) ∧ -2 ^ 26 ≤ wm.mousePos.y ∧ wm.mousePos.y ≤ 2 ^ 26
  scrSize : (⟨0, 0, wm.scrSize.width, wm.scrSize.height⟩ : Rect).Within (2 ^ 26)
  backbuffer : wm.backbuffer.width ≤ 2 ^ 26 ∧ wm.backbuffer.height ≤ 2 ^ 26
  frontbuffer : fi.width ≤ 2 ^ 26 ∧ fi.height ≤ 2 ^ 26

namespace Checked

theorem int_of {value : ℤ} (bounds : -2 ^ 31 ≤ value ∧ value < 2 ^ 31) : int value = some value := if_pos bounds

section Steps

variable {α β : Type}

/-- A computation goes on after an `int` expression of small value. -/
theorem run_int {value : ℤ} {f : ℤ → Option α} (bounds : -2 ^ 31 ≤ value ∧ value < 2 ^ 31)
    (next : ∃ a, f value = some a) : ∃ a, (int value >>= f) = some a := by
  rw [int_of bounds]
  exact next

theorem run_bind {first : Option β} {b : β} {f : β → Option α} (ran : first = some b) (next : ∃ a, f b = some a) :
    ∃ a, (first >>= f) = some a := by
  rw [ran]
  exact next

end Steps

section Rects

variable {r r1 r2 : Rect} {b c : ℤ}

theorem rectContains_some (within : r.Within b) (small : b < 2 ^ 31) (x y : ℤ) :
    rectContains r x y = some (Gui.rectContains r x y) := by
  obtain ⟨_, right, _, bottom⟩ := within
  rw [rectContains, int_of (by omega), int_of (by omega)]
  dsimp only [Option.bind_eq_bind, Option.bind_some]
  split_ifs with leftOf inside
  · simp only [Gui.rectContains, leftOf, inside.1, inside.2, decide_true, Bool.and_true, Bool.true_and]
    rfl
  all_goals
    refine congrArg some ?_
    symm
    rw [Bool.eq_false_iff, ne_eq, rectContains_iff]
    omega

theorem rectIntersect_some (one : r1.Within b) (two : r2.Within b) (small : b < 2 ^ 30) :
    rectIntersect r1 r2 = some (Gui.rectIntersect r1 r2) ∧ (Gui.rectIntersect r1 r2).Within b := by
  obtain ⟨left1, right1, top1, bottom1⟩ := one
  obtain ⟨left2, right2, top2, bottom2⟩ := two
  constructor
  · rw [rectIntersect, int_of (by omega), int_of (by omega), int_of (by omega), int_of (by omega)]
    dsimp only [Option.bind_eq_bind, Option.bind_some]
    rw [int_of (by omega), int_of (by omega)]
    rfl
  · rw [Gui.rectIntersect]
    split_ifs with empty
    · exact within_iff.mpr (by omega)
    · exact within_iff.mpr (by omega)

theorem rectUnion_some (one : r1.Within b) (two : r2.Within b) (small : b < 2 ^ 30) :
    rectUnion r1 r2 = some (Gui.rectUnion r1 r2) ∧ (Gui.rectUnion r1 r2).Within b := by
  rw [rectUnion, Gui.rectUnion]
  split_ifs with second first
  · exact ⟨rfl, one⟩
  · exact ⟨rfl, two⟩
  obtain ⟨left1, right1, top1, bottom1⟩ := one
  obtain ⟨left2, right2, top2, bottom2⟩ := two
  constructor
  · rw [int_of (by omega), int_of (by omega), int_of (by omega), int_of (by omega)]
    dsimp only [Option.bind_eq_bind, Option.bind_some]
    rw [int_of (by omega), int_of (by omega)]
    rfl
  · exact within_iff.mpr (by omega)

/-- A rectangle moves by the corner of a window. -/
theorem scrToWin_some {w : Window} (place : w.scrRect.Within b) (within : r.Within c) (small : b + c < 2 ^ 31) :
    scrToWin w r = some (Gui.scrToWin w r) ∧ (Gui.scrToWin w r).Within (b + c) := by
  obtain ⟨left, _, top, _⟩ := place
  obtain ⟨left', right', top', bottom'⟩ := within
  constructor
  · rw [scrToWin, int_of (by omega), int_of (by omega)]
    rfl
  · exact within_iff.mpr (by omega)

theorem winToScr_some {w : Window} (place : w.scrRect.Within b) (within : r.Within c) (small : b + c < 2 ^ 31) :
    winToScr w r = some (Gui.winToScr w r) ∧ (Gui.winToScr w r).Within (b + c) := by
  obtain ⟨left, _, top, _⟩ := place
  obtain ⟨left', right', top', bottom'⟩ := within
  constructor
  · rw [winToScr, int_of (by omega), int_of (by omega)]
    rfl
  · exact within_iff.mpr (by omega)

end Rects

/-! ## Drawing -/

/-- The rectangles of the graphic are small. -/
structure Near (g : Graphic) (b : ℤ) : Prop where
  offset : g.offset.Within b
  clipping : g.clipping.Within b

section Drawing

variable {font : ℕ → BitVec 8} {g g0 : Graphic} {b : ℤ}

private theorem Near.mono {c : ℤ} (near : Near g b) (wider : b ≤ c) : Near g c :=
  ⟨near.offset.mono wider, near.clipping.mono wider⟩

private theorem eachOf_some {ι α : Type} {body : ι → Option (List α)} {items : List ι}
    (each : ∀ i ∈ items, ∃ first, body i = some first) : ∃ all, eachOf body items = some all := by
  induction items with
  | nil => exact ⟨[], rfl⟩
  | cons i rest ih =>
    obtain ⟨first, one⟩ := each i List.mem_cons_self
    obtain ⟨later, others⟩ := ih fun i member => each i (List.mem_cons_of_mem _ member)
    rw [eachOf, one, others]
    exact ⟨_, rfl⟩

private theorem graphicDrawPixel_some (near : Near g (2 ^ 29)) (x y : ℤ) (color : Color) :
    ∃ cells, graphicDrawPixel g x y color = some cells := by
  obtain ⟨⟨left, _, top, _⟩, clipping⟩ := near
  rw [graphicDrawPixel, rectContains_some clipping (by decide)]
  dsimp only [Option.bind_eq_bind, Option.bind_some]
  split_ifs with inside
  · obtain ⟨⟨_, _⟩, _, _⟩ := rectContains_iff.mp inside
    obtain ⟨_, _, _, _⟩ := clipping
    rw [int_of (by omega), int_of (by omega)]
    exact ⟨_, rfl⟩
  · exact ⟨_, rfl⟩

private theorem fillRectWith_some {x y width height : ℤ} (near : Near g (2 ^ 29))
    (within : (⟨x, y, width, height⟩ : Rect).Within (2 ^ 29)) (paint : Paint) :
    ∃ cells, fillRectWith g x y width height paint = some cells := by
  obtain ⟨met, ⟨_, right, _, bottom⟩⟩ := rectIntersect_some near.clipping within (by decide)
  obtain ⟨left, _, top, _⟩ := near.offset
  rw [fillRectWith, met]
  dsimp only [Option.bind_eq_bind, Option.bind_some]
  refine eachOf_some fun yi row => eachOf_some fun xi column => ?_
  rw [List.mem_range] at row column
  rw [int_of (by omega), int_of (by omega)]
  dsimp only [Option.bind_some]
  rw [int_of (by omega), int_of (by omega)]
  exact ⟨_, rfl⟩

private theorem drawRectWith_some {x y width height thickness : ℤ} (near : Near g (2 ^ 29))
    (within : (⟨x, y, width, height⟩ : Rect).Within (2 ^ 28)) (thin : -2 ^ 26 ≤ thickness ∧ thickness ≤ 2 ^ 26)
    (paint : Paint) : ∃ cells, drawRectWith g x y width height thickness paint = some cells := by
  rw [within_iff] at within
  obtain ⟨_, one⟩ := @fillRectWith_some g x y width thickness near (within_iff.mpr (by omega)) paint
  obtain ⟨_, two⟩ := @fillRectWith_some g x (y + height - thickness) width thickness near (within_iff.mpr (by omega)) paint
  obtain ⟨_, three⟩ := @fillRectWith_some g x (y + thickness) thickness (height - 2 * thickness) near
    (within_iff.mpr (by omega)) paint
  obtain ⟨_, four⟩ := @fillRectWith_some g (x + width - thickness) (y + thickness) thickness (height - 2 * thickness) near
    (within_iff.mpr (by omega)) paint
  exact run_bind one (run_int (by omega) (run_int (by omega) (run_bind two (run_int (by omega) (run_int (by omega)
    (run_int (by omega) (run_bind three (run_int (by omega) (run_int (by omega) (run_bind four ⟨_, rfl⟩))))))))))

private theorem graphicDrawChar_some {x y : ℤ} (near : Near g (2 ^ 29)) (column : -2 ^ 30 ≤ x ∧ x ≤ 2 ^ 30)
    (row : -2 ^ 30 ≤ y ∧ y ≤ 2 ^ 30) (c : BitVec 8) (color : Color) :
    ∃ cells, graphicDrawChar font g x y c color = some cells := by
  refine eachOf_some fun yi above => eachOf_some fun xi left => ?_
  rw [List.mem_range] at above left
  split_ifs with lit
  · exact run_int (by omega) (run_int (by omega) (graphicDrawPixel_some near _ _ color))
  · exact ⟨[], rfl⟩

private theorem wrapPlace_some {rt : Rect} {edge : ℤ} {wrap : Bool} {place : Point}
    (column : -2 ^ 30 ≤ place.x ∧ place.x ≤ 2 ^ 30) (row : -2 ^ 30 ≤ place.y ∧ place.y ≤ 2 ^ 30) :
    ∃ next, wrapPlace rt edge wrap place = some next ∧ (next = place ∨ next = ⟨rt.x, place.y + 16⟩) := by
  rw [wrapPlace]
  split_ifs with wraps
  · rw [int_of (by omega)]
    dsimp only [Option.bind_eq_bind, Option.bind_some]
    split_ifs with full
    · rw [int_of (by omega)]
      exact ⟨_, rfl, .inr rfl⟩
    · exact ⟨_, rfl, .inl rfl⟩
  · exact ⟨_, rfl, .inl rfl⟩

private theorem drawChars_some {rt : Rect} {wrap : Bool} {color : Color} {str : List (BitVec 8)} {place : Point}
    (near : Near g (2 ^ 29)) (start : -2 ^ 30 ≤ rt.x ∧ rt.x + 8 * str.length ≤ 2 ^ 30)
    (column : -2 ^ 30 ≤ place.x ∧ place.x + 8 * str.length ≤ 2 ^ 30)
    (row : -2 ^ 30 ≤ place.y ∧ place.y + 16 * str.length ≤ 2 ^ 30) :
    ∃ cells, drawChars font g rt color wrap place str = some cells := by
  induction str generalizing place with
  | nil => exact ⟨[], rfl⟩
  | cons c rest ih =>
    rw [List.length_cons] at start column row
    rw [drawChars]
    split_ifs with newline
    · refine run_int (by omega) (ih ?_ ?_ ?_)
      · omega
      · dsimp only
        omega
      · dsimp only
        omega
    have edges := near.clipping.right
    refine run_int (by omega) ?_
    split_ifs with cut
    · exact ⟨[], rfl⟩
    obtain ⟨next, moved, places⟩ := @wrapPlace_some rt (g.clipping.x + g.clipping.width) wrap place (by omega) (by omega)
    have bounds : (-2 ^ 30 ≤ next.x ∧ next.x + 8 * (rest.length + 1) ≤ 2 ^ 30) ∧
        -2 ^ 30 ≤ next.y ∧ next.y + 16 * rest.length ≤ 2 ^ 30 := by
      rcases places with rfl | rfl
      · omega
      · dsimp only
        omega
    obtain ⟨first, drawn⟩ := @graphicDrawChar_some font g next.x next.y near (by omega) (by omega) c color
    refine run_bind moved (run_bind drawn (run_int (by omega) ?_))
    obtain ⟨later, others⟩ := @ih ⟨next.x + 8, next.y⟩ (by omega) (by dsimp only; omega) (by dsimp only; omega)
    exact run_bind others ⟨_, rfl⟩

theorem graphicDrawString_some {rt : Rect} {str : List (BitVec 8)} (near : Near g (2 ^ 29)) (within : rt.Within (2 ^ 28))
    (short : str.length ≤ 2 ^ 22) (color : Color) (wrap : Bool) :
    ∃ cells, graphicDrawString font g rt str color wrap = some cells := by
  obtain ⟨met, clipped⟩ := rectIntersect_some near.clipping (within.mono (by decide)) (by decide)
  obtain ⟨left, _, top, _⟩ := within
  refine run_bind met (drawChars_some ⟨near.offset, clipped⟩ ?_ ?_ ?_)
  · omega
  · dsimp only
    omega
  · dsimp only
    omega

private theorem drawCall_some {call : DrawCall} (near : Near g (2 ^ 29)) (small : call.Small) :
    ∃ cells, drawCall font g call = some cells := by
  cases call with
  | pixel x y color => exact graphicDrawPixel_some near x y color
  | fillRect x y width height color => exact fillRectWith_some near (Rect.Within.mono small (by decide)) _
  | fillRectXor x y width height color => exact fillRectWith_some near (Rect.Within.mono small (by decide)) _
  | drawRect x y width height thickness color => exact drawRectWith_some near (small.1.mono (by decide)) small.2 _
  | drawRectXor x y width height thickness color => exact drawRectWith_some near (small.1.mono (by decide)) small.2 _
  | char x y c color =>
    obtain ⟨column, row⟩ := small
    exact graphicDrawChar_some near (by omega) (by omega) c color
  | string rt str color wrap => exact graphicDrawString_some near (small.1.mono (by decide)) small.2 color wrap

private theorem bitbltCell_some {clippedDst skippedSrc : Rect} {yi xi : ℕ}
    (target : g.offset.Within (2 ^ 29)) (source : g0.offset.Within (2 ^ 29)) (dst : clippedDst.Within (2 ^ 29))
    (src : (-2 ^ 29 ≤ skippedSrc.x ∧ skippedSrc.x ≤ 2 ^ 29) ∧ -2 ^ 29 ≤ skippedSrc.y ∧ skippedSrc.y ≤ 2 ^ 29)
    (column : (xi : ℤ) < 2 ^ 30) (row : (yi : ℤ) < 2 ^ 30) :
    ∃ cells, bitbltCell g g0 clippedDst skippedSrc yi xi = some cells := by
  obtain ⟨left, _, top, _⟩ := target
  obtain ⟨left', _, top', _⟩ := source
  obtain ⟨leftD, _, topD, _⟩ := dst
  exact run_int (by omega) (run_int (by omega) (run_int (by omega) (run_int (by omega) (run_int (by omega)
    (run_int (by omega) (run_int (by omega) (run_int (by omega) ⟨_, rfl⟩)))))))

/-- A rectangle is copied to its own place. -/
private theorem graphicBitblt_some {r : Rect} (near : Near g (2 ^ 28)) (source : g0.offset.Within (2 ^ 29))
    (within : r.Within (2 ^ 28)) : ∃ cells, graphicBitblt g r.x r.y r.width r.height g0 r.x r.y = some cells := by
  obtain ⟨met, clipped⟩ := rectIntersect_some near.clipping within (by decide)
  have inner := clipped
  generalize Gui.rectIntersect g.clipping r = dst at met clipped inner
  obtain ⟨leftD, rightD, topD, bottomD⟩ := inner
  obtain ⟨left, right, top, bottom⟩ := within
  refine run_bind met (run_int (by omega) (run_int (by omega) (run_int (by omega) (run_int (by omega) (run_int (by omega)
    (run_int (by omega) (eachOf_some fun yi row => eachOf_some fun xi column => ?_)))))))
  rw [List.mem_range] at row column
  dsimp only at row column
  refine bitbltCell_some (near.offset.mono (by decide)) source (clipped.mono (by decide)) ?_ (by omega) (by omega)
  dsimp only
  omega

/-! ## Offset and clipping -/

/-- The sizes of the surface are small. -/
structure SmallSize (g : Graphic) : Prop where
  width : g.width ≤ 2 ^ 26
  height : g.height ≤ 2 ^ 26

private theorem SmallSize.surface (size : SmallSize g) : SmallSurface g :=
  ⟨Nat.lt_of_le_of_lt size.width (by decide), Nat.lt_of_le_of_lt size.height (by decide)⟩

private theorem graphicSetClipping_some {rt : Option Rect} (size : SmallSize g) (offset : g.offset.Within (2 ^ 27))
    (within : ∀ r, rt = some r → r.Within (2 ^ 28)) : ∃ after, graphicSetClipping g rt = some after ∧
      Near after (2 ^ 28) ∧ after.offset = g.offset ∧ SmallSize after := by
  have width := size.width
  have height := size.height
  have wider := offset.mono (c := 2 ^ 28) (by decide)
  obtain ⟨left, right, top, bottom⟩ := offset
  have base : (⟨-min 0 g.offset.x, -min 0 g.offset.y,
      max (min g.offset.width (g.width - g.offset.x) - -min 0 g.offset.x) 0,
      max (min g.offset.height (g.height - g.offset.y) - -min 0 g.offset.y) 0⟩ : Rect).Within (2 ^ 28) :=
    within_iff.mpr (by omega)
  rw [graphicSetClipping, toInt_of_lt size.surface.width, toInt_of_lt size.surface.height, int_of (by omega),
    int_of (by omega), int_of (by omega), int_of (by omega)]
  dsimp only [Option.bind_eq_bind, Option.bind_some]
  rw [int_of (by omega), int_of (by omega)]
  dsimp only [Option.bind_some]
  cases rt with
  | none => exact ⟨_, rfl, ⟨wider, base⟩, rfl, ⟨width, height⟩⟩
  | some r =>
    obtain ⟨met, clipped⟩ := rectIntersect_some (within r rfl) base (by decide)
    dsimp only
    rw [met]
    exact ⟨_, rfl, ⟨wider, clipped⟩, rfl, ⟨width, height⟩⟩

private theorem graphicSetOffset_some {rt : Rect} (size : SmallSize g) (within : rt.Within (2 ^ 27)) :
    ∃ after, graphicSetOffset g (some rt) = some after ∧ Near after (2 ^ 28) ∧ after.offset = rt ∧ SmallSize after :=
  @graphicSetClipping_some { g with offset := rt } none ⟨size.width, size.height⟩ within fun _ absent => by cases absent

/-- The two settings of a graphic for a rectangle of the surface. -/
private theorem window_some {offset clipping : Rect} (size : SmallSize g) (place : offset.Within (2 ^ 27))
    (part : clipping.Within (2 ^ 28)) : ∃ placed after, graphicSetOffset g (some offset) = some placed ∧
      graphicSetClipping placed (some clipping) = some after ∧ Near after (2 ^ 28) ∧ SmallSize after := by
  obtain ⟨placed, first, _, same, sizeThere⟩ := graphicSetOffset_some size place
  obtain ⟨after, second, near, _, sizeAfter⟩ :=
    @graphicSetClipping_some placed (some clipping) sizeThere (by rwa [same]) fun r found => by
      cases found
      exact part
  exact ⟨placed, after, first, second, near, sizeAfter⟩

end Drawing

/-! ## The screen -/

section Screen

variable {font : ℕ → BitVec 8} {g : Graphic} {w : Window} {fi : FbInfo} {wm : Winman}

private theorem drawFrame_some (near : Near g (2 ^ 28)) (place : w.scrRect.Within (2 ^ 26))
    (short : w.title.length ≤ 2 ^ 22) :
    ∃ frame, drawFrame font w g = some frame := by
  have wide : Near g (2 ^ 29) := near.mono (by decide)
  obtain ⟨left, right, top, bottom⟩ := place
  have border1 : BORDER1 = 1 := rfl
  have border2 : BORDER2 = 2 := rfl
  have titleHeight : TITLE_HEIGHT = 20 := rfl
  have margin : TITLE_X_MARGIN = 20 := rfl
  obtain ⟨_, outer⟩ := @drawRectWith_some g 0 0 w.scrRect.width w.scrRect.height BORDER1 wide
    (within_iff.mpr (by omega)) (by omega) (.set 0x2f2f2f)
  obtain ⟨_, inner⟩ := @drawRectWith_some g BORDER1 BORDER1 (w.scrRect.width - 2 * BORDER1) (w.scrRect.height - 2 * BORDER1)
    BORDER2 wide (within_iff.mpr (by omega)) (by omega) (.set 0x3f3f3f)
  obtain ⟨_, bar⟩ := @fillRectWith_some g (BORDER1 + BORDER2) (BORDER1 + BORDER2)
    (w.scrRect.width - 2 * (BORDER1 + BORDER2)) (titleBar w.scrRect.width w.scrRect.height).height wide
    (within_iff.mpr (by dsimp only [titleBar]; split_ifs <;> omega)) (.set 0x5f5f5f)
  obtain ⟨_, text⟩ := @graphicDrawString_some font g ⟨BORDER1 + BORDER2 + TITLE_X_MARGIN, BORDER1 + BORDER2 + 2,
    w.scrRect.width - 2 * (BORDER1 + BORDER2) - TITLE_X_MARGIN, 16⟩ w.title wide (within_iff.mpr (by omega)) short 0 false
  obtain ⟨_, background⟩ := @fillRectWith_some g (BORDER1 + BORDER2) (BORDER1 + BORDER2 + TITLE_HEIGHT)
    (w.scrRect.width - 2 * (BORDER1 + BORDER2)) (w.scrRect.height - 2 * (BORDER1 + BORDER2) - TITLE_HEIGHT) wide
    (within_iff.mpr (by omega)) (.set w.bgColor)
  exact run_bind outer (run_int (by omega) (run_int (by omega) (run_bind inner (run_int (by omega) (run_int (by omega)
    (run_bind bar (run_int (by omega) (run_bind text (run_int (by omega) (run_bind background ⟨_, rfl⟩))))))))))

private theorem paintClient_some {proc : Graphic → List DrawCall} (size : SmallSize g)
    (place : w.scrRect.Within (2 ^ 26)) (damage : w.winInvalidated.Within (2 ^ 27))
    (calls : ∀ g, ∀ call ∈ proc g, call.Small) :
    ∃ drawn, paintClient font w g (clientArea w.scrRect.width w.scrRect.height) proc = some drawn := by
  have edges := place
  obtain ⟨left, right, top, bottom⟩ := edges
  have inside : (clientArea w.scrRect.width w.scrRect.height).Within (2 ^ 27 + 32) := within_iff.mpr (by omega)
  obtain ⟨moved, _⟩ := winToScr_some place inside (by decide)
  obtain ⟨damaged, met⟩ := rectIntersect_some (damage.mono (by decide)) inside (by decide)
  generalize Gui.rectIntersect w.winInvalidated (clientArea w.scrRect.width w.scrRect.height) = clientInv at damaged met
  obtain ⟨leftInv, rightInv, topInv, bottomInv⟩ := met
  have area : (Gui.winToScr w (clientArea w.scrRect.width w.scrRect.height)).Within (2 ^ 27) :=
    within_iff.mpr (by dsimp only [clientArea]; omega)
  obtain ⟨placed, clipped, first, second, near, _⟩ := @window_some g _ ⟨clientInv.x - 3, clientInv.y - 23, clientInv.width,
    clientInv.height⟩ size area (within_iff.mpr (by omega))
  obtain ⟨_, drawn⟩ := @eachOf_some _ _ (drawCall font clipped) (proc clipped) fun call member =>
    drawCall_some (near.mono (by decide)) (calls clipped call member)
  exact run_bind damaged (run_bind moved (run_bind first (run_int (by dsimp only [clientArea]; omega)
    (run_int (by dsimp only [clientArea]; omega) (run_bind second (run_bind drawn ⟨_, rfl⟩))))))

/-- A window is drawn, also where it is damaged a little beyond its size. -/
private theorem drawWindow_some {damage : Rect} (size : SmallSize g) (small : w.Small)
    (damaged : damage.Within (2 ^ 27)) :
    ∃ drawn, drawWindow font { w with winInvalidated := damage } g = some drawn := by
  obtain ⟨placed, clipped, first, second, near, sizeThere⟩ := @window_some g w.scrRect damage size
    (small.scrRect.mono (by decide)) (damaged.mono (by decide))
  obtain ⟨frame, drawn⟩ := @drawFrame_some font clipped { w with winInvalidated := damage } near small.scrRect small.title
  obtain ⟨cells, client⟩ := frame
  obtain rfl : client = _ := drawFrame_client drawn
  refine run_bind first (run_bind second (run_bind drawn ?_))
  rcases Option.eq_none_or_eq_some w.proc with called | ⟨proc, called⟩
  · dsimp only
    rw [called]
    exact ⟨_, rfl⟩
  · obtain ⟨_, painted⟩ := @paintClient_some font clipped { w with winInvalidated := damage } proc sizeThere small.scrRect
      damaged (small.proc proc called)
    dsimp only
    rw [called]
    exact run_bind painted ⟨_, rfl⟩

private theorem drawMouse_some (near : Near g (2 ^ 29)) {x y : ℤ} (column : -2 ^ 30 ≤ x ∧ x ≤ 2 ^ 30)
    (row : -2 ^ 30 ≤ y ∧ y ≤ 2 ^ 30) : ∃ cells, drawMouse g x y = some cells := by
  refine eachOf_some fun yi above => eachOf_some fun xi left => ?_
  have width : MOUSE_WIDTH = 13 := rfl
  have height : MOUSE_HEIGHT = 19 := rfl
  rw [List.mem_range] at above left
  cases cursorColor xi yi with
  | none => exact ⟨[], rfl⟩
  | some color => exact run_int (by omega) (run_int (by omega) (graphicDrawPixel_some near _ _ color))

private theorem drawOutline_some (near : Near g (2 ^ 29)) (within : wm.sizingRect.Within (2 ^ 26)) :
    ∃ cells, drawOutline wm g = some cells := by
  rw [drawOutline]
  split_ifs with sizing
  · exact drawRectWith_some near (within.mono (by decide)) (by decide) _
  · exact ⟨[], rfl⟩

private theorem SmallSize.drawn {w' : Window} {cells : List Cell} {after : Graphic} (size : SmallSize g)
    (ran : drawWindow font w g = some (cells, w', after)) : SmallSize after := by
  obtain ⟨writes, drawn, _⟩ := drawWindow_value size.surface ran
  obtain ⟨writes', after', spec, width, height, _⟩ := drawWindow_spec font w g
  rw [drawn] at spec
  cases spec
  exact ⟨Nat.le_trans (Nat.le_of_eq width) size.width, Nat.le_trans (Nat.le_of_eq height) size.height⟩

private theorem drawWindows_some {gi inv : Rect} {index : ℕ} {windowList : List Window} (size : SmallSize g)
    (damage : gi.Within (2 ^ 26)) (collected : inv.Within (2 ^ 28)) (small : ∀ w ∈ windowList, w.Small) :
    ∃ writes after inv' windowList', drawWindows font gi index g inv windowList = some (writes, after, inv', windowList') ∧
      SmallSize after ∧ inv'.Within (2 ^ 28) := by
  induction windowList generalizing index g inv with
  | nil => exact ⟨[], g, inv, [], rfl, size, collected⟩
  | cons w rest ih =>
    have here := small w List.mem_cons_self
    obtain ⟨met, part⟩ := rectIntersect_some here.scrRect damage (by decide)
    generalize Gui.rectIntersect w.scrRect gi = wiScr at met part
    obtain ⟨moved, apart⟩ := scrToWin_some here.scrRect part (by decide)
    obtain ⟨united, damaged⟩ :=
      rectUnion_some (b := 2 ^ 27) (here.winInvalidated.mono (by decide)) (apart.mono (by decide)) (by decide)
    generalize Gui.rectUnion w.winInvalidated (Gui.scrToWin w wiScr) = winInvalidated at united damaged
    obtain ⟨back, screen⟩ := @winToScr_some _ _ _ { w with winInvalidated } here.scrRect damaged (by decide)
    obtain ⟨gathered, more⟩ := rectUnion_some collected (screen.mono (by decide)) (by decide)
    obtain ⟨⟨own, w', g₁⟩, drawn⟩ := @drawWindow_some font g w winInvalidated size here damaged
    obtain ⟨writes, after, inv', rest', others, sizeAfter, last⟩ :=
      @ih g₁ _ (index + 1) (size.drawn drawn) more fun w member => small w (List.mem_cons_of_mem _ member)
    refine ⟨own.map (Prod.mk (.window index)) ++ writes, after, inv', w' :: rest', ?_, sizeAfter, last⟩
    simp only [drawWindows, met, moved, united, back, gathered, drawn, others, Option.bind_eq_bind, Option.bind_some]
    rfl

/-- The drawing of a screen of small coordinates has a behaviour. -/
theorem guiDrawAll_some (font : ℕ → BitVec 8) (small : wm.Small fi) (idle : wm.painting = false) :
    ∃ drawn, guiDrawAll font fi wm = .ok (some drawn) := by
  have size : SmallSize wm.backbuffer := ⟨small.backbuffer.1, small.backbuffer.2⟩
  have screen := small.scrSize.mono (c := 2 ^ 27) (by decide)
  have gi := small.globalInvalidated.mono (c := 2 ^ 28) (by decide)
  obtain ⟨placed, g, first, second, near, sizeThere⟩ := window_some size screen gi
  obtain ⟨background, one⟩ := @fillRectWith_some g 0 0 wm.scrSize.width wm.scrSize.height (near.mono (by decide))
    (screen.mono (by decide)) (.set wm.bgColor)
  obtain ⟨windows, g₁, inv, windowList, loop, sizeAfter, collected⟩ :=
    @drawWindows_some font g wm.globalInvalidated wm.globalInvalidated 0 wm.windowList sizeThere small.globalInvalidated gi
      small.windowList
  obtain ⟨placed', g', third, fourth, near', _⟩ := window_some sizeAfter screen gi
  have wide : Near g' (2 ^ 29) := near'.mono (by decide)
  obtain ⟨outline, two⟩ := drawOutline_some wide small.sizingRect
  obtain ⟨⟨left, right⟩, top, bottom⟩ := small.mousePos
  obtain ⟨cursor, three⟩ := @drawMouse_some g' wide wm.mousePos.x wm.mousePos.y (by omega) (by omega)
  obtain ⟨frontWidth, frontHeight⟩ := small.frontbuffer
  have front : Near (surface (fi.pitch / 4) fi.width fi.height) (2 ^ 28) := by
    rw [front_value (Nat.lt_of_le_of_lt frontWidth (by decide)) (Nat.lt_of_le_of_lt frontHeight (by decide))]
    exact ⟨within_iff.mpr (by omega), within_iff.mpr (by omega)⟩
  obtain ⟨copies, four⟩ := graphicBitblt_some front wide.offset collected
  have drawn : ∃ drawn, drawAll font fi wm = some drawn := by
    rw [← drawList_eq wm.windowList] at loop
    exact run_bind first (run_bind second (run_bind one (run_bind loop (run_bind third (run_bind fourth (run_bind two
      (run_bind three (run_bind four ⟨_, rfl⟩))))))))
  obtain ⟨drawn, ran⟩ := drawn
  refine ⟨drawn, ?_⟩
  rw [guiDrawAll, assert_of (by rw [idle]; rfl), ran]
  rfl

end Screen

end Checked

end RubberOS.Model.Gui
