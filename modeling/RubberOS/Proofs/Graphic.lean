import Mathlib.Data.List.Basic
import RubberOS.Model.Graphic

/-! # The pixels that drawing writes

Each drawing function has one lemma that says which pixels it writes: those of its shape inside the
clipping rectangle. What a graphic shows of its offset rectangle is `clipping_window`.
-/

namespace RubberOS.Model.Gui

/-- Some of the writes goes to this pixel. -/
def Touches (writes : List Write) (x y : ℤ) : Prop := ∃ w ∈ writes, w.column = x ∧ w.row = y

section Writes

variable {first second : List Write} {x y : ℤ}

@[simp] theorem touches_nil : ¬ Touches [] x y := by
  rintro ⟨w, member, _⟩
  cases member

@[simp] theorem touches_append : Touches (first ++ second) x y ↔ Touches first x y ∨ Touches second x y := by
  simp only [Touches, List.mem_append, or_and_right, exists_or]

theorem touches_flatMap {α : Type} {items : List α} {f : α → List Write} :
    Touches (items.flatMap f) x y ↔ ∃ a ∈ items, Touches (f a) x y := by
  simp only [Touches, List.mem_flatMap]
  constructor
  · rintro ⟨w, ⟨a, member, inside⟩, place⟩
    exact ⟨a, member, w, inside, place⟩
  · rintro ⟨a, member, w, inside, place⟩
    exact ⟨w, ⟨a, member, inside⟩, place⟩

end Writes

/-- A pixel of the surface lies in this rectangle of the graphic's own coordinates. -/
def Graphic.Inside (g : Graphic) (r : Rect) (x y : ℤ) : Prop :=
  rectContains r (x - g.offset.x) (y - g.offset.y) = true

section Shapes

variable {font : ℕ → BitVec 8} {g : Graphic} {x y : ℤ}

theorem touches_pixel {a b : ℤ} {color : Color} : Touches (graphicDrawPixel g a b color) x y ↔
    g.Inside g.clipping x y ∧ x = a + g.offset.x ∧ y = b + g.offset.y := by
  rw [graphicDrawPixel, Graphic.Inside]
  split
  · rename_i inside
    simp only [Touches, List.mem_singleton, exists_eq_left]
    constructor
    · rintro ⟨rfl, rfl⟩
      rw [Int.add_sub_cancel, Int.add_sub_cancel]
      exact ⟨inside, rfl, rfl⟩
    · rintro ⟨_, rfl, rfl⟩
      exact ⟨rfl, rfl⟩
  · rename_i outside
    refine iff_of_false touches_nil ?_
    rintro ⟨inside, rfl, rfl⟩
    rw [Int.add_sub_cancel, Int.add_sub_cancel] at inside
    exact outside inside

/-- A filled rectangle is written where it meets the clipping rectangle. -/
theorem touches_fillRect {a b width height : ℤ} {paint : Paint} :
    Touches (fillRectWith g a b width height paint) x y ↔
      g.Inside g.clipping x y ∧ g.Inside ⟨a, b, width, height⟩ x y := by
  rw [Graphic.Inside, Graphic.Inside, ← rectContains_intersect, rectContains_iff, fillRectWith,
    touches_flatMap]
  generalize rectIntersect g.clipping ⟨a, b, width, height⟩ = r
  simp only [Touches, List.mem_map, List.mem_range]
  constructor
  · rintro ⟨yi, row, w, ⟨xi, column, rfl⟩, rfl, rfl⟩
    dsimp only
    omega
  · intro inside
    refine ⟨(y - g.offset.y - r.y).toNat, by omega, _, ⟨(x - g.offset.x - r.x).toNat, by omega, rfl⟩, ?_, ?_⟩
    · dsimp only
      omega
    · dsimp only
      omega

/-- The four strips of a rectangle's border. -/
def BorderStrip (a b width height thickness : ℤ) (r : Rect) : Prop :=
  r = ⟨a, b, width, thickness⟩ ∨ r = ⟨a, b + height - thickness, width, thickness⟩ ∨
    r = ⟨a, b + thickness, thickness, height - 2 * thickness⟩ ∨
    r = ⟨a + width - thickness, b + thickness, thickness, height - 2 * thickness⟩

theorem touches_drawRect {a b width height thickness : ℤ} {paint : Paint} :
    Touches (drawRectWith g a b width height thickness paint) x y ↔
      g.Inside g.clipping x y ∧ ∃ r, BorderStrip a b width height thickness r ∧ g.Inside r x y := by
  rw [drawRectWith, touches_append, touches_append, touches_append, touches_fillRect, touches_fillRect,
    touches_fillRect, touches_fillRect]
  simp only [BorderStrip, or_and_right, exists_or, exists_eq_left, and_or_left, or_assoc]

/-! ## Writes stay inside the clipping rectangle -/

/-- All writes go to pixels of this rectangle. -/
def Clipped (g : Graphic) (r : Rect) (writes : List Write) : Prop := ∀ x y, Touches writes x y → g.Inside r x y

private theorem Clipped.append {r : Rect} {first second : List Write} (one : Clipped g r first)
    (two : Clipped g r second) :
    Clipped g r (first ++ second) :=
  fun x y touched => (touches_append.mp touched).elim (one x y) (two x y)

theorem Clipped.flatMap {α : Type} {r : Rect} {items : List α} {f : α → List Write}
    (each : ∀ a ∈ items, Clipped g r (f a)) : Clipped g r (items.flatMap f) := by
  intro x y touched
  obtain ⟨a, member, inside⟩ := touches_flatMap.mp touched
  exact each a member x y inside

private theorem clipped_nil (g : Graphic) (r : Rect) : Clipped g r [] := fun _ _ touched => absurd touched touches_nil

private theorem clipped_pixel (g : Graphic) (a b : ℤ) (color : Color) :
    Clipped g g.clipping (graphicDrawPixel g a b color) :=
  fun _ _ touched => (touches_pixel.mp touched).1

private theorem clipped_fillRect (g : Graphic) (a b width height : ℤ) (paint : Paint) :
    Clipped g g.clipping (fillRectWith g a b width height paint) :=
  fun _ _ touched => (touches_fillRect.mp touched).1

private theorem clipped_drawRect (g : Graphic) (a b width height thickness : ℤ) (paint : Paint) :
    Clipped g g.clipping (drawRectWith g a b width height thickness paint) :=
  fun _ _ touched => (touches_drawRect.mp touched).1

private theorem clipped_char (font : ℕ → BitVec 8) (g : Graphic) (a b : ℤ) (c : BitVec 8) (color : Color) :
    Clipped g g.clipping (graphicDrawChar font g a b c color) := by
  refine Clipped.flatMap fun yi _ => Clipped.flatMap fun xi _ => ?_
  split
  · exact clipped_pixel g _ _ color
  · exact clipped_nil g _

private theorem clipped_chars (font : ℕ → BitVec 8) (g : Graphic) (rt : Rect) (color : Color) (wrap : Bool) (a b : ℤ)
    (str : List (BitVec 8)) : Clipped g g.clipping (drawChars font g rt color wrap a b str) := by
  induction str generalizing a b with
  | nil => exact clipped_nil g _
  | cons c rest ih =>
    rw [drawChars]
    split
    · exact ih _ _
    split
    · exact clipped_nil g _
    split
    · exact (clipped_char font g _ _ c color).append (ih _ _)
    · exact (clipped_char font g _ _ c color).append (ih _ _)

theorem clipped_string (font : ℕ → BitVec 8) (g : Graphic) (rt : Rect) (str : List (BitVec 8)) (color : Color)
    (wrap : Bool) : Clipped g g.clipping (graphicDrawString font g rt str color wrap) := by
  intro x y touched
  exact (rectContains_intersect.mp
    (clipped_chars font { g with clipping := rectIntersect g.clipping rt } _ _ _ _ _ _
    x y touched)).1

/-- A drawing call writes inside the clipping rectangle. -/
theorem clipped_call (font : ℕ → BitVec 8) (g : Graphic) (call : DrawCall) :
    Clipped g g.clipping (call.exec font g) := by
  cases call with
  | pixel x y color => exact clipped_pixel g x y color
  | fillRect x y width height color => exact clipped_fillRect g x y width height _
  | fillRectXor x y width height color => exact clipped_fillRect g x y width height _
  | drawRect x y width height thickness color => exact clipped_drawRect g x y width height thickness _
  | drawRectXor x y width height thickness color => exact clipped_drawRect g x y width height thickness _
  | char x y c color => exact clipped_char font g x y c color
  | string rt str color wrap => exact clipped_string font g rt str color wrap

/-! ## Offset and clipping -/

/-- The pixels of the surface. -/
def Graphic.Surface (g : Graphic) (x y : ℤ) : Prop := (0 ≤ x ∧ x < g.width) ∧ 0 ≤ y ∧ y < g.height

/-- A graphic on a rectangle of the surface, clipped to a rectangle in it. -/
def Graphic.window (g : Graphic) (offset clipping : Rect) : Graphic :=
  graphicSetClipping (graphicSetOffset g (some offset)) (some clipping)

@[simp] theorem window_offset (g : Graphic) (offset clipping : Rect) :
    (g.window offset clipping).offset = offset := rfl

/-- What is visible: the clipping rectangle inside the offset rectangle inside the surface. -/
theorem clipping_window (offset clipping : Rect) :
    (g.window offset clipping).Inside (g.window offset clipping).clipping x y ↔
      (g.window offset clipping).Inside clipping x y ∧ rectContains offset x y = true ∧ g.Surface x y := by
  simp only [Graphic.Inside, window_offset]
  rw [Graphic.window, graphicSetClipping, graphicSetOffset, graphicSetClipping]
  dsimp only [Option.getD]
  rw [rectContains_intersect]
  refine and_congr_right fun _ => ?_
  rw [rectContains_iff, rectContains_iff, Graphic.Surface]
  dsimp only
  omega

end Shapes

/-! ## What clipping leaves of a drawing -/

/-- The writes to one pixel, in order. -/
def writesAt (writes : List Write) (x y : ℤ) : List Write := writes.filter fun w => w.column = x ∧ w.row = y

theorem writesAt_ne_nil {writes : List Write} {x y : ℤ} : writesAt writes x y ≠ [] ↔ Touches writes x y := by
  simp only [writesAt, Touches, ne_eq, List.filter_eq_nil_iff, decide_eq_true_eq, not_forall, not_not, exists_prop]

/-- A drawing shows, of another one, the part in the clipping rectangle. -/
def Clips (g : Graphic) (writes all : List Write) : Prop :=
  ∀ x y, writesAt writes x y = if rectContains g.clipping (x - g.offset.x) (y - g.offset.y) then writesAt all x y else []

section Clips

variable {g : Graphic} {base : Rect} {writes all more rest : List Write}

private theorem Clips.nil : Clips g [] [] := by
  intro x y
  split
  · rfl
  · rfl

private theorem Clips.append (first : Clips g writes all) (second : Clips g more rest) :
    Clips g (writes ++ more) (all ++ rest) := by
  intro x y
  simp only [writesAt, List.filter_append]
  rw [← writesAt, ← writesAt, ← writesAt, ← writesAt, first x y, second x y]
  split
  · rfl
  · rfl

private theorem Clips.flatMap {ι : Type} {items : List ι} {f all : ι → List Write} (each : ∀ i, Clips g (f i) (all i)) :
    Clips g (items.flatMap f) (items.flatMap all) := by
  induction items with
  | nil => exact Clips.nil
  | cons i items ih =>
    rw [List.flatMap_cons, List.flatMap_cons]
    exact (each i).append ih

private theorem writesAt_single (w : Write) (x y : ℤ) :
    writesAt [w] x y = if w.column = x ∧ w.row = y then [w] else [] := by
  rw [writesAt, List.filter_cons, List.filter_nil]
  simp only [decide_eq_true_eq]

theorem clips_pixel (wider : ∀ x y, rectContains g.clipping x y = true → rectContains base x y = true) (a b : ℤ)
    (color : Color) :
    Clips g (graphicDrawPixel g a b color) (graphicDrawPixel { g with clipping := base } a b color) := by
  intro x y
  rw [graphicDrawPixel, graphicDrawPixel]
  by_cases here : a + g.offset.x = x ∧ b + g.offset.y = y
  · obtain ⟨rfl, rfl⟩ := here
    rw [Int.add_sub_cancel, Int.add_sub_cancel]
    split
    · rename_i shown
      rw [if_pos (wider a b shown)]
    · rfl
  · have elsewhere (shown : Bool) :
        writesAt (if shown then [⟨a + g.offset.x, b + g.offset.y, .set color⟩] else []) x y = [] := by
      split
      · rw [writesAt_single, if_neg here]
      · rfl
    rw [elsewhere, elsewhere, ite_self]

/-- Of the passes of a loop, one writes. -/
private theorem flatMap_range_single {α : Type} (n : ℕ) (k : ℤ) (items : List α) :
    ((List.range n).flatMap fun i : ℕ => if (i : ℤ) = k then items else []) =
      if 0 ≤ k ∧ k < n then items else [] := by
  induction n with
  | zero =>
    rw [if_neg (by omega)]
    rfl
  | succ n ih =>
    rw [List.range_succ, List.flatMap_append, ih, List.flatMap_singleton]
    by_cases last : (n : ℤ) = k
    · rw [if_neg (by omega), if_pos last, if_pos (by omega), List.nil_append]
    · rw [if_neg last, List.append_nil]
      exact if_congr (by omega) rfl rfl

private theorem writesAt_flatMap {ι : Type} (items : List ι) (f : ι → List Write) (x y : ℤ) :
    writesAt (items.flatMap f) x y = items.flatMap fun i => writesAt (f i) x y := by
  rw [writesAt, List.filter_flatMap]
  rfl

/-- A filled rectangle writes once to each of its pixels. -/
private theorem writesAt_fillRect (a b width height : ℤ) (paint : Paint) (x y : ℤ) :
    writesAt (fillRectWith g a b width height paint) x y =
      if rectContains g.clipping (x - g.offset.x) (y - g.offset.y) = true ∧
          rectContains ⟨a, b, width, height⟩ (x - g.offset.x) (y - g.offset.y) = true
      then [⟨x, y, paint⟩] else [] := by
  rw [fillRectWith, writesAt_flatMap]
  generalize meet : rectIntersect g.clipping ⟨a, b, width, height⟩ = r
  have row (yi : ℕ) : writesAt ((List.range r.width.toNat).map fun xi : ℕ =>
      (⟨g.offset.x + r.x + xi, g.offset.y + r.y + yi, paint⟩ : Write)) x y =
      if (yi : ℤ) = y - g.offset.y - r.y then
        if 0 ≤ x - g.offset.x - r.x ∧ x - g.offset.x - r.x < r.width.toNat then [⟨x, y, paint⟩] else []
      else [] := by
    rw [List.map_eq_flatMap, writesAt_flatMap, ← flatMap_range_single]
    by_cases here : (yi : ℤ) = y - g.offset.y - r.y
    · rw [if_pos here]
      refine List.flatMap_congr fun xi _ => ?_
      rw [writesAt_single]
      dsimp only
      split_ifs with both column column
      · obtain ⟨rfl, rfl⟩ := both
        rfl
      · omega
      · omega
      · rfl
    · rw [if_neg here, List.flatMap_eq_nil_iff]
      intro xi _
      rw [writesAt_single, if_neg]
      dsimp only
      omega
  simp only [row, flatMap_range_single]
  rw [← ite_and]
  refine if_congr ?_ rfl rfl
  rw [← rectContains_intersect, meet, rectContains_iff]
  omega

theorem clips_fillRect (wider : ∀ x y, rectContains g.clipping x y = true → rectContains base x y = true)
    (a b width height : ℤ) (paint : Paint) :
    Clips g (fillRectWith g a b width height paint)
      (fillRectWith { g with clipping := base } a b width height paint) := by
  intro x y
  rw [writesAt_fillRect, writesAt_fillRect]
  rw [← ite_and]
  exact if_congr ⟨fun both => ⟨both.1, wider _ _ both.1, both.2⟩, fun shown => ⟨shown.1, shown.2.2⟩⟩ rfl rfl

theorem clips_drawRect (wider : ∀ x y, rectContains g.clipping x y = true → rectContains base x y = true)
    (a b width height thickness : ℤ) (paint : Paint) :
    Clips g (drawRectWith g a b width height thickness paint)
      (drawRectWith { g with clipping := base } a b width height thickness paint) :=
  (((clips_fillRect wider _ _ _ _ paint).append (clips_fillRect wider _ _ _ _ paint)).append
    (clips_fillRect wider _ _ _ _ paint)).append (clips_fillRect wider _ _ _ _ paint)

theorem clips_char (wider : ∀ x y, rectContains g.clipping x y = true → rectContains base x y = true)
    (font : ℕ → BitVec 8) (a b : ℤ) (c : BitVec 8) (color : Color) :
    Clips g (graphicDrawChar font g a b c color) (graphicDrawChar font { g with clipping := base } a b c color) := by
  refine Clips.flatMap fun yi => Clips.flatMap fun xi => ?_
  split
  · exact clips_pixel wider _ _ color
  · exact Clips.nil

end Clips
end RubberOS.Model.Gui
