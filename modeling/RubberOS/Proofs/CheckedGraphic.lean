import RubberOS.Model.CheckedGraphic
import RubberOS.Proofs.Graphic

/-! # Results are those of unbounded integers

Whenever a function of `shapes.c` or `graphic.c` has a behaviour, it computes the values of unbounded integers: it
writes the cells of the pixels that the same call writes there.
-/

namespace RubberOS.Model.Gui.Checked

/-- The cell that a write goes to. -/
def writeCell (g : Graphic) (w : Write) : Cell := cell g w.column w.row w.paint

@[simp] theorem int_eq_some {value result : ℤ} :
    int value = some result ↔ (-2 ^ 31 ≤ value ∧ value < 2 ^ 31) ∧ value = result := by
  rw [int, Option.ite_none_right_eq_some, Option.some.injEq]

section Values

variable {font : ℕ → BitVec 8} {g after : Graphic} {r r1 r2 : Rect} {x y width height thickness : ℤ} {color : Color}
  {paint : Paint} {inside : Bool} {cells : List Cell}

theorem rectContains_value (ran : rectContains r x y = some inside) : inside = Gui.rectContains r x y := by
  rw [rectContains] at ran
  split_ifs at ran with left
  · simp only [Option.bind_eq_bind, Option.bind_eq_some_iff, int_eq_some] at ran
    obtain ⟨_, ⟨_, rfl⟩, ran⟩ := ran
    split_ifs at ran with middle
    · simp only [Option.bind_eq_some_iff, int_eq_some] at ran
      obtain ⟨_, ⟨_, rfl⟩, ran⟩ := ran
      cases ran
      simp only [Gui.rectContains, left, middle.1, middle.2, decide_true, Bool.and_true, Bool.true_and]
    · cases ran
      symm
      rw [Bool.eq_false_iff, ne_eq, rectContains_iff]
      omega
  · cases ran
    symm
    rw [Bool.eq_false_iff, ne_eq, rectContains_iff]
    omega

theorem rectIntersect_value (ran : rectIntersect r1 r2 = some r) : r = Gui.rectIntersect r1 r2 := by
  simp only [rectIntersect, Option.bind_eq_bind, Option.bind_eq_some_iff, int_eq_some] at ran
  obtain ⟨_, ⟨_, rfl⟩, _, ⟨_, rfl⟩, _, ⟨_, rfl⟩, _, ⟨_, rfl⟩, _, ⟨_, rfl⟩, _, ⟨_, rfl⟩, ran⟩ := ran
  exact (Option.some.inj ran).symm

theorem rectUnion_value (ran : rectUnion r1 r2 = some r) : r = Gui.rectUnion r1 r2 := by
  rw [rectUnion] at ran
  rw [Gui.rectUnion]
  split_ifs at ran ⊢ with second first
  · exact (Option.some.inj ran).symm
  · exact (Option.some.inj ran).symm
  · simp only [Option.bind_eq_bind, Option.bind_eq_some_iff, int_eq_some] at ran
    obtain ⟨_, ⟨_, rfl⟩, _, ⟨_, rfl⟩, _, ⟨_, rfl⟩, _, ⟨_, rfl⟩, _, ⟨_, rfl⟩, _, ⟨_, rfl⟩, ran⟩ := ran
    exact (Option.some.inj ran).symm

/-- The passes of a loop that each do, cell by cell, what those of another loop do. -/
theorem eachOf_value {ι α β : Type} {view : β → α} {body : ι → Option (List α)} {f : ι → List β} {items : List ι}
    {cells : List α} (each : ∀ i cells, body i = some cells → cells = (f i).map view)
    (ran : eachOf body items = some cells) : cells = (items.flatMap f).map view := by
  induction items generalizing cells with
  | nil =>
    cases ran
    rfl
  | cons i rest ih =>
    simp only [eachOf, Option.bind_eq_bind, Option.bind_eq_some_iff] at ran
    obtain ⟨first, one, later, others, ran⟩ := ran
    cases ran
    rw [each i first one, ih others, List.flatMap_cons, List.map_append]

theorem graphicDrawPixel_value (ran : graphicDrawPixel g x y color = some cells) :
    cells = (Gui.graphicDrawPixel g x y color).map (writeCell g) := by
  simp only [graphicDrawPixel, Option.bind_eq_bind, Option.bind_eq_some_iff] at ran
  obtain ⟨inside, contains, ran⟩ := ran
  rw [rectContains_value contains] at ran
  rw [Gui.graphicDrawPixel]
  split_ifs at ran ⊢ with shown
  · simp only [Option.bind_eq_some_iff, int_eq_some] at ran
    obtain ⟨_, ⟨_, rfl⟩, _, ⟨_, rfl⟩, ran⟩ := ran
    cases ran
    rfl
  · cases ran
    rfl

theorem fillRectWith_value (ran : fillRectWith g x y width height paint = some cells) :
    cells = (Gui.fillRectWith g x y width height paint).map (writeCell g) := by
  simp only [fillRectWith, Option.bind_eq_bind, Option.bind_eq_some_iff] at ran
  obtain ⟨r, intersection, ran⟩ := ran
  rw [Gui.fillRectWith, ← rectIntersect_value intersection]
  refine eachOf_value (fun yi cells ran => ?_) ran
  rw [List.map_eq_flatMap (l := List.range r.width.toNat)]
  refine eachOf_value (fun xi cells ran => ?_) ran
  simp only [Option.bind_eq_some_iff, int_eq_some] at ran
  obtain ⟨_, ⟨_, rfl⟩, _, ⟨_, rfl⟩, _, ⟨_, rfl⟩, _, ⟨_, rfl⟩, ran⟩ := ran
  cases ran
  rfl

theorem drawRectWith_value (ran : drawRectWith g x y width height thickness paint = some cells) :
    cells = (Gui.drawRectWith g x y width height thickness paint).map (writeCell g) := by
  simp only [drawRectWith, Option.bind_eq_bind, Option.bind_eq_some_iff, int_eq_some] at ran
  obtain ⟨top, one, _, ⟨_, rfl⟩, _, ⟨_, rfl⟩, bottom, two, _, ⟨_, rfl⟩, _, ⟨_, rfl⟩, _, ⟨_, rfl⟩, left, three,
    _, ⟨_, rfl⟩, _, ⟨_, rfl⟩, right, four, ran⟩ := ran
  cases ran
  rw [Gui.drawRectWith, List.map_append, List.map_append, List.map_append, fillRectWith_value one,
    fillRectWith_value two, fillRectWith_value three, fillRectWith_value four]

private theorem graphicDrawChar_value {c : BitVec 8} (ran : graphicDrawChar font g x y c color = some cells) :
    cells = (Gui.graphicDrawChar font g x y c color).map (writeCell g) := by
  refine eachOf_value (fun yi cells ran => eachOf_value (fun xi cells ran => ?_) ran) ran
  split_ifs at ran ⊢ with lit
  · simp only [Option.bind_eq_bind, Option.bind_eq_some_iff, int_eq_some] at ran
    obtain ⟨_, ⟨_, rfl⟩, _, ⟨_, rfl⟩, ran⟩ := ran
    exact graphicDrawPixel_value ran
  · cases ran
    rfl

private theorem wrapPlace_value {rt : Rect} {edge : ℤ} {wrap : Bool} {place next : Point}
    (ran : wrapPlace rt edge wrap place = some next) :
    next = if wrap && place.x + 8 > edge then ⟨rt.x, place.y + 16⟩ else place := by
  cases wrap with
  | false =>
    cases ran
    rfl
  | true =>
    simp only [wrapPlace, if_true, Option.bind_eq_bind, Option.bind_eq_some_iff, int_eq_some] at ran
    obtain ⟨_, ⟨_, rfl⟩, ran⟩ := ran
    simp only [Bool.true_and, decide_eq_true_eq]
    split_ifs at ran ⊢ with full
    · simp only [Option.bind_eq_some_iff, int_eq_some] at ran
      obtain ⟨_, ⟨_, rfl⟩, ran⟩ := ran
      cases ran
      rfl
    · cases ran
      rfl

private theorem drawChars_value {rt : Rect} {wrap : Bool} {place : Point} {str : List (BitVec 8)}
    (ran : drawChars font g rt color wrap place str = some cells) :
    cells = (Gui.drawChars font g rt color wrap place.x place.y str).map (writeCell g) := by
  induction str generalizing place cells with
  | nil =>
    cases ran
    rfl
  | cons c rest ih =>
    rw [drawChars] at ran
    rw [Gui.drawChars]
    by_cases newline : c = 10
    · rw [if_pos newline] at ran ⊢
      simp only [Option.bind_eq_bind, Option.bind_eq_some_iff, int_eq_some] at ran
      obtain ⟨_, ⟨_, rfl⟩, ran⟩ := ran
      exact ih ran
    rw [if_neg newline] at ran ⊢
    simp only [Option.bind_eq_bind, Option.bind_eq_some_iff, int_eq_some] at ran
    obtain ⟨_, ⟨_, rfl⟩, ran⟩ := ran
    split_ifs at ran ⊢ with cut wraps
    · cases ran
      rfl
    all_goals
      simp only [Option.bind_eq_some_iff, int_eq_some] at ran
      obtain ⟨next, moved, first, here, _, ⟨_, rfl⟩, later, more, ran⟩ := ran
      cases ran
      have reached := wrapPlace_value moved
    · rw [if_pos wraps] at reached
      subst reached
      rw [List.map_append, ← graphicDrawChar_value here, ← ih more]
    · rw [if_neg wraps] at reached
      subst reached
      rw [List.map_append, ← graphicDrawChar_value here, ← ih more]

theorem graphicDrawString_value {rt : Rect} {str : List (BitVec 8)} {wrap : Bool}
    (ran : graphicDrawString font g rt str color wrap = some cells) :
    cells = (Gui.graphicDrawString font g rt str color wrap).map (writeCell g) := by
  simp only [graphicDrawString, Option.bind_eq_bind, Option.bind_eq_some_iff] at ran
  obtain ⟨clipping, intersection, ran⟩ := ran
  rw [rectIntersect_value intersection] at ran
  exact drawChars_value ran

theorem drawCall_value {call : DrawCall} (ran : drawCall font g call = some cells) :
    cells = (call.exec font g).map (writeCell g) := by
  cases call with
  | pixel => exact graphicDrawPixel_value ran
  | fillRect => exact fillRectWith_value ran
  | fillRectXor => exact fillRectWith_value ran
  | drawRect => exact drawRectWith_value ran
  | drawRectXor => exact drawRectWith_value ran
  | char => exact graphicDrawChar_value ran
  | string => exact graphicDrawString_value ran

/-- The cells that a copy goes between. -/
def copyCells (g g0 : Graphic) (c : Copy) : CellCopy :=
  ⟨cellIndex g c.toColumn c.toRow, cellIndex g0 c.fromColumn c.fromRow⟩

theorem graphicBitblt_value {g0 : Graphic} {cx cy x0 y0 : ℤ} {copies : List CellCopy}
    (ran : graphicBitblt g x y cx cy g0 x0 y0 = some copies) :
    copies = (Gui.graphicBitblt g x y cx cy g0 x0 y0).map (copyCells g g0) := by
  simp only [graphicBitblt, Option.bind_eq_bind, Option.bind_eq_some_iff, int_eq_some] at ran
  obtain ⟨clippedDst, intersection, _, ⟨_, rfl⟩, _, ⟨_, rfl⟩, _, ⟨_, rfl⟩, _, ⟨_, rfl⟩, _, ⟨_, rfl⟩, _, ⟨_, rfl⟩,
    ran⟩ := ran
  rw [Gui.graphicBitblt]
  dsimp only
  rw [← rectIntersect_value intersection]
  refine eachOf_value (fun yi copies ran => ?_) ran
  rw [List.map_eq_flatMap (l := List.range _)]
  refine eachOf_value (fun xi copies ran => ?_) ran
  simp only [bitbltCell, Option.bind_eq_bind, Option.bind_eq_some_iff, int_eq_some] at ran
  obtain ⟨_, ⟨_, rfl⟩, _, ⟨_, rfl⟩, _, ⟨_, rfl⟩, _, ⟨_, rfl⟩, _, ⟨_, rfl⟩, _, ⟨_, rfl⟩, _, ⟨_, rfl⟩, _, ⟨_, rfl⟩,
    ran⟩ := ran
  cases ran
  rfl

/-- The same call with unbounded integers. -/
def Figure.call : Figure → DrawCall
  | .pixel x y color => .pixel x y color
  | .fillRect x y width height color => .fillRect x y width height color
  | .fillRectXor x y width height color => .fillRectXor x y width height color
  | .drawRect x y width height thickness color => .drawRect x y width height thickness color
  | .drawRectXor x y width height thickness color => .drawRectXor x y width height thickness color
  | .char x y c color => .char x y c color

theorem exec_value {figure : Figure} (ran : figure.exec font g = some cells) :
    cells = (figure.call.exec font g).map (writeCell g) := by
  cases figure with
  | pixel => exact graphicDrawPixel_value ran
  | fillRect => exact fillRectWith_value ran
  | fillRectXor => exact fillRectWith_value ran
  | drawRect => exact drawRectWith_value ran
  | drawRectXor => exact drawRectWith_value ran
  | char => exact graphicDrawChar_value ran

/-! ## Offset and clipping -/

/-- The sizes of the surface are values of `int`. -/
structure SmallSurface (g : Graphic) : Prop where
  width : g.width < 2 ^ 31
  height : g.height < 2 ^ 31

/-- Every cell of the surface has an index in `uint32_t`. -/
structure Addressed (g : Graphic) : Prop extends SmallSurface g where
  wide : g.width ≤ g.pitch
  indexed : g.pitch * g.height ≤ 2 ^ 32

theorem toInt_of_lt {n : ℕ} (small : n < 2 ^ 31) : toInt n = n := by
  have same : u32 n = n := u32_of_lt (Nat.lt_trans small (by decide))
  rw [toInt, same, if_pos small]

theorem graphicSetClipping_value {rt : Option Rect} (surface : SmallSurface g)
    (ran : graphicSetClipping g rt = some after) : after = Gui.graphicSetClipping g rt := by
  simp only [graphicSetClipping, toInt_of_lt surface.width, toInt_of_lt surface.height, Option.bind_eq_bind,
    Option.bind_eq_some_iff, int_eq_some] at ran
  obtain ⟨_, ⟨_, rfl⟩, _, ⟨_, rfl⟩, _, ⟨_, rfl⟩, _, ⟨_, rfl⟩, _, ⟨_, rfl⟩, _, ⟨_, rfl⟩, ran⟩ := ran
  cases rt with
  | none =>
    cases ran
    rfl
  | some rt =>
    simp only [Option.bind_eq_some_iff] at ran
    obtain ⟨clipping, intersection, ran⟩ := ran
    cases ran
    rw [rectIntersect_value intersection]
    rfl

theorem graphicSetOffset_value {rt : Option Rect} (surface : SmallSurface g)
    (ran : graphicSetOffset g rt = some after) : after = Gui.graphicSetOffset g rt := by
  have moved : SmallSurface { g with offset := rt.getD ⟨0, 0, g.width, g.height⟩ } := ⟨surface.width, surface.height⟩
  rw [graphicSetOffset, toInt_of_lt surface.width, toInt_of_lt surface.height] at ran
  exact graphicSetClipping_value moved ran

/-! ## Cells -/

/-- The cell of a pixel of the surface is computed without a wrap. -/
theorem cellIndex_eq {column row : ℕ} (left : column < g.pitch) (top : row < g.height)
    (indexed : g.pitch * g.height ≤ 2 ^ 32) : cellIndex g column row = column + row * g.pitch := by
  have before : column + row * g.pitch < 2 ^ 32 := by
    calc column + row * g.pitch < g.pitch + row * g.pitch := Nat.add_lt_add_right left _
      _ = g.pitch * (row + 1) := by rw [Nat.mul_succ, Nat.mul_comm, Nat.add_comm]
      _ ≤ g.pitch * g.height := Nat.mul_le_mul_left _ top
      _ ≤ 2 ^ 32 := indexed
  rw [cellIndex]
  omega

/-- The columns and rows of one index are the same. -/
theorem index_inj {pitch column row column' row' : ℕ} (left : column < pitch) (left' : column' < pitch)
    (same : column + row * pitch = column' + row' * pitch) : column = column' ∧ row = row' := by
  have columns := congrArg (· % pitch) same
  simp only [Nat.add_mul_mod_self_right] at columns
  rw [Nat.mod_eq_of_lt left, Nat.mod_eq_of_lt left'] at columns
  subst columns
  exact ⟨rfl, Nat.eq_of_mul_eq_mul_right (Nat.zero_lt_of_lt left) (Nat.add_left_cancel same)⟩

/-- Each pixel of the surface has a cell of its own. -/
theorem cellIndex_iff {column row : ℕ} (inside : g.Surface x y) (left : column < g.width) (wide : g.width ≤ g.pitch)
    (indexed : g.pitch * g.height ≤ 2 ^ 32) : cellIndex g x y = column + row * g.pitch ↔ x = column ∧ y = row := by
  obtain ⟨⟨first, last⟩, upper, lower⟩ := inside
  obtain ⟨c, rfl⟩ := Int.eq_ofNat_of_zero_le first
  obtain ⟨r, rfl⟩ := Int.eq_ofNat_of_zero_le upper
  rw [cellIndex_eq (by omega) (by omega) indexed, Int.ofNat_inj, Int.ofNat_inj]
  constructor
  · exact index_inj (by omega) (by omega)
  · rintro ⟨rfl, rfl⟩
    rfl

/-- A cell of the surface is written exactly if its pixel is. -/
theorem stored_iff {writes : List Write} {column : ℕ} (row : ℕ) (inside : ∀ w ∈ writes, g.Surface w.column w.row)
    (left : column < g.width) (wide : g.width ≤ g.pitch) (indexed : g.pitch * g.height ≤ 2 ^ 32) :
    (∃ c ∈ writes.map (writeCell g), c.index = column + row * g.pitch) ↔ Touches writes column row := by
  constructor
  · rintro ⟨c, stored, index⟩
    obtain ⟨w, member, rfl⟩ := List.mem_map.mp stored
    exact ⟨w, member, (cellIndex_iff (inside w member) left wide indexed).mp index⟩
  · rintro ⟨w, member, place⟩
    exact ⟨_, List.mem_map_of_mem member, (cellIndex_iff (inside w member) left wide indexed).mpr place⟩

end Values

end RubberOS.Model.Gui.Checked
