import Mathlib.Algebra.Ring.Int.Defs
import RubberOS.Proofs.CheckedBounds

/-! # Clipped text

`graphic_draw_string` breaks lines at the right edge of the clipping rectangle. The text stands in a grid with as many
columns as fit left of that edge, and a smaller clipping rectangle shows the same text only where the two grids agree.
-/

namespace RubberOS.Soundness.TextClipping

open Model Model.Gui

/-- A character in a grid of text. -/
structure TextCell where
  row : ℕ
  column : ℕ
  char : BitVec 8
deriving DecidableEq

/-- The row of a line's character, counted from the line's first row. A grid without a column leaves that row
empty. -/
def charRow (wrap : Bool) (columns index : ℕ) : ℕ :=
  if wrap then if columns = 0 then index + 1 else index / columns else 0

def charColumn (wrap : Bool) (columns index : ℕ) : ℕ :=
  if wrap then if columns = 0 then 0 else index % columns else index

/-- The row that is reached after these many characters of a line. -/
def cursorRow (wrap : Bool) (columns : ℕ) : ℕ → ℕ
  | 0 => 0
  | index + 1 => charRow wrap columns index

def cursorColumn (wrap : Bool) (columns : ℕ) : ℕ → ℕ
  | 0 => 0
  | index + 1 => charColumn wrap columns index + 1

/-- The text in a grid of so many columns, from a line's character on. Without wrapping, a line that is too long is
cut there, and with it the text. -/
def textCells (wrap : Bool) (columns row index : ℕ) : List (BitVec 8) → List TextCell
  | [] => []
  | c :: rest =>
    if c = 10 then textCells wrap columns (row + cursorRow wrap columns index + 1) 0 rest
    else if !wrap && columns ≤ index then []
    else ⟨row + charRow wrap columns index, charColumn wrap columns index, c⟩ :: textCells wrap columns row (index + 1) rest

/-- The columns left of a clipping rectangle's right edge: for wrapped text those that fit, else also a partial
one. -/
def textColumns (wrap : Bool) (clip rt : Rect) : ℕ :=
  if wrap then ((clip.x + clip.width - rt.x) / 8).toNat else ((clip.x + clip.width - rt.x + 7) / 8).toNat

/-- A character of the grid has a pixel here. -/
def Lit (font : ℕ → BitVec 8) (rt : Rect) (cells : List TextCell) (x y : ℤ) : Prop :=
  ∃ cell ∈ cells, ∃ yi < 16, ∃ xi < 8, (font (cell.char.toNat * 16 + yi)).getMsbD xi = true ∧
    x = rt.x + 8 * cell.column + xi ∧ y = rt.y + 16 * cell.row + yi

section Layout

variable {font : ℕ → BitVec 8} {g : Graphic} {rt : Rect} {color : Color} {wrap : Bool} {columns : ℕ} {x y : ℤ}

/-- Where the grid has no column left, the next character begins a row. -/
private theorem char_wrapped (index : ℕ) (full : columns ≤ cursorColumn true columns index) :
    charColumn true columns index = 0 ∧ charRow true columns index = cursorRow true columns index + 1 := by
  cases index with
  | zero =>
    have none : columns = 0 := Nat.le_zero.mp full
    subst none
    exact ⟨rfl, rfl⟩
  | succ index =>
    simp only [cursorColumn, cursorRow, charColumn, charRow, if_true] at full ⊢
    split_ifs at full ⊢ with none
    · exact ⟨rfl, rfl⟩
    · have last : index % columns + 1 = columns := Nat.le_antisymm (Nat.mod_lt _ (Nat.pos_of_ne_zero none)) full
      have next : index + 1 = columns * (index / columns + 1) := by
        have whole := Nat.div_add_mod index columns
        rw [Nat.mul_add, Nat.mul_one]
        omega
      rw [next, Nat.mul_mod_right, Nat.mul_div_cancel_left _ (Nat.pos_of_ne_zero none)]
      exact ⟨rfl, rfl⟩

/-- Else it stands at the cursor. -/
private theorem char_here (wrap : Bool) (columns index : ℕ)
    (room : wrap = true → cursorColumn true columns index < columns) :
    charColumn wrap columns index = cursorColumn wrap columns index ∧
      charRow wrap columns index = cursorRow wrap columns index := by
  cases wrap with
  | false =>
    cases index with
    | zero => exact ⟨rfl, rfl⟩
    | succ index => exact ⟨rfl, rfl⟩
  | true =>
    have room := room rfl
    cases index with
    | zero =>
      have some_ : columns ≠ 0 := Nat.ne_of_gt room
      simp only [charColumn, charRow, cursorColumn, cursorRow, if_true, if_neg some_, Nat.zero_mod,
        Nat.zero_div, and_self]
    | succ index =>
      simp only [cursorColumn, cursorRow, charColumn, charRow, if_true] at room ⊢
      split_ifs at room ⊢ with none
      · omega
      · have next : index + 1 = columns * (index / columns) + (index % columns + 1) := by
          have whole := Nat.div_add_mod index columns
          omega
        constructor
        · rw [next, Nat.mul_add_mod, Nat.mod_eq_of_lt room]
        · rw [next, Nat.mul_add_div (Nat.pos_of_ne_zero none), Nat.div_eq_of_lt room, Nat.add_zero]

/-- Wrapped text goes on in the next row where the grid has no column left. -/
private theorem wraps_iff (clip rt : Rect) (column : ℕ) :
    rt.x + 8 * column + 8 > clip.x + clip.width ↔ textColumns true clip rt ≤ column := by
  rw [textColumns, if_pos rfl]
  omega

/-- Other text is cut there. -/
private theorem cut_iff (clip rt : Rect) (column : ℕ) :
    rt.x + 8 * column ≥ clip.x + clip.width ↔ textColumns false clip rt ≤ column := by
  rw [textColumns, if_neg Bool.false_ne_true]
  omega

/-- The loop of `graphic_draw_string` draws the cells of the grid. -/
private theorem drawChars_cells (str : List (BitVec 8)) (row index : ℕ) :
    drawChars font g rt color wrap (rt.x + 8 * cursorColumn wrap (textColumns wrap g.clipping rt) index)
        (rt.y + 16 * (row + cursorRow wrap (textColumns wrap g.clipping rt) index : ℕ)) str =
      (textCells wrap (textColumns wrap g.clipping rt) row index str).flatMap fun cell =>
        graphicDrawChar font g (rt.x + 8 * cell.column) (rt.y + 16 * cell.row) cell.char color := by
  induction str generalizing row index with
  | nil => rfl
  | cons c rest ih =>
    have after := ih row (index + 1)
    rw [drawChars, textCells]
    by_cases newline : c = 10
    · rw [if_pos newline, if_pos newline, ← ih, cursorColumn, cursorRow]
      congr 1
      · omega
      · omega
    rw [if_neg newline, if_neg newline]
    rw [cursorColumn, cursorRow, Nat.cast_succ, mul_add, mul_one, ← add_assoc] at after
    cases wrap with
    | false =>
      obtain ⟨column, line⟩ := char_here false (textColumns false g.clipping rt) index fun wraps => absurd wraps Bool.false_ne_true
      simp only [Bool.not_false, Bool.true_and, decide_eq_true_eq, Bool.false_and,
        Bool.false_eq_true, if_false, cut_iff,
        ← column, ← line]
      by_cases full : textColumns false g.clipping rt ≤ index
      · rw [if_pos full, if_pos (by exact full)]
        rfl
      · rw [if_neg full, if_neg (by exact full), List.flatMap_cons, ← after]
    | true =>
      simp only [Bool.not_true, Bool.false_and, Bool.false_eq_true, if_false, Bool.true_and,
        decide_eq_true_eq, wraps_iff]
      rw [List.flatMap_cons, ← after]
      by_cases full : textColumns true g.clipping rt ≤ cursorColumn true (textColumns true g.clipping rt) index
      · obtain ⟨column, line⟩ := char_wrapped index full
        rw [if_pos full, column, line, Nat.cast_zero, mul_zero, add_zero, ← Nat.add_assoc,
          Nat.cast_succ, mul_add, mul_one,
          ← add_assoc]
      · obtain ⟨column, line⟩ := char_here true _ index fun _ => Nat.lt_of_not_le full
        rw [if_neg full, column, line]

private theorem touches_char {a b : ℤ} {c : BitVec 8} : Touches (graphicDrawChar font g a b c color) x y ↔
    g.Inside g.clipping x y ∧ ∃ yi < 16, ∃ xi < 8, (font (c.toNat * 16 + yi)).getMsbD xi = true ∧
      x - g.offset.x = a + xi ∧ y - g.offset.y = b + yi := by
  rw [graphicDrawChar, touches_flatMap]
  simp only [touches_flatMap, List.mem_range]
  constructor
  · rintro ⟨yi, row, xi, column, touched⟩
    split at touched
    · rename_i lit
      obtain ⟨inside, rfl, rfl⟩ := touches_pixel.mp touched
      exact ⟨inside, yi, row, xi, column, lit, Int.add_sub_cancel _ _, Int.add_sub_cancel _ _⟩
    · exact absurd touched touches_nil
  · rintro ⟨inside, yi, row, xi, column, lit, onColumn, onRow⟩
    refine ⟨yi, row, xi, column, ?_⟩
    rw [if_pos lit, touches_pixel]
    exact ⟨inside, by omega, by omega⟩

/-- A string is drawn where its target rectangle meets the clipping rectangle, as it stands in that part's grid. -/
private theorem touches_string {str : List (BitVec 8)} : Touches (graphicDrawString font g rt str color wrap) x y ↔
    g.Inside (rectIntersect g.clipping rt) x y ∧
      Lit font rt (textCells wrap (textColumns wrap (rectIntersect g.clipping rt) rt) 0 0 str) (x - g.offset.x)
        (y - g.offset.y) := by
  have drawn : graphicDrawString font g rt str color wrap =
      (textCells wrap (textColumns wrap (rectIntersect g.clipping rt) rt) 0 0 str).flatMap fun cell =>
        graphicDrawChar font { g with clipping := rectIntersect g.clipping rt }
          (rt.x + 8 * cell.column) (rt.y + 16 * cell.row)
          cell.char color := by
    rw [← drawChars_cells, graphicDrawString, cursorColumn, cursorRow]
    congr 1
    · omega
    · omega
  rw [drawn, touches_flatMap]
  simp only [touches_char]
  constructor
  · rintro ⟨cell, member, inside, lit⟩
    exact ⟨inside, cell, member, lit⟩
  · rintro ⟨inside, cell, member, lit⟩
    exact ⟨cell, member, inside, lit⟩

end Layout

/-- Of the pixels of the surface, the smaller rectangle shows those of its own that the larger one shows. -/
def ClippingSelects (g : Graphic) (small : Rect) (part whole : List Checked.Cell) : Prop :=
  ∀ column < g.width, ∀ row < g.height, (∃ c ∈ part, c.index = column + row * g.pitch) ↔
    g.Inside small column row ∧ ∃ c ∈ whole, c.index = column + row * g.pitch

/-! ## The condition -/

/-- The lengths of the lines with text in a later line, from a line's character on. -/
def endedLines (index : ℕ) : List (BitVec 8) → List ℕ
  | [] => []
  | c :: rest =>
    if rest.all (· = 10) then [] else if c = 10 then index :: endedLines 0 rest else endedLines (index + 1) rest

/-- The lengths of all lines, from a line's character on. -/
def lineLengths (index : ℕ) : List (BitVec 8) → List ℕ
  | [] => [index]
  | c :: rest => if c = 10 then index :: lineLengths 0 rest else lineLengths (index + 1) rest

/-- Of the lines with text in a later line, the first one that a grid of so many columns cuts is also cut by the other
grid. -/
def CutAlike (columns wider : ℕ) (lengths : List ℕ) : Prop := ∀ n, lengths.find? (columns < ·) = some n → wider < n

/-- The text has the same place in grids of so many columns. -/
def StandsAlike (columns wider : ℕ) (wrap : Bool) (str : List (BitVec 8)) : Prop :=
  columns = wider ∨
    if wrap then ∀ n ∈ lineLengths 0 str, n ≤ columns else CutAlike columns wider (endedLines 0 str)

section Alike

variable {columns wider row index : ℕ} {str : List (BitVec 8)} {cell : TextCell}

private theorem CutAlike.tail {n : ℕ} {lengths : List ℕ} (alike : CutAlike columns wider (n :: lengths))
    (short : n ≤ columns) :
    CutAlike columns wider lengths := by
  intro m found
  refine alike m ?_
  rw [List.find?_cons_of_neg (by rw [decide_eq_true_eq]; omega)]
  exact found

private theorem textCells_newlines {wrap : Bool} (blank : str.all (· = 10) = true) :
    textCells wrap columns row index str = [] := by
  induction str generalizing row index with
  | nil => rfl
  | cons c rest ih =>
    rw [List.all_cons, Bool.and_eq_true, decide_eq_true_eq] at blank
    rw [textCells, if_pos blank.1]
    exact ih blank.2

/-- Beyond the columns, the wider grid has the end of one line. -/
private theorem column_of_beyond (alike : CutAlike columns wider (endedLines index str)) (beyond : columns < index)
    (inside : index ≤ wider) (member : cell ∈ textCells false wider row index str) : columns ≤ cell.column := by
  induction str generalizing row index with
  | nil => cases member
  | cons c rest ih =>
    rw [textCells] at member
    rw [endedLines] at alike
    simp only [Bool.not_false, Bool.true_and, decide_eq_true_eq] at member
    by_cases blank : rest.all (· = 10) = true
    · rw [textCells_newlines blank, textCells_newlines blank] at member
      split_ifs at member with newline full
      · cases member
      · cases member
      · rw [List.mem_singleton.mp member]
        exact Nat.le_of_lt beyond
    rw [if_neg blank] at alike
    split_ifs at member alike with newline full
    · have longer := alike index (List.find?_cons_of_pos (by rwa [decide_eq_true_eq]))
      omega
    · cases member
    · rcases List.mem_cons.mp member with rfl | later
      · exact Nat.le_of_lt beyond
      · exact ih alike (by omega) (by omega) later

/-- Without wrapping, the narrower grid has the cells of the wider one in its columns. -/
private theorem mem_textCells_iff (alike : CutAlike columns wider (endedLines index str)) (fewer : columns ≤ wider)
    (inside : index ≤ columns) : cell ∈ textCells false columns row index str ↔
      cell ∈ textCells false wider row index str ∧ cell.column < columns := by
  induction str generalizing row index with
  | nil => exact ⟨nofun, fun both => both.1⟩
  | cons c rest ih =>
    have cursor (n : ℕ) : cursorRow false n index = 0 := by
      cases index with
      | zero => rfl
      | succ index => rfl
    have here (n : ℕ) : (⟨row + charRow false n index, charColumn false n index, c⟩ : TextCell) = ⟨row, index, c⟩ := rfl
    rw [textCells, textCells, cursor, cursor, here, here]
    rw [endedLines] at alike
    simp only [Bool.not_false, Bool.true_and, decide_eq_true_eq]
    by_cases blank : rest.all (· = 10) = true
    · simp only [textCells_newlines blank]
      split_ifs with newline full fuller fuller
      · exact ⟨nofun, fun both => nomatch both.1⟩
      · exact ⟨nofun, fun both => nomatch both.1⟩
      · refine ⟨nofun, fun ⟨member, left⟩ => ?_⟩
        rw [List.mem_singleton.mp member] at left
        exact absurd left (Nat.not_lt_of_le full)
      · omega
      · refine ⟨fun member => ⟨member, ?_⟩, fun both => both.1⟩
        rw [List.mem_singleton.mp member]
        exact Nat.lt_of_not_le full
    rw [if_neg blank] at alike
    split_ifs at alike ⊢ with newline full fuller fuller
    · exact ih (alike.tail inside) (Nat.zero_le _)
    · exact ⟨nofun, fun both => nomatch both.1⟩
    · refine ⟨nofun, fun ⟨member, left⟩ => ?_⟩
      rcases List.mem_cons.mp member with rfl | later
      · exact absurd left (Nat.not_lt_of_le full)
      · have right := column_of_beyond alike (by omega) (by omega) later
        omega
    · omega
    · rw [List.mem_cons, List.mem_cons, ih alike (by omega), or_and_right]
      refine or_congr_left ?_
      constructor
      · rintro rfl
        exact ⟨rfl, Nat.lt_of_not_le full⟩
      · rintro ⟨rfl, _⟩
        rfl

/-- The current line is at least as long as what stands before it. -/
private theorem exists_lineLength (index : ℕ) (str : List (BitVec 8)) : ∃ n ∈ lineLengths index str, index ≤ n := by
  induction str generalizing index with
  | nil => exact ⟨index, List.mem_singleton_self _, le_rfl⟩
  | cons c rest ih =>
    rw [lineLengths]
    split_ifs with newline
    · exact ⟨index, List.mem_cons_self, le_rfl⟩
    · obtain ⟨n, member, longer⟩ := ih (index + 1)
      exact ⟨n, member, by omega⟩

/-- A line that fits stands in one row. -/
private theorem charRow_fits {n : ℕ} (room : index < n) :
    charRow true n index = 0 ∧ charColumn true n index = index := by
  have some_ : n ≠ 0 := Nat.ne_of_gt (Nat.zero_lt_of_lt room)
  rw [charRow, charColumn, if_pos rfl, if_pos rfl, if_neg some_, if_neg some_, Nat.div_eq_of_lt room, Nat.mod_eq_of_lt room]
  exact ⟨rfl, rfl⟩

/-- With wrapping, lines that fit stand the same in a wider grid. -/
private theorem textCells_wrapped (fits : ∀ n ∈ lineLengths index str, n ≤ columns) (fewer : columns ≤ wider) :
    textCells true columns row index str = textCells true wider row index str := by
  induction str generalizing row index with
  | nil => rfl
  | cons c rest ih =>
    rw [textCells, textCells]
    rw [lineLengths] at fits
    simp only [Bool.not_true, Bool.false_and, Bool.false_eq_true, if_false]
    split_ifs at fits ⊢ with newline
    · have room := fits index List.mem_cons_self
      have cursor {n : ℕ} (room : index ≤ n) : cursorRow true n index = 0 := by
        cases index with
        | zero => rfl
        | succ index => exact (charRow_fits room).1
      rw [cursor room, cursor (by omega)]
      exact ih fun n member => fits n (List.mem_cons_of_mem _ member)
    · obtain ⟨n, member, longer⟩ := exists_lineLength (index + 1) rest
      have room := fits n member
      obtain ⟨line, column⟩ := charRow_fits (show index < columns by omega)
      obtain ⟨line', column'⟩ := charRow_fits (show index < wider by omega)
      rw [line, column, line', column', ih fits]

end Alike

/-! ## Selection -/

/-- The grids of the two rectangles show the same glyph pixels in the smaller one. -/
def SameText (font : ℕ → BitVec 8) (small large rt : Rect) (str : List (BitVec 8)) (wrap : Bool) : Prop :=
  ∀ x y, rectContains (rectIntersect small rt) x y = true →
    (Lit font rt (textCells wrap (textColumns wrap (rectIntersect small rt) rt) 0 0 str) x y ↔
      Lit font rt (textCells wrap (textColumns wrap (rectIntersect large rt) rt) 0 0 str) x y)

section Selection

variable {font : ℕ → BitVec 8} {g : Graphic} {small large rt : Rect} {str : List (BitVec 8)} {color : Color} {wrap : Bool}

private theorem intersect_within (within : ∀ x y, rectContains small x y = true → rectContains large x y = true)
    {x y : ℤ}
    (inside : rectContains (rectIntersect small rt) x y = true) :
    rectContains (rectIntersect large rt) x y = true := by
  obtain ⟨clipped, target⟩ := rectContains_intersect.mp inside
  exact rectContains_intersect.mpr ⟨within x y clipped, target⟩

/-- Clipping selects pixels of a string where the text stands the same in both grids. -/
private theorem touches_clipped (within : ∀ x y, rectContains small x y = true → rectContains large x y = true)
    (same : SameText font small large rt str wrap) {x y : ℤ} :
    Touches (graphicDrawString font { g with clipping := small } rt str color wrap) x y ↔
      g.Inside small x y ∧ Touches (graphicDrawString font { g with clipping := large } rt str color wrap) x y := by
  have expand (clip : Rect) (x y : ℤ) :
      Touches (graphicDrawString font { g with clipping := clip } rt str color wrap) x y ↔
      rectContains (rectIntersect clip rt) (x - g.offset.x) (y - g.offset.y) = true ∧
        Lit font rt (textCells wrap (textColumns wrap (rectIntersect clip rt) rt) 0 0 str)
            (x - g.offset.x) (y - g.offset.y) :=
    touches_string
  rw [expand, expand, Graphic.Inside]
  constructor
  · rintro ⟨inside, lit⟩
    exact ⟨(rectContains_intersect.mp inside).1, intersect_within within inside, (same _ _ inside).mp lit⟩
  · rintro ⟨clipped, whole, lit⟩
    have inside := rectContains_intersect.mpr ⟨clipped, (rectContains_intersect.mp whole).2⟩
    exact ⟨inside, (same _ _ inside).mpr lit⟩

/-- A larger rectangle has no fewer columns. -/
private theorem textColumns_mono {part whole : Rect} (wrap : Bool)
    (edge : part.x + part.width ≤ whole.x + whole.width) :
    textColumns wrap part rt ≤ textColumns wrap whole rt := by
  cases wrap with
  | false => exact (cut_iff part rt _).mp (Int.le_trans edge ((cut_iff whole rt _).mpr le_rfl))
  | true => exact (wraps_iff part rt _).mp (Int.lt_of_le_of_lt edge ((wraps_iff whole rt _).mpr le_rfl))

/-- The columns and the lines of a text tell where it is the same. -/
private theorem sameText_of_standsAlike (within : ∀ x y, rectContains small x y = true → rectContains large x y = true)
    (alike : (∃ x y, rectContains (rectIntersect small rt) x y = true) →
      StandsAlike (textColumns wrap (rectIntersect small rt) rt) (textColumns wrap (rectIntersect large rt) rt) wrap str) :
    SameText font small large rt str wrap := by
  intro x y inside
  have alike := alike ⟨x, y, inside⟩
  have larger {x y : ℤ} := @intersect_within small large rt within x y
  generalize rectIntersect small rt = part at *
  generalize rectIntersect large rt = whole at *
  have last : rectContains part (part.x + part.width - 1) y = true := by
    rw [rectContains_iff] at inside ⊢
    omega
  have beyond := (rectContains_iff.mp (larger last)).1.2
  have left := (rectContains_iff.mp inside).1.2
  have fewer := @textColumns_mono rt part whole wrap (by omega)
  rcases alike with same | alike
  · rw [same]
  cases wrap with
  | true =>
    rw [if_pos rfl] at alike
    rw [textCells_wrapped alike fewer]
  | false =>
    rw [if_neg Bool.false_ne_true] at alike
    have cells {cell : TextCell} := @mem_textCells_iff _ _ 0 0 str cell alike fewer (Nat.zero_le _)
    constructor
    · rintro ⟨cell, member, lit⟩
      exact ⟨cell, (cells.mp member).1, lit⟩
    · rintro ⟨cell, member, yi, row, xi, column, lit, rfl, onRow⟩
      have edge := (cut_iff part rt (textColumns false part rt)).mpr le_rfl
      exact ⟨cell, cells.mpr ⟨member, by omega⟩, yi, row, xi, column, lit, rfl, onRow⟩

/-- The string goes to pixels of the surface where the clipping rectangle does. -/
private theorem string_surface {clip : Rect} {writes : List Write}
    (shown : ∀ x y, rectContains clip x y = true → g.Surface (x + g.offset.x) (y + g.offset.y))
    (drawn : writes = graphicDrawString font { g with clipping := clip } rt str color wrap) :
    ∀ w ∈ writes, g.Surface w.column w.row := by
  intro w member
  have clipped := clipped_string font { g with clipping := clip } rt str color wrap w.column w.row
    ⟨w, by rwa [← drawn], rfl, rfl⟩
  have inside := shown _ _ clipped
  rwa [Int.sub_add_cancel, Int.sub_add_cancel] at inside

/-- With small coordinates, both calls have a behaviour. Whenever they do, clipping selects pixels of a string whose text
has the same place in the columns of both rectangles, unless the smaller one shows nothing of the target. -/
theorem clipping_selects (font : ℕ → BitVec 8) (g : Graphic) (small large rt : Rect) (str : List (BitVec 8)) (color : Color)
    (wrap : Bool) (addressed : Checked.Addressed g)
    (shown : ∀ x y, rectContains large x y = true → g.Surface (x + g.offset.x) (y + g.offset.y))
    (within : ∀ x y, rectContains small x y = true → rectContains large x y = true)
    (alike : (∃ x y, rectContains (rectIntersect small rt) x y = true) →
      StandsAlike (textColumns wrap (rectIntersect small rt) rt) (textColumns wrap (rectIntersect large rt) rt) wrap str) :
    (g.offset.Within (2 ^ 26) → small.Within (2 ^ 26) → large.Within (2 ^ 26) → rt.Within (2 ^ 26) → str.length ≤ 2 ^ 22 →
      ∃ part whole, Checked.graphicDrawString font { g with clipping := small } rt str color wrap = some part ∧
        Checked.graphicDrawString font { g with clipping := large } rt str color wrap = some whole) ∧
    ∀ part whole, Checked.graphicDrawString font { g with clipping := small } rt str color wrap = some part →
      Checked.graphicDrawString font { g with clipping := large } rt str color wrap = some whole →
        ClippingSelects g small part whole := by
  constructor
  · intro offset near wide target short
    obtain ⟨part, one⟩ := @Checked.graphicDrawString_some font { g with clipping := small } rt str
      ⟨offset.mono (by decide), near.mono (by decide)⟩ (target.mono (by decide)) short color wrap
    obtain ⟨whole, two⟩ := @Checked.graphicDrawString_some font { g with clipping := large } rt str
      ⟨offset.mono (by decide), wide.mono (by decide)⟩ (target.mono (by decide)) short color wrap
    exact ⟨part, whole, one, two⟩
  · intro part whole one two column left row _
    have same := @touches_clipped font g small large rt str color wrap within (sameText_of_standsAlike within alike) column row
    have partCells := Checked.stored_iff row
      (@string_surface font g rt str color wrap small _ (fun x y inside => shown x y (within x y inside)) rfl) left
      addressed.wide addressed.indexed
    have wholeCells := Checked.stored_iff row (@string_surface font g rt str color wrap large _ shown rfl) left
      addressed.wide addressed.indexed
    rw [Checked.graphicDrawString_value one, Checked.graphicDrawString_value two]
    exact partCells.trans (same.trans (and_congr_right' wholeCells.symm))

end Selection

/-! ## Two lines -/

/-- The glyph of the letter B in `g_ascii_font`. -/
def letterB : List (BitVec 8) :=
  [0x00, 0x00, 0x00, 0x7C, 0x46, 0x42, 0x42, 0x44, 0x78, 0x46, 0x42, 0x42, 0x46, 0x7C, 0x00, 0x00]

/-- `g_ascii_font` as far as strings of this letter read it. -/
def fontB (index : ℕ) : BitVec 8 := letterB.getD (index - 66 * 16) 0

/-- A surface that is shown as a whole. -/
def wholeSurface : Graphic := ⟨64, 64, 32, ⟨0, 0, 64, 32⟩, ⟨0, 0, 64, 32⟩⟩

private theorem wholeSurface_addressed :
    Checked.Addressed wholeSurface := ⟨⟨by decide, by decide⟩, by decide, by decide⟩

private theorem wholeSurface_shown (x y : ℤ) (inside : rectContains ⟨0, 0, 64, 32⟩ x y = true) :
    wholeSurface.Surface (x + wholeSurface.offset.x) (y + wholeSurface.offset.y) := by
  rw [rectContains_iff] at inside
  simp only [wholeSurface, Graphic.Surface] at inside ⊢
  omega

private theorem left_within {width x y : ℤ} (narrow : width ≤ 64) (inside : rectContains ⟨0, 0, width, 32⟩ x y = true) :
    rectContains ⟨0, 0, 64, 32⟩ x y = true := by
  rw [rectContains_iff] at inside ⊢
  dsimp only at inside ⊢
  omega

/-- Two lines that fit in the three columns of the smaller rectangle. -/
theorem clipping_selects_two_lines :
    ∃ part whole,
      Checked.graphicDrawString fontB { wholeSurface with clipping := ⟨0, 0, 20, 32⟩ } ⟨0, 0, 64, 32⟩ [66, 66, 10, 66] 0 false =
        some part ∧
      Checked.graphicDrawString fontB wholeSurface ⟨0, 0, 64, 32⟩ [66, 66, 10, 66] 0 false = some whole ∧
      ClippingSelects wholeSurface ⟨0, 0, 20, 32⟩ part whole := by
  obtain ⟨runs, selects⟩ := clipping_selects fontB wholeSurface ⟨0, 0, 20, 32⟩ ⟨0, 0, 64, 32⟩ ⟨0, 0, 64, 32⟩ [66, 66, 10, 66] 0
    false wholeSurface_addressed wholeSurface_shown (fun x y inside => left_within (by decide) inside) (fun _ => by
      right
      intro n found
      cases found)
  obtain ⟨part, whole, one, two⟩ := runs (within_iff.mpr (by decide)) (within_iff.mpr (by decide)) (within_iff.mpr (by decide))
    (within_iff.mpr (by decide)) (by decide)
  exact ⟨part, whole, one, two, selects part whole one two⟩

/-- The second line is left out when the first one reaches beyond the clipping rectangle. -/
theorem second_line_missing :
    (∀ x y, rectContains ⟨0, 0, 8, 32⟩ x y = true → rectContains ⟨0, 0, 64, 32⟩ x y = true) ∧
    ∃ part whole,
      Checked.graphicDrawString fontB { wholeSurface with clipping := ⟨0, 0, 8, 32⟩ } ⟨0, 0, 64, 32⟩ [66, 66, 10, 66] 0 false =
        some part ∧
      Checked.graphicDrawString fontB wholeSurface ⟨0, 0, 64, 32⟩ [66, 66, 10, 66] 0 false = some whole ∧
      ¬ ClippingSelects wholeSurface ⟨0, 0, 8, 32⟩ part whole := by
  have target : (⟨0, 0, 64, 32⟩ : Rect).Within (2 ^ 28) := within_iff.mpr (by decide)
  obtain ⟨part, one⟩ := @Checked.graphicDrawString_some fontB { wholeSurface with clipping := ⟨0, 0, 8, 32⟩ } ⟨0, 0, 64, 32⟩
    [66, 66, 10, 66] ⟨within_iff.mpr (by decide), within_iff.mpr (by decide)⟩ target (by decide) 0 false
  obtain ⟨whole, two⟩ := @Checked.graphicDrawString_some fontB wholeSurface ⟨0, 0, 64, 32⟩ [66, 66, 10, 66]
    ⟨within_iff.mpr (by decide), within_iff.mpr (by decide)⟩ target (by decide) 0 false
  refine ⟨fun x y inside => left_within (by decide) inside, part, whole, one, two, fun selects => ?_⟩
  have narrow := @Checked.stored_iff wholeSurface _ 1 19
    (@string_surface fontB wholeSurface ⟨0, 0, 64, 32⟩ [66, 66, 10, 66] 0 false ⟨0, 0, 8, 32⟩ _
      (fun x y inside => wholeSurface_shown x y (left_within (by decide) inside)) rfl) (by decide) (by decide) (by decide)
  have wide := @Checked.stored_iff wholeSurface _ 1 19
    (@string_surface fontB wholeSurface ⟨0, 0, 64, 32⟩ [66, 66, 10, 66] 0 false ⟨0, 0, 64, 32⟩ _ wholeSurface_shown rfl)
      (by decide) (by decide) (by decide)
  have here := selects 1 (by decide) 19 (by decide)
  rw [Checked.graphicDrawString_value one, Checked.graphicDrawString_value two] at here
  have drawn : Touches (graphicDrawString fontB wholeSurface ⟨0, 0, 64, 32⟩ [66, 66, 10, 66] 0 false) (1 : ℕ) (19 : ℕ) :=
    ⟨⟨1, 19, .set 0⟩, by decide +kernel, rfl, rfl⟩
  obtain ⟨w, member, place⟩ := narrow.mp (here.mpr ⟨rfl, wide.mpr drawn⟩)
  have above : ∀ w ∈ graphicDrawString fontB { wholeSurface with clipping := ⟨0, 0, 8, 32⟩ } ⟨0, 0, 64, 32⟩
      [66, 66, 10, 66] 0 false, w.row ≠ 19 := by decide +kernel
  exact above w member place.2

end RubberOS.Soundness.TextClipping
