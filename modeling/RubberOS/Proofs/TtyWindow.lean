import RubberOS.Model.TtyWindow

/-! # The terminal window shows the end of an endless page
 A cursor inside the buffer stays inside it, and then no access leaves the buffer. The page has a row for every
natural number. Its last 25 rows up to the cursor are what the window shows, from the first row on while there are
fewer. Rows below the cursor are blank, so the row that scrolling clears is the next row of the page. -/

namespace RubberOS.Model.Gui

/-! ## The cursor -/

/-- The cursor lies inside the buffer. -/
structure TtyWindow.Inside (tw : TtyWindow) : Prop where
  cursorX : tw.cursorX < 80
  cursorY : tw.cursorY < 25

section Cursor

variable {tw : TtyWindow}

private theorem scroll_spec (tw : TtyWindow) (below : 0 < tw.cursorY) : ∃ buffer,
    scroll tw = .ok ({ tw with buffer, cursorY := tw.cursorY - 1 }, [none]) ∧
    ∀ address < 2000, buffer address = if address < 1920 then tw.buffer (address + 80) else 32 := by
  refine ⟨memset (memcpy tw.buffer 0 80 1920) 1920 32 80, ?_, fun address inside => ?_⟩
  · have rows : TTYW_WIDTH * (TTYW_HEIGHT - 1) = 1920 := rfl
    have moved : (ttyBuffer.holds 0 1920 && ttyBuffer.holds TTYW_WIDTH 1920) = true := rfl
    have cleared : ttyBuffer.holds 1920 TTYW_WIDTH = true := rfl
    rw [scroll, rows]
    refine Except.bind_ok_iff.mpr ⟨_, if_pos moved, Except.bind_ok_iff.mpr ⟨_, if_pos cleared, ?_⟩⟩
    dsimp only
    rw [if_pos below, memmove, if_pos (Nat.zero_le _)]
    rfl
  · rw [memset_apply, memcpy_apply _ (Nat.zero_le _)]
    rcases Nat.lt_or_ge address 1920 with kept | cleared
    · rw [if_neg (by omega), if_pos (by omega), if_pos kept, Nat.sub_zero, Nat.add_comm]
    · rw [if_pos (by omega), if_neg (by omega)]

/-- A new line either goes one row down or scrolls. -/
theorem newline_cases (row : tw.cursorY < 25) :
    tw.cursorY + 1 < 25 ∧ newline tw =
      .ok (⟨tw.cursorY, tw.cursorY + 2⟩, { tw with cursorX := 0, cursorY := tw.cursorY + 1 }, []) ∨
    tw.cursorY = 24 ∧ ∃ buffer, newline tw = .ok (⟨0, TTYW_HEIGHT⟩, ⟨buffer, 0, 24⟩, [none]) ∧
      ∀ address < 2000, buffer address = if address < 1920 then tw.buffer (address + 80) else 32 := by
  have next : u16 (tw.cursorY + 1) = tw.cursorY + 1 := u16_of_lt (by omega)
  rcases Nat.lt_or_ge (tw.cursorY + 1) 25 with inside | last
  · have above : u16 (tw.cursorY + 1 + 2 ^ 16 - 1) = tw.cursorY := by
      rw [Nat.add_right_comm, Nat.add_sub_cancel, u16, Nat.add_mod_right, Nat.mod_eq_of_lt (by omega)]
    refine .inl ⟨inside, ?_⟩
    simp only [newline, next, if_neg (show ¬tw.cursorY + 1 ≥ TTYW_HEIGHT from Nat.not_le.mpr inside), above]
    rfl
  · obtain ⟨buffer, ran, cells⟩ :=
        scroll_spec { tw with cursorX := 0, cursorY := tw.cursorY + 1 } (Nat.succ_pos _)
    have lowest : tw.cursorY = 24 := by omega
    refine .inr ⟨lowest, buffer, ?_, cells⟩
    dsimp only at ran
    rw [Nat.add_sub_cancel, lowest] at ran
    rw [newline, next, lowest]
    exact Except.bind_ok_iff.mpr ⟨_, ran, rfl⟩

/-- A character goes to its cell, and after the last column a new line follows. -/
theorem writeOne_eq (inside : tw.Inside) {ch : BitVec 8} (printable : ch ≠ 10) : writeOne tw ch =
    if tw.cursorX + 1 ≥ 80 then newline
      { tw with
        buffer := Function.update tw.buffer (tw.cursorY * 80 + tw.cursorX) ch
        cursorX := tw.cursorX + 1 }
    else .ok (⟨tw.cursorY, u16 (tw.cursorY + 1)⟩,
      { tw with
        buffer := Function.update tw.buffer (tw.cursorY * 80 + tw.cursorX) ch
        cursorX := tw.cursorX + 1 }, []) := by
  have column := inside.cursorX
  have row := inside.cursorY
  have held : ttyBuffer.holds (tw.cursorY * TTYW_WIDTH + tw.cursorX) 1 = true := by
    rw [Collections.TaggedPtr.holds, decide_eq_true_eq, ttyBuffer, TTYW_WIDTH, TTYW_HEIGHT]
    dsimp only
    omega
  have next : u16 (tw.cursorX + 1) = tw.cursorX + 1 := u16_of_lt (by omega)
  rw [writeOne, if_neg printable, if_neg (not_not.mpr held), next]
  rfl

private theorem newline_inside (row : tw.cursorY < 25) :
    ∃ lines tw' calls, newline tw = .ok (lines, tw', calls) ∧ tw'.Inside := by
  rcases newline_cases row with ⟨below, ran⟩ | ⟨_, buffer, ran, _⟩
  · exact ⟨_, _, [], ran, Nat.zero_lt_succ 79, below⟩
  · exact ⟨_, _, _, ran, Nat.zero_lt_succ 79, Nat.lt_succ_self 24⟩

theorem writeOne_inside (inside : tw.Inside) (ch : BitVec 8) :
    ∃ lines tw' calls, writeOne tw ch = .ok (lines, tw', calls) ∧ tw'.Inside := by
  by_cases isNewline : ch = 10
  · rw [writeOne, if_pos isNewline]
    exact newline_inside inside.cursorY
  · rw [writeOne_eq inside isNewline]
    split
    · exact newline_inside inside.cursorY
    · rename_i middle
      exact ⟨_, _, _, rfl, Nat.lt_of_not_le middle, inside.cursorY⟩

theorem writeBytes_inside (inside : tw.Inside) (lines : Lines) (str : List (BitVec 8)) :
    ∃ lines' tw' calls, writeBytes tw lines str = .ok (lines', tw', calls) ∧ tw'.Inside := by
  induction str generalizing tw lines with
  | nil => exact ⟨lines, tw, [], rfl, inside⟩
  | cons ch rest ih =>
    rw [writeBytes]
    split
    · exact ⟨lines, tw, [], rfl, inside⟩
    · obtain ⟨written, tw₁, calls₁, ran₁, inside₁⟩ := writeOne_inside inside ch
      obtain ⟨lines₂, tw₂, calls₂, ran₂, inside₂⟩ := ih inside₁ (linesUnion lines written)
      exact ⟨lines₂, tw₂, calls₁ ++ calls₂,
        Except.bind_ok_iff.mpr ⟨_, ran₁, Except.bind_ok_iff.mpr ⟨_, ran₂, rfl⟩⟩, inside₂⟩

/-- Writing a string ends with a call of `window_invalidate`. -/
theorem ttyWrite_inside (inside : tw.Inside) (str : List (BitVec 8)) :
    ∃ tw' calls rt, ttyWrite tw str = .ok (tw', calls ++ [rt]) ∧ tw'.Inside := by
  obtain ⟨lines, tw', calls, ran, inside'⟩ := writeBytes_inside inside ⟨0, 0⟩ str
  exact ⟨tw', calls, invalidateLines lines, Except.bind_ok_iff.mpr ⟨_, ran, rfl⟩, inside'⟩

theorem ttyWrite_keeps_inside {tw' : TtyWindow} {str : List (BitVec 8)} {calls : Invalidations}
    (inside : tw.Inside) (ran : ttyWrite tw str = .ok (tw', calls)) : tw'.Inside := by
  obtain ⟨tw₁, calls₁, rt, ran₁, inside₁⟩ := ttyWrite_inside inside str
  cases ran.symm.trans ran₁
  exact inside₁

theorem feed_inside (inside : tw.Inside) (input : TtyInput) :
    ∃ tw' calls, tw.feed input = .ok (tw', calls) ∧ tw'.Inside := by
  cases input with
  | write str =>
    obtain ⟨tw', calls, rt, ran, inside'⟩ := ttyWrite_inside inside str
    exact ⟨tw', calls ++ [rt], ran, inside'⟩
  | char ch =>
    obtain ⟨lines, tw', calls, ran, inside'⟩ := writeOne_inside inside ch
    exact ⟨tw', calls ++ [invalidateLines lines], Except.bind_ok_iff.mpr ⟨_, ran, rfl⟩, inside'⟩

end Cursor

/-! ## The page -/

/-- A terminal with 80 columns that never scrolls. -/
structure Page where
  rows : ℕ → ℕ → BitVec 8
  row : ℕ
  col : ℕ

def Page.blank : Page := ⟨fun _ _ => 32, 0, 0⟩

/-- The cursor moves to the first column of the next row. -/
def Page.newline (p : Page) : Page := { p with row := p.row + 1, col := 0 }

def Page.put (p : Page) (ch : BitVec 8) : Page :=
  if ch = 10 then p.newline
  else
    let p := { p with rows := Function.update p.rows p.row (Function.update (p.rows p.row) p.col ch), col := p.col + 1 }
    if p.col = 80 then p.newline else p

/-- A string ends before its first null byte. -/
def Page.feed (p : Page) : TtyInput → Page
  | .write str => (str.takeWhile (· ≠ 0)).foldl Page.put p
  | .char ch => p.put ch

/-- The first row that a window of 25 rows shows. -/
def Page.top (p : Page) : ℕ := p.row - 24

/-- Nothing is written below the cursor. -/
def Page.Open (p : Page) : Prop := ∀ row, p.row < row → ∀ x, p.rows row x = 32

/-- The cursor is in a column, and nothing is written below it. -/
structure Page.Neat (p : Page) : Prop where
  col : p.col < 80
  below : p.Open

/-- The window shows these rows of the page, with the cursor in this row. -/
structure Page.ShownIn (p : Page) (tw : TtyWindow) : Prop where
  cursorY : tw.cursorY = p.row - p.top
  cells : ∀ y < 25, ∀ x < 80, tw.buffer (y * 80 + x) = p.rows (p.top + y) x

/-- What the window shows is the page from `top` on, with the page's cursor. -/
structure Page.Shows (p : Page) (tw : TtyWindow) : Prop extends p.ShownIn tw where
  cursorX : tw.cursorX = p.col

section Writing

variable {p : Page} {tw : TtyWindow}

private theorem Page.Shows.inside (shown : p.Shows tw) (neat : p.Neat) : tw.Inside := by
  refine ⟨?_, ?_⟩
  · rw [shown.cursorX]
    exact neat.col
  · rw [shown.cursorY, Page.top]
    omega

private theorem newline_shows (shown : p.ShownIn tw) (below : p.Open) : ∃ lines tw' calls,
    newline tw = .ok (lines, tw', calls) ∧ p.newline.Shows tw' ∧ p.newline.Neat := by
  have blank : p.newline.Neat :=
    ⟨Nat.zero_lt_succ 79, fun row lower x => below row (Nat.lt_of_succ_lt lower) x⟩
  have place := shown.cursorY
  rw [Page.top] at place
  rcases @newline_cases tw (by omega) with ⟨inside, ran⟩ | ⟨last, buffer, ran, cells⟩
  · refine ⟨_, _, _, ran, ⟨⟨?_, fun y yBound x xBound => ?_⟩, rfl⟩, blank⟩
    · simp only [Page.top, Page.newline]
      omega
    · simp only [Page.top, Page.newline]
      rw [shown.cells y yBound x xBound, Page.top, Nat.sub_eq_zero_of_le (show p.row ≤ 24 by omega),
        Nat.sub_eq_zero_of_le (show p.row + 1 ≤ 24 by omega)]
  · refine ⟨_, _, _, ran, ⟨⟨?_, fun y yBound x xBound => ?_⟩, rfl⟩, blank⟩
    · simp only [Page.top, Page.newline]
      omega
    · simp only [Page.top, Page.newline]
      rw [cells _ (by omega)]
      rcases Nat.lt_or_ge y 24 with kept | cleared
      · rw [if_pos (by omega), show y * 80 + x + 80 = (y + 1) * 80 + x by omega,
          shown.cells _ (by omega) x xBound, Page.top,
          show p.row - 24 + (y + 1) = p.row + 1 - 24 + y by omega]
      · rw [if_neg (by omega), below _ (by omega)]

/-- A character in its cell. -/
private theorem cell_shows (shown : p.Shows tw) (neat : p.Neat) (ch : BitVec 8) :
    (Page.mk (Function.update p.rows p.row (Function.update (p.rows p.row) p.col ch)) p.row
      (p.col + 1)).ShownIn
      { tw with
        buffer := Function.update tw.buffer (tw.cursorY * 80 + tw.cursorX) ch
        cursorX := tw.cursorX + 1 } := by
  refine ⟨shown.cursorY, fun y yBound x xBound => ?_⟩
  have row := shown.cursorY
  have col := neat.col
  simp only [Page.top] at row ⊢
  rw [shown.cursorX]
  rcases eq_or_ne (p.row - 24 + y) p.row with here | apart
  · rw [here, Function.update_self]
    rcases eq_or_ne x p.col with rfl | elsewhere
    · rw [Function.update_self, show y * 80 + p.col = tw.cursorY * 80 + p.col by omega, Function.update_self]
    · rw [Function.update_of_ne elsewhere, Function.update_of_ne (by omega),
        shown.cells y yBound x xBound, Page.top, here]
  · rw [Function.update_of_ne apart, Function.update_of_ne (by omega),
      shown.cells y yBound x xBound, Page.top]

private theorem writeOne_shows (shown : p.Shows tw) (neat : p.Neat) (ch : BitVec 8) : ∃ lines tw' calls,
    writeOne tw ch = .ok (lines, tw', calls) ∧ (p.put ch).Shows tw' ∧ (p.put ch).Neat := by
  rw [Page.put]
  by_cases isNewline : ch = 10
  · rw [writeOne, if_pos isNewline, if_pos isNewline]
    exact newline_shows shown.toShownIn neat.below
  have filled := cell_shows shown neat ch
  have below : Page.Open ⟨Function.update p.rows p.row (Function.update (p.rows p.row) p.col ch),
      p.row, p.col + 1⟩ := by
    intro row lower x
    dsimp only
    rw [Function.update_of_ne (Nat.ne_of_gt lower)]
    exact neat.below row lower x
  have column := neat.col
  rw [writeOne_eq (shown.inside neat) isNewline, if_neg isNewline]
  dsimp only
  rcases Nat.lt_or_ge (tw.cursorX + 1) 80 with middle | full
  · rw [if_neg (Nat.not_le.mpr middle)]
    rw [shown.cursorX] at middle
    rw [if_neg (Nat.ne_of_lt middle)]
    exact ⟨_, _, _, rfl, ⟨filled, congrArg (· + 1) shown.cursorX⟩, ⟨middle, below⟩⟩
  · rw [if_pos full]
    rw [shown.cursorX] at full
    rw [if_pos (Nat.le_antisymm column full)]
    exact newline_shows filled below

private theorem writeBytes_shows (shown : p.Shows tw) (neat : p.Neat) (lines : Lines) (str : List (BitVec 8)) :
    ∃ lines' tw' calls, writeBytes tw lines str = .ok (lines', tw', calls) ∧
      ((str.takeWhile (· ≠ 0)).foldl Page.put p).Shows tw' ∧
        ((str.takeWhile (· ≠ 0)).foldl Page.put p).Neat := by
  induction str generalizing p tw lines with
  | nil => exact ⟨lines, tw, [], rfl, shown, neat⟩
  | cons ch rest ih =>
    rw [writeBytes]
    by_cases isEnd : ch = 0
    · rw [if_pos isEnd, List.takeWhile_cons_of_neg (by rw [isEnd]; decide)]
      exact ⟨lines, tw, [], rfl, shown, neat⟩
    · rw [if_neg isEnd, List.takeWhile_cons_of_pos (by rw [decide_eq_true_eq]; exact isEnd), List.foldl_cons]
      obtain ⟨written, tw₁, calls₁, ran₁, shown₁, neat₁⟩ := writeOne_shows shown neat ch
      obtain ⟨lines₂, tw₂, calls₂, ran₂, shown₂, neat₂⟩ := ih shown₁ neat₁ (linesUnion lines written)
      refine ⟨lines₂, tw₂, calls₁ ++ calls₂, ?_, shown₂, neat₂⟩
      exact Except.bind_ok_iff.mpr ⟨_, ran₁, Except.bind_ok_iff.mpr ⟨_, ran₂, rfl⟩⟩

/-- One string or one character. -/
theorem feed_shows (shown : p.Shows tw) (neat : p.Neat) (input : TtyInput) : ∃ tw' calls,
    tw.feed input = .ok (tw', calls) ∧ (p.feed input).Shows tw' ∧ (p.feed input).Neat := by
  cases input with
  | write str =>
    obtain ⟨lines, tw', calls, ran, shown', neat'⟩ := writeBytes_shows shown neat ⟨0, 0⟩ str
    exact ⟨tw', calls ++ [invalidateLines lines], Except.bind_ok_iff.mpr ⟨_, ran, rfl⟩, shown', neat'⟩
  | char ch =>
    obtain ⟨lines, tw', calls, ran, shown', neat'⟩ := writeOne_shows shown neat ch
    exact ⟨tw', calls ++ [invalidateLines lines], Except.bind_ok_iff.mpr ⟨_, ran, rfl⟩, shown', neat'⟩

end Writing

end RubberOS.Model.Gui
