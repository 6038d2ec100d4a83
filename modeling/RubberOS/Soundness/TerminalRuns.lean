import RubberOS.Proofs.TtyWindow
import RubberOS.ToMathlib.LabelledRuns

/-! # Terminal windows over whole runs

A window that starts blank shows the end of the page that the reference terminal writes. An access leaves
the buffer only from a cursor outside it, and a cursor inside it stays inside, so all depends on the
cursors that `tty_window_init` finds.
-/

namespace RubberOS.Soundness.TerminalRuns

open Model Model.Gui LabelledRuns

/-- A string or a character goes to the terminal, without a fault. -/
def Feeds (tw : TtyWindow) (input : TtyInput) (tw' : TtyWindow) : Prop := ∃ calls, tw.feed input = .ok (tw', calls)

/-- The strings and characters, one after the other. -/
def feedAll (tw : TtyWindow) : List TtyInput → Result TtyWindow
  | [] => .ok tw
  | input :: rest => do
    let (tw, _) ← tw.feed input
    feedAll tw rest

/-- A window with spaces only and the cursor in the first cell. -/
structure Blank (tw : TtyWindow) : Prop where
  cursorX : tw.cursorX = 0
  cursorY : tw.cursorY = 0
  cells : ∀ address < 2000, tw.buffer address = 32

section Pages

variable {p : Page} {tw tw' : TtyWindow} {inputs : List TtyInput}

theorem Blank.shows (blank : Blank tw) : Page.blank.Shows tw :=
  ⟨⟨blank.cursorY, fun y yBound x xBound => blank.cells _ (by omega)⟩, blank.cursorX⟩

theorem blank_neat : Page.blank.Neat := ⟨Nat.zero_lt_succ 79, fun _ _ _ => rfl⟩

private theorem feedAll_shows (shown : p.Shows tw) (neat : p.Neat) (inputs : List TtyInput) :
    ∃ tw', feedAll tw inputs = .ok tw' ∧ (inputs.foldl Page.feed p).Shows tw' := by
  induction inputs generalizing p tw with
  | nil => exact ⟨tw, rfl, shown⟩
  | cons input rest ih =>
    obtain ⟨tw₁, calls, ran, shown₁, neat₁⟩ := feed_shows shown neat input
    obtain ⟨tw', ranRest, shown'⟩ := ih shown₁ neat₁
    exact ⟨tw', Except.bind_ok_iff.mpr ⟨_, ran, ranRest⟩, shown'⟩

/-- Whatever is written to a blank window, it shows the last rows of the page, with the page's cursor. -/
theorem window_shows_page (blank : Blank tw) (inputs : List TtyInput) :
    ∃ tw', feedAll tw inputs = .ok tw' ∧ (inputs.foldl Page.feed .blank).Shows tw' :=
  feedAll_shows blank.shows blank_neat inputs

/-- A line that is one character too long, and so many more that it scrolls out of the window: what is left of it, in
the row below, is shown in the first row. -/
def overlongInput : List TtyInput :=
  .write (List.replicate 81 97) :: List.replicate 24 (.char 10) ++ [.char 98]

theorem window_shows_page_scrolled : ∃ tw', feedAll ⟨fun _ => 32, 0, 0⟩ overlongInput = .ok tw' ∧
    (tw'.cursorX = 1 ∧ tw'.cursorY = 24) ∧ tw'.buffer 0 = 97 ∧ tw'.buffer 1 = 32 ∧ tw'.buffer (24 * 80) = 98 := by
  obtain ⟨tw', ran, shown⟩ := @window_shows_page ⟨fun _ => 32, 0, 0⟩ ⟨rfl, rfl, fun _ _ => rfl⟩ overlongInput
  have column : (overlongInput.foldl Page.feed .blank).col = 1 := by decide +kernel
  have row : (overlongInput.foldl Page.feed .blank).row = 25 := by decide +kernel
  have wrapped : (overlongInput.foldl Page.feed .blank).rows 1 0 = 97 := by decide +kernel
  have behind : (overlongInput.foldl Page.feed .blank).rows 1 1 = 32 := by decide +kernel
  have last : (overlongInput.foldl Page.feed .blank).rows 25 0 = 98 := by decide +kernel
  refine ⟨tw', ran, ⟨shown.cursorX.trans column, ?_⟩, ?_, ?_, ?_⟩
  · rw [shown.cursorY, row, Page.top, row]
  · rw [show (0 : ℕ) = 0 * 80 + 0 from rfl, shown.cells 0 (by decide) 0 (by decide), Page.top, row]
    exact wrapped
  · rw [show (1 : ℕ) = 0 * 80 + 1 from rfl, shown.cells 0 (by decide) 1 (by decide), Page.top, row]
    exact behind
  · rw [show 24 * 80 = 24 * 80 + 0 from rfl, shown.cells 24 (by decide) 0 (by decide), Page.top, row]
    exact last

/-! ## The cursor -/

/-- After `tty_window_init` on this object, in every state reached by writing and typing, the cursor is
inside the buffer and no access leaves it. -/
def StaysInside (tw : TtyWindow) : Prop :=
  ∃ tw₀, ttyWindowInit tw = .ok tw₀ ∧ ∀ inputs tw', Run Feeds tw₀ inputs tw' →
    (tw'.cursorX < TTYW_WIDTH ∧ tw'.cursorY < TTYW_HEIGHT) ∧ ∀ input, ∃ result, tw'.feed input = .ok result

/-- The object with spaces in its buffer. -/
private theorem ttyWindowInit_eq (tw : TtyWindow) : ∃ buffer, ttyWindowInit tw = .ok { tw with buffer } := by
  have inside : ttyBuffer.holds 0 (TTYW_WIDTH * TTYW_HEIGHT) = true := rfl
  exact ⟨memset tw.buffer 0 32 (TTYW_WIDTH * TTYW_HEIGHT), Except.bind_ok_iff.mpr ⟨_, if_pos inside, rfl⟩⟩

private theorem inside_run (inside : tw.Inside) (run : Run Feeds tw inputs tw') : tw'.Inside := by
  apply run.invariant inside
  rintro tw₁ input tw₂ inside₁ ⟨calls, fed⟩
  obtain ⟨tw₃, calls', fed', inside'⟩ := feed_inside inside₁ input
  cases fed.symm.trans fed'
  exact inside'

/-- The accesses stay inside the buffer exactly if the object's cursors were inside it before
`tty_window_init`. -/
theorem stays_inside_iff (tw : TtyWindow) : StaysInside tw ↔ tw.cursorX < TTYW_WIDTH ∧ tw.cursorY < TTYW_HEIGHT := by
  obtain ⟨buffer, ran⟩ := ttyWindowInit_eq tw
  constructor
  · rintro ⟨tw₀, ran₀, inside⟩
    cases ran.symm.trans ran₀
    exact (inside [] _ .nil).1
  · rintro ⟨column, row⟩
    refine ⟨_, ran, fun inputs tw' run => ?_⟩
    have start : TtyWindow.Inside ⟨buffer, tw.cursorX, tw.cursorY⟩ := ⟨column, row⟩
    have inside := inside_run start run
    refine ⟨⟨inside.cursorX, inside.cursorY⟩, fun input => ?_⟩
    obtain ⟨tw'', calls, fed, _⟩ := feed_inside inside input
    exact ⟨_, fed⟩

/-- With a cursor found below the last row, the first character is written behind the buffer. -/
theorem stale_cursor_escapes : ¬ StaysInside ⟨fun _ => 0, 0, 25⟩ ∧
    ∃ tw₀, ttyWindowInit ⟨fun _ => 0, 0, 25⟩ = .ok tw₀ ∧ tw₀.feed (.char 97) = .error .outOfBounds := by
  obtain ⟨buffer, ran⟩ := ttyWindowInit_eq ⟨fun _ => 0, 0, 25⟩
  have outside : ¬ ttyBuffer.holds (25 * TTYW_WIDTH + 0) 1 = true := by decide
  have escapes : TtyWindow.feed ⟨buffer, 0, 25⟩ (.char 97) = .error .outOfBounds := by
    rw [TtyWindow.feed, ttyChar, writeOne, if_neg (by decide), if_pos outside]
    rfl
  refine ⟨?_, _, ran, escapes⟩
  rintro ⟨tw₀, ran₀, inside⟩
  cases ran.symm.trans ran₀
  obtain ⟨result, fed⟩ := (inside [] _ .nil).2 (.char 97)
  rw [escapes] at fed
  cases fed

end Pages

end RubberOS.Soundness.TerminalRuns
