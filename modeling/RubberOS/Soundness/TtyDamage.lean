import RubberOS.Proofs.CheckedDesktop
import RubberOS.Proofs.TtyWindow

/-! # What writing to a terminal window invalidates

The lines that `write` collects cover every row it changes, also when the rows move in the middle of a string: a
scroll answers with all of them. A scroll invalidates the window as a whole too, in place of what was invalidated
before.
-/

namespace RubberOS.Soundness.TtyDamage

open Model Model.Gui

def Covers (lines : Lines) (row : ℕ) : Prop := lines.begin_ ≤ row ∧ row < lines.end_

/-- The lines cover the rows of the cells that changed and of the cursors. -/
structure Damages (lines : Lines) (tw tw' : TtyWindow) : Prop where
  changed : ∀ row < 25, ∀ col < 80, tw'.buffer (row * 80 + col) ≠ tw.buffer (row * 80 + col) → Covers lines row
  old : Covers lines tw.cursorY
  new : Covers lines tw'.cursorY

section Lines

variable {tw tw' : TtyWindow} {lines lines' : Lines} {calls : Invalidations} {row : ℕ}

private theorem covers_union (a b : Lines) : Covers a row ∨ Covers b row → Covers (linesUnion a b) row := by
  simp only [Covers, linesUnion]
  split_ifs
  · omega
  · omega
  · dsimp only
    omega

private theorem Damages.mono (damages : Damages lines tw tw') (grows : ∀ row, Covers lines row → Covers lines' row) :
    Damages lines' tw tw' :=
  ⟨fun row bound col column other => grows row (damages.changed row bound col column other), grows _ damages.old,
    grows _ damages.new⟩

private theorem Damages.trans {tw'' : TtyWindow} (first : Damages lines tw tw') (second : Damages lines tw' tw'') :
    Damages lines tw tw'' := by
  refine ⟨fun row bound col column other => ?_, first.old, second.new⟩
  by_cases same : tw'.buffer (row * 80 + col) = tw.buffer (row * 80 + col)
  · rw [← same] at other
    exact second.changed row bound col column other
  · exact first.changed row bound col column same

private theorem all_damaged (inside : tw.Inside) (inside' : tw'.Inside) : Damages ⟨0, TTYW_HEIGHT⟩ tw tw' :=
  ⟨fun row bound _ _ _ => ⟨Nat.zero_le row, bound⟩, ⟨Nat.zero_le _, inside.cursorY⟩, ⟨Nat.zero_le _, inside'.cursorY⟩⟩

/-- A new line damages the two rows it goes between, or all that it moves. -/
private theorem newline_damages {buffer : Memory} (inside : tw.Inside)
    (same : ∀ row < 25, ∀ col < 80, buffer (row * 80 + col) ≠ tw.buffer (row * 80 + col) →
      row = tw.cursorY) {cursorX : ℕ}
    (ran : newline ⟨buffer, cursorX, tw.cursorY⟩ = .ok (lines, tw', calls)) :
    Damages lines tw tw' ∧ ∀ call ∈ calls, call = none := by
  rcases @newline_cases ⟨buffer, cursorX, tw.cursorY⟩ inside.cursorY with ⟨below, result⟩ | ⟨_, moved, result, _⟩
  · cases ran.symm.trans result
    refine ⟨⟨fun row bound col column other => ?_, ?_, ?_⟩, fun _ member => absurd member List.not_mem_nil⟩
    · rw [same row bound col column other]
      exact ⟨Nat.le_refl _, Nat.lt_add_of_pos_right Nat.two_pos⟩
    · exact ⟨Nat.le_refl _, Nat.lt_add_of_pos_right Nat.two_pos⟩
    · exact ⟨Nat.le_succ _, Nat.lt_succ_self _⟩
  · cases ran.symm.trans result
    exact ⟨all_damaged inside ⟨Nat.zero_lt_succ 79, Nat.lt_succ_self 24⟩,
      fun _ member => List.mem_singleton.mp member⟩

/-- One character. -/
private theorem writeOne_damages {ch : BitVec 8} (inside : tw.Inside) (ran : writeOne tw ch = .ok (lines, tw', calls)) :
    Damages lines tw tw' ∧ ∀ call ∈ calls, call = none := by
  by_cases isNewline : ch = 10
  · rw [writeOne, if_pos isNewline] at ran
    exact newline_damages inside (fun _ _ _ _ other => absurd rfl other) ran
  have put : ∀ row < 25, ∀ col < 80,
      Function.update tw.buffer (tw.cursorY * 80 + tw.cursorX) ch (row * 80 + col) ≠ tw.buffer (row * 80 + col) →
        row = tw.cursorY := by
    intro row _ col column other
    have bound := inside.cursorX
    by_contra elsewhere
    exact other (Function.update_of_ne (by omega) _ _)
  rw [writeOne_eq inside isNewline] at ran
  split at ran
  · exact newline_damages inside put ran
  · cases ran
    have last : u16 (tw.cursorY + 1) = tw.cursorY + 1 := u16_of_lt (by have := inside.cursorY; omega)
    rw [last]
    refine ⟨⟨fun row bound col column other => ?_, ?_, ?_⟩, fun _ member => absurd member List.not_mem_nil⟩
    · rw [put row bound col column other]
      exact ⟨Nat.le_refl _, Nat.lt_succ_self _⟩
    · exact ⟨Nat.le_refl _, Nat.lt_succ_self _⟩
    · exact ⟨Nat.le_refl _, Nat.lt_succ_self _⟩

/-- A string: the lines grow, and cover what its characters damage. -/
private theorem writeBytes_damages {str : List (BitVec 8)} (inside : tw.Inside)
    (ran : writeBytes tw lines str = .ok (lines', tw', calls)) :
    (∀ row, Covers lines row → Covers lines' row) ∧ (∀ call ∈ calls, call = none) ∧
      (str.takeWhile (· ≠ 0) ≠ [] → Damages lines' tw tw') ∧ (str.takeWhile (· ≠ 0) = [] → tw' = tw) := by
  induction str generalizing tw lines calls with
  | nil =>
    cases ran
    exact ⟨fun _ => id, nofun, fun some_ => absurd rfl some_, fun _ => rfl⟩
  | cons ch rest ih =>
    rw [writeBytes] at ran
    by_cases isEnd : ch = 0
    · rw [if_pos isEnd] at ran
      cases ran
      have none : (ch :: rest).takeWhile (· ≠ 0) = [] := List.takeWhile_cons_of_neg (by rw [isEnd]; decide)
      exact ⟨fun _ => id, nofun, fun some_ => absurd none some_, fun _ => rfl⟩
    · rw [if_neg isEnd] at ran
      obtain ⟨⟨written, tw₁, calls₁⟩, first, ran⟩ := Except.bind_ok_iff.mp ran
      obtain ⟨⟨lines₂, tw₂, calls₂⟩, later, ran⟩ := Except.bind_ok_iff.mp ran
      cases ran
      obtain ⟨_, _, _, ran₁, inside₁⟩ := writeOne_inside inside ch
      cases first.symm.trans ran₁
      obtain ⟨damages, whole⟩ := writeOne_damages inside first
      obtain ⟨grows, more, damagesRest, same⟩ := ih inside₁ later
      have covered := damages.mono fun row covers => grows row (covers_union lines written (.inr covers))
      have some_ : (ch :: rest).takeWhile (· ≠ 0) = ch :: rest.takeWhile (· ≠ 0) :=
        List.takeWhile_cons_of_pos (by rw [decide_eq_true_eq]; exact isEnd)
      refine ⟨fun row covers => grows row (covers_union lines written (.inl covers)),
        fun call member => ?_, fun _ => ?_,
        fun none => ?_⟩
      · rcases List.mem_append.mp member with member | member
        · exact whole call member
        · exact more call member
      · by_cases none : rest.takeWhile (· ≠ 0) = []
        · rw [same none]
          exact covered
        · exact covered.trans (damagesRest none)
      · rw [some_] at none
        exact absurd none (List.cons_ne_nil _ _)

/-! ### Lines of the page -/

/-- The lines are those of the page. -/
def OnPage (lines : Lines) : Prop := lines.begin_ ≤ 25 ∧ lines.end_ ≤ 25

private theorem newline_onPage (row : tw.cursorY < 25) (ran : newline tw = .ok (lines, tw', calls)) : OnPage lines := by
  rcases newline_cases row with ⟨below, result⟩ | ⟨_, _, result, _⟩
  · cases ran.symm.trans result
    exact ⟨Nat.le_of_lt row, below⟩
  · cases ran.symm.trans result
    exact ⟨Nat.zero_le _, Nat.le_refl _⟩

private theorem writeOne_onPage {ch : BitVec 8} (inside : tw.Inside) (ran : writeOne tw ch = .ok (lines, tw', calls)) :
    OnPage lines := by
  have row := inside.cursorY
  by_cases isNewline : ch = 10
  · rw [writeOne, if_pos isNewline] at ran
    exact newline_onPage row ran
  · rw [writeOne_eq inside isNewline] at ran
    split at ran
    · exact newline_onPage (by exact row) ran
    · cases ran
      have next : u16 (tw.cursorY + 1) = tw.cursorY + 1 := u16_of_lt (by omega)
      rw [OnPage, next]
      exact ⟨Nat.le_of_lt row, row⟩

private theorem linesUnion_onPage (one : OnPage lines) (two : OnPage lines') : OnPage (linesUnion lines lines') := by
  rw [linesUnion]
  split_ifs
  · exact one
  · exact two
  · exact ⟨Nat.le_trans (Nat.min_le_left _ _) one.1, Nat.max_le.mpr ⟨one.2, two.2⟩⟩

private theorem writeBytes_onPage {str : List (BitVec 8)} (inside : tw.Inside) (start : OnPage lines)
    (ran : writeBytes tw lines str = .ok (lines', tw', calls)) : OnPage lines' := by
  induction str generalizing tw lines calls with
  | nil =>
    cases ran
    exact start
  | cons ch rest ih =>
    rw [writeBytes] at ran
    split_ifs at ran with isEnd
    · cases ran
      exact start
    · obtain ⟨⟨written, tw₁, calls₁⟩, first, ran⟩ := Except.bind_ok_iff.mp ran
      obtain ⟨⟨lines₂, tw₂, calls₂⟩, later, ran⟩ := Except.bind_ok_iff.mp ran
      cases ran
      obtain ⟨_, _, _, ran₁, inside₁⟩ := writeOne_inside inside ch
      cases first.symm.trans ran₁
      exact ih inside₁ (linesUnion_onPage start (writeOne_onPage inside first)) later

end Lines

/-! ## The window -/

/-- The calls of `window_invalidate`, in order. -/
def invalidated (d : Desktop) (w : ℕ) (calls : Invalidations) : Desktop :=
  calls.foldl (fun d rt => windowInvalidate d w rt) d

/-- The same calls in the arithmetic of C. -/
def invalidatedInt (d : Desktop) (w : ℕ) (calls : Invalidations) : Option Desktop :=
  calls.foldlM (fun d rt => Checked.windowInvalidate d w rt) d

/-- The pixels of a cell, in the window's own coordinates. -/
def cellArea (row col : ℕ) : Rect := ⟨CLIENT_X0 + col * CW, CLIENT_Y0 + row * CH, CW, CH⟩

def CellCovered (w : ManagedWindow) (row col : ℕ) : Prop :=
  ∀ x y, rectContains (cellArea row col) x y = true → rectContains w.winInvalidated x y = true

/-- The cells that changed are invalidated, those of the cursors where something is written, and all that was
invalidated before, of which a scroll keeps what lies in the window. -/
structure Invalidates (before after : ManagedWindow) (tw tw' : TtyWindow) (written scrolled : Prop) : Prop where
  changed : ∀ row < 25, ∀ col < 80, tw'.buffer (row * 80 + col) ≠ tw.buffer (row * 80 + col) → CellCovered after row col
  cursors : written → CellCovered after tw.cursorY tw.cursorX ∧ CellCovered after tw'.cursorY tw'.cursorX
  kept : ∀ x y, rectContains before.winInvalidated x y = true →
    (scrolled → rectContains (windowArea before.toWindow) x y = true) → rectContains after.winInvalidated x y = true

/-- The string is not empty; a typed character is always written. -/
def Writes : TtyInput → Prop
  | .write str => str.takeWhile (· ≠ 0) ≠ []
  | .char _ => True

section Window

variable {d : Desktop} {w : ℕ} {tw tw' : TtyWindow} {lines : Lines} {calls : Invalidations} {x y : ℤ}

/-- A call without a rectangle invalidates the window as a whole, and nothing else. -/
private theorem invalidated_none (whole : ∀ call ∈ calls, call = none) :
    ((invalidated d w calls).window w).scrRect = (d.window w).scrRect ∧
      ((invalidated d w calls).window w).winInvalidated =
        if calls = [] then (d.window w).winInvalidated else windowArea (d.window w).toWindow := by
  induction calls generalizing d with
  | nil => exact ⟨rfl, rfl⟩
  | cons call rest ih =>
    rw [whole call List.mem_cons_self]
    have step : ((windowInvalidate d w none).window w).toWindow =
        { (d.window w).toWindow with winInvalidated := windowArea (d.window w).toWindow } :=
      congrArg ManagedWindow.toWindow
        (setWindow_self d w fun w => { w with winInvalidated := windowArea w.toWindow })
    obtain ⟨rect, area⟩ :=
      @ih (windowInvalidate d w none) fun call member => whole call (List.mem_cons_of_mem _ member)
    rw [step] at rect area
    refine ⟨rect, ?_⟩
    rw [if_neg (List.cons_ne_nil _ _)]
    refine area.trans ?_
    split
    · rfl
    · rfl

private theorem invalidated_lines (calls : Invalidations) (lines : Lines) :
    ((invalidated d w (calls ++ [invalidateLines lines])).window w).winInvalidated =
      rectUnion ((invalidated d w calls).window w).winInvalidated
        ⟨0 + CLIENT_X0, lines.begin_ * CH + CLIENT_Y0, TTYW_WIDTH * CW, ((lines.end_ : ℤ) - lines.begin_) * CH⟩ := by
  rw [invalidated, List.foldl_append]
  exact congrArg (fun w : ManagedWindow => w.winInvalidated) (setWindow_self (invalidated d w calls) w fun w =>
    { w with
      winInvalidated := rectUnion w.winInvalidated
        ⟨0 + CLIENT_X0, lines.begin_ * CH + CLIENT_Y0, TTYW_WIDTH * CW, ((lines.end_ : ℤ) - lines.begin_) * CH⟩ })

/-- The rectangle of the lines has their cells. -/
private theorem cell_covered {row col : ℕ} (covers : Covers lines row) (column : col < 80) :
    CellCovered ((invalidated d w (calls ++ [invalidateLines lines])).window w) row col := by
  intro x y inside
  rw [invalidated_lines]
  refine rectContains_union_right _ ?_
  obtain ⟨first, last⟩ := covers
  rw [rectContains_iff, cellArea, CW, CH] at inside
  rw [rectContains_iff, TTYW_WIDTH, CW, CH]
  dsimp only at inside ⊢
  omega

private theorem invalidates_lines {written : Prop} (inside : tw.Inside) (inside' : tw'.Inside)
    (whole : ∀ call ∈ calls, call = none)
    (damages : written → Damages lines tw tw') (same : ¬written → tw' = tw) :
    Invalidates (d.window w) ((invalidated d w (calls ++ [invalidateLines lines])).window w) tw tw' written
      (none ∈ calls ++ [invalidateLines lines]) := by
  refine ⟨fun row bound col column other => ?_, fun some_ => ?_, fun x y before scrolled => ?_⟩
  · by_cases some_ : written
    · exact cell_covered ((damages some_).changed row bound col column other) column
    · rw [same some_] at other
      exact absurd rfl other
  · exact ⟨cell_covered (damages some_).old inside.cursorX, cell_covered (damages some_).new inside'.cursorX⟩
  · rw [invalidated_lines]
    refine rectContains_union_left _ ?_
    rw [(invalidated_none whole).2]
    split
    · exact before
    · rename_i some_
      obtain ⟨call, member⟩ := List.exists_mem_of_ne_nil _ some_
      exact scrolled (List.mem_append_left _ (whole call member ▸ member))

private theorem invalidated_value {after : Desktop} (ran : invalidatedInt d w calls = some after) :
    after = invalidated d w calls := by
  induction calls generalizing d with
  | nil =>
    cases ran
    rfl
  | cons rt rest ih =>
    simp only [invalidatedInt, List.foldlM_cons, Option.bind_eq_bind, Option.bind_eq_some_iff] at ran
    obtain ⟨next, first, ran⟩ := ran
    rw [ih ran, Checked.windowInvalidate_value first]
    rfl

private theorem invalidated_cons (d : Desktop) (w : ℕ) (rt : Option Rect) (rest : Invalidations) :
    invalidatedInt d w (rt :: rest) =
      (Checked.windowInvalidate d w rt).bind fun d => invalidatedInt d w rest := rfl

/-- The rectangle of lines of the page is small. -/
private theorem lines_within (onPage : OnPage lines) {r : Rect} (same : invalidateLines lines = some r) :
    r.Within (2 ^ 26) := by
  obtain ⟨first, last⟩ := onPage
  rw [invalidateLines, Option.some.injEq] at same
  subst same
  rw [within_iff, TTYW_WIDTH, CW, CH]
  omega

/-- With little damage before, invalidating the window and some lines has a behaviour. -/
private theorem invalidated_some (onPage : OnPage lines) (whole : ∀ call ∈ calls, call = none)
    (place : (d.window w).scrRect.Within (2 ^ 26)) (damage : (d.window w).winInvalidated.Within (2 ^ 28)) :
    ∃ after, invalidatedInt d w (calls ++ [invalidateLines lines]) = some after := by
  induction calls generalizing d with
  | nil =>
    obtain ⟨after, ran⟩ := Checked.windowInvalidate_some damage fun r => lines_within onPage
    rw [List.nil_append, invalidated_cons, ran]
    exact ⟨after, rfl⟩
  | cons call rest ih =>
    rw [whole call List.mem_cons_self, List.cons_append, invalidated_cons]
    have step : (windowInvalidate d w none).window w =
        { d.window w with winInvalidated := windowArea (d.window w).toWindow } :=
      setWindow_self d w fun w => { w with winInvalidated := windowArea w.toWindow }
    have area : (windowArea (d.window w).toWindow).Within (2 ^ 28) := by
      obtain ⟨left, right, top, bottom⟩ := place
      exact within_iff.mpr (by omega)
    exact @ih (windowInvalidate d w none) (fun call member => whole call (List.mem_cons_of_mem _ member))
      (by rw [step]; exact place) (by rw [step]; exact area)

/-- Writing a string or a character invalidates what it changes and keeps what was invalidated. This has a behaviour with
little damage before, and holds whenever it has one. -/
theorem feed_invalidates (d : Desktop) (w : ℕ) (inside : tw.Inside) (input : TtyInput) :
    ∃ tw' calls, tw.feed input = .ok (tw', calls) ∧
      ((d.window w).scrRect.Within (2 ^ 26) → (d.window w).winInvalidated.Within (2 ^ 28) →
        ∃ after, invalidatedInt d w calls = some after) ∧
      ∀ after, invalidatedInt d w calls = some after →
        Invalidates (d.window w) (after.window w) tw tw' (Writes input) (none ∈ calls) := by
  cases input with
  | write str =>
    obtain ⟨lines, tw', calls, ran, inside'⟩ := writeBytes_inside inside ⟨0, 0⟩ str
    obtain ⟨_, whole, damages, same⟩ := writeBytes_damages inside ran
    have onPage := writeBytes_onPage inside ⟨Nat.zero_le _, Nat.zero_le _⟩ ran
    refine ⟨tw', calls ++ [invalidateLines lines], Except.bind_ok_iff.mpr ⟨_, ran, rfl⟩,
      fun place damage => invalidated_some onPage whole place damage, fun after invalidation => ?_⟩
    rw [invalidated_value invalidation]
    exact invalidates_lines inside inside' whole damages fun none => same (not_not.mp none)
  | char ch =>
    obtain ⟨lines, tw', calls, ran, inside'⟩ := writeOne_inside inside ch
    obtain ⟨damages, whole⟩ := writeOne_damages inside ran
    have onPage := writeOne_onPage inside ran
    refine ⟨tw', calls ++ [invalidateLines lines], Except.bind_ok_iff.mpr ⟨_, ran, rfl⟩,
      fun place damage => invalidated_some onPage whole place damage, fun after invalidation => ?_⟩
    rw [invalidated_value invalidation]
    exact invalidates_lines inside inside' whole (fun _ => damages) fun none => absurd trivial none

/-- A desktop whose windows have this damage. -/
def damaged (rt : Rect) : Desktop where
  painting := false
  sizingRect := ⟨0, 0, 0, 0⟩
  sizingPt := ⟨0, 0⟩
  sizing := false
  windowList := [0]
  focused := none
  mouseCapturing := none
  scrSize := ⟨1024, 768⟩
  mousePos := ⟨512, 384⟩
  globalInvalidated := ⟨0, 0, 0, 0⟩
  window := fun _ => { title := [], scrRect := ⟨120, 120, 646, 426⟩, bgColor := 0xffffff, winInvalidated := rt,
                       proc := none, moving := false }

theorem feed_invalidates_last : ∃ tw' calls after, TtyWindow.feed ⟨fun _ => 32, 79, 24⟩ (.write [65]) = .ok (tw', calls) ∧
    invalidatedInt (damaged ⟨0, 0, 5, 5⟩) 0 calls = some after ∧
    Invalidates ((damaged ⟨0, 0, 5, 5⟩).window 0) (after.window 0) ⟨fun _ => 32, 79, 24⟩ tw' (Writes (.write [65]))
      (none ∈ calls) := by
  obtain ⟨tw', calls, ran, runs, covers⟩ :=
    @feed_invalidates ⟨fun _ => 32, 79, 24⟩ (damaged ⟨0, 0, 5, 5⟩) 0 ⟨by decide, by decide⟩ (.write [65])
  obtain ⟨after, invalidation⟩ := runs (within_iff.mpr (by decide)) (within_iff.mpr (by decide))
  exact ⟨tw', calls, after, ran, invalidation, covers after invalidation⟩

/-- The empty string leaves the cursor's cell as it is, a scroll forgets damage left of the window, and damage that reaches
beyond `int` has no union with that of a character. -/
theorem damage_missed :
    (∃ calls after, TtyWindow.feed ⟨fun _ => 32, 0, 0⟩ (.write []) = .ok (⟨fun _ => 32, 0, 0⟩, calls) ∧
      invalidatedInt (damaged ⟨0, 0, 0, 0⟩) 0 calls = some after ∧
      ¬Invalidates ((damaged ⟨0, 0, 0, 0⟩).window 0) (after.window 0)
        ⟨fun _ => 32, 0, 0⟩ ⟨fun _ => 32, 0, 0⟩ True False) ∧
    (∃ tw' calls after, TtyWindow.feed ⟨fun _ => 32, 0, 24⟩ (.char 10) = .ok (tw', calls) ∧
      invalidatedInt (damaged ⟨-2, 23, 5, 5⟩) 0 calls = some after ∧
      ¬Invalidates ((damaged ⟨-2, 23, 5, 5⟩).window 0) (after.window 0) ⟨fun _ => 32, 0, 24⟩ tw' True False) ∧
    ∃ tw' calls, TtyWindow.feed ⟨fun _ => 32, 0, 1⟩ (.char 65) = .ok (tw', calls) ∧
      invalidatedInt (damaged ⟨10, 0, 2 ^ 31 - 1, 5⟩) 0 calls = none := by
  refine ⟨⟨_, _, rfl, rfl, fun all => ?_⟩, ⟨_, _, _, rfl, rfl, fun all => ?_⟩, _, _, rfl, rfl⟩
  · exact absurd ((all.cursors trivial).1 3 23 (by decide)) (by decide)
  · exact absurd (all.kept (-2) 23 (by decide) False.elim) (by decide)

end Window

end RubberOS.Soundness.TtyDamage
