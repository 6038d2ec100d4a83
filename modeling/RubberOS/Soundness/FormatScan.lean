import RubberOS.Proofs.FormatItems

/-! # The scan of a format

The loop of `vsnprintf` steps over one character behind each specification. The default of its switch, for an unknown
letter, steps over the letter itself, so that the loop then skips the character behind it, whether this is a literal one,
a `%` or the NUL. A format that ends within a specification has the NUL for its letter.
-/

namespace RubberOS.Soundness.FormatScan

open Model Model.Snprintf

/-- The stores that a format asks for. -/
def asked (fmt : List (BitVec 8)) (args : List Arg) : List Store := (items args 0 fmt).1.flatMap Item.stores

/-- The state in front of the loop. -/
def start (size : ℕ) : Scan := ⟨⟨size, 0, []⟩, []⟩

/-- When the scan gets to the character, there is room for it and for the NUL. -/
def Fits (size : ℕ) (fmt : List (BitVec 8)) (args : List Arg) (i : ℕ) : Prop :=
  column i (items args 0 fmt).1 + 2 ≤ size

/-- The scan ends at the NUL of the format, or at `end`, and every literal character that fits is in the buffer. -/
def Faithful (size : ℕ) (fmt : List (BitVec 8)) (args : List Arg) : Prop :=
  ∃ result stores scan, vsnprintf size fmt args = some (result, stores) ∧ scanFrom (start size) args 0 fmt = .ok scan ∧
    ∀ i ∈ literals fmt, Fits size fmt args i → ∃ place, (i, place) ∈ scan.copied ∧ stores.lookup place = fmt.reverse[i]?

/-- The arguments have the types by which the format reads them, and no `int` computation overflows. -/
structure Defined (fmt : List (BitVec 8)) (args : List Arg) : Prop where
  arguments : ∀ reason, (items args 0 fmt).2 ≠ some (.undefined reason)
  numbers : textLength (asked fmt args) ≠ none

/-- What the scan takes wrongly lies behind the room: no literal character that fits is taken for a part of a
specification, and the loop goes to `end` unless it gets through the format. -/
structure SoundWithin (size : ℕ) (fmt : List (BitVec 8)) (args : List Arg) : Prop where
  literal : ∀ i ∈ literals fmt, Fits size fmt args i → i ∈ codeLiterals fmt
  ending : (∃ out, run (start size).out (asked fmt args) = some (true, out)) ∨
    (∃ out, run (start size).out (asked fmt args) = some (false, out)) ∧ meetsNul 0 fmt = false ∧
      ∀ reason, (items args 0 fmt).2 ≠ some (.undefined reason)

section Scans

variable {size : ℕ} {fmt : List (BitVec 8)} {args : List Arg} {scan : Scan} {stops : Bool}

/-- The run of the items ends as the run of their stores does. -/
private theorem runItems_of_run {out : Out} (ran : run (start size).out (asked fmt args) = some (stops, out)) :
    ∃ scan, runItems (start size) (items args 0 fmt).1 = some (stops, scan) := by
  have erased := runItems_erase (start size) (items args 0 fmt).1
  rw [← asked, ran] at erased
  obtain ⟨⟨stops', scan⟩, whole, same⟩ := Option.map_eq_some_iff.mp erased
  obtain rfl := congrArg Prod.fst same
  exact ⟨scan, whole⟩

private theorem run_of_runItems (ran : runItems (start size) (items args 0 fmt).1 = some (stops, scan)) :
    run (start size).out (asked fmt args) = some (stops, scan.out) := by
  have erased := runItems_erase (start size) (items args 0 fmt).1
  rw [ran] at erased
  exact erased.symm

private theorem vsnprintf_of_scan (two : 2 ≤ size) (ran : scanFrom (start size) args 0 fmt = .ok scan) :
    ∃ result, vsnprintf size fmt args = some (result, (scan.out.str, 0) :: scan.out.stores) := by
  have erased := scanFrom_erase (start size) args 0 fmt
  rw [ran] at erased
  have loop : formatFrom ⟨size, 0, []⟩ args 0 fmt = some scan.out := erased.symm
  rw [vsnprintf, if_neg (by omega), if_neg (by omega), loop]
  exact ⟨_, rfl⟩

/-- Where a run of the items ends the scan, all literal characters that fit and are items are in the buffer. -/
private theorem faithful_of_ends (two : 2 ≤ size) (bound : size < 2 ^ 64)
    (literal : ∀ i ∈ literals fmt, Fits size fmt args i → i ∈ codeLiterals fmt)
    (ran : runItems (start size) (items args 0 fmt).1 = some (stops, scan))
    (ends : stops = true ∨ (items args 0 fmt).2 = none) : Faithful size fmt args := by
  have scanned : scanFrom (start size) args 0 fmt = .ok scan := by
    rw [scanFrom_eq, ran]
    rcases ends with rfl | through
    · rfl
    · rw [through]
      cases stops <;> rfl
  obtain ⟨result, called⟩ := vsnprintf_of_scan two scanned
  refine ⟨result, _, scan, called, scanned, fun i member fits => ?_⟩
  rcases literal_item args (literal i member fits) with ⟨item, found, literal, rfl⟩ | ⟨halted, behind⟩
  · obtain ⟨c, char, spelled⟩ := items_character found literal
    obtain ⟨place, before, logged, cell⟩ := literal_copied ran (items_descend args 0 fmt) found literal char fits bound
    have apart : (place == scan.out.str) = false := beq_eq_false_iff_ne.mpr before.ne
    refine ⟨place, logged, ?_⟩
    rw [List.lookup_cons, apart, spelled]
    exact cell
  · rw [Fits, column_behind behind] at fits
    obtain ⟨rfl, _⟩ := size_of_run fits bound (run_of_runItems ran)
    rcases ends with stopped | through
    · cases stopped
    · exact absurd through halted

/-- The scan copies nothing but what is literal for the formatter. -/
private theorem literal_of_copied {i place : ℕ} (ran : runItems (start size) (items args 0 fmt).1 = some (stops, scan))
    (copied : (i, place) ∈ scan.copied) : i ∈ codeLiterals fmt := by
  rcases runItems_copied ran copied with before | ⟨item, found, literal, rfl⟩
  · exact absurd before List.not_mem_nil
  · exact items_literal found literal

private theorem faithful_iff_soundWithin (two : 2 ≤ size) (bound : size < 2 ^ 64) :
    Faithful size fmt args ↔ SoundWithin size fmt args := by
  constructor
  · rintro ⟨result, stores, scan, called, scanned, copied⟩
    rw [scanFrom_eq] at scanned
    cases ran : runItems (start size) (items args 0 fmt).1 with
    | none =>
      rw [ran] at scanned
      cases scanned
    | some stopped =>
      obtain ⟨stops, last⟩ := stopped
      have whole := run_of_runItems ran
      rw [ran] at scanned
      cases stops with
      | true =>
        cases scanned
        refine ⟨fun i member fits => ?_, .inl ⟨_, whole⟩⟩
        obtain ⟨place, logged, _⟩ := copied i member fits
        exact literal_of_copied ran logged
      | false =>
        cases halt : (items args 0 fmt).2 with
        | some reason =>
          rw [halt] at scanned
          cases scanned
        | none =>
          rw [halt] at scanned
          cases scanned
          refine ⟨fun i member fits => ?_, .inr ⟨⟨_, whole⟩, (items_halt args 0 fmt).2 halt, fun reason => ?_⟩⟩
          · obtain ⟨place, logged, _⟩ := copied i member fits
            exact literal_of_copied ran logged
          · rw [halt]
            exact (Option.some_ne_none _).symm
  · rintro ⟨literal, ⟨out, ran⟩ | ⟨⟨out, ran⟩, inside, matching⟩⟩
    · obtain ⟨scan, whole⟩ := runItems_of_run ran
      exact faithful_of_ends two bound literal whole (.inl rfl)
    · obtain ⟨scan, whole⟩ := runItems_of_run ran
      have through : (items args 0 fmt).2 = none := by
        cases halt : (items args 0 fmt).2 with
        | none => rfl
        | some reason =>
          cases reason with
          | pastNul =>
            have meets := (items_halt args 0 fmt).1 halt
            rw [inside] at meets
            cases meets
          | undefined reason => exact absurd halt (matching reason)
      exact faithful_of_ends two bound literal whole (.inr through)

private theorem soundWithin_of_sound (sound : sound false 0 fmt = true) (defined : Defined fmt args) :
    SoundWithin size fmt args := by
  obtain ⟨literal, inside⟩ := (covers_iff fmt).1.mpr sound
  refine ⟨fun i member _ => literal i member, ?_⟩
  obtain ⟨n, length⟩ := Option.ne_none_iff_exists'.mp defined.numbers
  obtain ⟨last, landed, _⟩ := @landing_le (start size).out _ _ length
  obtain ⟨⟨stops, out⟩, ran, _⟩ := Option.map_eq_some_iff.mp landed
  cases stops with
  | true => exact .inl ⟨out, ran⟩
  | false => exact .inr ⟨⟨out, ran⟩, inside, defined.arguments⟩

private theorem sound_of_soundWithin (room : demand (asked fmt args) + 2 ≤ size) (bound : size < 2 ^ 64)
    (within : SoundWithin size fmt args) : sound false 0 fmt = true ∧ Defined fmt args := by
  have literal : ∀ i ∈ literals fmt, i ∈ codeLiterals fmt := fun i member =>
    within.literal i member ((Nat.add_le_add_right (column_le i _) 2).trans room)
  rcases within.ending with ⟨out, ran⟩ | ⟨⟨out, ran⟩, inside, matching⟩
  · exact absurd (size_of_run room bound ran).1.symm Bool.false_ne_true
  · have exact := @run_exact (start size).out _ room bound
    rw [ran, Option.map_some] at exact
    obtain ⟨n, length, _⟩ := Option.map_eq_some_iff.mp exact.symm
    refine ⟨(covers_iff fmt).1.mp ⟨literal, inside⟩, matching, ?_⟩
    rw [length]
    exact Option.some_ne_none n

/-- The scan stays in front of the NUL and copies every literal character that fits as long as what it takes wrongly lies
behind the room. It takes nothing wrongly in a sound format, and where the room holds the whole text, in no other. -/
theorem format_scan (fmt : List (BitVec 8)) (args : List Arg) :
    (∀ size, 2 ≤ size → size < 2 ^ 64 → (Faithful size fmt args ↔ SoundWithin size fmt args)) ∧
    (sound false 0 fmt = true → Defined fmt args → ∀ size, 2 ≤ size → size < 2 ^ 64 → Faithful size fmt args) ∧
    ∀ size, demand (asked fmt args) + 2 ≤ size → size < 2 ^ 64 →
      (Faithful size fmt args ↔ sound false 0 fmt = true ∧ Defined fmt args) := by
  have within (size : ℕ) (two : 2 ≤ size) (bound : size < 2 ^ 64) : Faithful size fmt args ↔ SoundWithin size fmt args :=
    faithful_iff_soundWithin two bound
  refine ⟨within, fun sound defined size two bound => ?_, fun size room bound => ?_⟩
  · exact (within size two bound).mpr (soundWithin_of_sound sound defined)
  · rw [within size ((Nat.le_add_left 2 _).trans room) bound]
    exact ⟨sound_of_soundWithin room bound, fun ⟨sound, defined⟩ => soundWithin_of_sound sound defined⟩

end Scans

/-- The format `a%db%%c` and an argument for it. -/
theorem format_scan_directives : sound false 0 (text "a%db%%c") = true ∧ Faithful 4 (text "a%db%%c") [.int 5] := by
  have through : (items [.int 5] 0 (text "a%db%%c")).2 = none := by decide
  have defined : Defined (text "a%db%%c") [.int 5] := ⟨fun reason => by rw [through]; exact (Option.some_ne_none _).symm, by decide⟩
  exact ⟨by decide, (format_scan _ _).2.1 (by decide) defined 4 (by decide) (by decide)⟩

/-- A lone `%` and an unknown letter at the end lead the scan past the NUL, and behind another unknown letter the `b` is
lost. -/
theorem unknown_letter : scanFrom (start 16) [] 0 (text "%") = .error .pastNul ∧
    scanFrom (start 16) [] 0 (text "%q") = .error .pastNul ∧ 0 ∈ literals (text "%qb") ∧
    Fits 16 (text "%qb") [] 0 ∧ ¬Faithful 16 (text "%") [] ∧ ¬Faithful 16 (text "%q") [] ∧
    ¬Faithful 16 (text "%qb") [] := by
  have unsound (fmt : List (BitVec 8)) (wrong : sound false 0 fmt = false) (room : demand (asked fmt []) + 2 ≤ 16) :
      ¬Faithful 16 fmt [] := by
    intro faithful
    have within := (faithful_iff_soundWithin (by decide) (by decide)).mp faithful
    rw [(sound_of_soundWithin room (by decide) within).1] at wrong
    cases wrong
  refine ⟨rfl, rfl, by decide, ?_, unsound _ (by decide) ?_, unsound _ (by decide) ?_, unsound _ (by decide) ?_⟩
  · rw [Fits]
    decide
  · decide
  · decide
  · decide

end RubberOS.Soundness.FormatScan
