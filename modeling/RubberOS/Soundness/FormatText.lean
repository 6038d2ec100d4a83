import RubberOS.Proofs.FormatText

/-! # What a format writes

With room for it the buffer holds the texts of the characters and the directives one after the other, and a NUL. The
text of an integer directive is read back as its argument, whatever its flags, width and precision.
-/

namespace RubberOS.Soundness.FormatText

open Model Model.Snprintf

section Rendered

variable {n : ℕ} {stores : List Store}

/-- A call with enough room stores the text of the format and a NUL behind it, and nothing else. -/
theorem format_rendered (size : ℕ) (fmt : List (BitVec 8)) (args : List Arg)
    (matching : output args 0 fmt = some stores) (whole : textLength stores = some n)
    (room : demand stores + 2 ≤ size) (bound : size < 2 ^ 64) :
    ∃ log, vsnprintf size fmt args = some ((BitVec.ofNat 32 n).toInt, log) ∧ (rendering stores).length = n ∧
      (∀ i (inside : i < (rendering stores).length), log.lookup i = some (rendering stores)[i]) ∧
      log.lookup n = some 0 ∧ ∀ store ∈ log, store.1 ≤ n := by
  have counted := @run_exact ⟨size, 0, []⟩ stores room bound
  rw [whole, Option.map_some, Option.map_eq_some_iff] at counted
  obtain ⟨⟨stops, out⟩, ran, same⟩ := counted
  simp only [Prod.mk.injEq, Nat.zero_add] at same
  obtain ⟨rfl, _, rfl⟩ := same
  have empty : Written ⟨size, 0, []⟩ 0 [] := ⟨rfl, fun i inside => absurd inside (Nat.not_lt_zero i)⟩
  have written := run_text room bound ran empty
  rw [List.nil_append] at written
  have length : (rendering stores).length = out.str := by
    rw [written.str, Nat.zero_add]
  have behind : out.Behind :=
    kept_behind.run (show Out.Behind ⟨size, 0, []⟩ from fun _ member => absurd member List.not_mem_nil) ran
  refine ⟨(out.str, 0) :: out.stores, ?_, length, fun i inside => ?_, ?_, fun store member => ?_⟩
  · rw [vsnprintf, if_neg (by omega), if_neg (by omega), formatFrom_eq matching, ran]
    rfl
  · have apart : (i == out.str) = false := by
      rw [beq_eq_false_iff_ne]
      omega
    have cell := written.cells i inside
    rw [Nat.zero_add] at cell
    rw [List.lookup_cons, apart]
    exact cell
  · rw [List.lookup_cons, BEq.rfl]
  · rcases List.mem_cons.mp member with rfl | member
    · exact le_rfl
    · exact behind store member

/-- A literal, a field of six and one of four, in a buffer of 20 bytes. -/
theorem format_rendered_fields : ∃ log, vsnprintf 20 (text "n=%+6d|%#x") [.int 42, .int 255] = some (13, log) ∧
    log.lookup 13 = some 0 := by
  have matching : output [.int 42, .int 255] 0 (text "n=%+6d|%#x") = some
      [.put (chr 'n'), .put (chr '='), .number [.put (chr ' '), .put (chr ' '), .put (chr ' '), .put (chr '+'),
        .put (chr '4'), .put (chr '2')], .put (chr '|'), .number [.hexMark, .put (chr 'f'), .put (chr 'f')]] := by
    decide +kernel
  obtain ⟨log, result, _, _, last, _⟩ := format_rendered 20 (text "n=%+6d|%#x") [.int 42, .int 255] matching
    rfl (by decide) (by decide)
  exact ⟨log, result, last⟩

end Rendered

/-! ## Integers -/

/-- Whether an integer directive takes its argument as signed, and the base that it writes. -/
def integerLetter (c : BitVec 8) : Option (Bool × ℕ) :=
  if c = chr 'd' ∨ c = chr 'i' then some (true, 10)
  else if c = chr 'u' then some (false, 10)
  else if c = chr 'o' then some (false, 8)
  else if c = chr 'X' ∨ c = chr 'x' then some (false, 16)
  else none

/-- The number that an argument is. -/
def argValue (signed : Bool) : Arg → Option ℤ
  | .int value => some (if signed then value.toInt else value.toNat)
  | .long value => some (if signed then value.toInt else value.toNat)
  | _ => none

section Integers

variable {flags flags' : Flags} {width precision : ℤ} {length : Option (BitVec 8)} {fmt rest : List (BitVec 8)}
  {args args' : List Arg} {c : BitVec 8} {signed : Bool} {base : ℕ} {num : BitVec 64}

private theorem parseFlags_sign (flags : Flags) (fmt : List (BitVec 8)) :
    (parseFlags flags fmt).1.sign = flags.sign := by
  induction fmt generalizing flags with
  | nil => rfl
  | cons c fmt ih =>
    rw [parseFlags]
    split_ifs
    · exact ih _
    · exact ih _
    · exact ih _
    · exact ih _
    · exact ih _
    · rfl

private theorem parseWidth_sign (ran : parseWidth flags fmt args = .ok (flags', width, rest, args')) :
    flags'.sign = flags.sign := by
  cases fmt with
  | nil =>
    cases ran
    rfl
  | cons c fmt =>
    rw [parseWidth] at ran
    split_ifs at ran
    · obtain ⟨⟨value, left⟩, _, ran⟩ := Except.bind_ok_iff.mp ran
      cases ran
      rfl
    · obtain ⟨⟨value, left⟩, _, ran⟩ := Except.bind_ok_iff.mp ran
      dsimp only at ran
      split_ifs at ran
      · obtain ⟨value, _, ran⟩ := Except.bind_ok_iff.mp ran
        cases ran
        rfl
      · cases ran
        rfl
    · cases ran
      rfl

private theorem conversionHead_sign
    (head : conversionHead fmt args = .ok (flags, width, precision, length, args', rest)) : flags.sign = false := by
  rw [conversionHead] at head
  obtain ⟨⟨_, _, _, _⟩, first, head⟩ := Except.bind_ok_iff.mp head
  obtain ⟨⟨_, _, _⟩, _, head⟩ := Except.bind_ok_iff.mp head
  cases head
  exact (parseWidth_sign first).trans (parseFlags_sign {} fmt)

private theorem convert_integer (width precision : ℤ) (length : Option (BitVec 8)) (args : List Arg)
    (rest : List (BitVec 8))
    (letter : integerLetter c = some (signed, base)) (plain : flags.sign = false) :
    (base = 8 ∨ base = 10 ∨ base = 16) ∧ ∃ flags' : Flags, flags'.sign = signed ∧
      convert flags width precision length args (c :: rest) =
        integer flags' base width precision length args >>= fun (stores, args) => .ok (stores, args, rest) := by
  rw [integerLetter] at letter
  split_ifs at letter with decimal unsigned octal hex
  · cases letter
    refine ⟨by simp, { flags with sign := true }, rfl, ?_⟩
    rcases decimal with rfl | rfl <;> rfl
  · cases letter
    subst unsigned
    exact ⟨by simp, flags, plain, rfl⟩
  · cases letter
    subst octal
    exact ⟨by simp, flags, plain, rfl⟩
  · cases letter
    rcases hex with rfl | rfl
    · exact ⟨by simp, { flags with large := true }, plain, rfl⟩
    · exact ⟨by simp, flags, plain, rfl⟩

private theorem integerArg_value (taken : integerArg flags length args = .ok (num, args')) :
    ∃ arg, args = arg :: args' ∧
    argValue flags.sign arg = some (if flags.sign then num.toInt else num.toNat) := by
  rw [integerArg] at taken
  by_cases long : length = some (chr 'l') ∨ length = some (chr 'z')
  · rw [if_pos long] at taken
    cases args with
    | nil => cases taken
    | cons arg args =>
      cases arg with
      | long value =>
        cases taken
        exact ⟨_, rfl, rfl⟩
      | int | pointer | string | place => cases taken
  · rw [if_neg long] at taken
    obtain ⟨⟨value, left⟩, first, taken⟩ := Except.bind_ok_iff.mp taken
    cases taken
    cases args with
    | nil => cases first
    | cons arg args =>
      cases arg with
      | int value =>
        cases first
        refine ⟨_, rfl, ?_⟩
        cases flags.sign with
        | true => exact congrArg some (BitVec.toInt_signExtend_of_le (by decide)).symm
        | false => exact congrArg (fun n : ℕ => some (n : ℤ)) (BitVec.toNat_setWidth_of_le (by decide)).symm
      | long | pointer | string | place => cases first

/-- Whatever the flags, the width and the precision: the text of an integer directive is at least as long as the width,
and is read back, as a numeral of C in the base of the directive, as the argument. -/
theorem integers_read_back {stores : List Store} {left : List (BitVec 8)} {args'' : List Arg} {n : ℕ}
    (head : conversionHead fmt args = .ok (flags, width, precision, length, args', c :: rest))
    (letter : integerLetter c = some (signed, base)) (converted : conversion fmt args = .ok (stores, args'', left))
    (whole : textLength stores = some n) :
    left = rest ∧ (rendering stores).length = n ∧ width ≤ n ∧ ∃ arg value, args' = arg :: args'' ∧
      argValue signed arg = some value ∧ (script base).read (rendering stores) = some value := by
  obtain ⟨bases, flags', sign, read⟩ :=
    convert_integer width precision length args' rest letter (conversionHead_sign head)
  rw [conversion_eq, head] at converted
  have converted : convert flags width precision length args' (c :: rest) = .ok (stores, args'', left) := converted
  rw [read] at converted
  obtain ⟨⟨_, _⟩, number, same⟩ := Except.bind_ok_iff.mp converted
  cases same
  rw [integer] at number
  obtain ⟨⟨num, _⟩, taken, number⟩ := Except.bind_ok_iff.mp number
  dsimp only at number
  obtain ⟨steps, written, same⟩ := Except.bind_ok_iff.mp number
  cases same
  obtain ⟨arg, split, value⟩ := integerArg_value taken
  rw [sign] at value
  have counted : numLength steps = some n := by
    rw [textLength, Store.length, Option.bind_eq_some_iff] at whole
    obtain ⟨m, counted, same⟩ := whole
    rw [counted]
    exact same
  have text : rendering [.number steps] = steps.flatMap NumStore.text := List.append_nil _
  obtain ⟨readBack, wide⟩ := number_read_back bases written counted
  rw [sign] at readBack
  rw [text]
  exact ⟨rfl, numLength_text counted, wide, arg, _, split, value, readBack⟩

/-- A signed field of six. -/
theorem integers_read_back_field : ∃ value, argValue true (.int 42) = some value ∧
    (script 10).read (text "   +42") = some value := by
  have head : conversionHead (text "+6d") [.int 42] = .ok ({ plus := true }, 6, -1, none, [.int 42], text "d") := rfl
  have converted : conversion (text "+6d") [.int 42] = .ok ([.number ((text "   +42").map .put)], [], []) := rfl
  obtain ⟨_, _, _, arg, value, split, known, read⟩ := integers_read_back head rfl converted rfl
  cases split
  exact ⟨value, known, read⟩

end Integers

end RubberOS.Soundness.FormatText
