import Mathlib.Data.List.TakeWhile
import RubberOS.Model.SnprintfScan

/-! # Specifications and literal characters

A specification is a `%`, its head of flags, width, precision and length, and the letter behind the head. All other
characters are literal. The formatter goes through a format in the same way, except that it takes the character behind
an unknown letter for a part of the specification.
-/

namespace RubberOS.Model.Snprintf

/-! ## The head of a specification -/

def isFlag (c : BitVec 8) : Bool := c = chr '-' ∨ c = chr '+' ∨ c = chr ' ' ∨ c = chr '#' ∨ c = chr '0'

/-- The format behind a width, or behind the value of a precision. -/
def dropNumber : List (BitVec 8) → List (BitVec 8)
  | [] => []
  | c :: fmt => if isdigit c then (c :: fmt).dropWhile isdigit else if c = chr '*' then fmt else c :: fmt

def dropPrecision : List (BitVec 8) → List (BitVec 8)
  | [] => []
  | c :: fmt => if c = chr '.' then dropNumber fmt else c :: fmt

/-- The format from the letter of a specification on. -/
def body (fmt : List (BitVec 8)) : List (BitVec 8) :=
  (parseLength (dropPrecision (dropNumber (fmt.dropWhile isFlag)))).2

/-- The characters in front of `rest` contain no `%`. -/
def Skips (fmt rest : List (BitVec 8)) : Prop := ∃ head, fmt = head ++ rest ∧ chr '%' ∉ head

section Head

variable {c : BitVec 8} {fmt rest last : List (BitVec 8)} {args args' : List Arg} {flags flags' : Flags} {width precision : ℤ}
  {length : Option (BitVec 8)}

private theorem Skips.refl (fmt : List (BitVec 8)) : Skips fmt fmt := ⟨[], rfl, List.not_mem_nil⟩

private theorem Skips.trans (first : Skips fmt rest) (second : Skips rest last) : Skips fmt last := by
  obtain ⟨head, rfl, absent⟩ := first
  obtain ⟨head', rfl, absent'⟩ := second
  refine ⟨head ++ head', (List.append_assoc ..).symm, ?_⟩
  rw [List.mem_append]
  exact not_or.mpr ⟨absent, absent'⟩

private theorem Skips.cons (other : c ≠ chr '%') : Skips (c :: fmt) fmt :=
  ⟨[c], rfl, List.mem_singleton.not.mpr other.symm⟩

private theorem Skips.dropWhile {p : BitVec 8 → Bool} (other : p (chr '%') = false) : Skips fmt (fmt.dropWhile p) := by
  refine ⟨fmt.takeWhile p, List.takeWhile_append_dropWhile.symm, fun member => ?_⟩
  have holds := List.mem_takeWhile_imp member
  rw [other] at holds
  cases holds

private theorem skips_dropNumber (fmt : List (BitVec 8)) : Skips fmt (dropNumber fmt) := by
  cases fmt with
  | nil => exact .refl []
  | cons c fmt =>
    rw [dropNumber]
    split_ifs with digit star
    · exact .dropWhile rfl
    · exact .cons (by rw [star]; decide)
    · exact .refl _

private theorem skips_dropPrecision (fmt : List (BitVec 8)) : Skips fmt (dropPrecision fmt) := by
  cases fmt with
  | nil => exact .refl []
  | cons c fmt =>
    rw [dropPrecision]
    split_ifs with point
    · exact (Skips.cons (by rw [point]; decide)).trans (skips_dropNumber fmt)
    · exact .refl _

private theorem skips_parseLength (fmt : List (BitVec 8)) : Skips fmt (parseLength fmt).2 := by
  cases fmt with
  | nil => exact .refl []
  | cons c fmt =>
    rw [parseLength]
    split_ifs with length
    · refine .cons ?_
      rintro rfl
      cases length
    · exact .refl _

private theorem skips_body (fmt : List (BitVec 8)) : Skips fmt (body fmt) :=
  (((Skips.dropWhile rfl).trans (skips_dropNumber _)).trans (skips_dropPrecision _)).trans (skips_parseLength _)

private theorem parseFlags_snd (flags : Flags) (fmt : List (BitVec 8)) :
    (parseFlags flags fmt).2 = fmt.dropWhile isFlag := by
  induction fmt generalizing flags with
  | nil => rfl
  | cons c fmt ih =>
    rw [parseFlags, List.dropWhile_cons]
    by_cases flag : isFlag c = true
    · rw [if_pos flag]
      rw [isFlag, decide_eq_true_eq] at flag
      split_ifs with minus plus space mark zero
      · exact ih _
      · exact ih _
      · exact ih _
      · exact ih _
      · exact ih _
      · simp only [minus, plus, space, mark, zero, or_self] at flag
    · rw [if_neg flag]
      rw [isFlag, decide_eq_true_eq] at flag
      simp only [not_or] at flag
      obtain ⟨minus, plus, space, mark, zero⟩ := flag
      rw [if_neg minus, if_neg plus, if_neg space, if_neg mark, if_neg zero]

private theorem skipAtoi_rest {i value : ℤ} (ran : skipAtoi i fmt = .ok (value, rest)) :
    rest = fmt.dropWhile isdigit := by
  induction fmt generalizing i with
  | nil =>
    cases ran
    rfl
  | cons c fmt ih =>
    rw [skipAtoi] at ran
    rw [List.dropWhile_cons]
    split_ifs at ran ⊢ with digit
    · obtain ⟨sum, _, ran⟩ := Except.bind_ok_iff.mp ran
      exact ih ran
    · cases ran
      rfl

private theorem parseWidth_rest (ran : parseWidth flags fmt args = .ok (flags', width, rest, args')) :
    rest = dropNumber fmt := by
  cases fmt with
  | nil =>
    cases ran
    rfl
  | cons c fmt =>
    rw [parseWidth] at ran
    rw [dropNumber]
    split_ifs at ran ⊢ with digit star
    · obtain ⟨⟨value, left⟩, number, ran⟩ := Except.bind_ok_iff.mp ran
      cases ran
      exact skipAtoi_rest number
    · obtain ⟨⟨value, left⟩, _, ran⟩ := Except.bind_ok_iff.mp ran
      dsimp only at ran
      split_ifs at ran with negative
      · obtain ⟨value, _, ran⟩ := Except.bind_ok_iff.mp ran
        cases ran
        rfl
      · cases ran
        rfl
    · cases ran
      rfl

/-- Where the value of a precision takes the character of a length, an `s` follows, which is none. -/
private theorem precisionValue_rest (ran : precisionValue fmt args = .ok (precision, rest, args')) :
    (parseLength rest).2 = (parseLength (dropNumber fmt)).2 := by
  cases fmt with
  | nil =>
    cases ran
    rfl
  | cons c fmt =>
    rw [precisionValue] at ran
    rw [dropNumber]
    split_ifs at ran ⊢ with digit star text long
    · obtain ⟨⟨value, left⟩, number, ran⟩ := Except.bind_ok_iff.mp ran
      cases ran
      rw [skipAtoi_rest number]
    · obtain ⟨⟨value, left⟩, _, ran⟩ := Except.bind_ok_iff.mp ran
      cases ran
      rfl
    · cases ran
      rfl
    · cases ran
      obtain ⟨rest, rfl⟩ := List.head?_eq_some_iff.mp long.2
      rw [parseLength, parseLength, if_pos long.1]
      rfl
    · cases ran
      rfl

private theorem parsePrecision_rest (ran : parsePrecision fmt args = .ok (precision, rest, args')) :
    (parseLength rest).2 = (parseLength (dropPrecision fmt)).2 := by
  cases fmt with
  | nil =>
    cases ran
    rfl
  | cons c fmt =>
    rw [parsePrecision] at ran
    rw [dropPrecision]
    split_ifs at ran ⊢ with point
    · obtain ⟨⟨value, left, args⟩, value', ran⟩ := Except.bind_ok_iff.mp ran
      cases ran
      exact precisionValue_rest value'
    · cases ran
      rfl

/-- The letter that the switch sees. -/
theorem conversionHead_rest (ran : conversionHead fmt args = .ok (flags, width, precision, length, args', rest)) :
    rest = body fmt := by
  rw [conversionHead] at ran
  obtain ⟨⟨flags, width, left, args⟩, first, ran⟩ := Except.bind_ok_iff.mp ran
  obtain ⟨⟨precision, left', args⟩, second, ran⟩ := Except.bind_ok_iff.mp ran
  cases ran
  change (parseLength left').2 = body fmt
  rw [parsePrecision_rest second, parseWidth_rest first, parseFlags_snd]
  rfl

end Head

/-! ## Where a format has literal characters -/

/-- What the formatter goes on with behind a specification. -/
def codeNext (fmt : List (BitVec 8)) : List (BitVec 8) :=
  match body fmt with
  | [] => []
  | c :: rest => if known c then rest else rest.tail

/-- The formatter goes past the NUL in this specification. -/
def cut (fmt : List (BitVec 8)) : Bool :=
  match body fmt with
  | [] => true
  | c :: rest => !known c && rest.isEmpty

/-- The literal characters, when `next` is what follows a specification. -/
def literalsBy (next : List (BitVec 8) → List (BitVec 8)) (skip : ℕ) : List (BitVec 8) → List ℕ
  | [] => []
  | c :: fmt =>
    if 0 < skip then literalsBy next (skip - 1) fmt
    else if c = chr '%' then literalsBy next (fmt.length - (next fmt).length) fmt
    else fmt.length :: literalsBy next 0 fmt

/-- The literal characters of a format: a specification ends with its letter, or with the format. -/
def literals (fmt : List (BitVec 8)) : List ℕ := literalsBy (fun fmt => (body fmt).tail) 0 fmt

/-- The characters that the formatter takes for literal ones. -/
def codeLiterals (fmt : List (BitVec 8)) : List ℕ := literalsBy codeNext 0 fmt

/-- The formatter meets a specification in which it goes past the NUL. -/
def meetsNul (skip : ℕ) : List (BitVec 8) → Bool
  | [] => false
  | c :: fmt =>
    if 0 < skip then meetsNul (skip - 1) fmt
    else if c = chr '%' then cut fmt || meetsNul (fmt.length - (codeNext fmt).length) fmt
    else meetsNul 0 fmt

/-- Every specification has a known letter. One without is allowed where the character that the formatter takes in
addition, and so `swallows`, is the `%` of another specification; the formatter then prints the rest of that one, and
begins a specification at its letter if that is a `%`. -/
def sound (swallows : Bool) (skip : ℕ) : List (BitVec 8) → Bool
  | [] => !swallows
  | c :: fmt =>
    if 0 < skip then sound swallows (skip - 1) fmt
    else if c = chr '%' then
      match body fmt with
      | [] => swallows
      | l :: rest => sound (if swallows then decide (l = chr '%') else !known l) (fmt.length - rest.length) fmt
    else !swallows && sound false 0 fmt

section Scans

variable {c : BitVec 8} {fmt rest : List (BitVec 8)} {next : List (BitVec 8) → List (BitVec 8)} {skip i : ℕ}
  {swallows : Bool}

private theorem literalsBy_skip (next : List (BitVec 8) → List (BitVec 8)) (skip : ℕ) (fmt : List (BitVec 8)) :
    literalsBy next skip fmt = literalsBy next 0 (fmt.drop skip) := by
  induction fmt generalizing skip with
  | nil => rw [List.drop_nil]; rfl
  | cons c fmt ih =>
    cases skip with
    | zero => rfl
    | succ skip =>
      rw [literalsBy, if_pos (Nat.succ_pos skip), List.drop_succ_cons]
      exact ih skip

private theorem meetsNul_skip (skip : ℕ) (fmt : List (BitVec 8)) : meetsNul skip fmt = meetsNul 0 (fmt.drop skip) := by
  induction fmt generalizing skip with
  | nil => rw [List.drop_nil]; rfl
  | cons c fmt ih =>
    cases skip with
    | zero => rfl
    | succ skip =>
      rw [meetsNul, if_pos (Nat.succ_pos skip), List.drop_succ_cons]
      exact ih skip

private theorem sound_skip (swallows : Bool) (skip : ℕ) (fmt : List (BitVec 8)) (inside : skip ≤ fmt.length) :
    sound swallows skip fmt = sound swallows 0 (fmt.drop skip) := by
  induction fmt generalizing skip with
  | nil =>
    rw [List.drop_nil]
    rfl
  | cons c fmt ih =>
    cases skip with
    | zero => rfl
    | succ skip =>
      rw [sound, if_pos (Nat.succ_pos skip), List.drop_succ_cons]
      exact ih skip (Nat.le_of_succ_le_succ inside)

private theorem drop_to_suffix (suffix : rest <:+ fmt) : fmt.drop (fmt.length - rest.length) = rest :=
  (List.suffix_iff_eq_drop.mp suffix).symm

private theorem Skips.suffix (skips : Skips fmt rest) : rest <:+ fmt := by
  obtain ⟨head, rfl, _⟩ := skips
  exact List.suffix_append head rest

private theorem tail_body_suffix (fmt : List (BitVec 8)) : (body fmt).tail <:+ fmt :=
  (List.tail_suffix _).trans (skips_body fmt).suffix

private theorem codeNext_suffix (fmt : List (BitVec 8)) : codeNext fmt <:+ fmt := by
  have suffix := tail_body_suffix fmt
  rw [codeNext]
  cases letter : body fmt with
  | nil => exact List.nil_suffix
  | cons c rest =>
    rw [letter] at suffix
    dsimp only
    split_ifs
    · exact suffix
    · exact (List.tail_suffix rest).trans suffix

/-- Behind a specification there is less of a format left than in front of it. -/
private theorem codeNext_length_lt (more : fmt ≠ []) : (codeNext fmt).length < fmt.length := by
  have shorter := (skips_body fmt).suffix.length_le
  rw [codeNext]
  cases letter : body fmt with
  | nil => exact List.length_pos_iff.mpr more
  | cons c rest =>
    rw [letter, List.length_cons] at shorter
    have tail := (List.tail_suffix rest).length_le
    dsimp only
    split_ifs <;> omega

/-! ### One step of a scan -/

private theorem literalsBy_percent (suffix : next fmt <:+ fmt) :
    literalsBy next 0 (chr '%' :: fmt) = literalsBy next 0 (next fmt) := by
  rw [literalsBy, if_neg (Nat.lt_irrefl 0), if_pos rfl, literalsBy_skip, drop_to_suffix suffix]

private theorem literalsBy_other (other : c ≠ chr '%') :
    literalsBy next 0 (c :: fmt) = fmt.length :: literalsBy next 0 fmt := by
  rw [literalsBy, if_neg (Nat.lt_irrefl 0), if_neg other]

private theorem meetsNul_percent (fmt : List (BitVec 8)) :
    meetsNul 0 (chr '%' :: fmt) = (cut fmt || meetsNul 0 (codeNext fmt)) := by
  rw [meetsNul, if_neg (Nat.lt_irrefl 0), if_pos rfl, meetsNul_skip, drop_to_suffix (codeNext_suffix fmt)]

private theorem meetsNul_other (fmt : List (BitVec 8)) (other : c ≠ chr '%') :
    meetsNul 0 (c :: fmt) = meetsNul 0 fmt := by
  rw [meetsNul, if_neg (Nat.lt_irrefl 0), if_neg other]

private theorem sound_cut (none : body fmt = []) : sound swallows 0 (chr '%' :: fmt) = swallows := by
  rw [sound, if_neg (Nat.lt_irrefl 0), if_pos rfl, none]

private theorem sound_percent (letter : body fmt = c :: rest) : sound swallows 0 (chr '%' :: fmt) =
    sound (if swallows then decide (c = chr '%') else !known c) 0 rest := by
  have suffix : rest <:+ fmt := by
    have whole := tail_body_suffix fmt
    rwa [letter] at whole
  rw [sound, if_neg (Nat.lt_irrefl 0), if_pos rfl, letter]
  dsimp only
  rw [sound_skip _ _ _ (Nat.sub_le _ _), drop_to_suffix suffix]

private theorem sound_other (other : c ≠ chr '%') : sound swallows 0 (c :: fmt) = (!swallows && sound false 0 fmt) := by
  rw [sound, if_neg (Nat.lt_irrefl 0), if_neg other]

/-! ### Places -/

theorem literalsBy_lt (member : i ∈ literalsBy next skip fmt) : i < fmt.length := by
  induction fmt generalizing skip with
  | nil => exact absurd member List.not_mem_nil
  | cons c fmt ih =>
    rw [literalsBy] at member
    rw [List.length_cons]
    split_ifs at member
    · exact Nat.lt_succ_of_lt (ih member)
    · exact Nat.lt_succ_of_lt (ih member)
    · rcases List.mem_cons.mp member with rfl | later
      · exact Nat.lt_succ_self _
      · exact Nat.lt_succ_of_lt (ih later)

/-- In front of a `%` there are literal characters only, so the same ones lie behind it. -/
private theorem mem_literalsBy_skips (skips : Skips fmt rest) (behind : i < rest.length) :
    i ∈ literalsBy next 0 fmt ↔ i ∈ literalsBy next 0 rest := by
  obtain ⟨head, rfl, absent⟩ := skips
  induction head with
  | nil => rfl
  | cons c head ih =>
    rw [List.mem_cons, not_or] at absent
    have apart : i ≠ (head ++ rest).length := by
      rw [List.length_append]
      omega
    rw [List.cons_append, literalsBy_other fun same => absent.1 same.symm, List.mem_cons, ih absent.2]
    exact or_iff_right apart

private theorem meetsNul_skips (skips : Skips fmt rest) : meetsNul 0 fmt = meetsNul 0 rest := by
  obtain ⟨head, rfl, absent⟩ := skips
  induction head with
  | nil => rfl
  | cons c head ih =>
    rw [List.mem_cons, not_or] at absent
    rw [List.cons_append, meetsNul_other _ fun same => absent.1 same.symm]
    exact ih absent.2

/-! ### Soundness -/

/-- The formatter takes every literal character for one and stays in front of the NUL. -/
structure Covers (fmt : List (BitVec 8)) : Prop where
  literal : ∀ i ∈ literals fmt, i ∈ codeLiterals fmt
  inside : meetsNul 0 fmt = false

/-- It does so when it takes one more character for a part of the specification before. -/
structure CoversBehind (fmt : List (BitVec 8)) : Prop where
  literal : ∀ i ∈ literals fmt, i ∈ codeLiterals fmt.tail
  more : fmt ≠ []
  inside : meetsNul 0 fmt.tail = false

private theorem literals_percent (fmt : List (BitVec 8)) : literals (chr '%' :: fmt) = literals (body fmt).tail :=
  literalsBy_percent (tail_body_suffix fmt)

private theorem codeLiterals_percent (fmt : List (BitVec 8)) :
    codeLiterals (chr '%' :: fmt) = codeLiterals (codeNext fmt) :=
  literalsBy_percent (codeNext_suffix fmt)

private theorem covers_other (other : c ≠ chr '%') : Covers (c :: fmt) ↔ Covers fmt := by
  have grammar : literals (c :: fmt) = fmt.length :: literals fmt := literalsBy_other other
  have code : codeLiterals (c :: fmt) = fmt.length :: codeLiterals fmt := literalsBy_other other
  have nul := meetsNul_other fmt other
  constructor
  · rintro ⟨literal, inside⟩
    refine ⟨fun i member => ?_, nul ▸ inside⟩
    have found := literal i (grammar ▸ List.mem_cons_of_mem _ member)
    rw [code] at found
    exact List.mem_of_ne_of_mem (literalsBy_lt member).ne found
  · rintro ⟨literal, inside⟩
    refine ⟨fun i member => ?_, nul.trans inside⟩
    rw [grammar] at member
    rw [code]
    rcases List.mem_cons.mp member with rfl | later
    · exact List.mem_cons_self
    · exact List.mem_cons_of_mem _ (literal i later)

private theorem covers_known (letter : body fmt = c :: rest) (listed : known c = true) :
    Covers (chr '%' :: fmt) ↔ Covers rest := by
  have onward : codeNext fmt = rest := by rw [codeNext, letter]; exact if_pos listed
  have safe : cut fmt = false := by rw [cut, letter]; dsimp only; rw [listed]; rfl
  have grammar : literals (chr '%' :: fmt) = literals rest := by rw [literals_percent, letter]; rfl
  have code : codeLiterals (chr '%' :: fmt) = codeLiterals rest := by rw [codeLiterals_percent, onward]
  have nul : meetsNul 0 (chr '%' :: fmt) = meetsNul 0 rest := by rw [meetsNul_percent, safe, onward, Bool.false_or]
  constructor
  · rintro ⟨literal, inside⟩
    exact ⟨by rwa [grammar, code] at literal, by rwa [nul] at inside⟩
  · rintro ⟨literal, inside⟩
    exact ⟨by rwa [grammar, code], by rwa [nul]⟩

private theorem covers_unknown (letter : body fmt = c :: rest) (unknown : known c = false) :
    Covers (chr '%' :: fmt) ↔ CoversBehind rest := by
  have onward : codeNext fmt = rest.tail := by
    rw [codeNext, letter]
    exact if_neg (Bool.eq_false_iff.mp unknown)
  have ends : cut fmt = rest.isEmpty := by rw [cut, letter]; dsimp only; rw [unknown]; rfl
  have grammar : literals (chr '%' :: fmt) = literals rest := by rw [literals_percent, letter]; rfl
  have code : codeLiterals (chr '%' :: fmt) = codeLiterals rest.tail := by rw [codeLiterals_percent, onward]
  have nul := meetsNul_percent fmt
  rw [ends, onward] at nul
  constructor
  · rintro ⟨literal, inside⟩
    rw [nul, Bool.or_eq_false_iff, List.isEmpty_eq_false_iff] at inside
    exact ⟨by rwa [grammar, code] at literal, inside.1, inside.2⟩
  · rintro ⟨literal, more, inside⟩
    refine ⟨by rwa [grammar, code], ?_⟩
    rw [nul, Bool.or_eq_false_iff, List.isEmpty_eq_false_iff]
    exact ⟨more, inside⟩

private theorem not_covers_cut (none : body fmt = []) : ¬Covers (chr '%' :: fmt) := by
  rintro ⟨_, inside⟩
  rw [meetsNul_percent, cut, none] at inside
  cases inside

private theorem not_coversBehind_other (other : c ≠ chr '%') : ¬CoversBehind (c :: fmt) := by
  rintro ⟨literal, _⟩
  have own : fmt.length ∈ literals (c :: fmt) := by
    rw [literals, literalsBy_other other]
    exact List.mem_cons_self
  exact Nat.lt_irrefl _ (literalsBy_lt (literal _ own))

private theorem coversBehind_cut (none : body fmt = []) : CoversBehind (chr '%' :: fmt) where
  literal := by
    intro i member
    rw [literals_percent, none] at member
    exact absurd member List.not_mem_nil
  more := List.cons_ne_nil _ _
  inside := by
    rw [List.tail_cons, meetsNul_skips (skips_body fmt), none]
    rfl

/-- The `%` is taken, so the formatter copies the rest of the head and goes on at the letter. -/
private theorem coversBehind_letter (letter : body fmt = c :: rest) : CoversBehind (chr '%' :: fmt) ↔
    (∀ i ∈ literals rest, i ∈ codeLiterals (c :: rest)) ∧ meetsNul 0 (c :: rest) = false := by
  have skips := skips_body fmt
  rw [letter] at skips
  have grammar : literals (chr '%' :: fmt) = literals rest := by rw [literals_percent, letter]; rfl
  have same : ∀ i ∈ literals rest, (i ∈ codeLiterals fmt ↔ i ∈ codeLiterals (c :: rest)) := fun i member =>
    mem_literalsBy_skips skips (Nat.lt_succ_of_lt (literalsBy_lt member))
  constructor
  · rintro ⟨literal, _, inside⟩
    rw [grammar] at literal
    exact ⟨fun i member => (same i member).mp (literal i member), (meetsNul_skips skips).symm.trans inside⟩
  · rintro ⟨literal, inside⟩
    refine ⟨?_, List.cons_ne_nil _ _, (meetsNul_skips skips).trans inside⟩
    rw [grammar]
    exact fun i member => (same i member).mpr (literal i member)

private theorem coversBehind_other (letter : body fmt = c :: rest) (other : c ≠ chr '%') :
    CoversBehind (chr '%' :: fmt) ↔ Covers rest := by
  have code : codeLiterals (c :: rest) = rest.length :: codeLiterals rest := literalsBy_other other
  rw [coversBehind_letter letter, meetsNul_other _ other, code]
  constructor
  · rintro ⟨literal, inside⟩
    exact ⟨fun i member => List.mem_of_ne_of_mem (literalsBy_lt member).ne (literal i member), inside⟩
  · rintro ⟨literal, inside⟩
    exact ⟨fun i member => List.mem_cons_of_mem _ (literal i member), inside⟩

/-- The formatter begins a specification at the letter `%`, and takes the next character for a part of it again. -/
private theorem coversBehind_percent (letter : body fmt = chr '%' :: rest) :
    CoversBehind (chr '%' :: fmt) ↔ CoversBehind rest := by
  rw [coversBehind_letter letter, codeLiterals_percent, meetsNul_percent]
  cases rest with
  | nil => exact iff_of_false (fun ⟨_, inside⟩ => nomatch inside) fun behind => behind.more rfl
  | cons c rest =>
    by_cases directive : c = chr '%'
    · subst directive
      have onward : codeNext (chr '%' :: rest) = rest := rfl
      have safe : cut (chr '%' :: rest) = false := rfl
      rw [onward, safe, Bool.false_or]
      exact ⟨fun ⟨literal, inside⟩ => ⟨literal, List.cons_ne_nil _ _, inside⟩,
        fun behind => ⟨behind.literal, behind.inside⟩⟩
    · refine iff_of_false ?_ (not_coversBehind_other directive)
      rintro ⟨literal, inside⟩
      have own : rest.length ∈ literals (c :: rest) := by
        rw [literals, literalsBy_other directive]
        exact List.mem_cons_self
      have less := literalsBy_lt (literal _ own)
      have left := codeNext_length_lt (List.cons_ne_nil c rest)
      rw [List.length_cons] at left
      omega

/-- A format is sound exactly when the formatter takes every literal character for one and never goes past the NUL. -/
theorem covers_iff (fmt : List (BitVec 8)) :
    (Covers fmt ↔ sound false 0 fmt = true) ∧ (CoversBehind fmt ↔ sound true 0 fmt = true) := by
  induction length : fmt.length using Nat.strong_induction_on generalizing fmt with
  | _ n ih =>
    cases fmt with
    | nil =>
      refine ⟨iff_of_true ⟨fun i member => member, rfl⟩ rfl, iff_of_false (fun behind => behind.more rfl) ?_⟩
      exact Bool.false_ne_true
    | cons c fmt =>
      by_cases directive : c = chr '%'
      · subst directive
        cases letter : body fmt with
        | nil =>
          rw [sound_cut letter, sound_cut letter]
          exact ⟨iff_of_false (not_covers_cut letter) Bool.false_ne_true, iff_of_true (coversBehind_cut letter) rfl⟩
        | cons c rest =>
          have shorter : rest.length < n := by
            have left := (skips_body fmt).suffix.length_le
            rw [letter, List.length_cons] at left
            rw [List.length_cons] at length
            omega
          obtain ⟨insync, behind⟩ := ih rest.length shorter rest rfl
          rw [sound_percent letter, sound_percent letter]
          constructor
          · cases listed : known c with
            | true => exact (covers_known letter listed).trans insync
            | false => exact (covers_unknown letter listed).trans behind
          · by_cases percent : c = chr '%'
            · subst percent
              exact (coversBehind_percent letter).trans behind
            · rw [if_pos rfl, decide_eq_false percent]
              exact (coversBehind_other letter percent).trans insync
      · have shorter : fmt.length < n := by
          rw [List.length_cons] at length
          omega
        rw [sound_other directive, sound_other directive]
        refine ⟨(covers_other directive).trans (ih fmt.length shorter fmt rfl).1, ?_⟩
        exact iff_of_false (not_coversBehind_other directive) Bool.false_ne_true

end Scans

end RubberOS.Model.Snprintf
