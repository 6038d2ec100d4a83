import Mathlib.Data.List.DropRight
import Mathlib.Data.Nat.Digits.Defs

/-! # Numerals in fields

How a number is read back from a field of text: blanks on both sides, a sign, the mark of the base, and digits with the
most significant first. What is written in this form, with zeros in front of the digits or without, is read back.
-/

namespace Numerals

/-- The characters of the numerals in a base. -/
structure Script (α : Type*) where
  base : ℕ
  digit : α → Option ℕ
  blank : α
  plus : α
  minus : α
  mark : List α
  apart : [blank, plus, minus].Nodup
  signs : ∀ c ∈ [blank, plus, minus], digit c = none
  mark_signs : ∀ c ∈ [blank, plus, minus], c ∉ mark
  mark_digit : mark = [] ∨ ∃ c ∈ mark, digit c = none

namespace Script

variable {α : Type*}

section Digits

variable (s : Script α)

/-- Digits only, and at least one. -/
def readDigits (text : List α) : Option ℕ :=
  if text = [] then none else (text.mapM s.digit).map fun digits => Nat.ofDigits s.base digits.reverse

/-- The digits of a number, most significant first. -/
def numeral (dig : ℕ → α) (n : ℕ) : List α := if n = 0 then [dig 0] else ((s.base.digits n).map dig).reverse

variable {s} {text : List α} {n : ℕ}

theorem mapM_digit {dig : ℕ → α} (inverse : ∀ d < s.base, s.digit (dig d) = some d) {digits : List ℕ}
    (small : ∀ d ∈ digits, d < s.base) : (digits.map dig).mapM s.digit = some digits := by
  induction digits with
  | nil => rfl
  | cons d digits ih =>
    rw [List.map_cons, List.mapM_cons, inverse d (small d List.mem_cons_self),
      ih fun d member => small d (List.mem_cons_of_mem _ member)]
    rfl

theorem digit_of_mapM {values : List ℕ} (read : text.mapM s.digit = some values) : ∀ c ∈ text, s.digit c ≠ none := by
  induction text generalizing values with
  | nil => simp
  | cons c text ih =>
    rw [List.mapM_cons, Option.bind_eq_bind, Option.bind_eq_some_iff] at read
    obtain ⟨d, first, rest⟩ := read
    rw [Option.bind_eq_bind, Option.bind_eq_some_iff] at rest
    obtain ⟨ds, rest, _⟩ := rest
    intro c' member
    rcases List.mem_cons.mp member with rfl | member
    · rw [first]
      simp
    · exact ih rest c' member

/-- Zeros in front of a numeral are not noticed. -/
theorem readDigits_numeral {dig : ℕ → α} (large : 1 < s.base) (inverse : ∀ d < s.base, s.digit (dig d) = some d)
    (zeros n : ℕ) : s.readDigits (List.replicate zeros (dig 0) ++ s.numeral dig n) = some n := by
  obtain ⟨digits, small, written, value⟩ : ∃ digits : List ℕ, (∀ d ∈ digits, d < s.base) ∧
      s.numeral dig n = (digits.map dig).reverse ∧ digits ≠ [] ∧ Nat.ofDigits s.base digits = n := by
    by_cases zero : n = 0
    · refine ⟨[0], by simp; omega, ?_, by simp, by simp [zero]⟩
      rw [numeral, if_pos zero]
      rfl
    · refine ⟨s.base.digits n, fun d => Nat.digits_lt_base large, ?_, Nat.digits_ne_nil_iff_ne_zero.mpr zero,
        Nat.ofDigits_digits s.base n⟩
      rw [numeral, if_neg zero]
  have whole : List.replicate zeros (dig 0) ++ s.numeral dig n =
      (List.replicate zeros 0 ++ digits.reverse).map dig := by
    rw [written, List.map_append, List.map_replicate, List.map_reverse]
  have read : (List.replicate zeros (dig 0) ++ s.numeral dig n).mapM s.digit =
      some (List.replicate zeros 0 ++ digits.reverse) := by
    rw [whole]
    apply mapM_digit inverse
    intro d member
    rcases List.mem_append.mp member with zero | digit
    · rw [List.eq_of_mem_replicate zero]
      omega
    · exact small d (List.mem_reverse.mp digit)
  have some_digit : List.replicate zeros (dig 0) ++ s.numeral dig n ≠ [] := by
    rw [written]
    simp [value.1]
  rw [readDigits, if_neg some_digit, read, Option.map_some, List.reverse_append, List.reverse_reverse,
    List.reverse_replicate, Nat.ofDigits_append_replicate_zero, value.2]

theorem mem_of_readDigits (digits : s.readDigits text = some n) : text ≠ [] ∧ ∀ c ∈ text, s.digit c ≠ none := by
  rw [readDigits] at digits
  split at digits
  · exact absurd digits (by simp)
  · rename_i nonempty
    refine ⟨nonempty, ?_⟩
    obtain ⟨values, read, _⟩ := Option.map_eq_some_iff.mp digits
    exact digit_of_mapM read

end Digits

variable [DecidableEq α] (s : Script α)

def readMarked (text : List α) : Option ℕ :=
  s.readDigits (if s.mark <+: text then text.drop s.mark.length else text)

def readSigned : List α → Option ℤ
  | [] => none
  | c :: text =>
    if c = s.minus then (s.readMarked text).map fun n => -(n : ℤ)
    else if c = s.plus then (s.readMarked text).map fun n => (n : ℤ)
    else (s.readMarked (c :: text)).map fun n => (n : ℤ)

def strip (text : List α) : List α := (text.dropWhile fun c => c = s.blank).rdropWhile fun c => c = s.blank

def read (text : List α) : Option ℤ := s.readSigned (s.strip text)

section Written

variable {s} {text core : List α} {n : ℕ}

/-- The mark may be there or not. -/
theorem readMarked_written (digits : s.readDigits text = some n) (marked : Bool) :
    s.readMarked ((if marked then s.mark else []) ++ text) = some n := by
  cases marked with
  | true =>
    have marked : s.mark <+: s.mark ++ text := List.prefix_append s.mark text
    rw [if_pos rfl, readMarked, if_pos marked, List.drop_left, digits]
  | false =>
    rw [if_neg Bool.false_ne_true, List.nil_append, readMarked]
    by_cases starts : s.mark <+: text
    · rcases s.mark_digit with empty | ⟨c, member, other⟩
      · rw [if_pos starts, empty]
        exact digits
      · exact absurd other ((mem_of_readDigits digits).2 c (starts.subset member))
    · rw [if_neg starts, digits]

theorem strip_written (left right : ℕ) (nonempty : core ≠ []) (full : s.blank ∉ core) :
    s.strip (List.replicate left s.blank ++ core ++ List.replicate right s.blank) = core := by
  have blanks (k : ℕ) : ∀ c ∈ List.replicate k s.blank, decide (c = s.blank) = true := by
    intro c member
    exact decide_eq_true (List.eq_of_mem_replicate member)
  have stops (list rest : List α) (nonempty : list ≠ []) (full : s.blank ∉ list) :
      (list ++ rest).dropWhile (fun c => c = s.blank) = list ++ rest := by
    obtain ⟨c, list, rfl⟩ := List.exists_cons_of_ne_nil nonempty
    have other : ¬c = s.blank := fun same => full (same ▸ List.mem_cons_self)
    rw [List.cons_append, List.dropWhile_cons_of_neg]
    rw [decide_eq_true_eq]
    exact other
  have reversed := stops core.reverse [] (by simpa using nonempty) (by simpa using full)
  rw [List.append_nil] at reversed
  rw [strip, List.append_assoc, List.dropWhile_append_of_pos (blanks left), stops core _ nonempty full, List.rdropWhile,
    List.reverse_append, List.reverse_replicate, List.dropWhile_append_of_pos (blanks right), reversed,
    List.reverse_reverse]

theorem readSigned_written (digits : s.readDigits text = some n) (marked : Bool) {sign : Option α}
    (signed : ∀ c ∈ sign, c = s.plus ∨ c = s.minus) :
    s.readSigned (sign.toList ++ ((if marked then s.mark else []) ++ text)) =
      some (if sign = some s.minus then -(n : ℤ) else n) := by
  have read := readMarked_written digits marked
  have apart : s.plus ≠ s.minus := by
    have apart := s.apart
    simp only [List.nodup_cons, List.mem_cons, List.not_mem_nil] at apart
    tauto
  cases sign with
  | none =>
    obtain ⟨nonempty, all⟩ := mem_of_readDigits digits
    have other (c : α) (sign : c ∈ [s.blank, s.plus, s.minus]) : c ∉ (if marked then s.mark else []) ++ text := by
      intro member
      rcases List.mem_append.mp member with mark | digit
      · cases marked with
        | true => exact s.mark_signs c sign mark
        | false => exact absurd mark List.not_mem_nil
      · exact all c digit (s.signs c sign)
    rw [Option.toList_none, List.nil_append]
    obtain ⟨c, rest, split⟩ := List.exists_cons_of_ne_nil (List.append_ne_nil_of_right_ne_nil _ nonempty)
    rw [split] at read other ⊢
    have minus : ¬c = s.minus := by
      rintro rfl
      exact other s.minus (by simp) List.mem_cons_self
    have plus : ¬c = s.plus := by
      rintro rfl
      exact other s.plus (by simp) List.mem_cons_self
    rw [readSigned, if_neg minus, if_neg plus, read]
    rfl
  | some c =>
    rcases signed c rfl with rfl | rfl
    · have other : ¬some s.plus = some s.minus := fun same => apart (Option.some.inj same)
      rw [Option.toList_some, List.singleton_append, readSigned, if_neg apart, if_pos rfl, read, if_neg other]
      rfl
    · rw [Option.toList_some, List.singleton_append, readSigned, if_pos rfl, read, if_pos rfl]
      rfl

/-- A blank as the sign is one blank more. -/
theorem read_written (digits : s.readDigits text = some n) (left right : ℕ) (marked : Bool) {sign : Option α}
    (signed : ∀ c ∈ sign, c ∈ [s.blank, s.plus, s.minus]) :
    s.read (List.replicate left s.blank ++ (sign.toList ++ ((if marked then s.mark else []) ++ text)) ++
      List.replicate right s.blank) = some (if sign = some s.minus then -(n : ℤ) else n) := by
  obtain ⟨nonempty, all⟩ := mem_of_readDigits digits
  have apart := s.apart
  simp only [List.nodup_cons, List.mem_cons, List.not_mem_nil] at apart
  have full {sign : Option α} (signed : ∀ c ∈ sign, c = s.plus ∨ c = s.minus) :
      s.blank ∉ sign.toList ++ ((if marked then s.mark else []) ++ text) := by
    intro member
    rcases List.mem_append.mp member with first | member
    · have chosen := signed s.blank (Option.mem_toList.mp first)
      tauto
    · rcases List.mem_append.mp member with mark | digit
      · cases marked with
        | true => exact s.mark_signs s.blank (by simp) mark
        | false => exact absurd mark List.not_mem_nil
      · exact all s.blank digit (s.signs s.blank (by simp))
  have stripped (sign : Option α) (signed : ∀ c ∈ sign, c = s.plus ∨ c = s.minus) (left : ℕ) :
      s.read (List.replicate left s.blank ++ (sign.toList ++ ((if marked then s.mark else []) ++ text)) ++
        List.replicate right s.blank) = some (if sign = some s.minus then -(n : ℤ) else n) := by
    rw [read, strip_written left right (by simp [nonempty]) (full signed)]
    exact readSigned_written digits marked signed
  cases sign with
  | none => exact stripped none (by simp) left
  | some c =>
    have cases := signed c rfl
    simp only [List.mem_cons, List.not_mem_nil, or_false] at cases
    rcases cases with rfl | sign
    · have more := stripped none (by simp) (left + 1)
      have other : ¬some s.blank = some s.minus := by
        intro same
        have same := Option.some.inj same
        tauto
      rw [if_neg other]
      rw [List.replicate_succ', List.append_assoc (List.replicate left s.blank)] at more
      exact more
    · refine stripped (some c) (fun c' member => ?_) left
      obtain rfl := Option.mem_some_iff.mp member
      exact sign

end Written

end Script

end Numerals
