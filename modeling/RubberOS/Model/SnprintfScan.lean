import RubberOS.Model.Snprintf

/-! # How the formatter reads its format

`scanFrom` is the loop of `vsnprintf` over the format with two more results: reads behind the NUL are told apart from
other calls without a behaviour, and the literal characters that are copied are listed. A character of the format is
named by the number of characters behind it.
-/

namespace RubberOS.Model.Snprintf

/-- Why a scan does not end. -/
inductive Halt where
  /-- The loop goes on behind the NUL of the format. -/
  | pastNul
  | undefined (reason : Undefined)
deriving DecidableEq

/-- The labels of the switch over the conversion. -/
def known (c : BitVec 8) : Bool := (text "cspdiuoXxn%").contains c

/-- What stands in front of the switch: flags, width, precision and length, the arguments and the format left. -/
def conversionHead (fmt : List (BitVec 8)) (args : List Arg) :
    Except Undefined (Flags × ℤ × ℤ × Option (BitVec 8) × List Arg × List (BitVec 8)) := do
  let (flags, fmt) := parseFlags {} fmt
  let (flags, width, fmt, args) ← parseWidth flags fmt args
  let (precision, fmt, args) ← parsePrecision fmt args
  let (length, fmt) := parseLength fmt
  return (flags, width, precision, length, args, fmt)

/-- A directive behind its `%`. The default of the switch and the loop each go on by one character, at the NUL as
anywhere else. -/
def conversionScanned (fmt : List (BitVec 8)) (args : List Arg) :
    Except Halt (List Store × List Arg × List (BitVec 8)) :=
  match conversionHead fmt args with
  | .error reason => .error (.undefined reason)
  | .ok (_, _, _, _, _, []) => .error .pastNul
  | .ok (flags, width, precision, length, args, c :: fmt) =>
    if known c then (convert flags width precision length args (c :: fmt)).mapError .undefined
    else match fmt with
      | [] => .error .pastNul
      | _ :: fmt => .ok ([], args, fmt)

/-- The literal characters copied so far, each with its place in the buffer. -/
structure Scan where
  out : Out
  copied : List (ℕ × ℕ)

def scanFrom (s : Scan) (args : List Arg) (skip : ℕ) : List (BitVec 8) → Except Halt Scan
  | [] => .ok s
  | c :: fmt =>
    if 0 < skip then scanFrom s args (skip - 1) fmt
    else if c = chr '%' then
      match conversionScanned fmt args with
      | .error halt => .error halt
      | .ok (stores, args, rest) =>
        match run s.out stores with
        | none => .error (.undefined .overflow)
        | some (true, out) => .ok { s with out }
        | some (false, out) => scanFrom { s with out } args (fmt.length - rest.length) fmt
    else
      match run s.out [.put c] with
      | none => .error (.undefined .overflow)
      | some (true, out) => .ok { s with out }
      | some (false, out) => scanFrom ⟨out, (fmt.length, s.out.str) :: s.copied⟩ args 0 fmt

/-! ## It is the loop of the formatter -/

section Erasure

variable {fmt rest : List (BitVec 8)} {args : List Arg} {s : Scan} {skip : ℕ}

theorem conversion_eq (fmt : List (BitVec 8)) (args : List Arg) : conversion fmt args =
    conversionHead fmt args >>= fun (flags, width, precision, length, args, fmt) =>
      convert flags width precision length args fmt := by
  simp only [conversion, conversionHead, bind_assoc, pure_bind]

theorem known_ne {c d : BitVec 8} (unknown : known c = false) (listed : known d = true) : c ≠ d := by
  rintro rfl
  rw [unknown] at listed
  cases listed

theorem convert_unknown {flags : Flags} {width precision : ℤ} {length : Option (BitVec 8)} {c : BitVec 8}
    (unknown : known c = false) : convert flags width precision length args (c :: fmt) =
    match fmt with
    | [] => .error .mismatch
    | _ :: fmt => .ok ([], args, fmt) := by
  have other {d : Char} (listed : known (chr d) = true) : c ≠ chr d := known_ne unknown listed
  rw [convert.eq_def]
  dsimp only
  rw [if_neg (other rfl), if_neg (other rfl), if_neg (other rfl), if_neg (not_or.mpr ⟨other rfl, other rfl⟩),
    if_neg (other rfl), if_neg (other rfl), if_neg (other rfl), if_neg (other rfl), if_neg (other rfl)]
  exact if_neg (other rfl)

theorem conversionScanned_erase (fmt : List (BitVec 8)) (args : List Arg) :
    (conversionScanned fmt args).toOption = (conversion fmt args).toOption := by
  rw [conversion_eq, conversionScanned]
  cases conversionHead fmt args with
  | error reason => rfl
  | ok head =>
    obtain ⟨flags, width, precision, length, args, _ | ⟨c, rest⟩⟩ := head
    · rfl
    · rw [Except.ok_bind]
      dsimp only
      split_ifs with listed
      · cases convert flags width precision length args (c :: rest) <;> rfl
      · rw [convert_unknown (Bool.eq_false_iff.mpr listed)]
        cases rest <;> rfl

/-- Without its log the scan is the loop of the model. -/
theorem scanFrom_erase (s : Scan) (args : List Arg) (skip : ℕ) (fmt : List (BitVec 8)) :
    (scanFrom s args skip fmt).toOption.map Scan.out = formatFrom s.out args skip fmt := by
  induction fmt generalizing s args skip with
  | nil => rfl
  | cons c fmt ih =>
    rw [scanFrom, formatFrom]
    split_ifs with skips directive
    · exact ih s args (skip - 1)
    · have same := conversionScanned_erase fmt args
      cases scanned : conversionScanned fmt args with
      | error halt =>
        rw [scanned] at same
        cases plain : conversion fmt args with
        | error reason => rfl
        | ok read =>
          rw [plain] at same
          cases same
      | ok read =>
        obtain ⟨stores, args', rest⟩ := read
        rw [scanned] at same
        cases plain : conversion fmt args with
        | error reason =>
          rw [plain] at same
          cases same
        | ok read' =>
          rw [plain] at same
          obtain rfl := Option.some.inj same
          dsimp only
          rcases run s.out stores with _ | ⟨_ | _, out⟩
          · rfl
          · exact ih _ _ _
          · rfl
    · rcases run s.out [.put c] with _ | ⟨_ | _, out⟩
      · rfl
      · exact ih _ _ _
      · rfl

end Erasure

end RubberOS.Model.Snprintf
