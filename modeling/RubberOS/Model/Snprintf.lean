import Mathlib.Data.Nat.Digits.Defs
import RubberOS.Model.Machine

/-! # The formatter of libfreec

`vsnprintf` goes through a format and stores into the buffer as long as its counter of the room, `size`, lets it.
What a directive stores does not depend on the room: `conversion` reads one directive with its arguments and gives its
stores in their order, each kind of store with the test that the source makes for it. `run` carries them out.
-/

namespace RubberOS.Model.Snprintf

/-- A character constant. -/
def chr (c : Char) : BitVec 8 := BitVec.ofNat 8 c.toNat

/-- The bytes of a string literal. -/
def text (s : String) : List (BitVec 8) := s.toList.map chr

def digits : List (BitVec 8) := text "0123456789abcdefghijklmnopqrstuvwxyz"

def upperDigits : List (BitVec 8) := text "0123456789ABCDEFGHIJKLMNOPQRSTUVWXYZ"

/-- The type by which `va_arg` reads an argument, with its value. Of a string these are the bytes before its NUL. -/
inductive Arg where
  | int (value : BitVec 32)
  | long (value : BitVec 64)
  | pointer (value : BitVec 64)
  | string (bytes : Option (List (BitVec 8)))
  /-- Where `%n` puts its count. -/
  | place
deriving DecidableEq

/-- Why a call has no behaviour. -/
inductive Undefined where
  | overflow
  /-- The next argument has another type, or the format ends within a directive. -/
  | mismatch
deriving DecidableEq

structure Flags where
  zeropad : Bool := false
  sign : Bool := false
  plus : Bool := false
  space : Bool := false
  left : Bool := false
  special : Bool := false
  large : Bool := false
deriving DecidableEq

/-! ## The stores of a directive -/

/-- A store of `number`. -/
inductive NumStore where
  /-- `if ((*pbufsize)-- == 1) return str; *str++ = ch;` -/
  | put (ch : BitVec 8)
  /-- `if (*pbufsize <= 2) return str;`, and `0x` -/
  | hexMark
  /-- An `int` computation overflows here. -/
  | overflow
deriving DecidableEq

/-- The copy of a string: `len` as a `size_t`, and the bytes. -/
structure Copy where
  len : ℕ
  bytes : List (BitVec 8)
  within : bytes.length ≤ len
deriving DecidableEq

inductive Store where
  /-- `if (size-- == 1) goto end; *str++ = ch;` -/
  | put (ch : BitVec 8)
  /-- `if (size-- == 1) goto end; *str = ch;` -/
  | stay (ch : BitVec 8)
  /-- `if (size <= (size_t)len) goto end; size -= len;`, and the bytes -/
  | copy (block : Copy)
  /-- `*str++ = ch; if (size-- == 1) goto end;` -/
  | trail (ch : BitVec 8)
  /-- `str = number(str, &size, ...); if (size == 1) goto end;` -/
  | number (steps : List NumStore)
  /-- An `int` computation overflows here. -/
  | overflow
deriving DecidableEq

/-- An `int` computation. -/
def int (value : ℤ) : Except Undefined ℤ :=
  if -2 ^ 31 ≤ value ∧ value < 2 ^ 31 then .ok value else .error .overflow

/-- `while (bound < value--) step;`, and what follows with the last value. -/
def countdown {α : Type} (bound value : ℤ) (step overflow : α) (rest : ℤ → List α) : List α :=
  List.replicate (value - bound).toNat step ++
    match int (min value bound - 1) with
    | .ok value => rest value
    | .error _ => [overflow]

/-- The base is 8, 10 or 16 in all calls, so the source's test of it does not apply. -/
def number (num : BitVec 64) (base : ℕ) (size precision : ℤ) (type : Flags) : Except Undefined (List NumStore) := do
  let type := if type.left then { type with zeropad := false } else type
  let c := if type.zeropad then chr '0' else chr ' '
  -- `num = -num`
  if type.sign ∧ num.toInt = -2 ^ 63 then throw .overflow
  let sign : Option (BitVec 8) :=
    if ¬type.sign then none
    else if num.toInt < 0 then some (chr '-')
    else if type.plus then some (chr '+')
    else if type.space then some (chr ' ')
    else none
  let size ← if sign.isSome then int (size - 1) else pure size
  let size ←
    if type.special ∧ base = 16 then int (size - 2)
    else if type.special ∧ base = 8 then int (size - 1)
    else pure size
  let value := if type.sign then num.toInt.natAbs else num.toNat
  let dig := if type.large then upperDigits else digits
  let tmp := if num = 0 then [chr '0'] else (Nat.digits base value).map fun digit => dig.getD digit 0
  let precision := max precision tmp.length
  let size ← int (size - precision)
  let mark : List NumStore :=
    if type.special ∧ base = 8 then [.put (chr '0')] else if type.special ∧ base = 16 then [.hexMark] else []
  let tail (size : ℤ) : List NumStore :=
    List.replicate (precision - tmp.length).toNat (.put (chr '0')) ++ tmp.reverse.map .put ++
      countdown 0 size (.put (chr ' ')) .overflow fun _ => []
  let body (size : ℤ) : List NumStore :=
    sign.toList.map .put ++ mark ++ if type.left then tail size else countdown 0 size (.put c) .overflow tail
  return if type.zeropad ∨ type.left then body size else countdown 0 size (.put (chr ' ')) .overflow body

def strnlen : List (BitVec 8) → ℕ → ℕ
  | [], _ => 0
  | c :: str, strsz => if strsz = 0 ∨ c = 0 then 0 else strnlen str (strsz - 1) + 1

/-- `%c`. Both loops test `--width > 0`, and the first one leaves nothing to the second. -/
def charStores (flags : Flags) (width : ℤ) (ch : BitVec 8) : List Store :=
  let padding := List.replicate (width - 1).toNat (.put (chr ' '))
  if flags.left then .put ch :: padding else padding ++ [.put ch]

/-- `%s` -/
def stringStores (flags : Flags) (width precision : ℤ) (s : Option (List (BitVec 8))) : List Store :=
  let s := s.getD (text "<NULL>")
  let len := (BitVec.ofNat 32 (strnlen s (precision % 2 ^ 64).toNat)).toInt
  let block : Copy := ⟨(len % 2 ^ 64).toNat, s.take len.toNat, by
    have lower := BitVec.toInt_lt (x := BitVec.ofNat 32 (strnlen s (precision % 2 ^ 64).toNat))
    rw [List.length_take]
    omega⟩
  let copied (width : ℤ) : List Store := .copy block :: countdown len width (.trail (chr ' ')) .overflow fun _ => []
  if flags.left then copied width else countdown len width (.stay (chr ' ')) .overflow copied

/-! ## Reading a directive -/

def isdigit (ch : BitVec 8) : Bool := chr '0' ≤ ch ∧ ch ≤ chr '9'

def isLength (c : BitVec 8) : Bool := c = chr 'h' ∨ c = chr 'l' ∨ c = chr 'L' ∨ c = chr 'z'

/-- `i*10 + *((*s)++) - '0'` can overflow before the subtraction. -/
def skipAtoi (i : ℤ) : List (BitVec 8) → Except Undefined (ℤ × List (BitVec 8))
  | [] => .ok (i, [])
  | c :: s =>
    if isdigit c then do
      let sum ← int (i * 10 + c.toNat)
      skipAtoi (sum - (chr '0').toNat) s
    else .ok (i, c :: s)

def intArg : List Arg → Except Undefined (BitVec 32 × List Arg)
  | .int value :: args => .ok (value, args)
  | _ => .error .mismatch

def longArg : List Arg → Except Undefined (BitVec 64 × List Arg)
  | .long value :: args => .ok (value, args)
  | _ => .error .mismatch

def pointerArg : List Arg → Except Undefined (BitVec 64 × List Arg)
  | .pointer value :: args => .ok (value, args)
  | _ => .error .mismatch

def stringArg : List Arg → Except Undefined (Option (List (BitVec 8)) × List Arg)
  | .string bytes :: args => .ok (bytes, args)
  | _ => .error .mismatch

def placeArg : List Arg → Except Undefined (List Arg)
  | .place :: args => .ok args
  | _ => .error .mismatch

def parseFlags (flags : Flags) : List (BitVec 8) → Flags × List (BitVec 8)
  | [] => (flags, [])
  | c :: fmt =>
    if c = chr '-' then parseFlags { flags with left := true } fmt
    else if c = chr '+' then parseFlags { flags with plus := true } fmt
    else if c = chr ' ' then parseFlags { flags with space := true } fmt
    else if c = chr '#' then parseFlags { flags with special := true } fmt
    else if c = chr '0' then parseFlags { flags with zeropad := true } fmt
    else (flags, c :: fmt)

def parseWidth (flags : Flags) (fmt : List (BitVec 8)) (args : List Arg) :
    Except Undefined (Flags × ℤ × List (BitVec 8) × List Arg) :=
  match fmt with
  | [] => .ok (flags, -1, [], args)
  | c :: rest =>
    if isdigit c then do
      let (width, fmt) ← skipAtoi 0 fmt
      return (flags, width, fmt, args)
    else if c = chr '*' then do
      let (width, args) ← intArg args
      if width.toInt < 0 then
        let width ← int (-width.toInt)
        return ({ flags with left := true }, width, rest, args)
      else return (flags, width.toInt, rest, args)
    else .ok (flags, -1, fmt, args)

/-- What follows the point. -/
def precisionValue (fmt : List (BitVec 8)) (args : List Arg) : Except Undefined (ℤ × List (BitVec 8) × List Arg) :=
  match fmt with
  | [] => .ok (-1, [], args)
  | c :: rest =>
    if isdigit c then do
      let (precision, fmt) ← skipAtoi 0 fmt
      return (precision, fmt, args)
    else if c = chr '*' then do
      let (precision, args) ← intArg args
      return (precision.toInt, rest, args)
    else if c = chr 's' then .ok (0, fmt, args)
    else if isLength c ∧ rest.head? = some (chr 's') then .ok (0, rest, args)
    else .ok (-1, fmt, args)

def parsePrecision (fmt : List (BitVec 8)) (args : List Arg) : Except Undefined (ℤ × List (BitVec 8) × List Arg) :=
  match fmt with
  | [] => .ok (-1, [], args)
  | c :: rest =>
    if c = chr '.' then do
      let (precision, fmt, args) ← precisionValue rest args
      return (max precision 0, fmt, args)
    else .ok (-1, fmt, args)

def parseLength : List (BitVec 8) → Option (BitVec 8) × List (BitVec 8)
  | [] => (none, [])
  | c :: fmt => if isLength c then (some c, fmt) else (none, c :: fmt)

/-- The value of an integer directive, converted to `intptr_t`. -/
def integerArg (flags : Flags) (length : Option (BitVec 8)) (args : List Arg) :
    Except Undefined (BitVec 64 × List Arg) :=
  if length = some (chr 'l') ∨ length = some (chr 'z') then longArg args
  else do
    let (value, args) ← intArg args
    return (if flags.sign then value.signExtend 64 else value.zeroExtend 64, args)

def integer (flags : Flags) (base : ℕ) (width precision : ℤ) (length : Option (BitVec 8)) (args : List Arg) :
    Except Undefined (List Store × List Arg) := do
  let (num, args) ← integerArg flags length args
  let steps ← number num base width precision flags
  return ([.number steps], args)

/-- The switch over the conversion. An unknown one is skipped together with the character behind it. -/
def convert (flags : Flags) (width precision : ℤ) (length : Option (BitVec 8)) (args : List Arg) :
    List (BitVec 8) → Except Undefined (List Store × List Arg × List (BitVec 8))
  | [] => .error .mismatch
  | c :: fmt =>
    if c = chr 'c' then do
      let (ch, args) ← intArg args
      return (charStores flags width (ch.setWidth 8), args, fmt)
    else if c = chr 's' then do
      let (s, args) ← stringArg args
      return (stringStores flags width precision s, args, fmt)
    else if c = chr 'p' then do
      let (num, args) ← pointerArg args
      let steps ←
        if width = -1 then number num 16 18 precision { flags with zeropad := true, special := true }
        else number num 16 width precision flags
      return ([.number steps], args, fmt)
    else if c = chr 'd' ∨ c = chr 'i' then do
      let (stores, args) ← integer { flags with sign := true } 10 width precision length args
      return (stores, args, fmt)
    else if c = chr 'u' then do
      let (stores, args) ← integer flags 10 width precision length args
      return (stores, args, fmt)
    else if c = chr 'o' then do
      let (stores, args) ← integer flags 8 width precision length args
      return (stores, args, fmt)
    else if c = chr 'X' then do
      let (stores, args) ← integer { flags with large := true } 16 width precision length args
      return (stores, args, fmt)
    else if c = chr 'x' then do
      let (stores, args) ← integer flags 16 width precision length args
      return (stores, args, fmt)
    else if c = chr 'n' then do
      let args ← placeArg args
      return ([], args, fmt)
    else if c = chr '%' then .ok ([.put c], args, fmt)
    else match fmt with
      | [] => .error .mismatch
      | _ :: fmt => .ok ([], args, fmt)

/-- A directive behind its `%`: its stores, and the arguments and the format that are left. -/
def conversion (fmt : List (BitVec 8)) (args : List Arg) :
    Except Undefined (List Store × List Arg × List (BitVec 8)) := do
  let (flags, fmt) := parseFlags {} fmt
  let (flags, width, fmt, args) ← parseWidth flags fmt args
  let (precision, fmt, args) ← parsePrecision fmt args
  let (length, fmt) := parseLength fmt
  convert flags width precision length args fmt

/-! ## Storing into the buffer -/

/-- The counter, the place of `str` in the buffer and the bytes stored at their places, the latest one first. -/
structure Out where
  size : ℕ
  str : ℕ
  stores : List (ℕ × BitVec 8)
deriving DecidableEq

/-- `size -= n` -/
def Out.spend (out : Out) (n : ℕ) : Out := { out with size := sub64 out.size n }

/-- `*str = ch` -/
def Out.setChar (out : Out) (ch : BitVec 8) : Out := { out with stores := (out.str, ch) :: out.stores }

/-- `*str++ = ch` -/
def Out.putChar (out : Out) (ch : BitVec 8) : Out := { out.setChar ch with str := out.str + 1 }

def Out.putBytes (out : Out) : List (BitVec 8) → Out
  | [] => out
  | ch :: bytes => (out.putChar ch).putBytes bytes

/-- `number`, which returns at once where its test fails. -/
def runNumber (out : Out) : List NumStore → Option Out
  | [] => some out
  | .put ch :: steps => if out.size = 1 then some (out.spend 1) else runNumber ((out.spend 1).putChar ch) steps
  | .hexMark :: steps =>
    if out.size ≤ 2 then some out
    else runNumber ((out.spend 2).putBytes [chr '0', digits.getD ('X'.toNat - 'A'.toNat + 10) 0]) steps
  | .overflow :: _ => none

/-- One store, and whether the source goes to `end` there. -/
def step (out : Out) : Store → Option (Bool × Out)
  | .put ch => if out.size = 1 then some (true, out.spend 1) else some (false, (out.spend 1).putChar ch)
  | .stay ch => if out.size = 1 then some (true, out.spend 1) else some (false, (out.spend 1).setChar ch)
  | .copy block =>
    if out.size ≤ block.len then some (true, out) else some (false, (out.spend block.len).putBytes block.bytes)
  | .trail ch => some (out.size = 1, (out.putChar ch).spend 1)
  | .number steps => (runNumber out steps).map fun out => (decide (out.size = 1), out)
  | .overflow => none

def run (out : Out) : List Store → Option (Bool × Out)
  | [] => some (false, out)
  | store :: stores =>
    match step out store with
    | some (false, out) => run out stores
    | stopped => stopped

/-- The loop over the format; `skip` of its characters belong to the directive before. -/
def formatFrom (out : Out) (args : List Arg) (skip : ℕ) : List (BitVec 8) → Option Out
  | [] => some out
  | c :: fmt =>
    if 0 < skip then formatFrom out args (skip - 1) fmt
    else if c = chr '%' then
      match conversion fmt args with
      | .error _ => none
      | .ok (stores, args, rest) =>
        match run out stores with
        | some (false, out) => formatFrom out args (fmt.length - rest.length) fmt
        | stopped => stopped.map Prod.snd
    else
      match run out [.put c] with
      | some (false, out) => formatFrom out args 0 fmt
      | stopped => stopped.map Prod.snd

/-- The result and the stores into `buf`, the latest one first. The format is what stands before its NUL. -/
def vsnprintf (size : ℕ) (fmt : List (BitVec 8)) (args : List Arg) : Option (ℤ × List (ℕ × BitVec 8)) :=
  if size = 0 then some (0, [])
  else if size = 1 then some (0, [(0, 0)])
  else (formatFrom ⟨size, 0, []⟩ args 0 fmt).map fun out =>
    ((BitVec.ofNat 32 out.str).toInt, (out.str, 0) :: out.stores)

end RubberOS.Model.Snprintf
