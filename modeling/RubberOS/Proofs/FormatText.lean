import RubberOS.Proofs.Snprintf
import RubberOS.Model.SnprintfScan
import RubberOS.ToMathlib.ExceptGuards
import RubberOS.ToMathlib.Numerals

/-! # The text that the formatter leaves

The bytes of each store, which stand in the buffer one after the other when there is room for them, and what `number`
writes: blanks, a sign, the mark of the base, zeros and digits.
-/

namespace RubberOS.Model.Snprintf

/-- The bytes that a store of `number` leaves in the buffer. -/
def NumStore.text : NumStore → List (BitVec 8)
  | .put ch => [ch]
  | .hexMark => Snprintf.text "0x"
  | .overflow => []

/-- The bytes that a store leaves in the buffer: a blank that is not stepped over is written over. -/
def Store.text : Store → List (BitVec 8)
  | .put ch => [ch]
  | .stay _ => []
  | .copy block => block.bytes
  | .trail ch => [ch]
  | .number steps => steps.flatMap NumStore.text
  | .overflow => []

def rendering (stores : List Store) : List (BitVec 8) := stores.flatMap Store.text

/-- The bytes that stand in the buffer from a place on, up to where the next one goes. -/
structure Written (out : Out) (start : ℕ) (bytes : List (BitVec 8)) : Prop where
  str : out.str = start + bytes.length
  cells : ∀ i (bound : i < bytes.length), out.stores.lookup (start + i) = some bytes[i]

section Written

variable {out out' : Out} {start n : ℕ} {bytes : List (BitVec 8)} {steps : List NumStore} {store : Store}
  {stores : List Store} {stops : Bool}

private theorem Written.spend (written : Written out start bytes) (n : ℕ) : Written (out.spend n) start bytes :=
  ⟨written.str, written.cells⟩

private theorem Written.setChar (written : Written out start bytes) (ch : BitVec 8) :
    Written (out.setChar ch) start bytes := by
  refine ⟨written.str, fun i bound => ?_⟩
  have apart : (start + i == out.str) = false := by
    rw [beq_eq_false_iff_ne, written.str]
    omega
  change List.lookup (start + i) ((out.str, ch) :: out.stores) = _
  rw [List.lookup_cons, apart]
  exact written.cells i bound

private theorem Written.putChar (written : Written out start bytes) (ch : BitVec 8) :
    Written (out.putChar ch) start (bytes ++ [ch]) := by
  constructor
  · rw [Out.putChar_str, written.str, List.length_append, List.length_singleton, Nat.add_assoc]
  · intro i bound
    rw [List.length_append, List.length_singleton] at bound
    by_cases last : i = bytes.length
    · subst last
      rw [Out.putChar_stores, ← written.str, List.lookup_cons, BEq.rfl, List.getElem_concat_length rfl]
    · rw [List.getElem_append_left (by omega)]
      exact (written.setChar ch).cells i (by omega)

private theorem Written.putBytes (written : Written out start bytes) (more : List (BitVec 8)) :
    Written (out.putBytes more) start (bytes ++ more) := by
  induction more generalizing out bytes with
  | nil =>
    rw [List.append_nil]
    exact written
  | cons ch more ih =>
    have rest := ih (written.putChar ch)
    rw [List.append_assoc] at rest
    exact rest

private theorem runNumber_text (room : numDemand steps + 2 ≤ out.size) (bound : out.size < 2 ^ 64)
    (ran : runNumber out steps = some out') (written : Written out start bytes) :
    Written out' start (bytes ++ steps.flatMap NumStore.text) := by
  induction steps generalizing out bytes with
  | nil =>
    obtain rfl := Option.some.inj ran
    rw [List.flatMap_nil, List.append_nil]
    exact written
  | cons step steps ih =>
    cases step with
    | put ch =>
      rw [numDemand] at room
      have size : ((out.spend 1).putChar ch).size = out.size - 1 := by
        rw [Out.putChar_size, Out.spend_size_of_le (by omega) bound]
      rw [runNumber, if_neg (by omega)] at ran
      have rest := ih (by rw [size]; omega) (by rw [size]; omega) ran ((written.spend 1).putChar ch)
      rw [List.append_assoc] at rest
      exact rest
    | hexMark =>
      rw [numDemand] at room
      have size (more : List (BitVec 8)) : ((out.spend 2).putBytes more).size = out.size - 2 := by
        rw [Out.putBytes_size, Out.spend_size_of_le (by omega) bound]
      rw [runNumber, if_neg (by omega)] at ran
      have rest := ih (by rw [size]; omega) (by rw [size]; omega) ran ((written.spend 2).putBytes _)
      rw [List.append_assoc] at rest
      exact rest
    | overflow => cases ran

private theorem step_text (room : store.demand + 2 ≤ out.size) (bound : out.size < 2 ^ 64)
    (stepped : step out store = some (stops, out')) (written : Written out start bytes) :
    Written out' start (bytes ++ store.text) := by
  cases store with
  | put ch =>
    rw [Store.demand] at room
    rw [step, if_neg (by omega)] at stepped
    cases stepped
    exact (written.spend 1).putChar ch
  | stay ch =>
    rw [Store.demand] at room
    rw [step, if_neg (by omega)] at stepped
    cases stepped
    rw [Store.text, List.append_nil]
    exact (written.spend 1).setChar ch
  | copy block =>
    rw [Store.demand] at room
    rw [step, if_neg (by omega)] at stepped
    cases stepped
    exact (written.spend block.len).putBytes block.bytes
  | trail ch =>
    cases stepped
    exact (written.putChar ch).spend 1
  | number steps =>
    rw [step, Option.map_eq_some_iff] at stepped
    obtain ⟨last, ran, same⟩ := stepped
    cases same
    exact runNumber_text room bound ran written
  | overflow => cases stepped

theorem run_text (room : demand stores + 2 ≤ out.size) (bound : out.size < 2 ^ 64)
    (ran : run out stores = some (false, out')) (written : Written out start bytes) :
    Written out' start (bytes ++ rendering stores) := by
  induction stores generalizing out bytes with
  | nil =>
    cases ran
    rw [rendering, List.flatMap_nil, List.append_nil]
    exact written
  | cons store stores ih =>
    rw [demand] at room
    rw [run] at ran
    have counted := @step_exact out store (by omega) bound
    cases stepped : step out store with
    | none =>
      rw [stepped] at ran
      cases ran
    | some stopped =>
      obtain ⟨stops, next⟩ := stopped
      rw [stepped] at ran counted
      rw [Option.map_some, eq_comm, Option.map_eq_some_iff] at counted
      obtain ⟨n, _, same⟩ := counted
      simp only [Prod.mk.injEq] at same
      obtain ⟨rfl, size, _⟩ := same
      have rest := ih (by omega) (by omega) ran (step_text (by omega) bound stepped written)
      rw [List.append_assoc] at rest
      exact rest

end Written

/-! ## The field of a number -/

section Number

variable {num : BitVec 64} {base : ℕ} {size precision : ℤ} {type : Flags} {steps : List NumStore} {n : ℕ}

/-- `if (type & LEFT) type &= ~ZEROPAD;` -/
def Flags.settled (type : Flags) : Flags := if type.left then { type with zeropad := false } else type

def Flags.signChar (type : Flags) (num : BitVec 64) : Option (BitVec 8) :=
  if ¬type.sign then none
  else if num.toInt < 0 then some (chr '-')
  else if type.plus then some (chr '+')
  else if type.space then some (chr ' ')
  else none

def Flags.mark (type : Flags) (base : ℕ) : List NumStore :=
  if type.special ∧ base = 8 then [.put (chr '0')] else if type.special ∧ base = 16 then [.hexMark] else []

/-- `tmp`, in the order in which it is filled. -/
def Flags.tmp (type : Flags) (num : BitVec 64) (base : ℕ) : List (BitVec 8) :=
  if num = 0 then [chr '0']
  else (Nat.digits base (if type.sign then num.toInt.natAbs else num.toNat)).map fun digit =>
    (if type.large then upperDigits else digits).getD digit 0

/-- The stores of `number` behind the sign and the mark. -/
def numberTail (precision : ℤ) (tmp : List (BitVec 8)) (size : ℤ) : List NumStore :=
  List.replicate (precision - tmp.length).toNat (.put (chr '0')) ++ tmp.reverse.map .put ++
    countdown 0 size (.put (chr ' ')) .overflow fun _ => []

def numberBody (type : Flags) (sign : Option (BitVec 8)) (mark : List NumStore) (precision : ℤ)
    (tmp : List (BitVec 8)) (size : ℤ) : List NumStore :=
  sign.toList.map .put ++ mark ++
    if type.left then numberTail precision tmp size
    else countdown 0 size (.put (if type.zeropad then chr '0' else chr ' ')) .overflow (numberTail precision tmp)

def numberStores (type : Flags) (sign : Option (BitVec 8)) (mark : List NumStore) (precision : ℤ)
    (tmp : List (BitVec 8)) (size : ℤ) : List NumStore :=
  if type.zeropad ∨ type.left then numberBody type sign mark precision tmp size
  else countdown 0 size (.put (chr ' ')) .overflow (numberBody type sign mark precision tmp)

private theorem int_ok {value value' : ℤ} (ok : int value = .ok value') : value' = value := by
  rw [int] at ok
  split at ok
  · exact (Except.ok.inj ok).symm
  · cases ok

private theorem number_eq (num : BitVec 64) (base : ℕ) (size precision : ℤ) (type : Flags) :
    number num base size precision type =
      let type := type.settled
      let sign := type.signChar num
      let tmp := type.tmp num base
      do
        if type.sign ∧ num.toInt = -2 ^ 63 then throw .overflow
        let size ← if sign.isSome then int (size - 1) else pure size
        let size ←
          if type.special ∧ base = 16 then int (size - 2)
          else if type.special ∧ base = 8 then int (size - 1)
          else pure size
        let size ← int (size - max precision tmp.length)
        return numberStores type sign (type.mark base) (max precision tmp.length) tmp size := rfl

/-- The room that is left for padding. -/
private theorem number_ok (ok : number num base size precision type = .ok steps) :
    ¬(type.sign ∧ num.toInt = -2 ^ 63) ∧ ∃ room : ℤ,
      room = size - (type.signChar num).toList.length - ((type.mark base).flatMap NumStore.text).length -
        max precision (type.tmp num base).length ∧
      steps = numberStores type.settled (type.signChar num) (type.mark base) (max precision (type.tmp num base).length)
        (type.tmp num base) room := by
  have same : type.settled.sign = type.sign ∧ type.settled.signChar num = type.signChar num ∧
      type.settled.mark base = type.mark base ∧ type.settled.tmp num base = type.tmp num base ∧
      type.settled.special = type.special := by
    rw [Flags.settled]
    split <;> exact ⟨rfl, rfl, rfl, rfl, rfl⟩
  obtain ⟨sign, char, mark, tmp, special⟩ := same
  rw [number_eq] at ok
  dsimp only at ok
  rw [sign, char, mark, tmp, special] at ok
  split at ok
  · cases ok
  · rename_i least
    refine ⟨least, ?_⟩
    simp only [Except.ite_bind, Except.bind_ok_iff, Except.pure_ok_iff] at ok
    obtain ⟨first, signed, second, marked, room, sized, rfl⟩ := ok
    refine ⟨room, ?_, rfl⟩
    have signLength : first = size - (type.signChar num).toList.length := by
      revert signed
      cases type.signChar num with
      | none => exact fun signed => (Except.pure_ok_iff.mp signed).symm.trans (sub_zero size).symm
      | some c => exact fun signed => int_ok signed
    have markLength : second = first - ((type.mark base).flatMap NumStore.text).length := by
      rw [Flags.mark]
      by_cases hex : type.special ∧ base = 16
      · rw [if_pos hex] at marked
        rw [if_neg (by omega), if_pos hex]
        exact int_ok marked
      · rw [if_neg hex] at marked ⊢
        by_cases octal : type.special ∧ base = 8
        · rw [if_pos octal] at marked ⊢
          exact int_ok marked
        · rw [if_neg octal] at marked ⊢
          exact (Except.pure_ok_iff.mp marked).symm.trans (sub_zero first).symm
    rw [int_ok sized, markLength, signLength]

private theorem numLength_append {first second : List NumStore} (whole : numLength (first ++ second) = some n) :
    ∃ k m, numLength first = some k ∧ numLength second = some m := by
  induction first generalizing n with
  | nil => exact ⟨0, n, rfl, whole⟩
  | cons step first ih =>
    cases step with
    | put ch =>
      obtain ⟨more, whole, _⟩ := Option.map_eq_some_iff.mp whole
      obtain ⟨k, m, before, behind⟩ := ih whole
      exact ⟨1 + k, m, congrArg (Option.map (1 + ·)) before, behind⟩
    | hexMark =>
      obtain ⟨more, whole, _⟩ := Option.map_eq_some_iff.mp whole
      obtain ⟨k, m, before, behind⟩ := ih whole
      exact ⟨2 + k, m, congrArg (Option.map (2 + ·)) before, behind⟩
    | overflow => cases whole

theorem numLength_text (whole : numLength steps = some n) : (steps.flatMap NumStore.text).length = n := by
  induction steps generalizing n with
  | nil =>
    cases whole
    rfl
  | cons step steps ih =>
    rw [List.flatMap_cons, List.length_append]
    cases step with
    | put ch =>
      obtain ⟨more, rest, rfl⟩ := Option.map_eq_some_iff.mp whole
      rw [ih rest]
      rfl
    | hexMark =>
      obtain ⟨more, rest, rfl⟩ := Option.map_eq_some_iff.mp whole
      rw [ih rest]
      rfl
    | overflow => cases whole

private theorem text_put (bytes : List (BitVec 8)) : (bytes.map NumStore.put).flatMap NumStore.text = bytes := by
  induction bytes with
  | nil => rfl
  | cons ch bytes ih =>
    rw [List.map_cons, List.flatMap_cons, ih]
    rfl

/-- A loop that counts the room down to zero pads with a character, and leaves no room. -/
private theorem countdown_text {ch : BitVec 8} {rest : ℤ → List NumStore}
    (whole : numLength (countdown 0 size (.put ch) .overflow rest) = some n) : ∃ last < 0, ∃ m,
      numLength (rest last) = some m ∧
      (countdown 0 size (.put ch) .overflow rest).flatMap NumStore.text =
        List.replicate size.toNat ch ++ (rest last).flatMap NumStore.text := by
  rw [countdown] at whole ⊢
  obtain ⟨_, m, _, behind⟩ := numLength_append whole
  cases counted : int (min size 0 - 1) with
  | error reason =>
    rw [counted] at behind
    cases behind
  | ok last =>
    rw [counted] at behind
    have negative := int_ok counted
    refine ⟨last, by omega, m, behind, ?_⟩
    rw [List.flatMap_append, sub_zero, ← List.map_replicate, text_put]

private theorem numberTail_text {tmp : List (BitVec 8)} (whole : numLength (numberTail precision tmp size) = some n) :
    (numberTail precision tmp size).flatMap NumStore.text =
      List.replicate (precision - tmp.length).toNat (chr '0') ++ tmp.reverse ++
        List.replicate size.toNat (chr ' ') := by
  rw [numberTail] at whole ⊢
  obtain ⟨_, m, _, behind⟩ := numLength_append whole
  obtain ⟨_, _, _, _, blanks⟩ := countdown_text behind
  rw [List.flatMap_append, List.flatMap_append, blanks, ← List.map_replicate, text_put, text_put, List.flatMap_nil,
    List.append_nil]

section Field

variable {sign : Option (BitVec 8)} {mark : List NumStore} {tmp : List (BitVec 8)} {room : ℤ}

private theorem numberBody_text (padded : type.zeropad ∨ type.left ∨ room < 0)
    (whole : numLength (numberBody type sign mark precision tmp room) = some n) : ∃ zeros right : ℕ,
      zeros + right = room.toNat + (precision - tmp.length).toNat ∧ (precision - tmp.length).toNat ≤ zeros ∧
      (numberBody type sign mark precision tmp room).flatMap NumStore.text =
        sign.toList ++ (mark.flatMap NumStore.text ++ (List.replicate zeros (chr '0') ++ tmp.reverse)) ++
          List.replicate right (chr ' ') := by
  rw [numberBody] at whole ⊢
  obtain ⟨_, m, _, behind⟩ := numLength_append whole
  rw [List.flatMap_append, List.flatMap_append, text_put]
  by_cases left : type.left
  · rw [if_pos left] at behind ⊢
    refine ⟨(precision - tmp.length).toNat, room.toNat, Nat.add_comm .., le_rfl, ?_⟩
    rw [numberTail_text behind]
    simp only [List.append_assoc]
  · rw [if_neg left] at behind ⊢
    obtain ⟨last, negative, _, tail, text⟩ := countdown_text behind
    refine ⟨room.toNat + (precision - tmp.length).toNat, 0, rfl, Nat.le_add_left .., ?_⟩
    rw [text, numberTail_text tail, List.replicate_add, Int.toNat_of_nonpos negative.le]
    by_cases zeropad : type.zeropad
    · rw [if_pos zeropad]
      simp only [List.append_assoc]
    · have full : room.toNat = 0 := Int.toNat_of_nonpos (by tauto : room < 0).le
      rw [full]
      simp only [List.append_assoc, List.replicate_zero, List.nil_append]

/-- The room in the field is used up in one place: in front of the sign, in front of the digits or behind them. -/
private theorem numberStores_text (whole : numLength (numberStores type sign mark precision tmp room) = some n) :
    ∃ left zeros right : ℕ,
      left + zeros + right = room.toNat + (precision - tmp.length).toNat ∧ (precision - tmp.length).toNat ≤ zeros ∧
      (numberStores type sign mark precision tmp room).flatMap NumStore.text = List.replicate left (chr ' ') ++
        (sign.toList ++ (mark.flatMap NumStore.text ++ (List.replicate zeros (chr '0') ++ tmp.reverse))) ++
          List.replicate right (chr ' ') := by
  rw [numberStores] at whole ⊢
  split at whole
  · rename_i padded
    rw [if_pos padded]
    obtain ⟨zeros, right, room, enough, text⟩ := numberBody_text (by tauto) whole
    exact ⟨0, zeros, right, by omega, enough, text⟩
  · rename_i plain
    rw [if_neg plain]
    obtain ⟨last, negative, _, body, text⟩ := countdown_text whole
    obtain ⟨zeros, right, rest, enough, bodyText⟩ := numberBody_text (.inr (.inr negative)) body
    rw [Int.toNat_of_nonpos negative.le] at rest
    refine ⟨room.toNat, zeros, right, by omega, enough, ?_⟩
    rw [text, bodyText]
    simp only [List.append_assoc]

end Field

/-! ## Reading it back -/

/-- The value of a digit in a base. -/
def digitValue (base : ℕ) (ch : BitVec 8) : Option ℕ :=
  let digit :=
    if isdigit ch then ch.toNat - (chr '0').toNat
    else if chr 'a' ≤ ch ∧ ch ≤ chr 'z' then ch.toNat - (chr 'a').toNat + 10
    else if chr 'A' ≤ ch ∧ ch ≤ chr 'Z' then ch.toNat - (chr 'A').toNat + 10
    else base
  if digit < base then some digit else none

private theorem digitValue_other (base : ℕ) {ch : BitVec 8} (other : ch ∈ text " +-") : digitValue base ch = none := by
  have cases : ch = chr ' ' ∨ ch = chr '+' ∨ ch = chr '-' := by simpa [text] using other
  rcases cases with rfl | rfl | rfl <;> exact if_neg (lt_irrefl base)

/-- Numerals as in C, with the mark of base 16. -/
def script (base : ℕ) : Numerals.Script (BitVec 8) where
  base := base
  digit := digitValue base
  blank := chr ' '
  plus := chr '+'
  minus := chr '-'
  mark := if base = 16 then text "0x" else []
  apart := by decide
  signs c member := digitValue_other base member
  mark_signs c member := by
    split
    · revert c
      decide
    · exact List.not_mem_nil
  mark_digit := by
    split
    · rename_i hex
      subst hex
      exact .inr ⟨chr 'x', by decide, by decide⟩
    · exact .inl rfl

def Flags.digit (type : Flags) (d : ℕ) : BitVec 8 := (if type.large then upperDigits else digits).getD d 0

private theorem digitValue_digit (bases : base = 8 ∨ base = 10 ∨ base = 16) (type : Flags) :
    ∀ d < (script base).base, (script base).digit (type.digit d) = some d := by
  have all : ∀ base ∈ [8, 10, 16], ∀ large : Bool, ∀ d < base,
      digitValue base ((if large then upperDigits else digits).getD d 0) = some d := by decide +kernel
  have listed : base ∈ [8, 10, 16] := by simpa using bases
  exact all base listed type.large

/-- The absolute value that the digits are computed from. -/
def Flags.magnitude (type : Flags) (num : BitVec 64) : ℕ := if type.sign then num.toInt.natAbs else num.toNat

private theorem tmp_reverse (type : Flags) (num : BitVec 64) (base : ℕ) :
    (type.tmp num base).reverse = (script base).numeral type.digit (type.magnitude num) := by
  rw [Flags.tmp, Numerals.Script.numeral, Flags.magnitude]
  by_cases zero : num = 0
  · subst zero
    rw [if_pos rfl, if_pos (by simp), Flags.digit]
    cases type.large <;> decide
  · have nonzero : ¬(if type.sign then num.toInt.natAbs else num.toNat) = 0 := by
      intro same
      apply zero
      split at same
      · exact BitVec.eq_of_toInt_eq (Int.natAbs_eq_zero.mp same)
      · exact BitVec.eq_of_toNat_eq same
    rw [if_neg zero, if_neg nonzero]
    rfl

private theorem signChar_spec (type : Flags) (num : BitVec 64) :
    (∀ c ∈ type.signChar num, c ∈ [chr ' ', chr '+', chr '-']) ∧
      (if type.signChar num = some (chr '-') then -(type.magnitude num : ℤ) else type.magnitude num) =
        if type.sign then num.toInt else num.toNat := by
  rw [Flags.signChar, Flags.magnitude]
  by_cases signed : type.sign
  · rw [if_neg (not_not.mpr signed), if_pos signed, if_pos signed]
    by_cases negative : num.toInt < 0
    · rw [if_pos negative, if_pos rfl]
      exact ⟨by simp, by omega⟩
    · rw [if_neg negative]
      have other : ¬(if type.plus then some (chr '+') else if type.space then some (chr ' ') else none) =
          some (chr '-') := by
        cases type.plus <;> cases type.space <;> decide
      rw [if_neg other]
      refine ⟨?_, by omega⟩
      cases type.plus <;> cases type.space <;> simp
  · rw [if_pos signed, if_neg signed, if_neg signed]
    exact ⟨by simp, if_neg (by simp)⟩

/-- What `number` writes is a field of at least the width, and is read back as the number. -/
theorem number_read_back (bases : base = 8 ∨ base = 10 ∨ base = 16)
    (ok : number num base size precision type = .ok steps) (whole : numLength steps = some n) :
    (script base).read (steps.flatMap NumStore.text) = some (if type.sign then num.toInt else num.toNat) ∧
      size ≤ n := by
  obtain ⟨_, room, sized, rfl⟩ := number_ok ok
  obtain ⟨left, zeros, right, used, enough, text⟩ := numberStores_text whole
  have length := numLength_text whole
  obtain ⟨signs, value⟩ := signChar_spec type num
  constructor
  · obtain ⟨marked, zeros', mark⟩ : ∃ (marked : Bool) (zeros' : ℕ),
        (type.mark base).flatMap NumStore.text ++ (List.replicate zeros (chr '0') ++ (type.tmp num base).reverse) =
          (if marked then (script base).mark else []) ++
            (List.replicate zeros' (chr '0') ++ (type.tmp num base).reverse) := by
      rw [Flags.mark]
      by_cases octal : type.special ∧ base = 8
      · refine ⟨false, zeros + 1, ?_⟩
        rw [if_pos octal, List.replicate_succ]
        rfl
      · rw [if_neg octal]
        by_cases hex : type.special ∧ base = 16
        · refine ⟨true, zeros, ?_⟩
          rw [if_pos hex, hex.2]
          rfl
        · exact ⟨false, zeros, by rw [if_neg hex]; rfl⟩
    have zero : chr '0' = type.digit 0 := by
      rw [Flags.digit]
      cases type.large <;> decide
    have large : 1 < (script base).base := by
      change 1 < base
      omega
    have digits := Numerals.Script.readDigits_numeral large (digitValue_digit bases type) zeros' (type.magnitude num)
    rw [text, mark, tmp_reverse, zero]
    exact (Numerals.Script.read_written digits left right marked signs).trans (congrArg some value)
  · rw [text] at length
    simp only [List.length_append, List.length_replicate, List.length_reverse] at length
    omega

end Number

end RubberOS.Model.Snprintf
