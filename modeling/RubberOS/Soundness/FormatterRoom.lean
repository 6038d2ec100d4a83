import RubberOS.Proofs.Snprintf

/-! # The room of the formatter

`vsnprintf` counts the room of its buffer down to one, and leaves the last cell to the NUL. The count fails where the
room ends in the padding behind a left-justified string, since that store comes before its test, and where it ends
within `number`, since `vsnprintf` then sees a counter of zero and goes on.
-/

namespace RubberOS.Soundness.FormatterRoom

open Model Model.Snprintf

/-- What a caller relies on: the stores stay in the buffer, and the last one is the NUL at the returned index. -/
structure Bounded (size : ℕ) (result : ℤ × List (ℕ × BitVec 8)) : Prop where
  inside : ∀ store ∈ result.2, store.1 < size
  terminated : ∃ last : ℕ, result.1 = last ∧ result.2.head? = some (last, 0)
  short : result.1 ≤ size - 1

/-! ## Where the room ends -/

/-- The end of the stores, with the place it leaves `str` at. The slack is the number of cells that were counted, but
not stored to. -/
inductive Ending where
  /-- The stores fit, or the room ends at a store that is tested first. -/
  | fits (last : ℕ)
  /-- The room ends in the padding behind a string. -/
  | padding (slack last : ℕ)
  /-- The room ends within `number`, in front of the other stores. -/
  | number (slack last : ℕ) (rest : List Store)
  | overflow

/-- The room and the place that `number` leaves; no room is left where it ends. -/
def numberEnd (room last : ℕ) : List NumStore → Option (ℕ × ℕ)
  | [] => some (room, last)
  | .put _ :: steps => if room = 1 then some (0, last) else numberEnd (room - 1) (last + 1) steps
  | .hexMark :: steps => if room ≤ 2 then some (room, last) else numberEnd (room - 2) (last + 2) steps
  | .overflow :: _ => none

/-- Padding in front of a string is counted, but stays in its place, and a string may be shorter than its copy. -/
def ending (room last slack : ℕ) : List Store → Ending
  | [] => .fits last
  | .put _ :: stores => if room = 1 then .fits last else ending (room - 1) (last + 1) slack stores
  | .stay _ :: stores => if room = 1 then .fits last else ending (room - 1) last (slack + 1) stores
  | .copy block :: stores =>
    if room ≤ block.len then .fits last
    else ending (room - block.len) (last + block.bytes.length) (slack + (block.len - block.bytes.length)) stores
  | .trail _ :: stores =>
    if room = 1 then .padding slack (last + 1) else ending (room - 1) (last + 1) slack stores
  | .number steps :: stores =>
    match numberEnd room last steps with
    | none => .overflow
    | some (room, last) =>
      if room = 0 then .number slack last stores else if room = 1 then .fits last else ending room last slack stores
  | .overflow :: _ => .overflow

/-- The bytes that are stored behind a number within which the room has ended: none up to a string, whose copy is
refused, and else all of the text. -/
def spill : List Store → Option ℕ
  | [] => some 0
  | .copy _ :: _ => some 0
  | .number [] :: stores => spill stores
  | .number (.hexMark :: _) :: stores => spill stores
  | store :: stores => textLength (store :: stores)

/-- The slack takes what is stored without room, and the return type holds the length. -/
def Ending.Safe : Ending → Prop
  | .fits last => last < 2 ^ 31
  | .padding slack last => 0 < slack ∧ last < 2 ^ 31
  | .number slack last rest => ∃ more, spill rest = some more ∧ more ≤ slack ∧ last + more < 2 ^ 31
  | .overflow => False

/-- The count of the room is not lost. -/
def KeepsCount (size : ℕ) (stores : List Store) : Prop := size = 1 ∨ (ending size 0 0 stores).Safe

section Endings

variable {out out' : Out} {steps : List NumStore} {store : Store} {stores rest : List Store} {last room slack total : ℕ}
  {log : List (ℕ × BitVec 8)} {e : Ending}

private theorem runNumber_ending (positive : 1 ≤ out.size) (bound : out.size < 2 ^ 64) :
    (runNumber out steps).map (fun stopped => (stopped.size, stopped.str)) = numberEnd out.size out.str steps := by
  induction steps generalizing out with
  | nil => rfl
  | cons store steps ih =>
    cases store with
    | put ch =>
      have spent := Out.spend_size_of_le positive bound
      rw [runNumber, numberEnd]
      by_cases ends : out.size = 1
      · rw [if_pos ends, if_pos ends, Option.map_some, Out.spend_str, spent, ends]
      · have size : ((out.spend 1).putChar ch).size = out.size - 1 := by rw [Out.putChar_size, spent]
        rw [if_neg ends, if_neg ends, ih (by omega) (by omega), size, Out.putChar_str, Out.spend_str]
    | hexMark =>
      rw [runNumber, numberEnd]
      by_cases ends : out.size ≤ 2
      · rw [if_pos ends, if_pos ends, Option.map_some]
      · have size (bytes : List (BitVec 8)) : ((out.spend 2).putBytes bytes).size = out.size - 2 := by
          rw [Out.putBytes_size, Out.spend_size_of_le (by omega) bound]
        rw [if_neg ends, if_neg ends, ih (by rw [size]; omega) (by rw [size]; omega), size, Out.putBytes_str,
          Out.spend_str]
        rfl
    | overflow => rfl

/-- What `number` stores is taken from the room. Where the room ends, its last cell is still free. -/
private theorem numberEnd_total {room' last' : ℕ} (ends : numberEnd room last steps = some (room', last'))
    (positive : 1 ≤ room) : room' ≤ room ∧ last' + max room' 1 = last + room := by
  induction steps generalizing room last with
  | nil =>
    cases ends
    exact ⟨le_rfl, by omega⟩
  | cons store steps ih =>
    cases store with
    | put ch =>
      rw [numberEnd] at ends
      split at ends
      · cases ends
        exact ⟨Nat.zero_le _, by omega⟩
      · have rest := ih ends (by omega)
        exact ⟨by omega, by omega⟩
    | hexMark =>
      rw [numberEnd] at ends
      split at ends
      · cases ends
        exact ⟨le_rfl, by omega⟩
      · have rest := ih ends (by omega)
        exact ⟨by omega, by omega⟩
    | overflow => nomatch ends

/-- What an ending says about the stores that are carried out: `total` is the end of the buffer. -/
def Reaches (total : ℕ) (out : Out) (stores : List Store) : Ending → Prop
  | .fits last => landing out stores = some last ∧ last < total
  | .padding slack last => landing out stores = some last ∧ last + slack = total
  | .number slack last rest =>
    (∃ log, landing out stores = landing ⟨0, last, log⟩ rest) ∧ demand rest ≤ demand stores ∧ last + 1 + slack = total
  | .overflow => landing out stores = none

private theorem landing_of_step (stepped : step out store = some (false, out')) :
    landing out (store :: stores) = landing out' stores := by
  rw [landing, run, stepped, landing]

private theorem landing_of_stop (stepped : step out store = some (true, out')) :
    landing out (store :: stores) = some out'.str := by
  rw [landing, run, stepped, Option.map_some]

private theorem Reaches.cons (stepped : step out store = some (false, out')) (reaches : Reaches total out' stores e) :
    Reaches total out (store :: stores) e := by
  have same : landing out (store :: stores) = landing out' stores := landing_of_step stepped
  cases e with
  | fits last => exact ⟨same.trans reaches.1, reaches.2⟩
  | padding slack last => exact ⟨same.trans reaches.1, reaches.2⟩
  | number slack last rest =>
    obtain ⟨⟨log, goesOn⟩, fewer, sum⟩ := reaches
    exact ⟨⟨log, same.trans goesOn⟩, fewer.trans (Nat.le_add_left _ _), sum⟩
  | overflow => exact same.trans reaches

/-- A call of `number` ends the room, or it leaves some for the stores after it. -/
private theorem reaches_number {steps : List NumStore} (positive : 1 ≤ out.size) (bound : out.size < 2 ^ 64)
    (sum : out.str + out.size + slack = total)
    (after : ∀ out' : Out, 1 ≤ out'.size → out'.size < 2 ^ 64 → out'.str + out'.size + slack = total →
      Reaches total out' stores (ending out'.size out'.str slack stores)) :
    Reaches total out (.number steps :: stores) (ending out.size out.str slack (.number steps :: stores)) := by
  have ran := @runNumber_ending out steps positive bound
  rw [ending]
  cases numbers : numberEnd out.size out.str steps with
  | none =>
    rw [numbers, Option.map_eq_none_iff] at ran
    rw [Reaches, landing, run, step, ran]
    rfl
  | some place =>
    obtain ⟨room, last⟩ := place
    rw [numbers, Option.map_eq_some_iff] at ran
    obtain ⟨out', ran, same⟩ := ran
    obtain ⟨rfl, rfl⟩ := Prod.mk.inj same
    obtain ⟨less, whole⟩ := numberEnd_total numbers positive
    have stepped (stops : Bool) (tested : decide (out'.size = 1) = stops) :
        step out (.number steps) = some (stops, out') := by
      rw [step, ran, Option.map_some, tested]
    dsimp only
    split
    · rename_i empty
      have rest : out' = ⟨0, out'.str, out'.stores⟩ := by rw [← empty]
      refine ⟨⟨out'.stores, ?_⟩, Nat.le_add_left _ _, by omega⟩
      rw [landing_of_step (stepped false (decide_eq_false (by omega))), ← rest]
    · rename_i nonempty
      split
      · rename_i ends
        exact ⟨landing_of_stop (stepped true (decide_eq_true ends)), by omega⟩
      · rename_i goesOn
        exact (after out' (by omega) (by omega) (by omega)).cons (stepped false (decide_eq_false goesOn))

private theorem reaches_ending (positive : 1 ≤ out.size) (bound : out.size < 2 ^ 64)
    (sum : out.str + out.size + slack = total) :
    Reaches total out stores (ending out.size out.str slack stores) := by
  induction stores generalizing out slack with
  | nil => exact ⟨rfl, by omega⟩
  | cons store stores ih =>
    have spent (n : ℕ) (le : n ≤ out.size) := Out.spend_size_of_le le bound
    have onward {out' : Out} {room last slack' : ℕ} (stepped : step out store = some (false, out'))
        (size : out'.size = room) (str : out'.str = last) (nonempty : 1 ≤ room) (less : room ≤ out.size)
        (sum' : last + room + slack' = total) : Reaches total out (store :: stores) (ending room last slack' stores) := by
      subst size str
      exact (ih nonempty (by omega) sum').cons stepped
    cases store with
    | put ch =>
      rw [ending]
      by_cases ends : out.size = 1
      · rw [if_pos ends]
        exact ⟨(landing_of_stop (by rw [step, if_pos ends])).trans (by rw [Out.spend_str]), by omega⟩
      · rw [if_neg ends]
        exact onward (by rw [step, if_neg ends]) (by rw [Out.putChar_size, spent 1 positive])
          (by rw [Out.putChar_str, Out.spend_str]) (by omega) (by omega) (by omega)
    | stay ch =>
      rw [ending]
      by_cases ends : out.size = 1
      · rw [if_pos ends]
        exact ⟨(landing_of_stop (by rw [step, if_pos ends])).trans (by rw [Out.spend_str]), by omega⟩
      · rw [if_neg ends]
        exact onward (by rw [step, if_neg ends]) (by rw [Out.setChar_size, spent 1 positive])
          (by rw [Out.setChar_str, Out.spend_str]) (by omega) (by omega) (by omega)
    | copy block =>
      rw [ending]
      by_cases ends : out.size ≤ block.len
      · rw [if_pos ends]
        exact ⟨landing_of_stop (by rw [step, if_pos ends]), by omega⟩
      · rw [if_neg ends]
        have within := block.within
        exact onward (by rw [step, if_neg ends]) (by rw [Out.putBytes_size, spent _ (by omega)])
          (by rw [Out.putBytes_str, Out.spend_str]) (by omega) (by omega) (by omega)
    | trail ch =>
      rw [ending]
      by_cases ends : out.size = 1
      · rw [if_pos ends]
        exact ⟨(landing_of_stop (by rw [step, decide_eq_true ends])).trans (by rw [Out.spend_str, Out.putChar_str]),
          by omega⟩
      · rw [if_neg ends]
        exact onward (by rw [step, decide_eq_false ends])
          (by rw [Out.spend_size, Out.putChar_size, ← Out.spend_size, spent 1 positive])
          (by rw [Out.spend_str, Out.putChar_str]) (by omega) (by omega) (by omega)
    | number steps => exact reaches_number positive bound sum fun out' nonempty small sum' => ih nonempty small sum'
    | overflow => rfl

/-! ## Behind a number within which the room has ended -/

/-- Without room every copy is refused. -/
private theorem landing_copy (block : Copy) : landing ⟨0, last, log⟩ (.copy block :: stores) = some last := by
  rw [landing, run, step, if_pos (Nat.zero_le _)]
  rfl

private theorem landing_spill_le {more : ℕ} (spilled : spill stores = some more) :
    ∃ place, landing ⟨0, last, log⟩ stores = some place ∧ place ≤ last + more := by
  induction stores with
  | nil => exact ⟨last, rfl, Nat.le_add_right _ _⟩
  | cons store stores ih =>
    cases store with
    | copy block => exact ⟨last, landing_copy block, Nat.le_add_right _ _⟩
    | number steps =>
      cases steps with
      | nil =>
        rw [landing_of_step rfl]
        exact ih spilled
      | cons first steps =>
        cases first with
        | hexMark =>
          rw [landing_of_step rfl]
          exact ih spilled
        | put ch => exact landing_le spilled
        | overflow => exact landing_le spilled
    | put ch => exact landing_le spilled
    | stay ch => exact landing_le spilled
    | trail ch => exact landing_le spilled
    | overflow => exact landing_le spilled

/-- The counter of zero is as good as one of `2 ^ 64`. -/
private theorem landing_wrapped {n : ℕ} (stepped : step ⟨0, last, log⟩ store = some (false, out'))
    (size : out'.size = 2 ^ 64 - 1) (length : store.length = some n) (str : out'.str = last + n)
    (small : demand stores < 2 ^ 63) :
    landing ⟨0, last, log⟩ (store :: stores) = (textLength (store :: stores)).map (last + ·) := by
  rw [landing_of_step stepped, landing_exact (by omega) (by omega), textLength, length,
    Option.bind_some, map_add_map, str]

private theorem textLength_number_put (ch : BitVec 8) :
    textLength (.number (.put ch :: steps) :: stores) = (textLength (.number steps :: stores)).map (1 + ·) := by
  rw [textLength, textLength, Store.length, Store.length, numLength]
  cases numLength steps with
  | none => rfl
  | some n =>
    rw [Option.map_some, Option.bind_some, Option.bind_some, map_add_map]

private theorem landing_spill (small : demand stores < 2 ^ 63) :
    landing ⟨0, last, log⟩ stores = (spill stores).map (last + ·) := by
  have wraps : sub64 0 1 = 2 ^ 64 - 1 := by decide
  induction stores with
  | nil => rfl
  | cons store stores ih =>
    rw [demand] at small
    have behind : demand stores < 2 ^ 63 := (Nat.le_add_left _ _).trans_lt small
    cases store with
    | put ch =>
      exact landing_wrapped (by rw [step, if_neg Nat.zero_ne_one])
        (by rw [Out.putChar_size, Out.spend_size, wraps]) rfl
        (by rw [Out.putChar_str, Out.spend_str]) behind
    | stay ch =>
      exact landing_wrapped (by rw [step, if_neg Nat.zero_ne_one])
        (by rw [Out.setChar_size, Out.spend_size, wraps]) rfl
        (by rw [Out.setChar_str, Out.spend_str, Nat.add_zero]) behind
    | trail ch =>
      exact landing_wrapped (by rw [step, decide_eq_false Nat.zero_ne_one])
        (by rw [Out.spend_size, Out.putChar_size, wraps]) rfl (by rw [Out.spend_str, Out.putChar_str]) behind
    | copy block => exact landing_copy block
    | number steps =>
      cases steps with
      | nil =>
        rw [landing_of_step rfl]
        exact ih behind
      | cons first steps =>
        cases first with
        | hexMark =>
          rw [landing_of_step rfl]
          exact ih behind
        | put ch =>
          have first : runNumber ⟨0, last, log⟩ (.put ch :: steps) =
              runNumber ((Out.spend ⟨0, last, log⟩ 1).putChar ch) steps := by rw [runNumber, if_neg Nat.zero_ne_one]
          have goesOn : landing ⟨0, last, log⟩ (.number (.put ch :: steps) :: stores) =
              landing ((Out.spend ⟨0, last, log⟩ 1).putChar ch) (.number steps :: stores) := by
            rw [landing, landing, run, run, step, step, first]
          have size : ((Out.spend ⟨0, last, log⟩ 1).putChar ch).size = 2 ^ 64 - 1 := by
            rw [Out.putChar_size, Out.spend_size, wraps]
          have fewer : demand (.number steps :: stores) < 2 ^ 63 := by
            rw [Store.demand, numDemand] at small
            rw [demand, Store.demand]
            omega
          have rest : spill (.number (.put ch :: steps) :: stores) = _ := textLength_number_put ch
          rw [goesOn, landing_exact (by omega) (by omega), Out.putChar_str, Out.spend_str, rest, map_add_map]
        | overflow => rfl
    | overflow => rfl

end Endings

/-! ## The call -/

variable {size : ℕ} {fmt : List (BitVec 8)} {args : List Arg} {stores : List Store} {out : Out}

/-- The NUL is stored at `str`, and nothing is stored behind it. -/
private theorem bounded_iff (behind : out.Behind) :
    Bounded size ((BitVec.ofNat 32 out.str).toInt, (out.str, 0) :: out.stores) ↔
      out.str < size ∧ out.str < 2 ^ 31 := by
  constructor
  · intro bounded
    obtain ⟨last, returned, latest⟩ := bounded.terminated
    have place : out.str = last := congrArg Prod.fst (Option.some.inj latest)
    have upper := BitVec.two_mul_toInt_lt (x := BitVec.ofNat 32 out.str)
    exact ⟨bounded.inside _ List.mem_cons_self, by omega⟩
  · rintro ⟨inside, small⟩
    have returned : (BitVec.ofNat 32 out.str).toInt = out.str := by
      rw [BitVec.toInt_eq_toNat_of_lt (by rw [BitVec.toNat_ofNat]; omega), BitVec.toNat_ofNat,
        Nat.mod_eq_of_lt (by omega)]
    refine ⟨fun store mem => ?_, ⟨out.str, returned, rfl⟩, by rw [returned]; omega⟩
    obtain rfl | mem := List.mem_cons.mp mem
    · exact inside
    · exact (behind store mem).trans_lt inside

private theorem bounded_iff_landing (large : 2 ≤ size) (matching : output args 0 fmt = some stores) :
    (∃ result, vsnprintf size fmt args = some result ∧ Bounded size result) ↔
      ∃ last, landing ⟨size, 0, []⟩ stores = some last ∧ last < size ∧ last < 2 ^ 31 := by
  rw [vsnprintf, if_neg (by omega), if_neg (by omega), formatFrom_eq matching, landing, Option.map_map]
  cases ran : run ⟨size, 0, []⟩ stores with
  | none =>
    simp only [Option.map_none, reduceCtorEq, false_and, exists_false]
  | some stopped =>
    have behind : stopped.2.Behind := kept_behind.run (show Out.Behind ⟨size, 0, []⟩ from fun _ member => absurd member List.not_mem_nil) ran
    simp only [Option.map_some, Option.some.injEq, exists_eq_left', Function.comp_apply]
    exact bounded_iff behind

/-- The call keeps to its buffer where the count of the room is kept, and, unless its text is longer than any memory,
only there. -/
theorem vsnprintf_bounded_iff (positive : 1 ≤ size) (bound : size < 2 ^ 64) (matching : output args 0 fmt = some stores) :
    (KeepsCount size stores → ∃ result, vsnprintf size fmt args = some result ∧ Bounded size result) ∧
      (demand stores < 2 ^ 63 → (∃ result, vsnprintf size fmt args = some result ∧ Bounded size result) →
        KeepsCount size stores) := by
  by_cases single : size = 1
  · subst single
    exact ⟨fun _ => ⟨(0, [(0, 0)]), rfl, by simp, ⟨0, rfl, rfl⟩, le_rfl⟩, fun _ _ => .inl rfl⟩
  have reaches : Reaches size ⟨size, 0, []⟩ stores (ending size 0 0 stores) :=
    reaches_ending positive bound (Nat.zero_add size)
  have keeps : KeepsCount size stores ↔ (ending size 0 0 stores).Safe := or_iff_right single
  rw [bounded_iff_landing (by omega) matching, keeps]
  generalize ending size 0 0 stores = e at reaches
  cases e with
  | fits last =>
    obtain ⟨lands, inside⟩ := reaches
    refine ⟨fun small => ⟨last, lands, inside, small⟩, ?_⟩
    rintro - ⟨place, lands', -, small⟩
    cases lands.symm.trans lands'
    exact small
  | padding slack last =>
    obtain ⟨lands, sum⟩ := reaches
    refine ⟨fun ⟨slackened, small⟩ => ⟨last, lands, by omega, small⟩, ?_⟩
    rintro - ⟨place, lands', inside, small⟩
    cases lands.symm.trans lands'
    exact ⟨by omega, small⟩
  | number slack last rest =>
    obtain ⟨⟨log, goesOn⟩, fewer, sum⟩ := reaches
    rw [goesOn]
    constructor
    · rintro ⟨more, spilled, inside, small⟩
      obtain ⟨place, lands, le⟩ := landing_spill_le spilled
      exact ⟨place, lands, by omega, le.trans_lt small⟩
    · rintro short ⟨place, lands, inside, small⟩
      rw [landing_spill (fewer.trans_lt short), Option.map_eq_some_iff] at lands
      obtain ⟨more, spilled, rfl⟩ := lands
      exact ⟨more, spilled, by omega, small⟩
  | overflow =>
    refine ⟨False.elim, ?_⟩
    rintro - ⟨place, lands, -⟩
    nomatch (show landing ⟨size, 0, []⟩ stores = none from reaches).symm.trans lands

/-- The room ends in the padding behind `b`, but two cells were counted for the padding in front of `a`. -/
theorem vsnprintf_bounded_answer : ∃ result,
    vsnprintf 6 (text "%3s%-3s") [.string (some (text "a")), .string (some (text "b"))] = some result ∧
      Bounded 6 result := by
  have matching : output [.string (some (text "a")), .string (some (text "b"))] 0 (text "%3s%-3s") =
      some [.stay (chr ' '), .stay (chr ' '), .copy ⟨1, [chr 'a'], le_rfl⟩, .copy ⟨1, [chr 'b'], le_rfl⟩,
        .trail (chr ' '), .trail (chr ' ')] := by decide
  exact (vsnprintf_bounded_iff (by decide) (by decide) matching).1 (.inr (show 0 < 2 ∧ 4 < 2 ^ 31 by decide))

private theorem not_bounded_of_overrun {ret : ℤ} {store : ℕ × BitVec 8} {log : List (ℕ × BitVec 8)}
    (ran : vsnprintf size fmt args = some (ret, store :: log)) (beyond : size ≤ store.1) :
    ¬∃ result, vsnprintf size fmt args = some result ∧ Bounded size result := by
  rintro ⟨result, ran', bounded⟩
  cases ran.symm.trans ran'
  exact absurd (bounded.inside _ List.mem_cons_self) (by omega)

/-- Two cells hold `a` and a space, or `1` and the `x` behind the number, and the NUL goes to a third one. -/
theorem vsnprintf_overruns :
    ((∃ stores, output [.string (some (text "a"))] 0 (text "%-2s") = some stores) ∧
      ¬∃ result, vsnprintf 2 (text "%-2s") [.string (some (text "a"))] = some result ∧ Bounded 2 result) ∧
    (∃ stores, output [.int 12] 0 (text "%dx") = some stores) ∧
      ¬∃ result, vsnprintf 2 (text "%dx") [.int 12] = some result ∧ Bounded 2 result := by
  have padded : vsnprintf 2 (text "%-2s") [.string (some (text "a"))] =
      some (2, [(2, 0), (1, chr ' '), (0, chr 'a')]) := by decide
  have numbered : vsnprintf 2 (text "%dx") [.int 12] = some (2, [(2, 0), (1, chr 'x'), (0, chr '1')]) := by decide
  exact ⟨⟨⟨_, rfl⟩, not_bounded_of_overrun padded le_rfl⟩, ⟨_, rfl⟩, not_bounded_of_overrun numbered le_rfl⟩

end RubberOS.Soundness.FormatterRoom
