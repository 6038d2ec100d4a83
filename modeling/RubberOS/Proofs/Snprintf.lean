import Mathlib.Data.Option.Basic
import RubberOS.Model.Snprintf

/-! # Stores of the formatter

The stores of a whole format, independent of the room, and what carrying them out does to the place in the buffer.
-/

namespace RubberOS.Model.Snprintf

variable {out out' : Out} {args : List Arg} {fmt : List (BitVec 8)}

@[simp] theorem Out.spend_str (out : Out) (n : ℕ) : (out.spend n).str = out.str := rfl

@[simp] theorem Out.spend_size (out : Out) (n : ℕ) : (out.spend n).size = sub64 out.size n := rfl

@[simp] theorem Out.setChar_str (out : Out) (ch : BitVec 8) : (out.setChar ch).str = out.str := rfl

@[simp] theorem Out.setChar_size (out : Out) (ch : BitVec 8) : (out.setChar ch).size = out.size := rfl

@[simp] theorem Out.putChar_str (out : Out) (ch : BitVec 8) : (out.putChar ch).str = out.str + 1 := rfl

@[simp] theorem Out.putChar_size (out : Out) (ch : BitVec 8) : (out.putChar ch).size = out.size := rfl

@[simp] theorem Out.putChar_stores (out : Out) (ch : BitVec 8) :
    (out.putChar ch).stores = (out.str, ch) :: out.stores := rfl

@[simp] theorem Out.putBytes_str (out : Out) (bytes : List (BitVec 8)) :
    (out.putBytes bytes).str = out.str + bytes.length := by
  induction bytes generalizing out with
  | nil => rfl
  | cons ch bytes ih =>
    rw [Out.putBytes, ih, Out.putChar_str, List.length_cons]
    omega

@[simp] theorem Out.putBytes_size (out : Out) (bytes : List (BitVec 8)) : (out.putBytes bytes).size = out.size := by
  induction bytes generalizing out with
  | nil => rfl
  | cons ch bytes ih => rw [Out.putBytes, ih, Out.putChar_size]

/-- The counter after a store that found enough room. -/
theorem Out.spend_size_of_le {n : ℕ} (le : n ≤ out.size) (bound : out.size < 2 ^ 64) :
    (out.spend n).size = out.size - n := sub64_of_le le bound

/-! ## What a run keeps -/

/-- The updates of the state keep `P`. -/
structure Kept (P : Out → Prop) : Prop where
  spend : ∀ {out : Out}, P out → ∀ n, P (out.spend n)
  setChar : ∀ {out : Out}, P out → ∀ ch, P (out.setChar ch)
  putChar : ∀ {out : Out}, P out → ∀ ch, P (out.putChar ch)

section Kept

variable {P : Out → Prop} (kept : Kept P)

include kept

private theorem Kept.putBytes (holds : P out) (bytes : List (BitVec 8)) : P (out.putBytes bytes) := by
  induction bytes generalizing out with
  | nil => exact holds
  | cons ch bytes ih => exact ih (kept.putChar holds ch)

private theorem Kept.runNumber {steps : List NumStore} (holds : P out) (ran : runNumber out steps = some out') :
    P out' := by
  induction steps generalizing out with
  | nil => exact Option.some.inj ran ▸ holds
  | cons store steps ih =>
    cases store with
    | put ch =>
      rw [Snprintf.runNumber] at ran
      split at ran
      · exact Option.some.inj ran ▸ kept.spend holds 1
      · exact ih (kept.putChar (kept.spend holds 1) ch) ran
    | hexMark =>
      rw [Snprintf.runNumber] at ran
      split at ran
      · exact Option.some.inj ran ▸ holds
      · exact ih (kept.putBytes (kept.spend holds 2) _) ran
    | overflow => nomatch ran

private theorem Kept.step {store : Store} {stops : Bool} (holds : P out) (ran : step out store = some (stops, out')) :
    P out' := by
  cases store with
  | put ch =>
    rw [Snprintf.step] at ran
    split at ran
    · cases ran
      exact kept.spend holds 1
    · cases ran
      exact kept.putChar (kept.spend holds 1) ch
  | stay ch =>
    rw [Snprintf.step] at ran
    split at ran
    · cases ran
      exact kept.spend holds 1
    · cases ran
      exact kept.setChar (kept.spend holds 1) ch
  | copy block =>
    rw [Snprintf.step] at ran
    split at ran
    · cases ran
      exact holds
    · cases ran
      exact kept.putBytes (kept.spend holds _) _
  | trail ch =>
    rw [Snprintf.step, Option.some.injEq, Prod.mk.injEq] at ran
    exact ran.2 ▸ kept.spend (kept.putChar holds ch) 1
  | number steps =>
    rw [Snprintf.step, Option.map_eq_some_iff] at ran
    obtain ⟨last, ran, same⟩ := ran
    cases same
    exact kept.runNumber holds ran
  | overflow => nomatch ran

theorem Kept.run {stores : List Store} {stops : Bool} (holds : P out) (ran : run out stores = some (stops, out')) :
    P out' := by
  induction stores generalizing out with
  | nil =>
    cases ran
    exact holds
  | cons store stores ih =>
    rw [Snprintf.run] at ran
    split at ran
    · rename_i next stepped
      exact ih (kept.step holds stepped) ran
    · exact kept.step holds ran

end Kept

/-- Nothing is stored beyond the place. -/
def Out.Behind (out : Out) : Prop := ∀ store ∈ out.stores, store.1 ≤ out.str

private theorem Out.Behind.setChar (behind : out.Behind) (ch : BitVec 8) : (out.setChar ch).Behind := by
  intro store mem
  obtain rfl | mem := List.mem_cons.mp mem
  · exact le_rfl
  · exact behind store mem

theorem kept_behind : Kept Out.Behind where
  spend behind _ := behind
  setChar behind ch := behind.setChar ch
  putChar behind ch store mem := Nat.le_succ_of_le (behind.setChar ch store mem)

/-- The place is not in front of the one of `start`, and the cells in front of that one are as they were. -/
structure Out.After (start out : Out) : Prop where
  str : start.str ≤ out.str
  cells : ∀ place < start.str, out.stores.lookup place = start.stores.lookup place

theorem Out.After.refl (start : Out) : start.After start := ⟨le_rfl, fun _ _ => rfl⟩

theorem Out.After.trans {start : Out} (first : start.After out) (second : out.After out') : start.After out' :=
  ⟨first.str.trans second.str, fun place before =>
    (second.cells place (before.trans_le first.str)).trans (first.cells place before)⟩

private theorem Out.After.setChar {start : Out} (after : start.After out) (ch : BitVec 8) :
    start.After (out.setChar ch) where
  str := after.str
  cells place before := by
    have apart : (place == out.str) = false := beq_eq_false_iff_ne.mpr (before.trans_le after.str).ne
    change List.lookup place ((out.str, ch) :: out.stores) = _
    rw [List.lookup_cons, apart]
    exact after.cells place before

theorem kept_after (start : Out) : Kept start.After where
  spend after _ := ⟨after.str, after.cells⟩
  setChar after ch := after.setChar ch
  putChar after ch := ⟨Nat.le_succ_of_le after.str, (after.setChar ch).cells⟩

/-! ## A whole format -/

theorem run_append (out : Out) (first second : List Store) : run out (first ++ second) =
    match run out first with
    | some (false, out) => run out second
    | stopped => stopped := by
  induction first generalizing out with
  | nil => rfl
  | cons store first ih =>
    rw [List.cons_append, run, run]
    split
    · exact ih _
    · rename_i goes
      split
      · rename_i out' stepped
        exact absurd stepped (goes out')
      · rfl

/-- The stores that a format asks for, when the types of the arguments are the ones that it reads them by. Nothing
follows an overflow. -/
def output (args : List Arg) (skip : ℕ) : List (BitVec 8) → Option (List Store)
  | [] => some []
  | c :: fmt =>
    if 0 < skip then output args (skip - 1) fmt
    else if c = chr '%' then
      match conversion fmt args with
      | .error .overflow => some [.overflow]
      | .error .mismatch => none
      | .ok (stores, args, rest) => (output args (fmt.length - rest.length) fmt).map (stores ++ ·)
    else (output args 0 fmt).map (.put c :: ·)

theorem formatFrom_eq {skip : ℕ} {stores : List Store} (matching : output args skip fmt = some stores) :
    formatFrom out args skip fmt = (run out stores).map Prod.snd := by
  induction fmt generalizing out args skip stores with
  | nil =>
    cases matching
    rfl
  | cons c fmt ih =>
    rw [output] at matching
    rw [formatFrom]
    by_cases skips : 0 < skip
    · rw [if_pos skips] at matching ⊢
      exact ih matching
    rw [if_neg skips] at matching ⊢
    by_cases directive : c = chr '%'
    · rw [if_pos directive] at matching ⊢
      cases read : conversion fmt args with
      | error reason =>
        rw [read] at matching
        cases reason with
        | overflow =>
          cases matching
          rfl
        | mismatch => nomatch matching
      | ok directive =>
        obtain ⟨stores, args, rest⟩ := directive
        rw [read] at matching
        obtain ⟨more, asked, rfl⟩ := Option.map_eq_some_iff.mp matching
        rw [run_append]
        dsimp only
        rcases run out stores with _ | ⟨_ | _, next⟩
        · rfl
        · exact ih asked
        · rfl
    · rw [if_neg directive] at matching ⊢
      obtain ⟨more, asked, rfl⟩ := Option.map_eq_some_iff.mp matching
      have whole : run out (.put c :: more) = _ := run_append out [.put c] more
      rw [whole]
      rcases run out [.put c] with _ | ⟨_ | _, next⟩
      · rfl
      · exact ih asked
      · rfl

/-! ## Lengths -/

/-- The bytes that `number` stores when nothing stops it. -/
def numLength : List NumStore → Option ℕ
  | [] => some 0
  | .put _ :: steps => (numLength steps).map (1 + ·)
  | .hexMark :: steps => (numLength steps).map (2 + ·)
  | .overflow :: _ => none

def Store.length : Store → Option ℕ
  | .put _ => some 1
  | .stay _ => some 0
  | .copy block => some block.bytes.length
  | .trail _ => some 1
  | .number steps => numLength steps
  | .overflow => none

/-- The bytes that are stored when nothing stops them. -/
def textLength : List Store → Option ℕ
  | [] => some 0
  | store :: stores => store.length.bind fun n => (textLength stores).map (n + ·)

/-- What `number` takes from the counter when nothing stops it. -/
def numDemand : List NumStore → ℕ
  | [] => 0
  | .put _ :: steps => 1 + numDemand steps
  | .hexMark :: steps => 2 + numDemand steps
  | .overflow :: _ => 0

def Store.demand : Store → ℕ
  | .put _ => 1
  | .stay _ => 1
  | .copy block => block.len
  | .trail _ => 1
  | .number steps => numDemand steps
  | .overflow => 0

/-- What the stores take from the counter when nothing stops them. -/
def demand : List Store → ℕ
  | [] => 0
  | store :: stores => store.demand + demand stores

theorem map_add_map (length : Option ℕ) (first second : ℕ) :
    (length.map (second + ·)).map (first + ·) = length.map (first + second + ·) := by
  cases length with
  | none => rfl
  | some n => exact congrArg some (Nat.add_assoc first second n).symm

/-- Where `str` ends. -/
def landing (out : Out) (stores : List Store) : Option ℕ := (run out stores).map fun stopped => stopped.2.str

section Bound

variable {steps : List NumStore} {store : Store} {stores : List Store} {n : ℕ}

private theorem runNumber_le (length : numLength steps = some n) :
    ∃ out', runNumber out steps = some out' ∧ out'.str ≤ out.str + n := by
  induction steps generalizing out n with
  | nil => exact ⟨out, rfl, Nat.le_add_right _ _⟩
  | cons store steps ih =>
    cases store with
    | put ch =>
      obtain ⟨m, behind, rfl⟩ := Option.map_eq_some_iff.mp length
      rw [runNumber]
      split
      · exact ⟨_, rfl, (Out.spend_str _ _).trans_le (Nat.le_add_right _ _)⟩
      · obtain ⟨out', ran, le⟩ := ih behind
        rw [Out.putChar_str, Out.spend_str] at le
        exact ⟨out', ran, by omega⟩
    | hexMark =>
      obtain ⟨m, behind, rfl⟩ := Option.map_eq_some_iff.mp length
      rw [runNumber]
      split
      · exact ⟨_, rfl, Nat.le_add_right _ _⟩
      · obtain ⟨out', ran, le⟩ := ih behind
        rw [Out.putBytes_str, Out.spend_str] at le
        exact ⟨out', ran, le.trans_eq (Nat.add_assoc _ 2 m)⟩
    | overflow => nomatch length

private theorem step_le (length : store.length = some n) :
    ∃ stops out', step out store = some (stops, out') ∧ out'.str ≤ out.str + n := by
  cases store with
  | put ch =>
    cases length
    rw [step]
    split
    · exact ⟨_, _, rfl, (Out.spend_str _ _).trans_le (Nat.le_succ _)⟩
    · exact ⟨_, _, rfl, by rw [Out.putChar_str, Out.spend_str]⟩
  | stay ch =>
    cases length
    rw [step]
    split
    · exact ⟨_, _, rfl, (Out.spend_str _ _).le⟩
    · exact ⟨_, _, rfl, by rw [Out.setChar_str, Out.spend_str, Nat.add_zero]⟩
  | copy block =>
    cases length
    rw [step]
    split
    · exact ⟨_, _, rfl, Nat.le_add_right _ _⟩
    · exact ⟨_, _, rfl, (Out.putBytes_str _ _).le⟩
  | trail ch =>
    cases length
    exact ⟨_, _, rfl, le_rfl⟩
  | number steps =>
    obtain ⟨out', ran, le⟩ := runNumber_le length
    exact ⟨_, out', by rw [step, ran, Option.map_some], le⟩
  | overflow => nomatch length

/-- The stores never get further than their length. -/
theorem landing_le (length : textLength stores = some n) :
    ∃ last, landing out stores = some last ∧ last ≤ out.str + n := by
  induction stores generalizing out n with
  | nil => exact ⟨out.str, rfl, Nat.le_add_right _ _⟩
  | cons store stores ih =>
    obtain ⟨first, stored, rest⟩ := Option.bind_eq_some_iff.mp length
    obtain ⟨m, behind, rfl⟩ := Option.map_eq_some_iff.mp rest
    obtain ⟨stops, out', stepped, le⟩ := step_le stored
    rw [landing, run, stepped]
    cases stops with
    | true => exact ⟨out'.str, rfl, by omega⟩
    | false =>
      obtain ⟨last, ran, le'⟩ := ih behind
      exact ⟨last, ran, by omega⟩

end Bound

section Exact

variable {steps : List NumStore} {store : Store} {stores : List Store}

private theorem runNumber_exact (room : numDemand steps + 2 ≤ out.size) (bound : out.size < 2 ^ 64) :
    (runNumber out steps).map (fun last => (last.size, last.str)) =
      (numLength steps).map fun n => (out.size - numDemand steps, out.str + n) := by
  induction steps generalizing out with
  | nil => rfl
  | cons store steps ih =>
    cases store with
    | put ch =>
      rw [numDemand] at room ⊢
      have size : ((out.spend 1).putChar ch).size = out.size - 1 := by
        rw [Out.putChar_size, Out.spend_size_of_le (by omega) bound]
      rw [runNumber, if_neg (by omega), ih (by omega) (by omega), size, Out.putChar_str, Out.spend_str, numLength,
        Option.map_map]
      refine congrArg (fun f => Option.map f (numLength steps)) (funext fun n => ?_)
      exact Prod.ext (Nat.sub_sub _ 1 _) (Nat.add_assoc _ 1 n)
    | hexMark =>
      rw [numDemand] at room ⊢
      have size (bytes : List (BitVec 8)) : ((out.spend 2).putBytes bytes).size = out.size - 2 := by
        rw [Out.putBytes_size, Out.spend_size_of_le (by omega) bound]
      rw [runNumber, if_neg (by omega), ih (by rw [size]; omega) (by rw [size]; omega), size, Out.putBytes_str,
        Out.spend_str, numLength, Option.map_map]
      refine congrArg (fun f => Option.map f (numLength steps)) (funext fun n => ?_)
      exact Prod.ext (Nat.sub_sub _ 2 _) (Nat.add_assoc _ 2 n)
    | overflow => rfl

theorem step_exact (room : store.demand + 2 ≤ out.size) (bound : out.size < 2 ^ 64) :
    (step out store).map (fun stopped => (stopped.1, stopped.2.size, stopped.2.str)) =
      store.length.map fun n => (false, out.size - store.demand, out.str + n) := by
  have size (n : ℕ) (le : n ≤ out.size) := Out.spend_size_of_le le bound
  cases store with
  | put ch =>
    rw [Store.demand] at room
    rw [step, if_neg (by omega), Option.map_some, Out.putChar_size, size 1 (by omega), Out.putChar_str, Out.spend_str]
    rfl
  | stay ch =>
    rw [Store.demand] at room
    rw [step, if_neg (by omega), Option.map_some, Out.setChar_size, size 1 (by omega), Out.setChar_str, Out.spend_str]
    rfl
  | copy block =>
    rw [Store.demand] at room
    rw [step, if_neg (by omega), Option.map_some, Out.putBytes_size, size _ (by omega),
      Out.putBytes_str, Out.spend_str]
    rfl
  | trail ch =>
    rw [Store.demand] at room
    rw [step, Option.map_some, Out.spend_size, Out.putChar_size, ← Out.spend_size, size 1 (by omega), Out.spend_str,
      Out.putChar_str, decide_eq_false (show ¬out.size = 1 by omega)]
    rfl
  | number steps =>
    rw [Store.demand] at room ⊢
    have counted := runNumber_exact room bound
    rw [Store.length, step]
    cases length : numLength steps with
    | none =>
      rw [length, Option.map_none, Option.map_eq_none_iff] at counted
      rw [counted]
      rfl
    | some n =>
      rw [length, Option.map_some, Option.map_eq_some_iff] at counted
      obtain ⟨last, ran, same⟩ := counted
      rw [Prod.mk.injEq] at same
      rw [ran, Option.map_some, Option.map_some, Option.map_some, same.1, same.2,
        decide_eq_false (show ¬out.size - numDemand steps = 1 by omega)]
  | overflow => rfl

/-- With a counter that is large enough nothing but an overflow stops them. -/
theorem run_exact (room : demand stores + 2 ≤ out.size) (bound : out.size < 2 ^ 64) :
    (run out stores).map (fun stopped => (stopped.1, stopped.2.size, stopped.2.str)) =
      (textLength stores).map fun n => (false, out.size - demand stores, out.str + n) := by
  induction stores generalizing out with
  | nil => rfl
  | cons store stores ih =>
    rw [demand] at room ⊢
    have stepped := @step_exact out store (by omega) bound
    rw [run, textLength]
    cases length : store.length with
    | none =>
      rw [length, Option.map_none, Option.map_eq_none_iff] at stepped
      rw [stepped]
      rfl
    | some n =>
      rw [length, Option.map_some, Option.map_eq_some_iff] at stepped
      obtain ⟨⟨stops, last⟩, stepped, same⟩ := stepped
      simp only [Prod.mk.injEq] at same
      obtain ⟨rfl, size, str⟩ := same
      rw [stepped]
      have rest := @ih last (by omega) (by omega)
      rw [size, str, Nat.sub_sub] at rest
      rw [Option.bind_some, Option.map_map]
      dsimp only
      rw [rest]
      refine congrArg (fun f => Option.map f (textLength stores)) (funext fun m => ?_)
      exact Prod.ext rfl (Prod.ext rfl (Nat.add_assoc _ n m))

theorem landing_exact (room : demand stores + 2 ≤ out.size) (bound : out.size < 2 ^ 64) :
    landing out stores = (textLength stores).map (out.str + ·) := by
  have exact := congrArg (Option.map fun stopped => stopped.2.2) (run_exact room bound)
  rwa [Option.map_map, Option.map_map] at exact

end Exact

end RubberOS.Model.Snprintf
