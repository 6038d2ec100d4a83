import RubberOS.Proofs.FormatGrammar
import RubberOS.Proofs.Snprintf

/-! # The items of a format

The scan splits a format into items, the literal characters and the specifications, in a way that does not depend on
the room. `runItems` carries out their stores, and logs the literal characters.
-/

namespace RubberOS.Model.Snprintf

/-- A literal character or a specification, named by the number of characters behind its first one. -/
structure Item where
  place : ℕ
  literal : Bool
  stores : List Store

/-- The items up to the halt, if there is one. -/
def items (args : List Arg) (skip : ℕ) : List (BitVec 8) → List Item × Option Halt
  | [] => ([], none)
  | c :: fmt =>
    if 0 < skip then items args (skip - 1) fmt
    else if c = chr '%' then
      match conversionScanned fmt args with
      | .error halt => ([], some halt)
      | .ok (stores, args, rest) =>
        let more := items args (fmt.length - rest.length) fmt
        (⟨fmt.length, false, stores⟩ :: more.1, more.2)
    else
      let more := items args 0 fmt
      (⟨fmt.length, true, [.put c]⟩ :: more.1, more.2)

def Scan.copy (s : Scan) (out : Out) (item : Item) : Scan :=
  ⟨out, if item.literal then (item.place, s.out.str) :: s.copied else s.copied⟩

/-- The scan without the format, and whether it goes to `end`. -/
def runItems (s : Scan) : List Item → Option (Bool × Scan)
  | [] => some (false, s)
  | item :: its =>
    match run s.out item.stores with
    | none => none
    | some (true, out) => some (true, { s with out })
    | some (false, out) => runItems (s.copy out item) its

/-- What the items in front of a character take from the counter. -/
def column (i : ℕ) : List Item → ℕ
  | [] => 0
  | item :: its => if i < item.place then demand item.stores + column i its else 0

section Items

variable {s s' : Scan} {out out' : Out} {args : List Arg} {skip i place : ℕ} {fmt rest : List (BitVec 8)}
  {stores : List Store} {its : List Item} {item : Item} {stops : Bool} {c : BitVec 8} {args' : List Arg}

/-! ## Splitting a format -/

/-- How a scan ends. -/
def ended (halt : Option Halt) : Option (Bool × Scan) → Except Halt Scan
  | none => .error (.undefined .overflow)
  | some (true, s) => .ok s
  | some (false, s) =>
    match halt with
    | none => .ok s
    | some halt => .error halt

/-- The scan of a format is the run of its items, and the halt behind them. -/
theorem scanFrom_eq (s : Scan) (args : List Arg) (skip : ℕ) (fmt : List (BitVec 8)) :
    scanFrom s args skip fmt = ended (items args skip fmt).2 (runItems s (items args skip fmt).1) := by
  induction fmt generalizing s args skip with
  | nil => rfl
  | cons c fmt ih =>
    rw [scanFrom, items]
    split_ifs with skips directive
    · exact ih s args (skip - 1)
    · cases conversionScanned fmt args with
      | error halt => rfl
      | ok read =>
        obtain ⟨stores, args, rest⟩ := read
        dsimp only
        rw [runItems]
        rcases run s.out stores with _ | ⟨_ | _, out⟩
        · rfl
        · exact ih _ _ _
        · rfl
    · dsimp only
      rw [runItems]
      rcases run s.out [.put c] with _ | ⟨_ | _, out⟩
      · rfl
      · exact ih _ _ _
      · rfl

/-- Without their log the items store what all their stores do in a row. -/
theorem runItems_erase (s : Scan) (its : List Item) :
    (runItems s its).map (fun stopped => (stopped.1, stopped.2.out)) = run s.out (its.flatMap Item.stores) := by
  induction its generalizing s with
  | nil => rfl
  | cons item its ih =>
    rw [runItems, List.flatMap_cons, run_append]
    rcases run s.out item.stores with _ | ⟨_ | _, out⟩
    · rfl
    · exact ih _
    · rfl

private theorem items_place_lt (member : item ∈ (items args skip fmt).1) : item.place < fmt.length := by
  induction fmt generalizing args skip with
  | nil => exact absurd member List.not_mem_nil
  | cons c fmt ih =>
    rw [items] at member
    rw [List.length_cons]
    split_ifs at member with skips directive
    · exact Nat.lt_succ_of_lt (ih member)
    · cases scanned : conversionScanned fmt args with
      | error halt =>
        rw [scanned] at member
        exact absurd member List.not_mem_nil
      | ok read =>
        obtain ⟨stores, args', rest⟩ := read
        rw [scanned] at member
        rcases List.mem_cons.mp member with rfl | later
        · exact Nat.lt_succ_self _
        · exact Nat.lt_succ_of_lt (ih later)
    · rcases List.mem_cons.mp member with rfl | later
      · exact Nat.lt_succ_self _
      · exact Nat.lt_succ_of_lt (ih later)

theorem items_descend (args : List Arg) (skip : ℕ) (fmt : List (BitVec 8)) :
    (items args skip fmt).1.Pairwise fun first second => second.place < first.place := by
  induction fmt generalizing args skip with
  | nil => exact .nil
  | cons c fmt ih =>
    rw [items]
    split_ifs with skips directive
    · exact ih args (skip - 1)
    · cases conversionScanned fmt args with
      | error halt => exact .nil
      | ok read => exact .cons (fun later member => items_place_lt member) (ih _ _)
    · exact .cons (fun later member => items_place_lt member) (ih _ _)

theorem items_character (member : item ∈ (items args skip fmt).1) (literal : item.literal = true) :
    ∃ c, item.stores = [.put c] ∧ fmt.reverse[item.place]? = some c := by
  induction fmt generalizing args skip with
  | nil => exact absurd member List.not_mem_nil
  | cons c fmt ih =>
    have later {args : List Arg} {skip : ℕ} (member : item ∈ (items args skip fmt).1) :
        ∃ c', item.stores = [.put c'] ∧ (c :: fmt).reverse[item.place]? = some c' := by
      obtain ⟨c', stores, char⟩ := ih member
      refine ⟨c', stores, ?_⟩
      rw [List.reverse_cons, List.getElem?_append_left]
      · exact char
      · rw [List.length_reverse]
        exact items_place_lt member
    rw [items] at member
    split_ifs at member with skips directive
    · exact later member
    · cases scanned : conversionScanned fmt args with
      | error halt =>
        rw [scanned] at member
        exact absurd member List.not_mem_nil
      | ok read =>
        obtain ⟨stores, args', rest⟩ := read
        rw [scanned] at member
        rcases List.mem_cons.mp member with rfl | member
        · cases literal
        · exact later member
    · rcases List.mem_cons.mp member with rfl | member
      · refine ⟨c, rfl, ?_⟩
        rw [List.reverse_cons, List.getElem?_append_right (le_of_eq List.length_reverse), List.length_reverse,
          Nat.sub_self]
        rfl
      · exact later member

/-! ## The items and the grammar -/

/-- A reading that succeeds leaves `fmt`. -/
def Leaves (fmt : List (BitVec 8)) (x : Except Undefined (List Store × List Arg × List (BitVec 8))) : Prop :=
  ∀ read, x = .ok read → read.2.2 = fmt

private theorem Leaves.ok (stores : List Store) (args : List Arg) : Leaves fmt (.ok (stores, args, fmt)) := by
  intro read ran
  cases ran
  rfl

private theorem Leaves.bind {α : Type} {x : Except Undefined α}
    {f : α → Except Undefined (List Store × List Arg × List (BitVec 8))} (leaves : ∀ a, Leaves fmt (f a)) :
    Leaves fmt (x >>= f) := by
  intro read ran
  obtain ⟨a, _, ran⟩ := Except.bind_ok_iff.mp ran
  exact leaves a read ran

private theorem Leaves.ite {P : Prop} [Decidable P] {x y : Except Undefined (List Store × List Arg × List (BitVec 8))}
    (first : Leaves fmt x) (second : ¬P → Leaves fmt y) : Leaves fmt (if P then x else y) := by
  by_cases holds : P
  · rw [if_pos holds]
    exact first
  · rw [if_neg holds]
    exact second holds

/-- A known letter is the last character of its specification. -/
private theorem convert_leaves {flags : Flags} {width precision : ℤ} {length : Option (BitVec 8)}
    (listed : known c = true) :
    Leaves fmt (convert flags width precision length args (c :: fmt)) := by
  rw [convert.eq_def]
  dsimp only
  refine .ite (.bind fun _ => .ok _ _) fun char => ?_
  refine .ite (.bind fun _ => .ok _ _) fun string => ?_
  refine .ite (.bind fun _ => .ite (.bind fun _ => .ok _ _) fun _ => .bind fun _ => .ok _ _) fun pointer => ?_
  refine .ite (.bind fun _ => .ok _ _) fun decimal => ?_
  refine .ite (.bind fun _ => .ok _ _) fun unsigned => ?_
  refine .ite (.bind fun _ => .ok _ _) fun octal => ?_
  refine .ite (.bind fun _ => .ok _ _) fun upper => ?_
  refine .ite (.bind fun _ => .ok _ _) fun lower => ?_
  refine .ite (.bind fun _ => .ok _ _) fun place => ?_
  refine .ite (.ok _ _) fun percent => ?_
  have member : c ∈ [chr 'c', chr 's', chr 'p', chr 'd', chr 'i', chr 'u', chr 'o', chr 'X', chr 'x', chr 'n', chr '%'] :=
    List.contains_iff_mem.mp listed
  simp only [List.mem_cons, List.not_mem_nil, or_false] at member
  tauto

private theorem conversionScanned_next (scanned : conversionScanned fmt args = .ok (stores, args', rest)) :
    rest = codeNext fmt ∧ cut fmt = false := by
  rw [conversionScanned] at scanned
  cases head : conversionHead fmt args with
  | error reason =>
    rw [head] at scanned
    cases scanned
  | ok read =>
    obtain ⟨flags, width, precision, length, args, left⟩ := read
    have letter := conversionHead_rest head
    rw [head] at scanned
    rw [codeNext, cut, ← letter]
    cases left with
    | nil => cases scanned
    | cons c left =>
      dsimp only at scanned ⊢
      split_ifs at scanned ⊢ with listed
      · cases converted : convert flags width precision length args (c :: left) with
        | error reason =>
          rw [converted] at scanned
          cases scanned
        | ok read =>
          rw [converted] at scanned
          cases scanned
          rw [listed]
          exact ⟨convert_leaves listed _ converted, rfl⟩
      · cases left with
        | nil => cases scanned
        | cons d left =>
          cases scanned
          exact ⟨rfl, Bool.and_false _⟩

private theorem conversionScanned_cut (scanned : conversionScanned fmt args = .error .pastNul) : cut fmt = true := by
  rw [conversionScanned] at scanned
  cases head : conversionHead fmt args with
  | error reason =>
    rw [head] at scanned
    cases scanned
  | ok read =>
    obtain ⟨flags, width, precision, length, args, left⟩ := read
    have letter := conversionHead_rest head
    rw [head] at scanned
    rw [cut, ← letter]
    cases left with
    | nil => rfl
    | cons c left =>
      dsimp only at scanned ⊢
      split_ifs at scanned with listed
      · cases converted : convert flags width precision length args (c :: left) with
        | error reason =>
          rw [converted] at scanned
          cases scanned
        | ok read =>
          rw [converted] at scanned
          cases scanned
      · cases left with
        | nil =>
          rw [Bool.eq_false_iff.mpr listed]
          rfl
        | cons d left => cases scanned

/-- The literal items are literal characters for the formatter. -/
theorem items_literal (member : item ∈ (items args skip fmt).1) (literal : item.literal = true) :
    item.place ∈ literalsBy codeNext skip fmt := by
  induction fmt generalizing args skip with
  | nil => exact absurd member List.not_mem_nil
  | cons c fmt ih =>
    rw [items] at member
    rw [literalsBy]
    split_ifs at member ⊢ with skips directive
    · exact ih member
    · cases scanned : conversionScanned fmt args with
      | error halt =>
        rw [scanned] at member
        exact absurd member List.not_mem_nil
      | ok read =>
        obtain ⟨stores, args', rest⟩ := read
        rw [scanned] at member
        rw [← (conversionScanned_next scanned).1]
        rcases List.mem_cons.mp member with rfl | later
        · cases literal
        · exact ih later
    · rcases List.mem_cons.mp member with rfl | later
      · exact List.mem_cons_self
      · exact List.mem_cons_of_mem _ (ih later)

/-- A character that is literal for the formatter is an item, or lies behind a halt. -/
theorem literal_item (args : List Arg) (member : i ∈ literalsBy codeNext skip fmt) :
    (∃ item ∈ (items args skip fmt).1, item.literal = true ∧ item.place = i) ∨
      (items args skip fmt).2 ≠ none ∧ ∀ item ∈ (items args skip fmt).1, i < item.place := by
  induction fmt generalizing args skip with
  | nil => exact absurd member List.not_mem_nil
  | cons c fmt ih =>
    rw [literalsBy] at member
    rw [items]
    split_ifs at member ⊢ with skips directive
    · exact ih args member
    · cases scanned : conversionScanned fmt args with
      | error halt => exact .inr ⟨Option.some_ne_none _, fun item member => absurd member List.not_mem_nil⟩
      | ok read =>
        obtain ⟨stores, args', rest⟩ := read
        rw [← (conversionScanned_next scanned).1] at member
        rcases ih args' member with ⟨item, found, is⟩ | ⟨halted, behind⟩
        · exact .inl ⟨item, List.mem_cons_of_mem _ found, is⟩
        · exact .inr ⟨halted, List.forall_mem_cons.mpr ⟨literalsBy_lt member, behind⟩⟩
    · rcases List.mem_cons.mp member with rfl | later
      · exact .inl ⟨_, List.mem_cons_self, rfl, rfl⟩
      · rcases ih args later with ⟨item, found, is⟩ | ⟨halted, behind⟩
        · exact .inl ⟨item, List.mem_cons_of_mem _ found, is⟩
        · exact .inr ⟨halted, List.forall_mem_cons.mpr ⟨literalsBy_lt later, behind⟩⟩

/-- The scan goes past the NUL only where the grammar says so, and always there unless it halts before. -/
theorem items_halt (args : List Arg) (skip : ℕ) (fmt : List (BitVec 8)) :
    ((items args skip fmt).2 = some .pastNul → meetsNul skip fmt = true) ∧
      ((items args skip fmt).2 = none → meetsNul skip fmt = false) := by
  induction fmt generalizing args skip with
  | nil => exact ⟨fun past => absurd past.symm (Option.some_ne_none _), fun _ => rfl⟩
  | cons c fmt ih =>
    rw [items, meetsNul]
    split_ifs with skips directive
    · exact ih args (skip - 1)
    · cases scanned : conversionScanned fmt args with
      | error halt =>
        refine ⟨fun past => ?_, fun none => absurd none (Option.some_ne_none _)⟩
        obtain rfl := Option.some.inj past
        rw [conversionScanned_cut scanned]
        rfl
      | ok read =>
        obtain ⟨stores, args', rest⟩ := read
        obtain ⟨next, safe⟩ := conversionScanned_next scanned
        rw [safe, Bool.false_or, ← next]
        exact ih args' _
    · exact ih args 0

/-! ## Running the items -/

private theorem demand_append (first second : List Store) :
    demand (first ++ second) = demand first + demand second := by
  induction first with
  | nil => exact (Nat.zero_add _).symm
  | cons store first ih => rw [List.cons_append, demand, demand, ih, Nat.add_assoc]

/-- Where a run with enough room gets to, if there is no overflow. -/
theorem size_of_run (room : demand stores + 2 ≤ out.size) (bound : out.size < 2 ^ 64)
    (ran : run out stores = some (stops, out')) : stops = false ∧ out'.size = out.size - demand stores := by
  have exact := run_exact room bound
  rw [ran, Option.map_some] at exact
  obtain ⟨n, _, same⟩ := Option.map_eq_some_iff.mp exact.symm
  simp only [Prod.mk.injEq] at same
  exact ⟨same.1.symm, same.2.1.symm⟩

theorem column_le (i : ℕ) (its : List Item) : column i its ≤ demand (its.flatMap Item.stores) := by
  induction its with
  | nil => exact le_rfl
  | cons item its ih =>
    rw [column, List.flatMap_cons, demand_append]
    split_ifs
    · exact Nat.add_le_add_left ih _
    · exact Nat.zero_le _

theorem column_behind (behind : ∀ item ∈ its, i < item.place) : column i its = demand (its.flatMap Item.stores) := by
  induction its with
  | nil => rfl
  | cons item its ih =>
    obtain ⟨first, later⟩ := List.forall_mem_cons.mp behind
    rw [column, if_pos first, ih later, List.flatMap_cons, demand_append]

/-- What a run of items keeps: the cells in front of its place, and the log. -/
structure Scan.Extends (s s' : Scan) : Prop where
  out : s.out.After s'.out
  copied : s.copied ⊆ s'.copied

private theorem runItems_extends (ran : runItems s its = some (stops, s')) : s.Extends s' := by
  induction its generalizing s with
  | nil =>
    cases ran
    exact ⟨.refl _, List.Subset.refl _⟩
  | cons item its ih =>
    rw [runItems] at ran
    split at ran
    · cases ran
    · rename_i out stopped
      cases ran
      exact ⟨(kept_after s.out).run (.refl _) stopped, List.Subset.refl _⟩
    · rename_i out stored
      have rest := ih ran
      refine ⟨((kept_after s.out).run (.refl _) stored).trans rest.out, List.Subset.trans ?_ rest.copied⟩
      rw [Scan.copy]
      split_ifs
      · exact List.subset_cons_self _ _
      · exact List.Subset.refl _

/-- Only literal items are logged. -/
theorem runItems_copied (ran : runItems s its = some (stops, s')) (member : (i, place) ∈ s'.copied) :
    (i, place) ∈ s.copied ∨ ∃ item ∈ its, item.literal = true ∧ item.place = i := by
  induction its generalizing s with
  | nil =>
    cases ran
    exact .inl member
  | cons item its ih =>
    rw [runItems] at ran
    split at ran
    · cases ran
    · cases ran
      exact .inl member
    · rcases ih ran with logged | ⟨later, found, is⟩
      · rw [Scan.copy] at logged
        split_ifs at logged with literal
        · rcases List.mem_cons.mp logged with own | before
          · exact .inr ⟨item, List.mem_cons_self, literal, (congrArg Prod.fst own).symm⟩
          · exact .inl before
        · exact .inl logged
      · exact .inr ⟨later, List.mem_cons_of_mem _ found, is⟩

/-- A literal item for which there is room is in the buffer, at the place that the log gives. -/
theorem literal_copied (ran : runItems s its = some (stops, s'))
    (descend : its.Pairwise fun first second => second.place < first.place) (member : item ∈ its)
    (literal : item.literal = true) (char : item.stores = [.put c]) (room : column item.place its + 2 ≤ s.out.size)
    (bound : s.out.size < 2 ^ 64) :
    ∃ place < s'.out.str, (item.place, place) ∈ s'.copied ∧ s'.out.stores.lookup place = some c := by
  induction its generalizing s with
  | nil => exact absurd member List.not_mem_nil
  | cons first its ih =>
    rw [List.pairwise_cons] at descend
    rw [runItems] at ran
    rw [column] at room
    rcases List.mem_cons.mp member with rfl | later
    · have stored : run s.out item.stores = some (false, (s.out.spend 1).putChar c) := by
        rw [char, run, step, if_neg (by omega)]
        rfl
      rw [stored] at ran
      have rest := runItems_extends ran
      have before : s.out.str < ((s.out.spend 1).putChar c).str := by
        rw [Out.putChar_str, Out.spend_str]
        exact Nat.lt_succ_self _
      refine ⟨s.out.str, before.trans_le rest.out.str, rest.copied ?_, (rest.out.cells _ before).trans ?_⟩
      · rw [Scan.copy, if_pos literal]
        exact List.mem_cons_self
      · rw [Scan.copy, Out.putChar_stores, Out.spend_str]
        exact List.lookup_cons_self
    · rw [if_pos (descend.1 item later)] at room
      cases stored : run s.out first.stores with
      | none =>
        rw [stored] at ran
        cases ran
      | some stopped =>
        obtain ⟨goes, out⟩ := stopped
        obtain ⟨rfl, size⟩ := size_of_run (by omega) bound stored
        rw [stored] at ran
        have left : column item.place its + 2 ≤ out.size := by
          rw [size]
          omega
        have small : out.size < 2 ^ 64 := by
          rw [size]
          exact (Nat.sub_le _ _).trans_lt bound
        exact ih ran descend.2 later left small

end Items

end RubberOS.Model.Snprintf
