import Mathlib.Data.List.Find
import RubberOS.Model.Pic
import RubberOS.ToMathlib.LabelledRuns

/-! # Every request is answered

Devices ask on their lines, the kernel marks lines and lets the marked ones through, and interrupts are taken and ended,
in any order. What the chips ask the processor for follows from these events alone.
-/

namespace RubberOS.Soundness.InterruptLines

open Model.Pic LabelledRuns

/-- What happens to the chips. A handler ends the service of its own line before interrupts are let in again. -/
inductive Event where
  | mark (irq : ℕ)
  | enable
  | raise (irq : ℕ)
  | interrupt (vector : BitVec 8)
  | eoi (irq : ℕ)

structure Live where
  state : State
  /-- The line whose handler runs. -/
  serving : Option ℕ

inductive Step : Live → Event → Live → Prop
  | mark {s : State} {serving : Option ℕ} {irq : ℕ} (bound : irq < 16) :
      Step ⟨s, serving⟩ (.mark irq) ⟨picMarkIrqAsReady s irq, serving⟩
  | enable {s : State} {serving : Option ℕ} : Step ⟨s, serving⟩ .enable ⟨picEnableInt s, serving⟩
  | raise {s : State} {serving : Option ℕ} {irq : ℕ} (bound : irq < 16) (device : irq ≠ PIC_IRQ_SLAVE) :
      Step ⟨s, serving⟩ (.raise irq) ⟨{ s with pics := s.pics.raise irq }, serving⟩
  | interrupt {s : State} {vector : BitVec 8} {pics : Pics} (taken : s.pics.acknowledge = some (vector, pics)) :
      Step ⟨s, none⟩ (.interrupt vector) ⟨{ s with pics }, some (vector - PIC_INT_VECTOR).toNat⟩
  | eoi {s : State} {irq : ℕ} : Step ⟨s, some irq⟩ (.eoi irq) ⟨picSendEoi s irq, none⟩

def started (pics : Pics) : Live := ⟨picInit ⟨pics, initialMask⟩, none⟩

/-- What the events come to: the lines that are marked, those let through since, and those with a request that no
interrupt has answered yet. -/
structure Lines where
  marked : ℕ → Bool
  ready : ℕ → Bool
  outstanding : ℕ → Bool

def Lines.start : Lines := ⟨(· == PIC_IRQ_SLAVE), (· == PIC_IRQ_SLAVE), fun _ => false⟩

def Lines.record (lines : Lines) : Event → Lines
  | .mark irq => { lines with marked := Function.update lines.marked irq true }
  | .enable => { lines with ready := lines.marked }
  | .raise irq => { lines with outstanding := Function.update lines.outstanding irq true }
  | .interrupt vector =>
      { lines with outstanding := Function.update lines.outstanding (vector - PIC_INT_VECTOR).toNat false }
  | .eoi _ => lines

def history (es : List Event) : Lines := es.foldl Lines.record Lines.start

def Lines.pending (lines : Lines) (irq : ℕ) : Bool := lines.outstanding irq && lines.ready irq

/-- The lines of the second chip come where it is wired to the first. -/
def priorities : List ℕ := [0, 1] ++ (List.range 8).map (8 + ·) ++ [3, 4, 5, 6, 7]

/-! ## What the chips hold -/

/-- A chip in use whose line 0 is this one, with the lines that it serves. -/
structure Wired (chip : Chip) (base : ℕ) (lines : Lines) (served : ℕ → Bool) : Prop where
  expects : chip.expects = .mask
  masked : ∀ line < 8, chip.masked line = !lines.ready (base + line)
  request : ∀ line < 8, chip.request line = lines.outstanding (base + line)
  service : ∀ line < 8, chip.service line = served line

def masterServes : Option ℕ → ℕ → Bool
  | none, _ => false
  | some irq, line => line == if irq < 8 then irq else PIC_IRQ_SLAVE

def slaveServes : Option ℕ → ℕ → Bool
  | none, _ => false
  | some irq, line => 8 + line == irq

structure Programmed (lines : Lines) (live : Live) : Prop where
  master : Wired live.state.pics.master 0 lines (masterServes live.serving)
  slave : Wired live.state.pics.slave 8 lines (slaveServes live.serving)
  masterVector : live.state.pics.master.vector = PIC_INT_VECTOR
  slaveVector : live.state.pics.slave.vector = PIC_INT_VECTOR + 8
  masterWiring : live.state.pics.master.wiring = 0x04
  slaveWiring : live.state.pics.slave.wiring = 0x02
  mask : ∀ irq < 16, live.state.mask.getLsbD irq = !lines.marked irq
  cascadeMarked : lines.marked PIC_IRQ_SLAVE = true
  cascadeReady : lines.ready PIC_IRQ_SLAVE = true
  cascadeQuiet : lines.outstanding PIC_IRQ_SLAVE = false
  serving : ∀ irq ∈ live.serving, irq < 16

/-! ## What the kernel writes -/

private theorem out8_master (pics : Pics) (value : BitVec 8) :
    out8 pics MASTER1 value = { pics with master := pics.master.command value } := if_pos rfl

private theorem out8_slave (pics : Pics) (value : BitVec 8) :
    out8 pics SLAVE1 value = { pics with slave := pics.slave.command value } := by
  rw [out8, if_neg (by decide), if_neg (by decide), if_pos rfl]

private theorem setMask_of {pics : Pics} (master : pics.master.expects = .mask) (slave : pics.slave.expects = .mask)
    (mask : BitVec 16) :
    setMask pics mask =
      ⟨{ pics.master with masked := fun line => (mask.setWidth 8).getLsbD line },
        { pics.slave with masked := fun line => ((mask >>> 8).setWidth 8).getLsbD line }⟩ := by
  simp [setMask, out8, MASTER1, MASTER2, SLAVE1, SLAVE2, Chip.data, master, slave]

private theorem command_eoi (chip : Chip) {line : ℕ} (bound : line < 8) :
    chip.command (0x60 ||| BitVec.ofNat 8 line) =
      { chip with service := Function.update chip.service line false } := by
  have bits : ∀ line < 8, ¬((0x60 : BitVec 8) ||| BitVec.ofNat 8 line).getLsbD 4 = true ∧
      ((0x60 : BitVec 8) ||| BitVec.ofNat 8 line).extractLsb' 3 5 = 0b01100 ∧
      (((0x60 : BitVec 8) ||| BitVec.ofNat 8 line).extractLsb' 0 3).toNat = line := by decide
  obtain ⟨initialises, ends, same⟩ := bits line bound
  rw [Chip.command, if_neg initialises, if_pos ends, same]

private theorem mark_bit (mask : BitVec 16) {irq i : ℕ} (bound : i < 16) :
    (mask &&& ~~~((1 : BitVec 16) <<< irq)).getLsbD i = (mask.getLsbD i && !(i == irq)) := by
  have bit : ((1 : BitVec 16) <<< irq).getLsbD i = (i == irq) := by
    change ((1#16) <<< irq).getLsbD i = (i == irq)
    rw [← BitVec.twoPow_eq, BitVec.getLsbD_twoPow]
    by_cases same : irq = i
    · simp [same, bound]
    · simp [same, Ne.symm same]
  rw [BitVec.getLsbD_and, BitVec.getLsbD_not, bit, decide_eq_true bound, Bool.true_and]

/-- The mask of a line, in the byte that its chip gets. -/
private theorem mask_byte (mask : BitVec 16) {line : ℕ} (bound : line < 8) :
    (mask.setWidth 8).getLsbD line = mask.getLsbD (0 + line) ∧
      ((mask >>> 8).setWidth 8).getLsbD line = mask.getLsbD (8 + line) := by
  constructor
  · rw [BitVec.getLsbD_setWidth, decide_eq_true bound, Bool.true_and, Nat.zero_add]
  · rw [BitVec.getLsbD_setWidth, decide_eq_true bound, Bool.true_and, BitVec.getLsbD_ushiftRight]

private theorem picInit_of (s : State) :
    picInit s =
      { s with
        pics := setMask
          ⟨⟨.mask, PIC_INT_VECTOR, 0x04, fun _ => false, fun _ => false, fun _ => false⟩,
            ⟨.mask, PIC_INT_VECTOR + 8, 0x02, fun _ => false, fun _ => false, fun _ => false⟩⟩ s.mask } := by
  simp [picInit, out8, MASTER1, MASTER2, SLAVE1, SLAVE2, Chip.command, Chip.data, PIC_INT_VECTOR]

private theorem started_programmed (pics : Pics) : Programmed Lines.start (started pics) := by
  have cleared : ∀ irq < 16, initialMask.getLsbD irq = !(irq == PIC_IRQ_SLAVE) := by decide
  rw [started, picInit_of, setMask_of rfl rfl]
  refine ⟨⟨rfl, fun line bound => ?_, fun _ _ => rfl, fun _ _ => rfl⟩,
    ⟨rfl, fun line bound => ?_, fun _ _ => rfl, fun _ _ => rfl⟩, rfl, rfl, rfl, rfl, cleared, rfl, rfl, rfl, ?_⟩
  · exact (mask_byte _ bound).1.trans (cleared _ (by omega))
  · exact (mask_byte _ bound).2.trans (cleared _ (by omega))
  · intro irq served
    contradiction

/-! ## What the chips hand on -/

private theorem Wired.asks {chip : Chip} {base : ℕ} {lines : Lines} {served : ℕ → Bool}
    (wired : Wired chip base lines served) (idle : ∀ line < 8, served line = false) {line : ℕ} (bound : line < 8) :
    chip.asks line = lines.pending (base + line) := by
  have free : ((List.range (line + 1)).all fun served => !chip.service served) = true := by
    simp only [List.all_eq_true, List.mem_range, Bool.not_eq_true']
    intro l inside
    rw [wired.service l (by omega), idle l (by omega)]
  simp [Chip.asks, free, Lines.pending, wired.masked line bound, wired.request line bound]

private theorem Wired.first {chip : Chip} {base : ℕ} {lines : Lines} {served : ℕ → Bool}
    (wired : Wired chip base lines served) (idle : ∀ line < 8, served line = false) :
    chip.first = (List.range 8).find? fun line => lines.pending (base + line) :=
  List.find?_congr fun _ inside => wired.asks idle (List.mem_range.mp inside)

/-- The first chip as it answers: the second one asks on line 2. -/
private theorem joined_asks {lines : Lines} {s : State} (programmed : Programmed lines ⟨s, none⟩)
    {line : ℕ} (bound : line < 8) :
    s.pics.joined.asks line = if line = PIC_IRQ_SLAVE then s.pics.slave.first.isSome else lines.pending line := by
  have joined : Wired s.pics.joined 0
      { lines with outstanding := Function.update lines.outstanding PIC_IRQ_SLAVE s.pics.slave.first.isSome }
      (masterServes none) := by
    refine ⟨programmed.master.expects, programmed.master.masked, fun line bound => ?_, programmed.master.service⟩
    have asked := programmed.master.request line bound
    simp only [Nat.zero_add] at asked ⊢
    simp only [Pics.joined, Function.update_apply]
    split
    · rfl
    · exact asked
  rw [joined.asks (fun _ _ => rfl) bound, Nat.zero_add]
  simp only [Lines.pending]
  split
  · next slave => rw [slave, Function.update_self, programmed.cascadeReady, Bool.and_true]
  · next device => rw [Function.update_of_ne device]

private theorem acknowledge_of {lines : Lines} {s : State} (programmed : Programmed lines ⟨s, none⟩) :
    s.pics.acknowledge = s.pics.joined.first.bind fun line =>
      if line = PIC_IRQ_SLAVE then
        s.pics.slave.first.map fun inner =>
          (PIC_INT_VECTOR + BitVec.ofNat 8 (8 + inner), ⟨s.pics.master.take line, s.pics.slave.take inner⟩)
      else some (PIC_INT_VECTOR + BitVec.ofNat 8 line, { s.pics with master := s.pics.master.take line }) := by
  have wired : ∀ line < 8, (0x04 : BitVec 8).getLsbD line = true ∧ (0x02 : BitVec 8) = BitVec.ofNat 8 line ↔
      line = PIC_IRQ_SLAVE := by decide
  unfold Pics.acknowledge
  refine Option.bind_congr fun line first => ?_
  have bound : line < 8 := List.mem_range.mp (List.mem_of_find?_eq_some first)
  have masterVector := programmed.masterVector
  have slaveVector := programmed.slaveVector
  have masterWiring := programmed.masterWiring
  have slaveWiring := programmed.slaveWiring
  simp only at masterVector slaveVector masterWiring slaveWiring
  simp only [masterVector, slaveVector, masterWiring, slaveWiring]
  by_cases slave : line = PIC_IRQ_SLAVE
  · rw [if_pos ((wired line bound).mpr slave), if_pos slave]
    cases s.pics.slave.first with
    | none => rfl
    | some inner => simp [BitVec.ofNat_add, BitVec.add_assoc]
  · rw [if_neg fun both => slave ((wired line bound).mp both), if_neg slave]
    rfl

private theorem acknowledge_taken {lines : Lines} {s : State} (programmed : Programmed lines ⟨s, none⟩)
    {vector : BitVec 8}
    {pics : Pics} (taken : s.pics.acknowledge = some (vector, pics)) :
    ∃ irq < 16, irq ≠ PIC_IRQ_SLAVE ∧ vector = PIC_INT_VECTOR + BitVec.ofNat 8 irq ∧
      pics = if irq < 8 then { s.pics with master := s.pics.master.take irq }
        else ⟨s.pics.master.take PIC_IRQ_SLAVE, s.pics.slave.take (irq - 8)⟩ := by
  rw [acknowledge_of programmed, Option.bind_eq_some_iff] at taken
  obtain ⟨line, first, rest⟩ := taken
  have bound : line < 8 := List.mem_range.mp (List.mem_of_find?_eq_some first)
  split at rest
  · next slave =>
    obtain ⟨inner, second, same⟩ := Option.map_eq_some_iff.mp rest
    have inside : inner < 8 := List.mem_range.mp (List.mem_of_find?_eq_some second)
    obtain ⟨rfl, rfl⟩ := Prod.mk.inj same
    refine ⟨8 + inner, by omega, by rw [PIC_IRQ_SLAVE]; omega, rfl, ?_⟩
    rw [if_neg (by omega), Nat.add_sub_cancel_left, slave]
  · next device =>
    obtain ⟨rfl, rfl⟩ := Prod.mk.inj (Option.some.inj rest)
    exact ⟨line, by omega, device, rfl, by rw [if_pos bound]⟩

private theorem acknowledge_first {lines : Lines} {s : State} (programmed : Programmed lines ⟨s, none⟩) :
    s.pics.acknowledge.map Prod.fst =
      (priorities.find? lines.pending).map fun irq => PIC_INT_VECTOR + BitVec.ofNat 8 irq := by
  have second : ((List.range 8).map (8 + ·)).find? lines.pending = s.pics.slave.first.map (8 + ·) := by
    rw [List.find?_map, programmed.slave.first fun _ _ => rfl]
    rfl
  have first : s.pics.joined.first = [0, 1, 2, 3, 4, 5, 6, 7].find? fun line =>
      if line = PIC_IRQ_SLAVE then s.pics.slave.first.isSome else lines.pending line :=
    List.find?_congr fun _ inside => joined_asks programmed (List.mem_range.mp inside)
  rw [acknowledge_of programmed, first, priorities, List.find?_append, List.find?_append, second]
  cases zero : lines.pending 0 with
  | true => simp [zero, PIC_IRQ_SLAVE]
  | false =>
    cases one : lines.pending 1 with
    | true => simp [zero, one, PIC_IRQ_SLAVE]
    | false =>
      cases inner : s.pics.slave.first with
      | some inner => simp [zero, one, PIC_IRQ_SLAVE]
      | none =>
        -- what is left are the lines behind the second chip, in their order
        have rest : ([0, 1, 2, 3, 4, 5, 6, 7].find? fun line =>
            if line = PIC_IRQ_SLAVE then Option.isSome (none : Option ℕ) else lines.pending line) =
            [3, 4, 5, 6, 7].find? lines.pending := by
          simp [zero, one, PIC_IRQ_SLAVE, List.find?_cons]
        rw [rest]
        have picked : ∀ line ∈ [3, 4, 5, 6, 7], line ≠ PIC_IRQ_SLAVE := by decide
        cases found : [3, 4, 5, 6, 7].find? lines.pending with
        | none => simp [zero, one]
        | some line => simp [zero, one, picked line (List.mem_of_find?_eq_some found)]

/-! ## Every step -/

private theorem vector_line :
    ∀ irq < 16, (PIC_INT_VECTOR + BitVec.ofNat 8 irq - PIC_INT_VECTOR).toNat = irq := by decide

/-- A request on one of the chip's own lines is set or cleared. -/
private theorem Wired.own {chip : Chip} {base irq : ℕ} {lines : Lines} {served : ℕ → Bool}
    (wired : Wired chip base lines served) (from_base : base ≤ irq) (value : Bool) :
    Wired { chip with request := Function.update chip.request (irq - base) value } base
      { lines with outstanding := Function.update lines.outstanding irq value } served := by
  refine { wired with request := ?_ }
  intro line inside
  have same : line = irq - base ↔ base + line = irq := by omega
  simp [Function.update_apply, same, wired.request line inside]

private theorem Wired.other {chip : Chip} {base irq : ℕ} {lines : Lines} {served : ℕ → Bool}
    (wired : Wired chip base lines served) (outside : irq < base ∨ base + 8 ≤ irq) (value : Bool) :
    Wired chip base { lines with outstanding := Function.update lines.outstanding irq value } served := by
  refine { wired with request := ?_ }
  intro line inside
  exact (wired.request line inside).trans (Function.update_of_ne (by omega) ..).symm

private theorem Wired.serve {chip : Chip} {base : ℕ} {lines : Lines} {served service served' : ℕ → Bool}
    (wired : Wired chip base lines served) (serves : ∀ line < 8, service line = served' line) :
    Wired { chip with service } base lines served' :=
  { wired with service := serves }

private theorem picSendEoi_master (s : State) {irq : ℕ} (first : irq < 8) :
    picSendEoi s irq = { s with
      pics := { s.pics with
        master := { s.pics.master with service := Function.update s.pics.master.service irq false } } } := by
  rw [picSendEoi, if_pos first, out8_master, command_eoi _ first]

private theorem picSendEoi_slave (s : State) {irq : ℕ} (second : ¬irq < 8) (bound : irq < 16) :
    picSendEoi s irq = { s with
      pics :=
        ⟨{ s.pics.master with service := Function.update s.pics.master.service PIC_IRQ_SLAVE false },
          { s.pics.slave with service := Function.update s.pics.slave.service (irq - 8) false }⟩ } := by
  rw [picSendEoi, if_neg second]
  simp only [out8_master, out8_slave]
  rw [command_eoi _ (show PIC_IRQ_SLAVE < 8 by decide), command_eoi _ (by omega)]

private theorem Programmed.mark {lines : Lines} {s : State} {serving : Option ℕ}
    (programmed : Programmed lines ⟨s, serving⟩)
    (irq : ℕ) : Programmed (lines.record (.mark irq)) ⟨picMarkIrqAsReady s irq, serving⟩ := by
  refine { programmed with
    master := { programmed.master with }, slave := { programmed.slave with }, mask := ?_, cascadeMarked := ?_ }
  · intro i inside
    change (s.mask &&& ~~~((1 : BitVec 16) <<< irq)).getLsbD i = !Function.update lines.marked irq true i
    rw [mark_bit _ inside, programmed.mask i inside, Function.update_apply]
    by_cases same : i = irq <;> simp [same]
  · simp [Lines.record, Function.update_apply, programmed.cascadeMarked]

private theorem Programmed.enable {lines : Lines} {s : State} {serving : Option ℕ}
    (programmed : Programmed lines ⟨s, serving⟩) : Programmed (lines.record .enable) ⟨picEnableInt s, serving⟩ := by
  rw [picEnableInt, setMask_of programmed.master.expects programmed.slave.expects]
  refine { programmed with
    master := { programmed.master with masked := ?_ }, slave := { programmed.slave with masked := ?_ }
    cascadeReady := programmed.cascadeMarked }
  · intro line bound
    exact (mask_byte _ bound).1.trans (programmed.mask _ (by omega))
  · intro line bound
    exact (mask_byte _ bound).2.trans (programmed.mask _ (by omega))

private theorem Programmed.raise {lines : Lines} {s : State} {serving : Option ℕ}
    (programmed : Programmed lines ⟨s, serving⟩)
    {irq : ℕ} (device : irq ≠ PIC_IRQ_SLAVE) :
    Programmed (lines.record (.raise irq)) ⟨{ s with pics := s.pics.raise irq }, serving⟩ := by
  have quiet : (lines.record (.raise irq)).outstanding PIC_IRQ_SLAVE = false :=
    (Function.update_of_ne device.symm ..).trans programmed.cascadeQuiet
  by_cases first : irq < 8
  · rw [Pics.raise, if_pos first]
    exact { programmed with
      master := programmed.master.own (Nat.zero_le irq) true
      slave := programmed.slave.other (.inl first) true
      cascadeQuiet := quiet }
  · rw [Pics.raise, if_neg first]
    exact { programmed with
      master := programmed.master.other (.inr (by omega)) true
      slave := programmed.slave.own (by omega) true
      cascadeQuiet := quiet }

private theorem Programmed.interrupt {lines : Lines} {s : State} (programmed : Programmed lines ⟨s, none⟩)
    {vector : BitVec 8} {pics : Pics} (taken : s.pics.acknowledge = some (vector, pics)) :
    Programmed (lines.record (.interrupt vector)) ⟨{ s with pics }, some (vector - PIC_INT_VECTOR).toNat⟩ := by
  obtain ⟨irq, bound, device, rfl, rfl⟩ := acknowledge_taken programmed taken
  have quiet : Function.update lines.outstanding irq false PIC_IRQ_SLAVE = false :=
    (Function.update_of_ne device.symm ..).trans programmed.cascadeQuiet
  have idle : ∀ line < 8, s.pics.master.service line = false ∧ s.pics.slave.service line = false :=
    fun line inside => ⟨programmed.master.service line inside, programmed.slave.service line inside⟩
  simp only [Lines.record, vector_line irq bound]
  by_cases first : irq < 8
  · rw [if_pos first]
    refine { programmed with
      master := (programmed.master.own (Nat.zero_le irq) false).serve ?_
      slave := (programmed.slave.other (.inl first) false).serve ?_
      cascadeQuiet := quiet, serving := by simpa using bound }
    · intro line inside
      simp [Function.update_apply, idle line inside, masterServes, first, beq_eq_decide]
    · intro line inside
      have other : 8 + line ≠ irq := by omega
      simp [idle line inside, slaveServes, other]
  · rw [if_neg first]
    -- line 2 of the first chip has no request of its own to lose
    have cascade : Function.update s.pics.master.request PIC_IRQ_SLAVE false = s.pics.master.request := by
      rw [Function.update_eq_self_iff]
      exact programmed.cascadeQuiet.symm.trans (programmed.master.request PIC_IRQ_SLAVE (by decide)).symm
    rw [Chip.take, cascade]
    refine { programmed with
      master := (programmed.master.other (.inr (by omega)) false).serve ?_
      slave := (programmed.slave.own (by omega) false).serve ?_
      cascadeQuiet := quiet, serving := by simpa using bound }
    · intro line inside
      simp [Function.update_apply, idle line inside, masterServes, first, beq_eq_decide]
    · intro line inside
      have same : line = irq - 8 ↔ 8 + line = irq := by omega
      simp [Function.update_apply, idle line inside, slaveServes, same, beq_eq_decide]

private theorem Programmed.eoi {lines : Lines} {s : State} {irq : ℕ} (programmed : Programmed lines ⟨s, some irq⟩) :
    Programmed (lines.record (.eoi irq)) ⟨picSendEoi s irq, none⟩ := by
  have bound : irq < 16 := programmed.serving irq rfl
  have served : ∀ line < 8,
      s.pics.master.service line = (line == if irq < 8 then irq else PIC_IRQ_SLAVE) ∧
        s.pics.slave.service line = (8 + line == irq) :=
    fun line inside => ⟨programmed.master.service line inside, programmed.slave.service line inside⟩
  by_cases first : irq < 8
  · rw [picSendEoi_master s first]
    refine { programmed with
      master := programmed.master.serve ?_, slave := programmed.slave.serve ?_, serving := by simp }
    · intro line inside
      simp [Function.update_apply, served line inside, masterServes, first]
    · intro line inside
      have other : 8 + line ≠ irq := by omega
      simp [served line inside, slaveServes, other]
  · rw [picSendEoi_slave s first bound]
    refine { programmed with
      master := programmed.master.serve ?_, slave := programmed.slave.serve ?_, serving := by simp }
    · intro line inside
      simp [Function.update_apply, served line inside, masterServes, first]
    · intro line inside
      have same : line = irq - 8 ↔ 8 + line = irq := by omega
      simp [Function.update_apply, served line inside, slaveServes, same]

private theorem Programmed.step {lines : Lines} {t u : Live} {e : Event} (programmed : Programmed lines t)
    (step : Step t e u) : Programmed (lines.record e) u := by
  cases step with
  | mark => exact programmed.mark _
  | enable => exact programmed.enable
  | raise bound device => exact programmed.raise device
  | interrupt taken => exact programmed.interrupt taken
  | eoi => exact programmed.eoi

private theorem run_programmed {pics : Pics} {es : List Event} {t : Live} (run : Run Step (started pics) es t) :
    Programmed (history es) t := by
  induction run with
  | nil => exact started_programmed pics
  | snoc _ last ih =>
    rw [history, List.foldl_append]
    exact ih.step last

/-- Whenever no handler runs, the chips ask for the first line with a request among those that are let through, at its
own vector, and for nothing when there is none. -/
theorem interrupts_served {pics : Pics} {es : List Event} {t : Live} (run : Run Step (started pics) es t)
    (idle : t.serving = none) :
    t.state.pics.acknowledge.map Prod.fst =
      (priorities.find? (history es).pending).map fun irq => PIC_INT_VECTOR + BitVec.ofNat 8 irq := by
  obtain ⟨s, serving⟩ := t
  subst idle
  exact acknowledge_first (run_programmed run)

/-- The mouse asks before the keyboard does. -/
private theorem raised_two : ∃ t, Run Step (started default) [.mark 1, .mark 12, .enable, .raise 12, .raise 1] t ∧
    t.serving = none := by
  have marked : Run Step (started default) [.mark 1, .mark 12] _ :=
    (Run.nil.snoc (.mark (by decide))).snoc (.mark (by decide))
  have asked := ((marked.snoc .enable).snoc (.raise (show 12 < 16 by decide) (by decide))).snoc
    (.raise (show 1 < 16 by decide) (by decide))
  exact ⟨_, asked, rfl⟩

theorem interrupts_served_two : ∃ t, Run Step (started default) [.mark 1, .mark 12, .enable, .raise 12, .raise 1] t ∧
    t.state.pics.acknowledge.map Prod.fst = some 0x21 := by
  obtain ⟨t, run, idle⟩ := raised_two
  exact ⟨t, run, (interrupts_served run idle).trans (by decide)⟩

/-! ## The requests are worked off -/

def handled (irqs : List ℕ) : List Event :=
  irqs.flatMap fun irq => [.interrupt (PIC_INT_VECTOR + BitVec.ofNat 8 irq), .eoi irq]

private theorem pending_served (lines : Lines) {irq : ℕ} (bound : irq < 16) :
    (lines.record (.interrupt (PIC_INT_VECTOR + BitVec.ofNat 8 irq))).pending =
      fun i => i != irq && lines.pending i := by
  funext i
  simp only [Lines.pending, Lines.record, vector_line irq bound, Function.update_apply]
  by_cases same : i = irq <;> simp [same]

/-- One handler leaves the other lines to ask. -/
private theorem handle_first {lines : Lines} {s : State} {irq : ℕ} {rest : List ℕ}
    (programmed : Programmed lines ⟨s, none⟩)
    (asking : priorities.filter lines.pending = irq :: rest) :
    ∃ lines' s', Run Step ⟨s, none⟩ (handled [irq]) ⟨s', none⟩ ∧ Programmed lines' ⟨s', none⟩ ∧
      priorities.filter lines'.pending = rest := by
  have lineBound : ∀ irq ∈ priorities, irq < 16 := by decide
  have bound : irq < 16 := lineBound irq (List.mem_of_mem_filter (asking ▸ List.mem_cons_self))
  have found : priorities.find? lines.pending = some irq := by
    rw [← List.head?_filter, asking, List.head?_cons]
  have first := acknowledge_first programmed
  rw [found, Option.map_some, Option.map_eq_some_iff] at first
  obtain ⟨⟨vector, pics⟩, taken, rfl⟩ := first
  have interrupted : Step ⟨s, none⟩ (.interrupt (PIC_INT_VECTOR + BitVec.ofNat 8 irq)) ⟨{ s with pics }, some irq⟩ := by
    have step := Step.interrupt taken
    rwa [vector_line irq bound] at step
  have ended := (programmed.step interrupted).step .eoi
  refine ⟨_, _, (Run.single interrupted).append (.single .eoi), ended, ?_⟩
  change priorities.filter (lines.record (.interrupt _)).pending = rest
  have once : (priorities.filter lines.pending).Nodup := List.Nodup.filter _ (by decide)
  rw [asking, List.nodup_cons] at once
  rw [pending_served lines bound, ← List.filter_filter, asking, List.filter_cons_of_neg (by simp)]
  exact List.filter_eq_self.mpr fun i inside => by simpa using fun (same : i = irq) => once.1 (same ▸ inside)

private theorem handle_all {irqs : List ℕ} {lines : Lines} {s : State} (programmed : Programmed lines ⟨s, none⟩)
    (asking : priorities.filter lines.pending = irqs) :
    ∃ s', Run Step ⟨s, none⟩ (handled irqs) ⟨s', none⟩ ∧ s'.pics.acknowledge = none := by
  induction irqs generalizing lines s with
  | nil =>
    refine ⟨s, .nil, ?_⟩
    have first := acknowledge_first programmed
    rwa [← List.head?_filter, asking, List.head?_nil, Option.map_none, Option.map_eq_none_iff] at first
  | cons irq rest ih =>
    obtain ⟨lines', middle, served, programmed', asking'⟩ := handle_first programmed asking
    obtain ⟨last, others, quiet⟩ := ih programmed' asking'
    exact ⟨last, served.append others, quiet⟩

/-- The handlers of the lines that ask, run in their order, leave nothing to ask for. -/
theorem requests_drained {pics : Pics} {es : List Event} {t : Live} (run : Run Step (started pics) es t)
    (idle : t.serving = none) :
    ∃ s, Run Step t (handled (priorities.filter (history es).pending)) ⟨s, none⟩ ∧ s.pics.acknowledge = none := by
  obtain ⟨s, serving⟩ := t
  subst idle
  exact handle_all (run_programmed run) rfl

theorem requests_drained_two : ∃ t s,
    Run Step (started default) [.mark 1, .mark 12, .enable, .raise 12, .raise 1] t ∧
      Run Step t [.interrupt 0x21, .eoi 1, .interrupt 0x2c, .eoi 12] ⟨s, none⟩ ∧ s.pics.acknowledge = none := by
  obtain ⟨t, run, idle⟩ := raised_two
  obtain ⟨s, drained, quiet⟩ := requests_drained run idle
  exact ⟨t, s, run, drained, quiet⟩

end RubberOS.Soundness.InterruptLines
