import RubberOS.Model.X86

/-! # What saving and restoring does to the stack

A sequence of pushes is described by the words that it puts on the stack and by the bytes that it leaves alone. Loading
a frame from the stack gives the registers that the frame was made from, whatever they held before.
-/

namespace RubberOS.Model.X86

open StackWords

/-- These words are on the stack. -/
def Stacked (m : Machine) (ws : List (BitVec 64)) : Prop := Words m.memory (m.reg .rsp) ws

/-- Memory differs in these many bytes below an address only. -/
def SameAbove (a : BitVec 64) (n : ℕ) (memory memory' : Bytes) : Prop :=
  ∀ b, n ≤ (a - 1 - b).toNat → memory' b = memory b

/-- These words were put on the stack, the first of them last. -/
structure Grown (m m' : Machine) (vs : List (BitVec 64)) : Prop where
  rsp : m'.reg .rsp = m.reg .rsp - BitVec.ofNat 64 (8 * vs.length)
  stacked : ∀ ws, vs.length + ws.length < 2 ^ 60 → Stacked m ws → Stacked m' (vs ++ ws)
  sameAbove : vs.length < 2 ^ 60 → SameAbove (m.reg .rsp) (8 * vs.length) m.memory m'.memory

section Stack

variable {m m' m'' : Machine} {ws vs us : List (BitVec 64)} {v : BitVec 64} {r : Reg} {n k : ℕ}

private theorem SameAbove.trans {a : BitVec 64} {memory memory' memory'' : Bytes} (small : n + k < 2 ^ 64)
    (first : SameAbove a n memory memory') (second : SameAbove (a - BitVec.ofNat 64 n) k memory' memory'') :
    SameAbove a (n + k) memory memory'' := by
  intro b above
  have offset : (a - BitVec.ofNat 64 n - 1 - b).toNat = (a - 1 - b).toNat - n := by
    have split : a - BitVec.ofNat 64 n - 1 - b = a - 1 - b - BitVec.ofNat 64 n := by ring
    have less : (BitVec.ofNat 64 n).toNat = n := by
      rw [BitVec.toNat_ofNat]
      exact Nat.mod_eq_of_lt (by omega)
    rw [split, BitVec.toNat_sub_of_le (BitVec.le_def.mpr (by omega)), less]
  exact (second b (by omega)).trans (first b (by omega))

private theorem Grown.trans (first : Grown m m' vs) (second : Grown m' m'' us)
    (small : us.length + vs.length < 2 ^ 60) :
    Grown m m'' (us ++ vs) := by
  have length : 8 * (us ++ vs).length = 8 * vs.length + 8 * us.length := by
    rw [List.length_append]
    omega
  constructor
  · rw [second.rsp, first.rsp, length, BitVec.ofNat_add]
    ring
  · intro ws room words
    rw [List.length_append] at room
    rw [List.append_assoc]
    apply second.stacked
    · rw [List.length_append]
      omega
    · exact first.stacked ws (by omega) words
  · intro _
    rw [length]
    have last := second.sameAbove (by omega)
    rw [first.rsp] at last
    exact (first.sameAbove (by omega)).trans (by omega) last

/-- What leaves memory and the stack pointer alone puts nothing on the stack. -/
private theorem grown_nil (rsp : m'.reg .rsp = m.reg .rsp) (memory : m'.memory = m.memory) : Grown m m' [] := by
  constructor
  · rw [rsp]
    exact (BitVec.sub_zero _).symm
  · intro ws _ words
    rw [Stacked, rsp, memory]
    exact words
  · intro _ b _
    rw [memory]

theorem grown_pushWord (m : Machine) (v : BitVec 64) : Grown m (m.pushWord v) [v] := by
  constructor
  · rfl
  · intro ws room words
    rw [List.length_singleton] at room
    exact words.push (by omega) v
  · intro _ b above
    apply store64_outside
    by_contra inside
    rw [List.length_singleton] at above
    have whole : m.reg .rsp - 1 - b = 7 - (b - (m.reg .rsp - 8)) := by ring
    have seven : (7 : BitVec 64).toNat = 7 := rfl
    rw [whole, BitVec.toNat_sub_of_le (BitVec.le_def.mpr (by omega))] at above
    omega

theorem Grown.pushWord {s : Machine} (grown : Grown m m' vs) (rsp : s.reg .rsp = m'.reg .rsp)
    (memory : s.memory = m'.memory) (v : BitVec 64) (small : vs.length + 1 < 2 ^ 60) :
    Grown m (s.pushWord v) (v :: vs) := by
  have same := grown.trans (grown_nil rsp memory) (by rw [List.length_nil]; omega)
  exact same.trans (grown_pushWord s v) (by rw [List.length_singleton]; simp only [List.nil_append]; omega)

@[simp] theorem set_reg (m : Machine) (r r' : Reg) (v : BitVec 64) :
    (m.set r v).reg r' = if r' = r then v else m.reg r' := by
  rw [Machine.set]
  exact Function.update_apply ..

@[simp] theorem set_seg (m : Machine) (r : Reg) (v : BitVec 64) : (m.set r v).seg = m.seg := rfl

@[simp] theorem drop_seg (m : Machine) : m.drop.seg = m.seg := rfl

@[simp] theorem setSeg_seg (m : Machine) (s s' : Seg) (v : BitVec 16) :
    (m.setSeg s v).seg s' = if s' = s then v else m.seg s' := by
  rw [Machine.setSeg]
  exact Function.update_apply ..

@[simp] theorem pushWord_reg (m : Machine) (v : BitVec 64) (r : Reg) :
    (m.pushWord v).reg r = if r = .rsp then m.reg .rsp - 8 else m.reg r := by
  rw [Machine.pushWord]
  exact set_reg ..

private theorem stacked_pop (stacked : Stacked m (v :: ws)) : m.top = v ∧ Stacked m.drop ws := by
  refine ⟨stacked.1, ?_⟩
  rw [Stacked, Machine.drop, set_reg, if_pos rfl]
  exact stacked.2

end Stack

section Code

variable {status : BitVec 64 → BitVec 64 → BitVec 64} {m m' : Machine} {ws : List (BitVec 64)} {c : Cpu}

theorem run_append (status : BitVec 64 → BitVec 64 → BitVec 64) (code rest : List Instr) (m : Machine) :
    run status (code ++ rest) m = run status rest (run status code m) := List.foldl_append ..

theorem run_cons (status : BitVec 64 → BitVec 64 → BitVec 64) (instr : Instr) (rest : List Instr) (m : Machine) :
    run status (instr :: rest) m = run status rest (instr.exec status m) := rfl

/-- Registers are pushed one after the other. -/
private theorem run_pushes (status : BitVec 64 → BitVec 64 → BitVec 64) (rs : List Reg) (others : .rsp ∉ rs)
    (small : rs.length < 2 ^ 60) (m : Machine) :
    Grown m (run status (rs.map .push) m) (rs.map m.reg).reverse ∧
      (∀ r, r ≠ .rsp → (run status (rs.map .push) m).reg r = m.reg r) ∧
      (run status (rs.map .push) m).seg = m.seg ∧ (run status (rs.map .push) m).rip = m.rip ∧
      (run status (rs.map .push) m).rflags = m.rflags := by
  induction rs generalizing m with
  | nil => exact ⟨grown_nil rfl rfl, fun _ _ => rfl, rfl, rfl, rfl⟩
  | cons r rs ih =>
    rw [List.mem_cons, not_or] at others
    rw [List.length_cons] at small
    obtain ⟨grown, regs, seg, rip, rflags⟩ := ih others.2 (by omega) (m.pushWord (m.reg r))
    have same : rs.map (m.pushWord (m.reg r)).reg = rs.map m.reg := by
      apply List.map_congr_left
      intro r' member
      rw [pushWord_reg, if_neg (ne_of_mem_of_not_mem member others.2)]
    rw [same] at grown
    rw [List.map_cons, List.map_cons, List.reverse_cons]
    refine ⟨(grown_pushWord m (m.reg r)).trans grown (by simp; omega), fun r' apart => ?_, seg, rip, rflags⟩
    exact (regs r' apart).trans ((pushWord_reg _ _ _).trans (if_neg apart))

/-- Registers are popped one after the other. -/
private theorem run_pops (status : BitVec 64 → BitVec 64 → BitVec 64) (rs : List Reg) (others : .rsp ∉ rs)
    (f : Reg → BitVec 64) (m : Machine) (stacked : Stacked m (rs.map f ++ ws)) :
    Stacked (run status (rs.map .pop) m) ws ∧
      (∀ r, r ≠ .rsp → (run status (rs.map .pop) m).reg r = if r ∈ rs then f r else m.reg r) ∧
      (run status (rs.map .pop) m).seg = m.seg ∧ (run status (rs.map .pop) m).rip = m.rip ∧
      (run status (rs.map .pop) m).rflags = m.rflags ∧ (run status (rs.map .pop) m).memory = m.memory := by
  induction rs generalizing m with
  | nil => exact ⟨stacked, fun _ _ => rfl, rfl, rfl, rfl, rfl⟩
  | cons r rs ih =>
    rw [List.mem_cons, not_or] at others
    obtain ⟨top, rest⟩ := stacked_pop stacked
    have popped : Stacked (m.drop.set r m.top) (rs.map f ++ ws) := by
      rw [Stacked, set_reg, if_neg others.1]
      exact rest
    obtain ⟨after, regs, seg, rip, rflags, memory⟩ := ih others.2 _ popped
    refine ⟨after, fun r' apart => (regs r' apart).trans ?_, seg, rip, rflags, memory⟩
    rw [set_reg, top, Machine.drop, set_reg, if_neg apart]
    by_cases later : r' ∈ rs
    · rw [if_pos later, if_pos (List.mem_cons_of_mem _ later)]
    · rw [if_neg later]
      by_cases same : r' = r
      · rw [if_pos same, if_pos (same ▸ List.mem_cons_self), same]
      · rw [if_neg same, if_neg (List.not_mem_cons_of_ne_of_not_mem same later)]

/-- The low half word of a quadword that is a selector. -/
private theorem append_quad (s t : BitVec 16) : (quad s).extractLsb' 16 48 ++ t = quad t := by
  apply BitVec.eq_of_getLsbD_eq
  intro i bound
  simp only [quad, BitVec.getLsbD_append, BitVec.getLsbD_extractLsb', BitVec.getLsbD_setWidth]
  grind

/-- A selector is moved to a register that holds no more than a selector. -/
theorem movFromSeg_quad {r : Reg} {s : Seg} {t : BitVec 16} (holds : m.reg r = quad t) :
    Instr.exec status m (.movFromSeg r s) = m.set r (quad (m.seg s)) := by
  rw [Instr.exec, holds, append_quad]

private theorem setWidth_quad (s : BitVec 16) : (quad s).setWidth 16 = s := by
  rw [quad, BitVec.setWidth_setWidth_of_le _ (by decide), BitVec.setWidth_eq]

/-- Arithmetic leaves the interrupt flag alone. -/
private theorem setStatus_intr (m : Machine) (flags : BitVec 64) :
    (m.setStatus flags).rflags &&& RFLAGS_INTR = m.rflags &&& RFLAGS_INTR := by
  have others : STATUS_FLAGS &&& RFLAGS_INTR = 0#64 := rfl
  have kept : ~~~STATUS_FLAGS &&& RFLAGS_INTR = RFLAGS_INTR := rfl
  rw [Machine.setStatus]
  dsimp only
  rw [BitVec.and_or_distrib_right, BitVec.and_assoc, kept, BitVec.and_assoc, others, BitVec.and_zero, BitVec.or_zero]

private theorem exec_push_set (m : Machine) (r : Reg) (v : BitVec 64) :
    Instr.exec status (m.set r v) (.push r) = (m.set r v).pushWord v := by
  rw [Instr.exec, set_reg, if_pos rfl]

/-- The registers that are pushed, in order. -/
def savedRegs : List Reg :=
  [.rbp, .rax, .rbx, .rcx, .rdx, .rdi, .rsi, .r8, .r9, .r10, .r11, .r12, .r13, .r14, .r15]

private theorem mem_savedRegs (r : Reg) : r ∈ savedRegs ↔ r ≠ .rsp := by
  cases r <;> decide

/-- `push_all` puts the registers on the stack, and `rax` is lost. -/
theorem run_pushAll (status : BitVec 64 → BitVec 64 → BitVec 64) (m : Machine) :
    Grown m (run status pushAll m) (isrStackframePush m.toCpu) ∧
      (∀ r, r ≠ .rsp → r ≠ .rax → (run status pushAll m).reg r = m.reg r) ∧
      (run status pushAll m).seg = m.seg ∧ (run status pushAll m).rip = m.rip ∧
      (run status pushAll m).rflags &&& RFLAGS_INTR = m.rflags &&& RFLAGS_INTR := by
  obtain ⟨grown, regs, seg, rip, rflags⟩ := run_pushes status savedRegs (by decide) (by decide) m
  have split : pushAll = savedRegs.map .push ++ [.clear .rax, .movFromSeg .rax .ds, .push .rax, .movFromSeg .rax .es,
      .push .rax, .pushSeg .fs, .pushSeg .gs] := rfl
  rw [split, run_append]
  generalize run status (savedRegs.map .push) m = s at grown regs seg rip rflags
  let blank := (s.set .rax 0).setStatus (status s.rflags 0)
  let first := (blank.set .rax (quad (s.seg .ds))).pushWord (quad (s.seg .ds))
  let second := (first.set .rax (quad (s.seg .es))).pushWord (quad (s.seg .es))
  let last := (second.pushWord (quad (s.seg .fs))).pushWord (quad (s.seg .gs))
  have ran : run status [.clear .rax, .movFromSeg .rax .ds, .push .rax, .movFromSeg .rax .es, .push .rax, .pushSeg .fs,
      .pushSeg .gs] s = last := by
    have cleared : blank.reg .rax = quad 0 := rfl
    have pushed : first.reg .rax = quad (s.seg .ds) := (pushWord_reg ..).trans (set_reg ..)
    rw [run_cons, run_cons]
    change run status _ (Instr.exec status blank (.movFromSeg .rax .ds)) = last
    rw [movFromSeg_quad cleared, run_cons, exec_push_set, run_cons]
    change run status _ (Instr.exec status first (.movFromSeg .rax .es)) = last
    rw [movFromSeg_quad pushed, run_cons, exec_push_set, run_cons, run_cons]
    rfl
  have stored : Grown m last (isrStackframePush m.toCpu) := by
    have one := grown.pushWord (s := blank.set .rax (quad (s.seg .ds))) rfl rfl (quad (s.seg .ds))
      (show 15 + 1 < 2 ^ 60 by decide)
    have two := one.pushWord (s := first.set .rax (quad (s.seg .es))) rfl rfl (quad (s.seg .es))
      (show 16 + 1 < 2 ^ 60 by decide)
    have three := two.pushWord rfl rfl (quad (s.seg .fs)) (show 17 + 1 < 2 ^ 60 by decide)
    have four := three.pushWord rfl rfl (quad (s.seg .gs)) (show 18 + 1 < 2 ^ 60 by decide)
    have words : isrStackframePush m.toCpu = quad (s.seg .gs) :: quad (s.seg .fs) :: quad (s.seg .es) ::
        quad (s.seg .ds) :: (savedRegs.map m.reg).reverse := by
      rw [seg]
      rfl
    rw [words]
    exact four
  rw [ran]
  refine ⟨stored, fun r stack acc => ?_, seg, rip, ?_⟩
  · rw [← regs r stack, pushWord_reg, if_neg stack, pushWord_reg, if_neg stack, pushWord_reg, if_neg stack, set_reg,
      if_neg acc, pushWord_reg, if_neg stack, set_reg, if_neg acc]
    exact (set_reg ..).trans (if_neg acc)
  · exact (setStatus_intr (s.set .rax 0) (status s.rflags 0)).trans (congrArg (· &&& RFLAGS_INTR) rflags)

/-- `pop_all` loads what `push_all` has stored, wherever the registers are. -/
private theorem run_popAll (status : BitVec 64 → BitVec 64 → BitVec 64) (m : Machine) (c : Cpu)
    (stacked : Stacked m (isrStackframePush c ++ ws)) : Stacked (run status popAll m) ws ∧
      (∀ r, r ≠ .rsp → (run status popAll m).reg r = c.reg r) ∧
      (∀ s, s ≠ .cs → s ≠ .ss → (run status popAll m).seg s = c.seg s) ∧
      (run status popAll m).rflags = m.rflags ∧ (run status popAll m).memory = m.memory := by
  have split : popAll = [.popSeg .gs, .popSeg .fs, .pop .rax, .movToSeg .es .rax, .pop .rax, .movToSeg .ds .rax] ++
      savedRegs.reverse.map .pop := rfl
  rw [split, run_append]
  obtain ⟨gs, one⟩ := stacked_pop stacked
  let first := m.drop.setSeg .gs (m.top.setWidth 16)
  obtain ⟨fs, two⟩ := stacked_pop (m := first) one
  let second := first.drop.setSeg .fs (first.top.setWidth 16)
  obtain ⟨es, three⟩ := stacked_pop (m := second) two
  let third := (second.drop.set .rax second.top).setSeg .es (second.top.setWidth 16)
  obtain ⟨ds, four⟩ := stacked_pop (m := third) three
  let fourth := (third.drop.set .rax third.top).setSeg .ds (third.top.setWidth 16)
  have ran : run status [.popSeg .gs, .popSeg .fs, .pop .rax, .movToSeg .es .rax, .pop .rax, .movToSeg .ds .rax] m =
      fourth := rfl
  rw [ran]
  have saved : Stacked fourth (savedRegs.reverse.map c.reg ++ ws) := four
  obtain ⟨after, regs, seg, _, rflags, memory⟩ := run_pops status savedRegs.reverse (by decide) c.reg fourth saved
  refine ⟨after, fun r stack => ?_, fun s code stack => ?_, rflags, memory⟩
  · rw [regs r stack, if_pos (List.mem_reverse.mpr ((mem_savedRegs r).mpr stack))]
  · have loaded : fourth.seg s = if s = .ds then third.top.setWidth 16 else if s = .es then second.top.setWidth 16 else
        if s = .fs then first.top.setWidth 16 else if s = .gs then m.top.setWidth 16 else m.seg s := by
      simp only [fourth, third, second, first, setSeg_seg, set_seg, drop_seg]
    rw [seg, loaded, ds, es, fs, gs]
    cases s with
    | cs => exact absurd rfl code
    | ss => exact absurd rfl stack
    | ds => exact setWidth_quad _
    | es => exact setWidth_quad _
    | fs => exact setWidth_quad _
    | gs => exact setWidth_quad _

/-- `iretq` loads the rest. -/
private theorem exec_iretq (m : Machine) (c : Cpu) (stacked : Stacked m (isrStackframeIretq c)) :
    Instr.exec status m .iretq =
      { m with
        reg := Function.update m.reg .rsp (c.reg .rsp)
        seg := fun s => if s = .cs ∨ s = .ss then c.seg s else m.seg s
        rip := c.rip
        rflags := c.rflags } := by
  obtain ⟨rip, one⟩ := stacked_pop stacked
  let first := { m.drop with rip := m.top }
  obtain ⟨cs, two⟩ := stacked_pop (m := first) one
  let second := first.drop.setSeg .cs (first.top.setWidth 16)
  obtain ⟨rflags, three⟩ := stacked_pop (m := second) two
  let third := { second.drop with rflags := second.top }
  obtain ⟨rsp, four⟩ := stacked_pop (m := third) three
  obtain ⟨ss, _⟩ := stacked_pop (m := third.drop) four
  let last := (third.drop.setSeg .ss (third.drop.top.setWidth 16)).set .rsp third.top
  have regs : last.reg = Function.update m.reg .rsp (c.reg .rsp) := by
    funext r
    rw [← rsp, Function.update_apply]
    by_cases stack : r = .rsp
    · rw [if_pos stack]
      exact (set_reg ..).trans (if_pos stack)
    · have dropped (s : Machine) : s.drop.reg r = s.reg r := (set_reg ..).trans (if_neg stack)
      rw [if_neg stack]
      calc last.reg r
        _ = third.drop.reg r := (set_reg ..).trans (if_neg stack)
        _ = second.drop.reg r := dropped third
        _ = first.drop.reg r := dropped second
        _ = m.drop.reg r := dropped first
        _ = m.reg r := dropped m
  have segs : last.seg = fun s => if s = .cs ∨ s = .ss then c.seg s else m.seg s := by
    funext s
    have loaded : last.seg s = if s = .ss then third.drop.top.setWidth 16 else
        if s = .cs then first.top.setWidth 16 else m.seg s := by
      simp only [last, third, second, first, setSeg_seg, set_seg, drop_seg]
    rw [loaded, ss, cs]
    cases s with
    | cs => exact setWidth_quad _
    | ss => exact setWidth_quad _
    | ds | es | fs | gs => rfl
  calc Instr.exec status m .iretq
    _ = { m with reg := last.reg, seg := last.seg, rip := m.top, rflags := second.top } := rfl
    _ = _ := by rw [regs, segs, rip, rflags]

/-- The stub's exit gives back the registers of the frame, with or without an error code below them. -/
theorem run_intHandlerExit (status : BitVec 64 → BitVec 64 → BitVec 64) (m : Machine) (c : Cpu)
    (errorCode : Option (BitVec 64)) (stacked : Stacked m (isrStackframe c errorCode)) :
    run status (intHandlerExit errorCode.isSome) m = ⟨c, m.memory⟩ := by
  obtain ⟨rest, regs, segs, _, memory⟩ := run_popAll status m c stacked
  rw [intHandlerExit, run_append, run_append]
  generalize run status popAll m = s at rest regs segs memory
  obtain ⟨s', ran, stacked', regs', segs', memory'⟩ : ∃ s',
      run status (if errorCode.isSome then [.add .rsp 8] else []) s = s' ∧ Stacked s' (isrStackframeIretq c) ∧
      (∀ r, r ≠ .rsp → s'.reg r = c.reg r) ∧ s'.seg = s.seg ∧ s'.memory = s.memory := by
    cases errorCode with
    | none => exact ⟨s, rfl, rest, regs, rfl, rfl⟩
    | some code =>
      refine ⟨_, rfl, ?_, fun r stack => ?_, rfl, rfl⟩
      · exact (stacked_pop rest).2
      · exact ((set_reg ..).trans (if_neg stack)).trans (regs r stack)
  rw [ran]
  change Instr.exec status s' .iretq = _
  rw [exec_iretq s' c stacked']
  have all : Function.update s'.reg .rsp (c.reg .rsp) = c.reg := by
    funext r
    rw [Function.update_apply]
    split
    · rename_i stack
      rw [stack]
    · rename_i other
      exact regs' r other
  have selectors : (fun s => if s = .cs ∨ s = .ss then c.seg s else s'.seg s) = c.seg := by
    funext s
    split
    · rfl
    · rename_i data
      rw [not_or] at data
      rw [segs', segs s data.1 data.2]
  rw [all, selectors, memory', memory]

/-- The stack on which an interrupt is delivered. -/
def deliveryStack (m : Machine) (stack : Option (BitVec 64)) : BitVec 64 := stack.getD (m.reg .rsp) &&& ~~~15

/-- The processor puts the rest of the frame on the stack, and clears the interrupt flag. -/
theorem deliver_spec (m : Machine) (selector : BitVec 16) (offset : BitVec 64) (stack errorCode : Option (BitVec 64)) :
    Grown (m.set .rsp (deliveryStack m stack)) (deliver m selector offset stack errorCode)
        (errorCode.toList ++ isrStackframeIretq m.toCpu) ∧
      (∀ r, r ≠ .rsp → (deliver m selector offset stack errorCode).reg r = m.reg r) ∧
      (∀ s, s ≠ .cs → (deliver m selector offset stack errorCode).seg s = m.seg s) ∧
      (deliver m selector offset stack errorCode).rflags &&& RFLAGS_INTR = 0 := by
  let base := m.set .rsp (deliveryStack m stack)
  let pushed := ((((base.pushWord (quad (m.seg .ss))).pushWord (m.reg .rsp)).pushWord m.rflags).pushWord
    (quad (m.seg .cs))).pushWord m.rip
  have iretq : Grown base pushed (isrStackframeIretq m.toCpu) := by
    have one := grown_pushWord base (quad (m.seg .ss))
    have two := one.pushWord rfl rfl (m.reg .rsp) (show 1 + 1 < 2 ^ 60 by decide)
    have three := two.pushWord rfl rfl m.rflags (show 2 + 1 < 2 ^ 60 by decide)
    have four := three.pushWord rfl rfl (quad (m.seg .cs)) (show 3 + 1 < 2 ^ 60 by decide)
    exact four.pushWord rfl rfl m.rip (show 4 + 1 < 2 ^ 60 by decide)
  have regs (r : Reg) (apart : r ≠ .rsp) : pushed.reg r = m.reg r := by
    have kept (s : Machine) (v : BitVec 64) : (s.pushWord v).reg r = s.reg r := (pushWord_reg ..).trans (if_neg apart)
    rw [kept, kept, kept, kept, kept]
    exact (set_reg ..).trans (if_neg apart)
  have cleared : m.rflags &&& ~~~(RFLAGS_TRAP ||| RFLAGS_INTR ||| RFLAGS_NESTED) &&& RFLAGS_INTR = 0#64 := by
    have none : ~~~(RFLAGS_TRAP ||| RFLAGS_INTR ||| RFLAGS_NESTED) &&& RFLAGS_INTR = 0#64 := rfl
    rw [BitVec.and_assoc, none, BitVec.and_zero]
  have segs (s : Machine) (same : s.seg = m.seg) (s' : Seg) (code : s' ≠ .cs) :
      (s.setSeg .cs selector).seg s' = m.seg s' := by
    rw [setSeg_seg, if_neg code, same]
  cases errorCode with
  | none =>
    exact ⟨iretq.trans (grown_nil rfl rfl) (show 0 + 5 < 2 ^ 60 by decide), regs, segs pushed rfl, cleared⟩
  | some code =>
    refine ⟨?_, fun r apart => ?_, segs (pushed.pushWord code) rfl, cleared⟩
    · have error := iretq.pushWord rfl rfl code (show 5 + 1 < 2 ^ 60 by decide)
      have same : Grown (pushed.pushWord code) (deliver m selector offset stack (some code)) [] := grown_nil rfl rfl
      exact error.trans same (show 0 + 6 < 2 ^ 60 by decide)
    · exact ((pushWord_reg pushed code r).trans (if_neg apart)).trans (regs r apart)

/-- Where the frame lies that the stub hands on. -/
def framePointer (m : Machine) (stack errorCode : Option (BitVec 64)) : BitVec 64 :=
  deliveryStack m stack - BitVec.ofNat 64 (8 * (24 + errorCode.toList.length))

/-- The state in which `isr_impl` is called: the frame is on the stack, and `rdi` points to it. -/
theorem run_intHandlerEntry (status : BitVec 64 → BitVec 64 → BitVec 64) (m : Machine) (selector : BitVec 16)
    (offset : BitVec 64) (stack errorCode : Option (BitVec 64)) : ∃ called,
      run status intHandlerEntry (deliver m selector offset stack errorCode) = called ∧
      called.reg .rsp = framePointer m stack errorCode ∧ called.reg .rdi = framePointer m stack errorCode ∧
      Stacked called (isrStackframe m.toCpu errorCode) ∧
      SameAbove (deliveryStack m stack) (8 * (24 + errorCode.toList.length)) m.memory called.memory ∧
      called.rflags &&& RFLAGS_INTR = 0 := by
  obtain ⟨delivered, regs, segs, cleared⟩ := deliver_spec m selector offset stack errorCode
  generalize deliver m selector offset stack errorCode = d at delivered regs segs cleared ⊢
  obtain ⟨pushed, _, _, _, flags⟩ := run_pushAll status d
  have same : isrStackframePush d.toCpu = isrStackframePush m.toCpu := by
    simp only [isrStackframePush, regs _ (by decide : Reg.rax ≠ .rsp), regs, segs, ne_eq, reduceCtorEq,
      not_false_eq_true]
  rw [same] at pushed
  have few : errorCode.toList.length ≤ 1 := by cases errorCode <;> simp
  have frame := delivered.trans pushed (by simp [isrStackframePush, isrStackframeIretq]; omega)
  have length : (isrStackframePush m.toCpu ++ (errorCode.toList ++ isrStackframeIretq m.toCpu)).length =
      24 + errorCode.toList.length := by
    simp [isrStackframePush, isrStackframeIretq]
    omega
  rw [intHandlerEntry, run_append]
  generalize run status pushAll d = p at frame flags
  have rsp : p.reg .rsp = framePointer m stack errorCode := by
    rw [frame.rsp, length, set_reg, if_pos rfl, framePointer]
  refine ⟨_, rfl, rsp, rsp, ?_, ?_, flags.trans cleared⟩
  · have stacked := frame.stacked [] (by rw [length]; simp; omega) trivial
    rw [List.append_nil] at stacked
    exact stacked
  · have above := frame.sameAbove (by rw [length]; omega)
    rw [length, set_reg, if_pos rfl] at above
    exact above

end Code

end RubberOS.Model.X86
