import RubberOS.Proofs.X86
import RubberOS.ToMathlib.LabelledRuns

/-! # Interrupted code does not notice

The stub of an interrupt saves all registers below the stack pointer of the code that it interrupts, calls the C
function and loads the registers again. So code that does not look below its stack pointer runs on as if what the C
function does to its data had happened between two instructions, in one step.
-/

namespace RubberOS.Soundness.InterruptStubs

open Model.X86 StackWords LabelledRuns

/-- What is assumed of the C function: it keeps its stack pointer, writes to its own data and to these many bytes below
its stack pointer only, and what it writes to its data follows from its data. -/
structure IsrImpl (ε : Type*) where
  call : ε → Machine → Machine
  data : Set (BitVec 64)
  update : ε → Bytes → Bytes
  depth : ℕ
  rsp : ∀ e m, (call e m).reg .rsp = m.reg .rsp
  written : ∀ e m, (∀ b ∈ data, depth ≤ (m.reg .rsp - 1 - b).toNat) →
    ∀ b ∈ data, (call e m).memory b = update e m.memory b
  kept : ∀ e m, (∀ b ∈ data, depth ≤ (m.reg .rsp - 1 - b).toNat) →
    ∀ b, b ∉ data → depth ≤ (m.reg .rsp - 1 - b).toNat → (call e m).memory b = m.memory b
  reads : ∀ e memory memory', (∀ b ∈ data, memory b = memory' b) → ∀ b ∈ data, update e memory b = update e memory' b

open Classical in
/-- The update of the data, and nothing else. -/
noncomputable def IsrImpl.handle {ε : Type*} (isr : IsrImpl ε) (e : ε) (m : Machine) : Machine :=
  { m with memory := fun b => if b ∈ isr.data then isr.update e m.memory b else m.memory b }

/-- The interrupt of a device, from its delivery to the `iretq`. -/
def interrupt {ε : Type*} (status : BitVec 64 → BitVec 64 → BitVec 64) (selector : BitVec 16) (offset : BitVec 64)
    (isr : IsrImpl ε) (e : ε) (m : Machine) : Machine :=
  run status (intHandlerExit false) (isr.call e (run status intHandlerEntry (deliver m selector offset none none)))

/-- The machines differ below the stack pointer only, down to the low end of the stack. -/
structure Alike (lo : BitVec 64) (m m' : Machine) : Prop where
  cpu : m.toCpu = m'.toCpu
  memory : ∀ b, (m.reg .rsp - lo).toNat ≤ (b - lo).toNat → m.memory b = m'.memory b

/-- The stack has room for the frame and for what the C function needs, and the data is not in it. -/
structure Fits {ε : Type*} (lo : BitVec 64) (isr : IsrImpl ε) (m : Machine) : Prop where
  room : 207 + isr.depth ≤ (m.reg .rsp - lo).toNat
  data : ∀ b ∈ isr.data, (m.reg .rsp - lo).toNat ≤ (b - lo).toNat

section Stub

variable {status : BitVec 64 → BitVec 64 → BitVec 64} {m m' t u : Machine} {lo : BitVec 64} {ε ι : Type*}
  {isr : IsrImpl ε}

private theorem Alike.refl (lo : BitVec 64) (m : Machine) : Alike lo m m := ⟨rfl, fun _ _ => rfl⟩

private theorem Alike.trans (first : Alike lo m t) (second : Alike lo t u) : Alike lo m u := by
  refine ⟨first.cpu.trans second.cpu, fun b above => (first.memory b above).trans (second.memory b ?_)⟩
  rw [← first.cpu]
  exact above

/-- The stack is lowered to the next multiple of sixteen. -/
private theorem deliveryStack_pad (m : Machine) (stack : Option (BitVec 64)) : ∃ pad : BitVec 64, pad.toNat ≤ 15 ∧
    deliveryStack m stack = stack.getD (m.reg .rsp) - pad := by
  refine ⟨stack.getD (m.reg .rsp) &&& 15, ?_, and_not_eq_sub _ _⟩
  rw [BitVec.toNat_and]
  exact Nat.and_le_right

/-- The stack pointer of a handler is a multiple of sixteen, unless there is an error code. -/
private theorem framePointer_mod (m : Machine) (stack errorCode : Option (BitVec 64)) :
    (framePointer m stack errorCode).toNat % 16 = if errorCode.isSome then 8 else 0 := by
  rw [framePointer, deliveryStack, and_not_eq_sub]
  generalize stack.getD (m.reg .rsp) = x
  have bits : (x &&& 15).toNat = x.toNat % 16 := by
    rw [BitVec.toNat_and]
    exact Nat.and_two_pow_sub_one_eq_mod x.toNat 4
  have lowered : (x - (x &&& 15)).toNat = x.toNat - x.toNat % 16 := by
    rw [BitVec.toNat_sub_of_le (BitVec.le_def.mpr (by omega)), bits]
  rw [BitVec.toNat_sub, lowered]
  cases errorCode with
  | none =>
    change (2 ^ 64 - 192 + (x.toNat - x.toNat % 16)) % 2 ^ 64 % 16 = 0
    omega
  | some code =>
    change (2 ^ 64 - 200 + (x.toNat - x.toNat % 16)) % 2 ^ 64 % 16 = 8
    omega

/-- Whatever is interrupted, on whichever stack, with or without an error code: the C function gets a pointer to a
frame that holds the registers of the interrupted code, with interrupts disabled and, unless there is an error code, an
aligned stack; and the registers that the frame holds when it returns are those with which the code goes on. -/
theorem frame_shows (status : BitVec 64 → BitVec 64 → BitVec 64) (m : Machine) (selector : BitVec 16)
    (offset : BitVec 64) (stack errorCode : Option (BitVec 64)) : ∃ called,
      run status intHandlerEntry (deliver m selector offset stack errorCode) = called ∧
      Words called.memory (called.reg .rdi) (isrStackframe m.toCpu errorCode) ∧
      called.rflags &&& RFLAGS_INTR = 0 ∧ called.reg .rsp = called.reg .rdi ∧
      (called.reg .rsp).toNat % 16 = (if errorCode.isSome then 8 else 0) ∧
      SameAbove (deliveryStack m stack) (8 * (24 + errorCode.toList.length)) m.memory called.memory ∧
      ∀ (after : Machine) (c : Cpu), after.reg .rsp = called.reg .rsp →
        Words after.memory (called.reg .rdi) (isrStackframe c errorCode) →
        run status (intHandlerExit errorCode.isSome) after = ⟨c, after.memory⟩ := by
  obtain ⟨called, ran, rsp, rdi, frame, above, disabled⟩ := run_intHandlerEntry status m selector offset stack errorCode
  rw [Stacked, rsp] at frame
  refine ⟨called, ran, ?_, disabled, rsp.trans rdi.symm, ?_, above, fun after c same words => ?_⟩
  · rw [rdi]
    exact frame
  · rw [rsp]
    exact framePointer_mod m stack errorCode
  · apply run_intHandlerExit status after c errorCode
    rw [Stacked, same, rsp, ← rdi]
    exact words

/-- What is not on the stack is far above its low end, counted downwards from the stack pointer. -/
private theorem above_stack {b : BitVec 64} (above : (m.reg .rsp - lo).toNat ≤ (b - lo).toNat) :
    (m.reg .rsp - lo).toNat ≤ (m.reg .rsp - 1 - b).toNat := by
  have split : m.reg .rsp - 1 - b = (m.reg .rsp - lo) - (b - lo) - 1 := by ring
  rw [split]
  generalize m.reg .rsp - lo = x at above ⊢
  generalize b - lo = y at above
  have bound := y.isLt
  have one : (1 : BitVec 64).toNat = 1 := rfl
  rw [BitVec.toNat_sub, BitVec.toNat_sub]
  omega

/-- An interrupt does to all that the interrupted code sees what the C function does to its data. -/
private theorem interrupt_alike (selector : BitVec 16) (offset : BitVec 64) (fits : Fits lo isr m) (e : ε) :
    Alike lo (isr.handle e m) (interrupt status selector offset isr e m) := by
  obtain ⟨called, ran, rsp, _, frame, above, _⟩ := run_intHandlerEntry status m selector offset none none
  obtain ⟨pad, small, lowered⟩ := deliveryStack_pad m none
  rw [Option.getD_none] at lowered
  rw [framePointer, lowered] at rsp
  rw [lowered] at above
  have room := fits.room
  have whole : (192 : BitVec 64).toNat = 192 := rfl
  -- the bytes far below the stack pointer of the interrupted code are as far below those of the stub
  have below (b : BitVec 64) (far : 207 + isr.depth ≤ (m.reg .rsp - 1 - b).toNat) :
      192 ≤ (m.reg .rsp - pad - 1 - b).toNat ∧ isr.depth ≤ (called.reg .rsp - 1 - b).toNat := by
    have first : m.reg .rsp - pad - 1 - b = m.reg .rsp - 1 - pad - b := by ring
    have second : called.reg .rsp - 1 - b = m.reg .rsp - 1 - pad - 192 - b := by
      rw [rsp]
      change m.reg .rsp - pad - 192 - 1 - b = _
      ring
    have one := toNat_sub_sub b (m.reg .rsp - 1) pad (by omega)
    have two := toNat_sub_sub b (m.reg .rsp - 1 - pad) 192 (by omega)
    rw [first, second]
    omega
  have outside (b : BitVec 64) (high : (m.reg .rsp - lo).toNat ≤ (b - lo).toNat) :=
    below b (room.trans (above_stack high))
  have data : ∀ b ∈ isr.data, isr.depth ≤ (called.reg .rsp - 1 - b).toNat := fun b member =>
    (outside b (fits.data b member)).2
  have saved : ∀ b ∈ isr.data, m.memory b = called.memory b := fun b member =>
    (above b (outside b (fits.data b member)).1).symm
  have returned : Stacked (isr.call e called) (isrStackframe m.toCpu none) := by
    rw [Stacked, isr.rsp]
    apply words_congr (by simp [isrStackframe, isrStackframePush, isrStackframeIretq]) _ frame
    intro b inside
    have inside : (b - called.reg .rsp).toNat < 192 := inside
    have back : called.reg .rsp - 1 - b = -1 - (b - called.reg .rsp) := by ring
    have ones : (-1 : BitVec 64).toNat = 2 ^ 64 - 1 := rfl
    have bound := (m.reg .rsp - lo).isLt
    have far : (called.reg .rsp - 1 - b).toNat = 2 ^ 64 - 1 - (b - called.reg .rsp).toNat := by
      rw [back, BitVec.toNat_sub_of_le (BitVec.le_def.mpr (by omega)), ones]
    apply isr.kept e called data b _ (by omega)
    intro member
    have high := above_stack (fits.data b member)
    have low : m.reg .rsp - 1 - b = pad + 191 - (b - called.reg .rsp) := by
      rw [rsp]
      change m.reg .rsp - 1 - b = pad + 191 - (b - (m.reg .rsp - pad - 192))
      ring
    have sum : (pad + 191).toNat = pad.toNat + 191 := by
      rw [BitVec.toNat_add]
      exact Nat.mod_eq_of_lt (show pad.toNat + 191 < 2 ^ 64 by omega)
    have value : (pad + 191 - (b - called.reg .rsp)).toNat = pad.toNat + 191 - (b - called.reg .rsp).toNat := by
      rw [BitVec.toNat_sub_of_le (BitVec.le_def.mpr (by omega)), sum]
    rw [low, value] at high
    omega
  have result : interrupt status selector offset isr e m = ⟨m.toCpu, (isr.call e called).memory⟩ := by
    rw [interrupt, ran]
    exact run_intHandlerExit status _ m.toCpu none returned
  rw [result]
  refine ⟨rfl, fun b high => ?_⟩
  obtain ⟨early, late⟩ := outside b high
  rw [IsrImpl.handle]
  dsimp only
  split
  · rename_i member
    rw [isr.written e called data b member]
    exact isr.reads e _ _ saved b member
  · rename_i other
    rw [isr.kept e called data b other late]
    exact (above b early).symm

/-! ## Runs -/

/-- An instruction of the program, or an interrupt. -/
inductive Event (ι ε : Type*) where
  | program (i : ι)
  | interrupt (e : ε)

/-- An interrupt is taken when the flag is set, and the stack has room for it. -/
def Arrives (lo : BitVec 64) (isr : IsrImpl ε) (m : Machine) : Event ι ε → Prop
  | .program _ => True
  | .interrupt _ => m.rflags &&& RFLAGS_INTR ≠ 0 ∧ Fits lo isr m

/-- The processor runs the program, and the stub when an interrupt arrives. -/
inductive Steps (status : BitVec 64 → BitVec 64 → BitVec 64) (selector : BitVec 16) (offset lo : BitVec 64)
    (isr : IsrImpl ε) (program : ι → Machine → Machine) : Machine → Event ι ε → Machine → Prop
  | program (m : Machine) (i : ι) :
    Steps status selector offset lo isr program m (.program i) (program i m)
  | interrupt (m : Machine) (e : ε) (arrives : Arrives (ι := ι) lo isr m (.interrupt e)) :
    Steps status selector offset lo isr program m (.interrupt e) (interrupt status selector offset isr e m)

/-- The program runs, and now and then the data of the C function changes. -/
inductive AtomicSteps (lo : BitVec 64) (isr : IsrImpl ε) (program : ι → Machine → Machine) :
    Machine → Event ι ε → Machine → Prop
  | program (m : Machine) (i : ι) : AtomicSteps lo isr program m (.program i) (program i m)
  | interrupt (m : Machine) (e : ε) (arrives : Arrives (ι := ι) lo isr m (.interrupt e)) :
    AtomicSteps lo isr program m (.interrupt e) (isr.handle e m)

private theorem Fits.alike (fits : Fits lo isr m) (alike : Alike lo m m') : Fits lo isr m' := by
  constructor
  · rw [← alike.cpu]
    exact fits.room
  · rw [← alike.cpu]
    exact fits.data

private theorem handle_alike (fits : Fits lo isr m) (alike : Alike lo m m') (e : ε) :
    Alike lo (isr.handle e m) (isr.handle e m') := by
  refine ⟨alike.cpu, fun b above => ?_⟩
  rw [IsrImpl.handle, IsrImpl.handle]
  dsimp only
  split
  · rename_i member
    exact isr.reads e _ _ (fun b member => alike.memory b (fits.data b member)) b member
  · exact alike.memory b above

/-- Every run of a program that does not look below its stack pointer ends, but for the bytes there, as the run in
which each interrupt is one step that changes nothing but the data of its C function. -/
theorem interrupts_atomic {program : ι → Machine → Machine} {selector : BitVec 16} {offset : BitVec 64}
    (respects : ∀ i m m', Alike lo m m' → Alike lo (program i m) (program i m')) {es : List (Event ι ε)}
    (ran : Run (Steps status selector offset lo isr program) m es t) :
    ∃ u, Run (AtomicSteps lo isr program) m es u ∧ Alike lo u t := by
  induction ran with
  | nil => exact ⟨m, .nil, .refl lo m⟩
  | @snoc t v es e _ last ih =>
    obtain ⟨u, atomic, alike⟩ := ih
    cases last with
    | program i => exact ⟨_, atomic.snoc (.program u i), respects i u t alike⟩
    | interrupt e arrives =>
      have back : Alike lo t u := ⟨alike.cpu.symm, fun b above => (alike.memory b (by rw [alike.cpu]; exact above)).symm⟩
      have fits := arrives.2.alike back
      have taken : Arrives (ι := ι) lo isr u (.interrupt e) := ⟨by rw [alike.cpu]; exact arrives.1, fits⟩
      exact ⟨_, atomic.snoc (.interrupt u e taken),
        (handle_alike fits alike e).trans (interrupt_alike selector offset arrives.2 e)⟩

/-- A C function that counts in a byte of its own. -/
def counter : IsrImpl Unit where
  call _ m := { m with memory := Function.update m.memory 0x2000 (m.memory 0x2000 + 1) }
  data := {0x2000}
  update _ memory := Function.update memory 0x2000 (memory 0x2000 + 1)
  depth := 0
  rsp _ _ := rfl
  written _ _ _ _ _ := rfl
  kept _ _ _ _ other _ := Function.update_of_ne other ..
  reads := by
    rintro _ memory memory' same b rfl
    rw [Function.update_self, Function.update_self, same 0x2000 rfl]

/-- A machine with an empty stack of four kilobytes. -/
def idle : Machine where
  reg r := if r = .rsp then 0x1000 else 0
  seg _ := 0
  rip := 0
  rflags := RFLAGS_INTR
  memory _ := 0

/-- A push looks at nothing below the stack pointer. -/
private theorem push_respects (alike : Alike lo m m') (v : BitVec 64) : Alike lo (m.pushWord v) (m'.pushWord v) := by
  obtain ⟨cpu, memory⟩ := m
  obtain ⟨_, memory'⟩ := m'
  obtain ⟨rfl, same⟩ := alike
  dsimp only at same
  refine ⟨rfl, fun b above => ?_⟩
  have lowered : ((Machine.mk cpu memory).pushWord v).reg .rsp = cpu.reg .rsp - 8 :=
    (pushWord_reg _ v .rsp).trans (if_pos rfl)
  rw [lowered] at above
  change store64 memory (cpu.reg .rsp - 8) v b = store64 memory' (cpu.reg .rsp - 8) v b
  rw [store64, store64]
  split
  · rfl
  · rename_i outside
    apply same
    have first : cpu.reg .rsp - 8 - lo = cpu.reg .rsp - lo - 8 := by ring
    have second : b - (cpu.reg .rsp - 8) = (b - lo) - (cpu.reg .rsp - lo - 8) := by ring
    rw [first] at above
    rw [second] at outside
    generalize cpu.reg .rsp - lo = x at above outside ⊢
    generalize b - lo = y at above outside ⊢
    have eight : (8 : BitVec 64).toNat = 8 := rfl
    have bound := y.isLt
    by_contra below
    rw [BitVec.toNat_sub_of_le (BitVec.le_def.mpr above)] at outside
    rw [BitVec.toNat_sub] at above outside
    omega

/-- The program pushes `rax`. -/
def pushes (_ : Unit) (m : Machine) : Machine := Instr.exec (fun flags _ => flags) m (.push .rax)

/-- A push, an interrupt and another push. -/
theorem interrupts_atomic_counter : ∃ t u,
    Run (Steps (fun flags _ => flags) 0 0 0 counter pushes) idle [.program (), .interrupt (), .program ()] t ∧
    Run (AtomicSteps 0 counter pushes) idle [.program (), .interrupt (), .program ()] u ∧ Alike 0 u t := by
  have fits : Fits 0 counter (pushes () idle) := by
    constructor
    · decide
    · rintro b rfl
      decide
  have run : Run (Steps (fun flags _ => flags) 0 0 0 counter pushes) idle [.program (), .interrupt (), .program ()] _ :=
    ((Run.single (.program idle ())).snoc (.interrupt _ () ⟨by decide, fits⟩)).snoc (.program _ ())
  have respects : ∀ (i : Unit) m m', Alike 0 m m' → Alike 0 (pushes i m) (pushes i m') := by
    intro i m m' alike
    rw [pushes, pushes, Instr.exec, Instr.exec, ← alike.cpu]
    exact push_respects alike _
  obtain ⟨u, atomic, alike⟩ := interrupts_atomic respects run
  exact ⟨_, u, run, atomic, alike⟩

end Stub

end RubberOS.Soundness.InterruptStubs
