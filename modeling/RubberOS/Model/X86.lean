import RubberOS.ToMathlib.StackWords

/-! # Machine instructions that save and restore

The instructions that `interrupt.asm` and `context.asm` are written in, on the state of a processor in long mode at
ring 0. What an arithmetic instruction makes of the status flags is a parameter. A routine is the list of its
instructions, which are straight-line code, so `rip` is left where the routine was entered from until `iretq` loads it.
-/

namespace RubberOS.Model.X86

open StackWords

inductive Reg where
  | rax | rbx | rcx | rdx | rsi | rdi | rbp | rsp | r8 | r9 | r10 | r11 | r12 | r13 | r14 | r15
deriving DecidableEq, Repr

inductive Seg where
  | cs | ss | ds | es | fs | gs
deriving DecidableEq, Repr

/-- The registers, with the selectors of the segment registers. -/
structure Cpu where
  reg : Reg → BitVec 64
  seg : Seg → BitVec 16
  rip : BitVec 64
  rflags : BitVec 64

structure Machine extends Cpu where
  memory : Bytes

def RFLAGS_TRAP : BitVec 64 := 1 <<< 8

def RFLAGS_INTR : BitVec 64 := 1 <<< 9

/-- The other flags that the delivery of an interrupt clears: NT, RF and VM. -/
def RFLAGS_NESTED : BitVec 64 := 1 <<< 14 ||| 1 <<< 16 ||| 1 <<< 17

/-- CF, PF, AF, ZF, SF and OF. -/
def STATUS_FLAGS : BitVec 64 := 0x8d5

inductive Instr where
  | push (r : Reg)
  | pop (r : Reg)
  | pushSeg (s : Seg)
  | popSeg (s : Seg)
  | pushfq
  | cli
  | iretq
  /-- `mov r, r'`. -/
  | mov (r r' : Reg)
  /-- `mov r, s` with the low 16 bits of `r`. -/
  | movFromSeg (r : Reg) (s : Seg)
  /-- `mov s, r` with the low 16 bits of `r`. -/
  | movToSeg (s : Seg) (r : Reg)
  /-- `mov [base + disp], r`. -/
  | store (base : Reg) (disp : BitVec 64) (r : Reg)
  /-- `mov r, [base + disp]`. -/
  | load (r base : Reg) (disp : BitVec 64)
  /-- `xor r, r`. -/
  | clear (r : Reg)
  /-- `add r, imm`. -/
  | add (r : Reg) (imm : BitVec 64)
deriving DecidableEq, Repr

def Machine.set (m : Machine) (r : Reg) (v : BitVec 64) : Machine := { m with reg := Function.update m.reg r v }

def Machine.setSeg (m : Machine) (s : Seg) (v : BitVec 16) : Machine := { m with seg := Function.update m.seg s v }

/-- An arithmetic instruction sets the status flags and no others. -/
def Machine.setStatus (m : Machine) (flags : BitVec 64) : Machine :=
  { m with rflags := m.rflags &&& ~~~STATUS_FLAGS ||| flags &&& STATUS_FLAGS }

def Machine.pushWord (m : Machine) (v : BitVec 64) : Machine :=
  { m.set .rsp (m.reg .rsp - 8) with memory := store64 m.memory (m.reg .rsp - 8) v }

/-- The word on top of the stack. -/
def Machine.top (m : Machine) : BitVec 64 := load64 m.memory (m.reg .rsp)

/-- The stack without its top word. -/
def Machine.drop (m : Machine) : Machine := m.set .rsp (m.reg .rsp + 8)

/-- A selector as a quadword. -/
def quad (s : BitVec 16) : BitVec 64 := s.setWidth 64

section Exec

variable (status : BitVec 64 → BitVec 64 → BitVec 64)

/-- Selectors are loaded without the checks of the processor: these are for code whose selectors name segments of the
descriptor table, so that neither a load of a segment register nor `iretq` faults. -/
def Instr.exec (m : Machine) : Instr → Machine
  | .push r => m.pushWord (m.reg r)
  | .pop r => m.drop.set r m.top
  | .pushSeg s => m.pushWord (quad (m.seg s))
  | .popSeg s => m.drop.setSeg s (m.top.setWidth 16)
  | .pushfq => m.pushWord m.rflags
  | .cli => { m with rflags := m.rflags &&& ~~~RFLAGS_INTR }
  | .iretq =>
    let m := { m.drop with rip := m.top }
    let m := m.drop.setSeg .cs (m.top.setWidth 16)
    let m := { m.drop with rflags := m.top }
    let rsp := m.top
    (m.drop.setSeg .ss (m.drop.top.setWidth 16)).set .rsp rsp
  | .mov r r' => m.set r (m.reg r')
  | .movFromSeg r s => m.set r ((m.reg r).extractLsb' 16 48 ++ m.seg s)
  | .movToSeg s r => m.setSeg s ((m.reg r).setWidth 16)
  | .store base disp r => { m with memory := store64 m.memory (m.reg base + disp) (m.reg r) }
  | .load r base disp => m.set r (load64 m.memory (m.reg base + disp))
  | .clear r => (m.set r 0).setStatus (status m.rflags 0)
  | .add r imm => (m.set r (m.reg r + imm)).setStatus (status m.rflags (m.reg r + imm))

def run (code : List Instr) (m : Machine) : Machine := code.foldl (Instr.exec status) m

/-! ## Saving and restoring -/

def pushAll : List Instr :=
  [.push .rbp, .push .rax, .push .rbx, .push .rcx, .push .rdx, .push .rdi, .push .rsi, .push .r8, .push .r9,
   .push .r10, .push .r11, .push .r12, .push .r13, .push .r14, .push .r15,
   .clear .rax, .movFromSeg .rax .ds, .push .rax, .movFromSeg .rax .es, .push .rax, .pushSeg .fs, .pushSeg .gs]

def popAll : List Instr :=
  [.popSeg .gs, .popSeg .fs, .pop .rax, .movToSeg .es .rax, .pop .rax, .movToSeg .ds .rax,
   .pop .r15, .pop .r14, .pop .r13, .pop .r12, .pop .r11, .pop .r10, .pop .r9, .pop .r8, .pop .rsi, .pop .rdi,
   .pop .rdx, .pop .rcx, .pop .rbx, .pop .rax, .pop .rbp]

/-- `ISR_STACKFRAME_PUSH`, from the lowest address on. -/
def isrStackframePush (c : Cpu) : List (BitVec 64) :=
  [quad (c.seg .gs), quad (c.seg .fs), quad (c.seg .es), quad (c.seg .ds), c.reg .r15, c.reg .r14, c.reg .r13,
   c.reg .r12, c.reg .r11, c.reg .r10, c.reg .r9, c.reg .r8, c.reg .rsi, c.reg .rdi, c.reg .rdx, c.reg .rcx,
   c.reg .rbx, c.reg .rax, c.reg .rbp]

/-- `ISR_STACKFRAME_IRETQ`. -/
def isrStackframeIretq (c : Cpu) : List (BitVec 64) := [c.rip, quad (c.seg .cs), c.rflags, c.reg .rsp, quad (c.seg .ss)]

/-- `struct isr_stackframe`, or `struct isr_stackframe_ec` with the error code. -/
def isrStackframe (c : Cpu) (errorCode : Option (BitVec 64)) : List (BitVec 64) :=
  isrStackframePush c ++ (errorCode.toList ++ isrStackframeIretq c)

/-- What the processor does when it delivers an interrupt through a gate to a handler in ring 0: `stack` is the stack
that the gate names in the task state segment, if it names one. -/
def deliver (m : Machine) (selector : BitVec 16) (offset : BitVec 64) (stack errorCode : Option (BitVec 64)) : Machine :=
  let rsp := stack.getD (m.reg .rsp) &&& ~~~15
  let pushed := (((((m.set .rsp rsp).pushWord (quad (m.seg .ss))).pushWord (m.reg .rsp)).pushWord
    m.rflags).pushWord (quad (m.seg .cs))).pushWord m.rip
  let pushed := match errorCode with
    | some code => pushed.pushWord code
    | none => pushed
  { pushed.setSeg .cs selector with
    rip := offset, rflags := m.rflags &&& ~~~(RFLAGS_TRAP ||| RFLAGS_INTR ||| RFLAGS_NESTED) }

/-- The stub up to the call of `isr_impl`. -/
def intHandlerEntry : List Instr := pushAll ++ [.mov .rdi .rsp]

/-- The rest of the stub of `int_handler`, or of `int_handler_err` for the vectors with an error code. -/
def intHandlerExit (errorCode : Bool) : List Instr :=
  popAll ++ (if errorCode then [.add .rsp 8] else []) ++ [.iretq]

/-! ## Contexts -/

/-- `context_switch`, called with the contexts in `rdi` and `rsi`. The source spells `push_all` and `pop_all` out. -/
def contextSwitch : List Instr :=
  [.push .rbp, .mov .rbp .rsp,
   .push .rax, .pushfq, .cli,
   .clear .rax, .movFromSeg .rax .ss, .store .rdi (23 * 8) .rax,
   .mov .rax .rbp, .add .rax 16, .store .rdi (22 * 8) .rax,
   .pop .rax, .store .rdi (21 * 8) .rax,
   .clear .rax, .movFromSeg .rax .cs, .store .rdi (20 * 8) .rax,
   .load .rax .rbp 8, .store .rdi (19 * 8) .rax,
   .pop .rax, .pop .rbp,
   .mov .rsp .rdi, .add .rsp (19 * 8)] ++ pushAll ++
  [.mov .rsp .rsi] ++ popAll ++ [.iretq]

/-- `struct context`. -/
def context (c : Cpu) : List (BitVec 64) := isrStackframePush c ++ isrStackframeIretq c

end Exec

end RubberOS.Model.X86
