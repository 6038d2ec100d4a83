import RubberOS.Proofs.X86
import RubberOS.ToMathlib.LabelledRuns

/-! # Switching between contexts

Every task has a `struct context`. A task that calls `context_switch` leaves its registers in its own, and goes on when
some other task switches to it: for the task the call has then returned, and no register has changed. However many
tasks there are and in whichever order they switch, each finds the registers that it had.
-/

namespace RubberOS.Soundness.ContextSwitch

open Model.X86 StackWords LabelledRuns

/-- The registers after the call from which they are saved has returned. -/
def returned (m : Machine) : Cpu :=
  { m.toCpu with reg := Function.update m.reg .rsp (m.reg .rsp + 8), rip := m.top }

/-! ## Saving -/

/-- These are three registers and the memory, and the flags are any; the others are as at the call. -/
structure Scratch (m : Machine) (rax rbp rsp : BitVec 64) (memory : Bytes) (s : Machine) : Prop where
  rax : s.reg .rax = rax
  rbp : s.reg .rbp = rbp
  rsp : s.reg .rsp = rsp
  others : ∀ r, r ≠ .rax → r ≠ .rbp → r ≠ .rsp → s.reg r = m.reg r
  seg : s.seg = m.seg
  memory : s.memory = memory

section Saving

variable (status : BitVec 64 → BitVec 64 → BitVec 64) {m s : Machine} {rax rbp rsp : BitVec 64} {memory : Bytes}

private theorem Scratch.pushRax (scratch : Scratch m rax rbp rsp memory s) :
    Scratch m rax rbp (rsp - 8) (store64 memory (rsp - 8) rax) (Instr.exec status s (.push .rax)) := by
  obtain ⟨rfl, rfl, rfl, others, seg, rfl⟩ := scratch
  refine ⟨by simp [Instr.exec], by simp [Instr.exec], by simp [Instr.exec], fun r a b c => ?_, seg, rfl⟩
  simp [Instr.exec, others r a b c, c]

private theorem Scratch.pushfq (scratch : Scratch m rax rbp rsp memory s) (flags : s.rflags = m.rflags) :
    Scratch m rax rbp (rsp - 8) (store64 memory (rsp - 8) m.rflags) (Instr.exec status s .pushfq) := by
  obtain ⟨rfl, rfl, rfl, others, seg, rfl⟩ := scratch
  refine ⟨by simp [Instr.exec], by simp [Instr.exec], by simp [Instr.exec], fun r a b c => ?_, seg, ?_⟩
  · simp [Instr.exec, others r a b c, c]
  · rw [Instr.exec, flags]
    rfl

private theorem Scratch.cli (scratch : Scratch m rax rbp rsp memory s) :
    Scratch m rax rbp rsp memory (Instr.exec status s .cli) :=
  ⟨scratch.rax, scratch.rbp, scratch.rsp, scratch.others, scratch.seg, scratch.memory⟩

/-- `xor rax, rax` and `mov ax, x`. -/
private theorem Scratch.selector (scratch : Scratch m rax rbp rsp memory s) (x : Seg) :
    Scratch m (quad (m.seg x)) rbp rsp memory
      (Instr.exec status (Instr.exec status s (.clear .rax)) (.movFromSeg .rax x)) := by
  have cleared : (Instr.exec status s (.clear .rax)).reg .rax = quad 0 := (set_reg s .rax .rax 0).trans (if_pos rfl)
  rw [movFromSeg_quad cleared]
  refine ⟨?_, ?_, ?_, fun r a b c => ?_, scratch.seg, scratch.memory⟩
  · rw [← scratch.seg]
    exact (set_reg ..).trans (if_pos rfl)
  · exact (set_reg ..).trans ((set_reg s .rax .rbp 0).trans scratch.rbp)
  · exact (set_reg ..).trans ((set_reg s .rax .rsp 0).trans scratch.rsp)
  · exact ((set_reg ..).trans (if_neg a)).trans (((set_reg s .rax r 0).trans (if_neg a)).trans (scratch.others r a b c))

private theorem Scratch.store (scratch : Scratch m rax rbp rsp memory s) (d : BitVec 64) :
    Scratch m rax rbp rsp (store64 memory (m.reg .rdi + d) rax) (Instr.exec status s (.store .rdi d .rax)) := by
  obtain ⟨rfl, rfl, rfl, others, seg, rfl⟩ := scratch
  refine ⟨rfl, rfl, rfl, others, seg, ?_⟩
  rw [Instr.exec, others .rdi (by decide) (by decide) (by decide)]

/-- `mov rax, v`, whatever the source of `v`. -/
private theorem Scratch.set (scratch : Scratch m rax rbp rsp memory s) (v : BitVec 64) :
    Scratch m v rbp rsp memory (s.set .rax v) := by
  obtain ⟨rfl, rfl, rfl, others, seg, rfl⟩ := scratch
  refine ⟨by simp, by simp, by simp, fun r a b c => ?_, seg, rfl⟩
  rw [set_reg, if_neg a, others r a b c]

private theorem Scratch.popRax (scratch : Scratch m rax rbp rsp memory s) :
    Scratch m (load64 memory rsp) rbp (rsp + 8) memory (Instr.exec status s (.pop .rax)) := by
  obtain ⟨rfl, rfl, rfl, others, seg, rfl⟩ := scratch
  refine ⟨?_, by simp [Instr.exec, Machine.drop], by simp [Instr.exec, Machine.drop], fun r a b c => ?_, seg, rfl⟩
  · exact (set_reg ..).trans (if_pos rfl)
  · simp [Instr.exec, Machine.drop, others r a b c, a, c]

private theorem Scratch.popRbp (scratch : Scratch m rax rbp rsp memory s) :
    Scratch m rax (load64 memory rsp) (rsp + 8) memory (Instr.exec status s (.pop .rbp)) := by
  obtain ⟨rfl, rfl, rfl, others, seg, rfl⟩ := scratch
  refine ⟨by simp [Instr.exec, Machine.drop], ?_, by simp [Instr.exec, Machine.drop], fun r a b c => ?_, seg, rfl⟩
  · exact (set_reg ..).trans (if_pos rfl)
  · simp [Instr.exec, Machine.drop, others r a b c, b, c]

private theorem Scratch.setStatus (scratch : Scratch m rax rbp rsp memory s) (flags : BitVec 64) :
    Scratch m rax rbp rsp memory (s.setStatus flags) :=
  ⟨scratch.rax, scratch.rbp, scratch.rsp, scratch.others, scratch.seg, scratch.memory⟩

private theorem Scratch.movRbp (scratch : Scratch m rax rbp rsp memory s) :
    Scratch m rbp rbp rsp memory (Instr.exec status s (.mov .rax .rbp)) := by
  rw [Instr.exec, scratch.rbp]
  exact scratch.set rbp

private theorem Scratch.add (scratch : Scratch m rax rbp rsp memory s) (imm : BitVec 64) :
    Scratch m (rax + imm) rbp rsp memory (Instr.exec status s (.add .rax imm)) := by
  rw [Instr.exec, scratch.rax]
  exact (scratch.set (rax + imm)).setStatus _

private theorem Scratch.load (scratch : Scratch m rax rbp rsp memory s) (d : BitVec 64) :
    Scratch m (load64 memory (rbp + d)) rbp rsp memory (Instr.exec status s (.load .rax .rbp d)) := by
  rw [Instr.exec, scratch.rbp, scratch.memory]
  exact scratch.set _

/-- The part of `context_switch` that saves what `iretq` loads. -/
def saveIretq : List Instr :=
  [.push .rbp, .mov .rbp .rsp, .push .rax, .pushfq, .cli,
   .clear .rax, .movFromSeg .rax .ss, .store .rdi (23 * 8) .rax,
   .mov .rax .rbp, .add .rax 16, .store .rdi (22 * 8) .rax,
   .pop .rax, .store .rdi (21 * 8) .rax,
   .clear .rax, .movFromSeg .rax .cs, .store .rdi (20 * 8) .rax,
   .load .rax .rbp 8, .store .rdi (19 * 8) .rax,
   .pop .rax, .pop .rbp, .mov .rsp .rdi, .add .rsp (19 * 8)]

private theorem contextSwitch_split :
    contextSwitch = saveIretq ++ (pushAll ++ (.mov .rsp .rsi :: intHandlerExit false)) := rfl

/-- The three words that the call itself needs on the stack, above them the return address. -/
private theorem stack_words (m : Machine) : Words
    (store64 (store64 (store64 m.memory (m.reg .rsp - 8) (m.reg .rbp)) (m.reg .rsp - 8 - 8) (m.reg .rax))
      (m.reg .rsp - 8 - 8 - 8) m.rflags)
    (m.reg .rsp - 8 - 8 - 8) [m.rflags, m.reg .rax, m.reg .rbp, m.top] := by
  have top : Words m.memory (m.reg .rsp) [m.top] := ⟨rfl, trivial⟩
  have one := top.push (by simp) (m.reg .rbp)
  have two := one.push (by simp) (m.reg .rax)
  exact two.push (by simp) m.rflags

/-- Five quadwords, stored from the highest on. -/
private theorem stored_words (memory : Bytes) (f a b c d e : BitVec 64) :
    Words (store64 (store64 (store64 (store64 (store64 memory (f + 23 * 8) a) (f + 22 * 8) b) (f + 21 * 8) c)
      (f + 20 * 8) d) (f + 19 * 8) e) (f + 19 * 8) [e, d, c, b, a] := by
  have first : f + 22 * 8 = f + 23 * 8 - 8 := by ring
  have second : f + 21 * 8 = f + 23 * 8 - 8 - 8 := by ring
  have third : f + 20 * 8 = f + 23 * 8 - 8 - 8 - 8 := by ring
  have fourth : f + 19 * 8 = f + 23 * 8 - 8 - 8 - 8 - 8 := by ring
  rw [first, second, third, fourth]
  generalize f + 23 * 8 = top
  have one : Words (store64 memory top a) top [a] := ⟨load64_store64 .., trivial⟩
  have two := one.push (by simp) b
  have three := two.push (by simp) c
  have four := three.push (by simp) d
  exact four.push (by simp) e

private theorem stored_outside (memory : Bytes) (f a b c d e x : BitVec 64) (outside : 192 ≤ (x - f).toNat) :
    (store64 (store64 (store64 (store64 (store64 memory (f + 23 * 8) a) (f + 22 * 8) b) (f + 21 * 8) c)
      (f + 20 * 8) d) (f + 19 * 8) e) x = memory x := by
  have far (d : BitVec 64) (inside : d.toNat + 8 ≤ 192) : 8 ≤ (x - (f + d)).toNat :=
    outside_part outside inside (by decide)
  rw [store64_outside (far (19 * 8) (by decide)), store64_outside (far (20 * 8) (by decide)),
    store64_outside (far (21 * 8) (by decide)), store64_outside (far (22 * 8) (by decide)),
    store64_outside (far (23 * 8) (by decide))]

/-- Outside of the words below a stack pointer. -/
private theorem above_of_outside {sp b : BitVec 64} (outside : 24 ≤ (b - (sp - 24)).toNat) :
    24 ≤ (sp - 1 - b).toNat := by
  have split : sp - 1 - b = 23 - (b - (sp - 24)) := by ring
  have bound := (b - (sp - 24)).isLt
  have offset : (23 : BitVec 64).toNat = 23 := rfl
  rw [split, BitVec.toNat_sub]
  omega

private theorem mov_reg (m : Machine) (r r' r'' : Reg) :
    (Instr.exec status m (.mov r r')).reg r'' = if r'' = r then m.reg r' else m.reg r'' := set_reg ..

private theorem add_reg (m : Machine) (r r' : Reg) (imm : BitVec 64) :
    (Instr.exec status m (.add r imm)).reg r' = if r' = r then m.reg r + imm else m.reg r' :=
  set_reg m r r' (m.reg r + imm)

private theorem run_saveIretq (m : Machine)
    (apart : Apart (m.reg .rsp - 24) 32 (m.reg .rdi) 192) : ∃ s, run status saveIretq m = s ∧
      (∀ r, r ≠ .rsp → s.reg r = m.reg r) ∧ s.reg .rsp = m.reg .rdi + 19 * 8 ∧ s.seg = m.seg ∧
      Stacked s (isrStackframeIretq (returned m)) ∧
      ∀ b, 192 ≤ (b - m.reg .rdi).toNat → 24 ≤ (m.reg .rsp - 1 - b).toNat → s.memory b = m.memory b := by
  have low : m.reg .rsp - 24 = m.reg .rsp - 8 - 8 - 8 := by ring
  rw [low] at apart
  have words := stack_words m
  let stack := store64 (store64 (store64 m.memory (m.reg .rsp - 8) (m.reg .rbp)) (m.reg .rsp - 8 - 8) (m.reg .rax))
    (m.reg .rsp - 8 - 8 - 8) m.rflags
  -- no store into the context reaches the words on the stack
  have beside (d : BitVec 64) (inside : d.toNat + 8 ≤ 192) :
      Apart (m.reg .rsp - 8 - 8 - 8) 32 (m.reg .rdi + d) 8 := by
    have part : Apart (m.reg .rsp - 8 - 8 - 8 + 0) 32 (m.reg .rdi + d) 8 :=
      apart.part (by decide) inside (by decide) (by decide)
    rw [add_zero] at part
    exact part
  let ss := store64 stack (m.reg .rdi + 23 * 8) (quad (m.seg .ss))
  let rsp := store64 ss (m.reg .rdi + 22 * 8) (m.reg .rsp + 8)
  let rflags := store64 rsp (m.reg .rdi + 21 * 8) m.rflags
  let cs := store64 rflags (m.reg .rdi + 20 * 8) (quad (m.seg .cs))
  let rip := store64 cs (m.reg .rdi + 19 * 8) m.top
  have wordsSs : Words ss _ _ := words.store_apart (by simp) (beside (23 * 8) (by decide)) _
  have wordsRsp : Words rsp _ _ := wordsSs.store_apart (by simp) (beside (22 * 8) (by decide)) _
  have wordsRflags : Words rflags _ _ := wordsRsp.store_apart (by simp) (beside (21 * 8) (by decide)) _
  have wordsCs : Words cs _ _ := wordsRflags.store_apart (by simp) (beside (20 * 8) (by decide)) _
  have wordsRip : Words rip _ _ := wordsCs.store_apart (by simp) (beside (19 * 8) (by decide)) _
  have start : Scratch m (m.reg .rax) (m.reg .rsp - 8) (m.reg .rsp - 8) (store64 m.memory (m.reg .rsp - 8) (m.reg .rbp))
      (run status [.push .rbp, .mov .rbp .rsp] m) := by
    refine ⟨?_, ?_, ?_, fun r a b c => ?_, rfl, rfl⟩
    · exact (set_reg ..).trans (pushWord_reg ..)
    · exact (set_reg ..).trans (pushWord_reg ..)
    · exact (set_reg ..).trans (pushWord_reg ..)
    · exact ((set_reg ..).trans (if_neg b)).trans ((pushWord_reg ..).trans (if_neg c))
  have flags : (Instr.exec status (run status [.push .rbp, .mov .rbp .rsp] m) (.push .rax)).rflags = m.rflags := rfl
  have savedSs := ((((start.pushRax status).pushfq status flags).cli status).selector status .ss).store status (23 * 8)
  have savedRsp := ((savedSs.movRbp status).add status 16).store status (22 * 8)
  have next : m.reg .rsp - 8 + 16 = m.reg .rsp + 8 := by ring
  rw [next] at savedRsp
  have flagsPopped : Scratch m _ _ _ rsp _ := savedRsp.popRax status
  rw [wordsRsp.1] at flagsPopped
  have savedRflags := flagsPopped.store status (21 * 8)
  have savedCs := (savedRflags.selector status .cs).store status (20 * 8)
  have ret : load64 cs (m.reg .rsp - 8 + 8) = m.top := by
    have fourth := wordsCs.2.2.2.1
    rw [← fourth]
    congr 1
    ring
  have loaded : Scratch m (load64 cs (m.reg .rsp - 8 + 8)) _ _ cs _ := savedCs.load status 8
  rw [ret] at loaded
  have raxPopped : Scratch m (load64 rip (m.reg .rsp - 8 - 8 - 8 + 8)) _ _ rip _ :=
    (loaded.store status (19 * 8)).popRax status
  rw [wordsRip.2.1] at raxPopped
  have rbpPopped : Scratch m _ (load64 rip (m.reg .rsp - 8 - 8 - 8 + 8 + 8)) _ rip _ := raxPopped.popRbp status
  rw [wordsRip.2.2.1] at rbpPopped
  have saved : Scratch m (m.reg .rax) (m.reg .rbp) (m.reg .rsp - 8 - 8 - 8 + 8 + 8 + 8) rip
      (run status (saveIretq.take 20) m) := rbpPopped
  have ran : run status saveIretq m = Instr.exec status
      (Instr.exec status (run status (saveIretq.take 20) m) (.mov .rsp .rdi)) (.add .rsp (19 * 8)) := rfl
  rw [ran]
  generalize run status (saveIretq.take 20) m = u at saved
  have rdi : u.reg .rdi = m.reg .rdi := saved.others .rdi (by decide) (by decide) (by decide)
  have top : m.reg .rsp - 8 - 8 - 8 + 8 + 8 + 8 = m.reg .rsp := by ring
  have rspAdded : (Instr.exec status (Instr.exec status u (.mov .rsp .rdi)) (.add .rsp (19 * 8))).reg .rsp =
      m.reg .rdi + 19 * 8 := by
    rw [add_reg, if_pos rfl, mov_reg, if_pos rfl, rdi]
  have memory : (Instr.exec status (Instr.exec status u (.mov .rsp .rdi)) (.add .rsp (19 * 8))).memory = rip :=
    saved.memory
  refine ⟨_, rfl, fun r stack => ?_, rspAdded, saved.seg, ?_, fun b context below => ?_⟩
  · have kept : u.reg r = m.reg r := by
      by_cases a : r = .rax
      · rw [a, saved.rax]
      · by_cases b : r = .rbp
        · rw [b, saved.rbp]
        · exact saved.others r a b stack
    rw [add_reg, if_neg stack, mov_reg, if_neg stack, kept]
  · rw [Stacked, rspAdded, memory]
    have frame := stored_words stack (m.reg .rdi) (quad (m.seg .ss)) (m.reg .rsp + 8) m.rflags (quad (m.seg .cs)) m.top
    have words : isrStackframeIretq (returned m) =
        [m.top, quad (m.seg .cs), m.rflags, m.reg .rsp + 8, quad (m.seg .ss)] := by
      simp [isrStackframeIretq, returned]
    rw [words]
    exact frame
  · have pushes : Grown m (((m.pushWord (m.reg .rbp)).pushWord (m.reg .rax)).pushWord m.rflags)
        [m.rflags, m.reg .rax, m.reg .rbp] :=
      ((grown_pushWord m (m.reg .rbp)).pushWord rfl rfl (m.reg .rax) (by simp)).pushWord rfl rfl m.rflags (by simp)
    rw [memory]
    exact (stored_outside stack _ _ _ _ _ _ b context).trans (pushes.sameAbove (by simp) b below)

/-! ## The switch -/

/-- A call of `context_switch`: the first context gets the registers of the caller, who will find them as they are when
the call returns, and the registers are those in the second context. -/
private theorem run_contextSwitch (m : Machine) (c : Cpu) (stack : Apart (m.reg .rsp - 24) 32 (m.reg .rdi) 192)
    (stored : m.reg .rsi = m.reg .rdi ∧ c = returned m ∨ Apart (m.reg .rsi) 192 (m.reg .rdi) 192 ∧
      Apart (m.reg .rsi) 192 (m.reg .rsp - 24) 24 ∧ Words m.memory (m.reg .rsi) (context c)) : ∃ memory,
      run status contextSwitch m = ⟨c, memory⟩ ∧ Words memory (m.reg .rdi) (context (returned m)) ∧
      ∀ b, 192 ≤ (b - m.reg .rdi).toNat → 24 ≤ (m.reg .rsp - 1 - b).toNat → memory b = m.memory b := by
  obtain ⟨s, ran, regs, rsp, seg, iretq, outside⟩ := run_saveIretq status m stack
  obtain ⟨grown, regs', _, _, _⟩ := run_pushAll status s
  rw [contextSwitch_split, run_append, ran, run_append, run_cons]
  generalize run status pushAll s = t at grown regs'
  have pushed : isrStackframePush s.toCpu = isrStackframePush (returned m) := by
    have other (r : Reg) (apart : r ≠ .rsp) : s.reg r = (returned m).reg r := by
      rw [regs r apart, returned]
      exact (Function.update_of_ne apart ..).symm
    have same : s.seg = (returned m).seg := seg
    simp only [isrStackframePush, other, same, ne_eq, reduceCtorEq, not_false_eq_true]
  rw [pushed] at grown
  have low : t.reg .rsp = m.reg .rdi := by
    rw [grown.rsp, rsp]
    change m.reg .rdi + 19 * 8 - 152 = m.reg .rdi
    ring
  have saved : Words t.memory (m.reg .rdi) (context (returned m)) := by
    have words := grown.stacked _ (by simp [isrStackframePush, isrStackframeIretq]) iretq
    rw [Stacked, low] at words
    exact words
  have kept (b : BitVec 64) (far : 192 ≤ (b - m.reg .rdi).toNat) (below : 24 ≤ (m.reg .rsp - 1 - b).toNat) :
      t.memory b = m.memory b := by
    refine (grown.sameAbove (by simp [isrStackframePush]) b ?_).trans (outside b far below)
    rw [rsp]
    change 152 ≤ (m.reg .rdi + 19 * 8 - 1 - b).toNat
    have split : m.reg .rdi + 19 * 8 - 1 - b = 151 - (b - m.reg .rdi) := by ring
    have bound := (b - m.reg .rdi).isLt
    have offset : (151 : BitVec 64).toNat = 151 := rfl
    rw [split, BitVec.toNat_sub]
    omega
  have rsi : t.reg .rsi = m.reg .rsi := (regs' .rsi (by decide) (by decide)).trans (regs .rsi (by decide))
  have next : Stacked (Instr.exec status t (.mov .rsp .rsi)) (isrStackframe c none) := by
    rw [Stacked, mov_reg, if_pos rfl, rsi]
    change Words t.memory (m.reg .rsi) (context c)
    rcases stored with ⟨same, rfl⟩ | ⟨apart, beside, words⟩
    · rw [same]
      exact saved
    · apply words_congr (by simp [context, isrStackframePush, isrStackframeIretq]) _ words
      intro b inside
      exact kept b (apart b inside) (above_of_outside (beside b inside))
  exact ⟨t.memory, run_intHandlerExit status _ c none next, saved, kept⟩

end Saving

/-! ## Runs -/

/-- The machine, the task that runs on it, and the registers that each task has: those of a task that does not run are
a record of what its own instructions have left. -/
structure Tasks (τ : Type*) where
  machine : Machine
  current : τ
  cpu : τ → Cpu

inductive Event (τ : Type*) where
  /-- The running task goes on to this state. -/
  | compute (machine : Machine)
  | contextSwitch (next : τ)

section Runs

variable {τ : Type*} [DecidableEq τ] {status : BitVec 64 → BitVec 64 → BitVec 64} {addr : τ → BitVec 64}
  {s t : Tasks τ} {es : List (Event τ)}

/-- A task leaves the contexts of the others alone, and calls with its own context and another task's, from a stack
that is in none of them. -/
def Allowed (addr : τ → BitVec 64) (s : Tasks τ) : Event τ → Prop
  | .compute machine => ∀ t ≠ s.current, ∀ b, (b - addr t).toNat < 192 → machine.memory b = s.machine.memory b
  | .contextSwitch next => s.machine.reg .rdi = addr s.current ∧ s.machine.reg .rsi = addr next ∧
      ∀ t, Apart (s.machine.reg .rsp - 24) 32 (addr t) 192

def Tasks.exec (status : BitVec 64 → BitVec 64 → BitVec 64) (s : Tasks τ) : Event τ → Tasks τ
  | .compute machine => { s with machine, cpu := Function.update s.cpu s.current machine.toCpu }
  | .contextSwitch next =>
    { machine := run status contextSwitch s.machine
      current := next
      cpu := Function.update s.cpu s.current (returned s.machine) }

def Steps (status : BitVec 64 → BitVec 64 → BitVec 64) (addr : τ → BitVec 64) (s : Tasks τ) (e : Event τ)
    (t : Tasks τ) : Prop := Allowed addr s e ∧ t = s.exec status e

/-- The processor has the registers of the running task, and the contexts those of the others. -/
structure Kept (addr : τ → BitVec 64) (s : Tasks τ) : Prop where
  running : s.machine.toCpu = s.cpu s.current
  waiting : ∀ t ≠ s.current, Words s.machine.memory (addr t) (context (s.cpu t))

/-- The contexts do not overlap. -/
def Separate (addr : τ → BitVec 64) : Prop := ∀ t u, t ≠ u → Apart (addr t) 192 (addr u) 192

/-- A switch, and what it leaves alone. -/
private theorem Kept.contextSwitch {next : τ} (separate : Separate addr) (kept : Kept addr s)
    (allowed : Allowed addr s (.contextSwitch next)) : Kept addr (s.exec status (.contextSwitch next)) ∧
      ∀ b, 192 ≤ (b - addr s.current).toNat → 24 ≤ (s.machine.reg .rsp - 1 - b).toNat →
        (s.exec status (.contextSwitch next)).machine.memory b = s.machine.memory b := by
  obtain ⟨rdi, rsi, stack⟩ := allowed
  have below (t : τ) : Apart (addr t) 192 (s.machine.reg .rsp - 24) 24 := by
    intro x inside
    exact Nat.le_trans (by decide) ((stack t).symm x inside)
  obtain ⟨memory, ran, saved, outside⟩ := run_contextSwitch status s.machine
    (Function.update s.cpu s.current (returned s.machine) next) (by rw [rdi]; exact stack s.current) (by
      rw [rdi, rsi]
      rcases eq_or_ne next s.current with rfl | apart
      · exact .inl ⟨rfl, Function.update_self ..⟩
      · rw [Function.update_of_ne apart]
        exact .inr ⟨separate next s.current apart, below next, kept.waiting next apart⟩)
  rw [rdi] at saved outside
  rw [Tasks.exec, ran]
  refine ⟨⟨rfl, fun t apart => ?_⟩, outside⟩
  dsimp only at apart ⊢
  rcases eq_or_ne t s.current with rfl | other
  · rw [Function.update_self]
    exact saved
  · rw [Function.update_of_ne other]
    apply words_congr (by simp [context, isrStackframePush, isrStackframeIretq]) _ (kept.waiting t other)
    intro b inside
    exact outside b (separate t s.current other b inside) (above_of_outside (below t b inside))

private theorem Kept.step (separate : Separate addr) (kept : Kept addr s) {e : Event τ}
    (step : Steps status addr s e t) :
    Kept addr t := by
  obtain ⟨allowed, rfl⟩ := step
  cases e with
  | contextSwitch next => exact (kept.contextSwitch separate allowed).1
  | compute machine =>
    refine ⟨(Function.update_self s.current machine.toCpu s.cpu).symm, fun t apart => ?_⟩
    change t ≠ s.current at apart
    rw [Tasks.exec]
    dsimp only
    rw [Function.update_of_ne apart]
    exact words_congr (by simp [context, isrStackframePush, isrStackframeIretq]) (allowed t apart) (kept.waiting t apart)

/-- However the tasks of a system compute and switch to each other: in every state the processor has the registers of
the running task, and every other task is left in its context with exactly the registers that its last call of
`context_switch` returns with. A switch changes no memory but the caller's context and 24 bytes of its stack. -/
theorem tasks_keep_registers (separate : Separate addr) (start : Kept addr s) (ran : Run (Steps status addr) s es t) :
    t.machine.toCpu = t.cpu t.current ∧
    (∀ u ≠ t.current, Words t.machine.memory (addr u) (context (t.cpu u))) ∧
    ∀ next, Allowed addr t (.contextSwitch next) →
      (t.exec status (.contextSwitch next)).machine.toCpu =
        (if next = t.current then returned t.machine else t.cpu next) ∧
      ∀ b, 192 ≤ (b - addr t.current).toNat → 24 ≤ (t.machine.reg .rsp - 1 - b).toNat →
        (t.exec status (.contextSwitch next)).machine.memory b = t.machine.memory b := by
  have kept : Kept addr t := ran.invariant (I := Kept addr) start fun _ _ _ kept step => kept.step separate step
  refine ⟨kept.running, kept.waiting, fun next allowed => ?_⟩
  obtain ⟨after, outside⟩ := kept.contextSwitch separate allowed
  exact ⟨after.running.trans (Function.update_apply ..), outside⟩

/-- Memory with quadwords from an address on. -/
def image : BitVec 64 → List (BitVec 64) → Bytes
  | _, [] => fun _ => 0
  | a, w :: ws => store64 (image (a + 8) ws) a w

private theorem words_image {a : BitVec 64} {ws : List (BitVec 64)} (room : 8 * ws.length < 2 ^ 64) :
    Words (image a ws) a ws := by
  induction ws generalizing a with
  | nil => exact trivial
  | cons w ws ih =>
    rw [List.length_cons] at room
    have words := (@ih (a + 8) (by omega)).push (by omega) w
    rwa [BitVec.add_sub_cancel] at words

/-- The selectors of the code segment and of the data segment. -/
def kernelSegments : Seg → BitVec 16
  | .cs => 0x08
  | _ => 0x10

/-- The registers of a task that calls with these arguments. -/
def caller (rsp rdi rsi other : BitVec 64) : Reg → BitVec 64
  | .rsp => rsp
  | .rdi => rdi
  | .rsi => rsi
  | _ => other

def firstTask : Cpu := ⟨caller 0x8000 0x1000 0x2000 7, kernelSegments, 0x4000, 0x202⟩

def secondTask : Cpu := ⟨caller 0xa000 0 0 0, kernelSegments, 0x5000, 0x202⟩

/-- Two tasks, of which the second has not run. -/
def twoTasks : Tasks Bool where
  machine := { firstTask with memory := image 0x2000 (context secondTask) }
  current := false
  cpu := fun t => if t then secondTask else firstTask

/-- Where their contexts are. -/
def twoContexts (t : Bool) : BitVec 64 := if t then 0x2000 else 0x1000

/-- The second task goes on to its own call. -/
def answering (s : Tasks Bool) : Machine := { s.machine with reg := caller 0x9ff0 0x2000 0x1000 5 }

/-- The first task switches to the second, which computes and switches back: the first has its registers again. -/
theorem tasks_keep_registers_two : ∃ es t, Run (Steps (fun flags _ => flags) twoContexts) twoTasks es t ∧
    es.length = 3 ∧ t.current = false ∧ t.machine.toCpu = returned twoTasks.machine := by
  let status : BitVec 64 → BitVec 64 → BitVec 64 := fun flags _ => flags
  have behind : Apart 0x2000 192 0x1000 192 := apart_above 0x1000 (d := 0x1000) (by decide) (by decide)
  have separate : Separate twoContexts := by
    intro t u apart
    cases t <;> cases u
    · exact absurd rfl apart
    · exact behind.symm
    · exact behind
    · exact absurd rfl apart
  have start : Kept twoContexts twoTasks := by
    refine ⟨rfl, fun t apart => ?_⟩
    cases t with
    | false => exact absurd rfl apart
    | true => exact words_image (by simp [context, isrStackframePush, isrStackframeIretq])
  have leaves : Allowed twoContexts twoTasks (.contextSwitch true) := by
    refine ⟨rfl, rfl, fun t => ?_⟩
    cases t with
    | false => exact apart_above 0x1000 (d := 0x6fe8) (by decide) (by decide)
    | true => exact apart_above 0x2000 (d := 0x5fe8) (by decide) (by decide)
  let second := twoTasks.exec status (.contextSwitch true)
  have computes : Allowed twoContexts second (.compute (answering second)) := fun _ _ _ _ => rfl
  let calling := second.exec status (.compute (answering second))
  have comesBack : Allowed twoContexts calling (.contextSwitch false) := by
    have stack : calling.machine.reg .rsp = 0x9ff0 := rfl
    refine ⟨rfl, rfl, fun t => ?_⟩
    rw [stack]
    cases t with
    | false => exact apart_above 0x1000 (d := 0x8fd8) (by decide) (by decide)
    | true => exact apart_above 0x2000 (d := 0x7fd8) (by decide) (by decide)
  have run : Run (Steps status twoContexts) twoTasks _ (calling.exec status (.contextSwitch false)) :=
    ((Run.single ⟨leaves, rfl⟩).snoc ⟨computes, rfl⟩).snoc ⟨comesBack, rfl⟩
  refine ⟨_, _, run, rfl, rfl, ?_⟩
  exact (tasks_keep_registers separate start run).1

end Runs

end RubberOS.Soundness.ContextSwitch
