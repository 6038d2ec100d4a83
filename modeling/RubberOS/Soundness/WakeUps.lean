import RubberOS.Model.Kmain
import RubberOS.Proofs.Ringbuffer
import RubberOS.ToMathlib.LabelledRuns

/-! # The main loop never sleeps over a message

The main loop leaves its inner loop with the interrupt flag clear and the queue empty. Drawing keeps
both: a lock that is acquired with the flag clear saves a clear flag, so no release sets it. Only the
`sti` of `interrupt_enable_and_wait` sets it again, and it lets no interrupt in before the `hlt`.
-/

namespace RubberOS.Soundness.WakeUps

open Model Model.Collections Model.Interrupt Model.Ps2 Model.Spinlock Model.Kmain LabelledRuns

/-! ## Instructions that keep the flag clear -/

section Quiet

variable {L : Type} [DecidableEq L] {saved saved' : L → Bool} {rest : List (Instr L)}

/-- Run with the flag clear and these saved flags, the instructions keep the flag clear. -/
def Quiet (saved : L → Bool) : List (Instr L) → Prop
  | [] => True
  | .interruptEnable :: _ => False
  | .saveFlag lock :: rest => Quiet (Function.update saved lock false) rest
  | .restoreFlag lock :: rest => saved lock = false ∧ Quiet saved rest
  | .interruptDisable :: rest | .testAndSet _ :: rest | .clear _ :: rest => Quiet saved rest

/-- The saved flags of the locks. -/
def savedFlags (cpu : Cpu L) (lock : L) : Bool := (cpu.locks lock).intrFlag

/-- Fewer saved flags are set. -/
def Lowered (saved saved' : L → Bool) : Prop := ∀ lock, saved lock = false → saved' lock = false

private theorem Lowered.update (saved : L → Bool) (lock : L) : Lowered saved (Function.update saved lock false) := by
  intro other clear
  rcases eq_or_ne other lock with rfl | apart
  · exact Function.update_self ..
  · rw [Function.update_of_ne apart]
    exact clear

/-- Nested locked sections keep the flag clear, and so do the instructions after them. -/
private theorem quiet_nested (code : Nested L) (after : ∀ saved', Lowered saved saved' → Quiet saved' rest) :
    Quiet saved (code.instrs ++ rest) := by
  induction code generalizing saved rest with
  | done => exact after saved fun _ clear => clear
  | locked lock inner more innerIH moreIH =>
    simp only [Nested.instrs, intrlockAcquire, intrlockRelease, List.append_assoc, List.cons_append,
      List.nil_append, Quiet]
    refine innerIH fun saved₁ lowered₁ => ⟨lowered₁ lock (Function.update_self ..),
      moreIH fun saved₂ lowered₂ => ?_⟩
    exact after saved₂ fun other clear => lowered₂ other
      (lowered₁ other (Lowered.update saved lock other clear))

/-- The instructions of `gui_draw_all` keep the flag clear. -/
private theorem quiet_guiDrawAll (saved : Lock → Bool) (paint : Nested Lock) : Quiet saved (guiDrawAll paint) := by
  have bracketed : guiDrawAll paint = (Nested.locked Lock.winman .done .done).instrs ++
      (paint.instrs ++ ((Nested.locked Lock.winman .done .done).instrs ++ [])) := by
    simp only [guiDrawAll, Nested.instrs, List.append_nil, List.append_assoc]
  rw [bracketed]
  exact quiet_nested _ fun _ _ => quiet_nested _ fun _ _ => quiet_nested _ fun _ _ => trivial

theorem savedFlags_setLock (cpu : Cpu L) (lock : L) (value : Intrlock) :
    savedFlags (cpu.setLock lock value) = Function.update (savedFlags cpu) lock value.intrFlag := by
  funext other
  rw [savedFlags, Cpu.setLock]
  dsimp only
  rcases eq_or_ne other lock with rfl | apart
  · rw [Function.update_self, Function.update_self]
  · rw [Function.update_of_ne apart, Function.update_of_ne apart, savedFlags]

/-- One instruction of quiet code. -/
private theorem Quiet.step {cpu cpu' : Cpu L} {instr : Instr L} (quiet : Quiet (savedFlags cpu) (instr :: rest))
    (clear : cpu.flag = false) (ran : instr.exec cpu = .ok cpu') :
    cpu'.flag = false ∧ Quiet (savedFlags cpu') rest := by
  have same (lock : L) : Function.update (savedFlags cpu) lock (cpu.locks lock).intrFlag = savedFlags cpu :=
    Function.update_eq_self lock _
  cases instr with
  | interruptDisable =>
    cases ran
    exact ⟨rfl, quiet⟩
  | interruptEnable => cases quiet
  | saveFlag lock =>
    cases ran
    rw [savedFlags_setLock, clear]
    exact ⟨clear, quiet⟩
  | testAndSet lock =>
    rw [Instr.exec] at ran
    split at ran
    · cases ran
    · cases ran
      rw [savedFlags_setLock, same]
      exact ⟨clear, quiet⟩
  | clear lock =>
    cases ran
    rw [savedFlags_setLock, same]
    exact ⟨clear, quiet⟩
  | restoreFlag lock =>
    obtain ⟨off, quiet⟩ := quiet
    rw [Instr.exec, if_neg (by rw [← savedFlags, off]; decide)] at ran
    cases ran
    exact ⟨clear, quiet⟩

end Quiet

/-! ## The main loop -/

/-- What holds where the main loop is. -/
def AtPoint (cpu : Cpu Lock) (items : List IntrMsg) : Point → Prop
  | .setup rest | .guiDrawAll rest => cpu.flag = false ∧ items = [] ∧ Quiet (savedFlags cpu) rest
  | .interruptEnableAndWait => cpu.flag = false ∧ items = []
  | .waitForIntr => cpu.interruptible = false ∧ items = []
  | .halted => items = []
  | .intrQueueTryPop => cpu.flag = false
  | .interruptDisable | .interruptEnable _ | .dispatchIntrMsg _ => True

def Awake (s : State) : Prop := ∃ items, Holding s.queue items ∧ AtPoint s.cpu items s.point

section Loop

variable {s t : State} {e : Event} {items : List IntrMsg}

theorem initial_awake (msgBuffer : ℕ → IntrMsg) (setup : Nested Lock) : Awake (initial msgBuffer setup) := by
  refine ⟨[], holding_init msgBuffer, rfl, rfl, ?_⟩
  rw [← List.append_nil setup.instrs]
  exact quiet_nested setup fun _ _ => trivial

/-- A handler leaves the messages that are in the queue there. -/
private theorem isr_holding {queue queue' : Ringbuffer IntrMsg} {msg : IntrMsg} (holding : Holding queue items)
    (ran : isr queue msg = .ok queue') : ∃ items', Holding queue' items' := by
  have pushed : ∃ done, intrQueuePush queue msg = .ok (done, queue') := by
    obtain ⟨type, data⟩ := msg
    cases type <;>
    · obtain ⟨⟨done, queue⟩, pushed, same⟩ := Except.bind_ok_iff.mp ran
      cases same
      exact ⟨done, pushed⟩
  obtain ⟨done, pushed⟩ := pushed
  rcases holding.push msg with ⟨_, refused⟩ | ⟨_, queue'', accepted, after⟩
  · cases refused.symm.trans pushed
    exact ⟨items, holding⟩
  · cases accepted.symm.trans pushed
    exact ⟨_, after⟩

/-- An interrupt arrives only where messages may be in the queue. -/
private theorem Awake.interrupt {msg : IntrMsg} (awake : Awake s) (arrives : Arrives s (.interrupt msg))
    (ran : exec s (.interrupt msg) = .ok t) : Awake t := by
  obtain ⟨items, holding, here⟩ := awake
  obtain ⟨queue, pushed, same⟩ := Except.bind_ok_iff.mp ran
  cases same
  obtain ⟨items', after⟩ := isr_holding holding pushed
  refine ⟨items', after, ?_⟩
  have enabled : s.cpu.flag ≠ false := fun clear => by
    rw [Arrives, Cpu.interruptible, clear] at arrives
    cases arrives
  generalize s.point = point at here ⊢
  cases point with
  | setup rest => exact absurd here.1 enabled
  | guiDrawAll rest => exact absurd here.1 enabled
  | interruptEnableAndWait => exact absurd here.1 enabled
  | waitForIntr => exact absurd (arrives.symm.trans here.1) (by decide)
  | halted => trivial
  | intrQueueTryPop => exact absurd here enabled
  | interruptDisable => trivial
  | interruptEnable msg => trivial
  | dispatchIntrMsg rest => trivial

/-- One instruction of `kmain`. -/
private theorem Awake.next {callee : Nested Lock} (awake : Awake s) (ran : exec s (.next callee) = .ok t) :
    Awake t := by
  obtain ⟨items, holding, here⟩ := awake
  obtain ⟨cpu, queue, point⟩ := s
  cases point with
  | setup rest =>
    obtain ⟨clear, empty, quiet⟩ := here
    cases rest with
    | nil =>
      cases ran
      exact ⟨items, holding, clear, empty, quiet_guiDrawAll _ callee⟩
    | cons instr rest =>
      obtain ⟨cpu', stepped, same⟩ := Except.bind_ok_iff.mp ran
      cases same
      obtain ⟨clear', quiet'⟩ := quiet.step clear stepped
      exact ⟨items, holding, clear', empty, quiet'⟩
  | guiDrawAll rest =>
    obtain ⟨clear, empty, quiet⟩ := here
    cases rest with
    | nil =>
      cases ran
      exact ⟨items, holding, clear, empty⟩
    | cons instr rest =>
      obtain ⟨cpu', stepped, same⟩ := Except.bind_ok_iff.mp ran
      cases same
      obtain ⟨clear', quiet'⟩ := quiet.step clear stepped
      exact ⟨items, holding, clear', empty, quiet'⟩
  | interruptEnableAndWait =>
    obtain ⟨clear, empty⟩ := here
    cases ran
    refine ⟨items, holding, ?_, empty⟩
    rw [Cpu.interruptible, Cpu.interruptEnable]
    dsimp only at clear ⊢
    rw [clear]
    rfl
  | waitForIntr =>
    cases ran
    exact ⟨items, holding, here.2⟩
  | halted =>
    cases ran
    exact ⟨items, holding, here⟩
  | interruptDisable =>
    cases ran
    exact ⟨items, holding, rfl⟩
  | intrQueueTryPop =>
    cases items with
    | nil =>
      rw [exec, holding.pop_empty] at ran
      cases ran
      exact ⟨[], holding, here, rfl, quiet_guiDrawAll _ callee⟩
    | cons msg items =>
      obtain ⟨queue', popped, after⟩ := holding.pop
      rw [exec, popped] at ran
      cases ran
      exact ⟨items, after, trivial⟩
  | interruptEnable msg =>
    cases ran
    exact ⟨items, holding, trivial⟩
  | dispatchIntrMsg rest =>
    cases rest with
    | nil =>
      cases ran
      exact ⟨items, holding, trivial⟩
    | cons instr rest =>
      obtain ⟨cpu', stepped, same⟩ := Except.bind_ok_iff.mp ran
      cases same
      exact ⟨items, holding, trivial⟩

theorem Awake.step (awake : Awake s) (step : Guarded Arrives exec s e t) : Awake t := by
  cases e with
  | interrupt msg => exact awake.interrupt step.1 step.2
  | next callee => exact awake.next step.2

/-- The kernel does not halt over a message: from the end of the inner loop on to the `hlt` the queue is
empty, and until the `sti` right before it the interrupt flag is clear. -/
structure NoLostWakeUp (s : State) : Prop where
  draw : ∀ rest, s.point = .guiDrawAll rest → s.cpu.flag = false ∧ ringbufferIsEmpty s.queue = true
  enable : s.point = .interruptEnableAndWait → s.cpu.flag = false ∧ ringbufferIsEmpty s.queue = true
  wait : s.point = .waitForIntr → ringbufferIsEmpty s.queue = true ∧ s.cpu.interruptible = false
  halted : s.point = .halted → ringbufferIsEmpty s.queue = true

private theorem Awake.noLostWakeUp (awake : Awake s) : NoLostWakeUp s := by
  obtain ⟨items, holding, here⟩ := awake
  have empty (none : items = []) : ringbufferIsEmpty s.queue = true := holding.1.isEmpty_iff.mpr none
  constructor
  · intro rest at_
    rw [at_] at here
    exact ⟨here.1, empty here.2.1⟩
  · intro at_
    rw [at_] at here
    exact ⟨here.1, empty here.2⟩
  · intro at_
    rw [at_] at here
    exact ⟨empty here.2, here.1⟩
  · intro at_
    rw [at_] at here
    exact empty here

/-- Whenever interrupts arrive, and whatever nested locks the called code takes, no wake-up is lost. -/
theorem no_lost_wake_up {msgBuffer : ℕ → IntrMsg} {setup : Nested Lock} {es : List Event}
    (run : Run (Guarded Arrives exec) (initial msgBuffer setup) es s) : NoLostWakeUp s := by
  have awake : Awake s := run.invariant (initial_awake msgBuffer setup) fun _ _ _ awake step =>
    awake.step step
  exact awake.noLostWakeUp

/-- `kmain` runs for some instructions, calling no code that takes locks. -/
def proceed (s : State) : ℕ → Result State
  | 0 => .ok s
  | n + 1 => do exec (← proceed s n) (.next .done)

private theorem proceed_run {n : ℕ} (ran : proceed s n = .ok t) :
    Run (Guarded Arrives exec) s (List.replicate n (.next .done)) t := by
  induction n generalizing t with
  | zero =>
    cases ran
    exact .nil
  | succ n ih =>
    obtain ⟨middle, before, last⟩ := Except.bind_ok_iff.mp ran
    rw [List.replicate_succ']
    exact (ih before).snoc ⟨trivial, last⟩

/-- An interrupt wakes the kernel after its first drawing. -/
theorem no_lost_wake_up_first : ∃ es s,
    Run (Guarded Arrives exec) (initial (fun _ => ⟨.keyboard, 0⟩) .done) es s ∧
      s.point = .interruptDisable ∧ s.queue.count = 1 ∧ NoLostWakeUp s := by
  have computed : (do
      let halted ← proceed (initial (fun _ => ⟨.keyboard, 0⟩) .done) 14
      let woken ← exec halted (.interrupt ⟨.keyboard, 0x1e⟩)
      return (halted.cpu.interruptible, woken.point, woken.queue.count) : Result _) =
        .ok (true, .interruptDisable, 1) := rfl
  simp only [Except.bind_ok_iff, Except.pure_ok_iff, Prod.mk.injEq] at computed
  obtain ⟨halted, slept, woken, interrupted, enabled, point, count⟩ := computed
  have run := (proceed_run slept).snoc (e := Event.interrupt ⟨.keyboard, 0x1e⟩) ⟨enabled, interrupted⟩
  exact ⟨_, woken, run, point, count, no_lost_wake_up run⟩

end Loop

end RubberOS.Soundness.WakeUps
