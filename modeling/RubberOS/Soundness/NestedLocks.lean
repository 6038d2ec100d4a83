import RubberOS.Soundness.WakeUps

/-! # Nested locks and the interrupt flag

Every lock keeps its own copy of the interrupt flag, taken when it was acquired. Under nesting only the outermost lock
can have taken a set flag: the copies of all locks above it are clear, so the flag comes back when that lock is
released and not before. The runs go instruction by instruction, and between the calls the next one is any that
keeps the nesting.
-/

namespace RubberOS.Soundness.NestedLocks

open Model Model.Spinlock LabelledRuns WakeUps

/-- A call of one of the two operations. -/
inductive Call (Lock : Type) where
  | acquire (lock : Lock)
  | release (lock : Lock)

/-- The processor, the locks that the calls so far have acquired and not released, the last one first, and the rest of
the call that is running. -/
structure Machine (Lock : Type) where
  cpu : Cpu Lock
  held : List Lock
  code : List (Instr Lock)

/-- The next call begins, or the running call goes on by one instruction. -/
inductive Event (Lock : Type) where
  | call (call : Call Lock)
  | instr

section Machines

variable {Lock : Type}

/-- A lock is acquired only while it is not held, and the lock that is released is the last one acquired. -/
def WellNested (held : List Lock) : Call Lock → Prop
  | .acquire lock => lock ∉ held
  | .release lock => held.head? = some lock

def Enabled (m : Machine Lock) : Event Lock → Prop
  | .call call => m.code = [] ∧ WellNested m.held call
  | .instr => m.code ≠ []

/-- No lock is held and no call is running. -/
structure Idle (m : Machine Lock) : Prop where
  held : m.held = []
  code : m.code = []

/-- Before the first call every lock is free; its copy of the flag can be anything. -/
structure Started (m : Machine Lock) : Prop where
  idle : Idle m
  free : ∀ lock, (m.cpu.locks lock).value = false

/-! ## The stack of copies -/

/-- The interrupt flag while these locks are held, when it was `outside` before the outermost one was acquired. -/
def flagUnder (outside : Bool) (held : List Lock) : Bool := held.isEmpty && outside

/-- Each lock keeps the flag from before it was acquired. -/
def Saves (outside : Bool) (saved : Lock → Bool) : List Lock → Prop
  | [] => True
  | lock :: held => saved lock = flagUnder outside held ∧ Saves outside saved held

/-- Exactly these locks are taken. -/
def Taken (cpu : Cpu Lock) (held : List Lock) : Prop := ∀ lock, (cpu.locks lock).value = true ↔ lock ∈ held

/-- The locks between two calls. -/
structure Settled (outside : Bool) (cpu : Cpu Lock) (held : List Lock) : Prop where
  distinct : held.Nodup
  taken : Taken cpu held
  saves : Saves outside (savedFlags cpu) held
  flag : cpu.flag = flagUnder outside held

/-- The interrupt flag is clear and the lock is free, between the instructions of a call for it. -/
structure Shut (outside : Bool) (cpu : Cpu Lock) (lock : Lock) (held : List Lock) : Prop where
  distinct : (lock :: held).Nodup
  taken : Taken cpu held
  saves : Saves outside (savedFlags cpu) (lock :: held)
  flag : cpu.flag = false

/-- Where a call is. -/
inductive Phase (outside : Bool) : Machine Lock → Prop
  | settled {cpu : Cpu Lock} {held : List Lock} : Settled outside cpu held → Phase outside ⟨cpu, held, []⟩
  | entering {cpu : Cpu Lock} {held : List Lock} {lock : Lock} : Settled outside cpu held → lock ∉ held →
      Phase outside ⟨cpu, lock :: held, [.saveFlag lock, .interruptDisable, .testAndSet lock]⟩
  | saved {cpu : Cpu Lock} {held : List Lock} {lock : Lock} : Settled outside cpu held → lock ∉ held →
      savedFlags cpu lock = flagUnder outside held →
      Phase outside ⟨cpu, lock :: held, [.interruptDisable, .testAndSet lock]⟩
  | disabled {cpu : Cpu Lock} {held : List Lock} {lock : Lock} : Shut outside cpu lock held →
      Phase outside ⟨cpu, lock :: held, [.testAndSet lock]⟩
  | leaving {cpu : Cpu Lock} {held : List Lock} {lock : Lock} : Settled outside cpu (lock :: held) →
      Phase outside ⟨cpu, held, [.clear lock, .restoreFlag lock]⟩
  | cleared {cpu : Cpu Lock} {held : List Lock} {lock : Lock} : Shut outside cpu lock held →
      Phase outside ⟨cpu, held, [.restoreFlag lock]⟩

variable {outside : Bool} {cpu : Cpu Lock} {held : List Lock} {lock : Lock} {saved : Lock → Bool} {m t : Machine Lock}

private theorem Started.phase (started : Started m) : Phase m.cpu.flag m := by
  obtain ⟨⟨held, code⟩, free⟩ := started
  obtain ⟨cpu, _, _⟩ := m
  obtain rfl := held
  obtain rfl := code
  refine .settled ⟨List.nodup_nil, fun lock => ?_, trivial, rfl⟩
  exact iff_of_false (Bool.eq_false_iff.mp (free lock)) List.not_mem_nil

/-- While a lock is taken, the interrupt flag is clear. -/
private theorem Phase.flag_of_taken (phase : Phase outside m) (taken : (m.cpu.locks lock).value = true) :
    m.cpu.flag = false := by
  have under : ∀ {cpu : Cpu Lock} {held : List Lock}, Settled outside cpu held → (cpu.locks lock).value = true →
      cpu.flag = false := by
    intro cpu held settled taken
    rw [settled.flag]
    cases held with
    | nil => exact absurd ((settled.taken lock).mp taken) List.not_mem_nil
    | cons => rfl
  cases phase with
  | settled settled | entering settled | saved settled | leaving settled => exact under settled taken
  | disabled shut | cleared shut => exact shut.flag

private theorem Phase.settled_of_idle (phase : Phase outside m) (between : m.code = []) :
    Settled outside m.cpu m.held := by
  cases phase with
  | settled settled => exact settled
  | entering | saved | disabled | leaving | cleared => cases between

/-! ## Runs -/

variable [DecidableEq Lock]

def exec (m : Machine Lock) : Event Lock → Result (Machine Lock)
  | .call (.acquire lock) => .ok { m with held := lock :: m.held, code := intrlockAcquire lock }
  | .call (.release lock) => .ok { m with held := m.held.tail, code := intrlockRelease lock }
  | .instr =>
    match m.code with
    | [] => .ok m
    | instr :: rest => do
      let cpu ← instr.exec m.cpu
      return { m with cpu, code := rest }

abbrev Steps : Machine Lock → Event Lock → Machine Lock → Prop := Guarded Enabled exec

private theorem Saves.update (value : Bool) (saves : Saves outside saved held) (absent : lock ∉ held) :
    Saves outside (Function.update saved lock value) held := by
  induction held with
  | nil => trivial
  | cons other held ih =>
    rw [List.mem_cons, not_or] at absent
    refine ⟨?_, ih saves.2 absent.2⟩
    rw [Function.update_of_ne fun same => absent.1 same.symm]
    exact saves.1

private theorem step_acquire (between : m.code = []) (absent : lock ∉ m.held) :
    Steps m (.call (.acquire lock)) ⟨m.cpu, lock :: m.held, intrlockAcquire lock⟩ := ⟨⟨between, absent⟩, rfl⟩

private theorem step_release (between : m.code = []) (top : m.held.head? = some lock) :
    Steps m (.call (.release lock)) ⟨m.cpu, m.held.tail, intrlockRelease lock⟩ := ⟨⟨between, top⟩, rfl⟩

private theorem step_instr {instr : Instr Lock} {rest : List (Instr Lock)} {cpu' : Cpu Lock}
    (code : m.code = instr :: rest)
    (ran : instr.exec m.cpu = .ok cpu') : Steps m .instr ⟨cpu', m.held, rest⟩ := by
  constructor
  · rw [Enabled, code]
    exact List.cons_ne_nil instr rest
  · rw [exec, code]
    dsimp only
    rw [ran]
    rfl

private theorem locks_setLock (cpu : Cpu Lock) (lock other : Lock) (value : Intrlock) :
    (cpu.setLock lock value).locks other = if other = lock then value else cpu.locks other :=
  Function.update_apply ..

/-- `intr_flag` of a lock is written before the lock is taken. -/
private theorem Settled.saveFlag (settled : Settled outside cpu held) (absent : lock ∉ held) :
    Settled outside (cpu.setLock lock { cpu.locks lock with intrFlag := cpu.flag }) held where
  distinct := settled.distinct
  taken := by
    intro other
    rw [locks_setLock]
    split_ifs with same
    · rw [same]
      exact settled.taken lock
    · exact settled.taken other
  saves := by
    rw [savedFlags_setLock]
    exact settled.saves.update _ absent
  flag := settled.flag

/-- Setting the value of a lock leaves the copies of the flag alone. -/
private theorem savedFlags_value (cpu : Cpu Lock) (lock : Lock) (value : Bool) :
    savedFlags (cpu.setLock lock { cpu.locks lock with value }) = savedFlags cpu := by
  rw [savedFlags_setLock]
  exact Function.update_eq_self lock (savedFlags cpu)

private theorem Taken.set (taken : Taken cpu held) :
    Taken (cpu.setLock lock { cpu.locks lock with value := true }) (lock :: held) := by
  intro other
  rw [locks_setLock, List.mem_cons]
  split_ifs with same
  · exact iff_of_true rfl (.inl same)
  · rw [taken other]
    exact (or_iff_right same).symm

private theorem Taken.clear (taken : Taken cpu (lock :: held)) (absent : lock ∉ held) :
    Taken (cpu.setLock lock { cpu.locks lock with value := false }) held := by
  intro other
  rw [locks_setLock]
  split_ifs with same
  · rw [same]
    exact iff_of_false nofun absent
  · rw [taken other, List.mem_cons]
    exact or_iff_right same

/-- Every event that the nesting allows happens without a panic, and the locks and their copies stay in step. -/
private theorem Phase.step {e : Event Lock} (phase : Phase outside m) (enabled : Enabled m e) :
    ∃ t, exec m e = .ok t ∧ Phase outside t := by
  cases e with
  | call call =>
    obtain ⟨idle, nested⟩ := enabled
    cases phase with
    | settled settled =>
      cases call with
      | acquire lock => exact ⟨_, rfl, .entering settled nested⟩
      | release lock =>
        rename_i cpu held
        obtain ⟨rest, rfl⟩ := List.head?_eq_some_iff.mp nested
        exact ⟨_, rfl, .leaving settled⟩
    | entering | saved | disabled | leaving | cleared => cases idle
  | instr =>
    cases phase with
    | settled => exact absurd rfl enabled
    | entering settled absent =>
      refine ⟨_, rfl, .saved (settled.saveFlag absent) absent ?_⟩
      rw [savedFlags_setLock, Function.update_self]
      exact settled.flag
    | saved settled absent own =>
      have distinct := List.nodup_cons.mpr ⟨absent, settled.distinct⟩
      exact ⟨_, rfl, .disabled ⟨distinct, settled.taken, ⟨own, settled.saves⟩, rfl⟩⟩
    | disabled shut =>
      rename_i cpu held lock
      have absent := (List.nodup_cons.mp shut.distinct).1
      have free : ¬(cpu.locks lock).value = true := fun value => absent ((shut.taken lock).mp value)
      have ran : (Instr.testAndSet lock).exec cpu = .ok (cpu.setLock lock { cpu.locks lock with value := true }) :=
        if_neg free
      refine ⟨_, (step_instr rfl ran).2, ?_⟩
      refine .settled ⟨shut.distinct, shut.taken.set, ?_, shut.flag⟩
      rw [savedFlags_value]
      exact shut.saves
    | leaving settled =>
      rename_i cpu held lock
      have absent := (List.nodup_cons.mp settled.distinct).1
      refine ⟨_, rfl, .cleared ⟨settled.distinct, settled.taken.clear absent, ?_, settled.flag⟩⟩
      rw [savedFlags_value]
      exact settled.saves
    | cleared shut =>
      rename_i cpu held lock
      have inner := (List.nodup_cons.mp shut.distinct).2
      have own : (cpu.locks lock).intrFlag = flagUnder outside held := shut.saves.1
      cases before : flagUnder outside held with
      | true =>
        rw [before] at own
        have ran : (Instr.restoreFlag lock).exec cpu = .ok cpu.interruptEnable := if_pos own
        refine ⟨_, (step_instr rfl ran).2, ?_⟩
        exact .settled ⟨inner, shut.taken, shut.saves.2, before.symm⟩
      | false =>
        rw [before] at own
        have ran : (Instr.restoreFlag lock).exec cpu = .ok { cpu with shadow := false } :=
          if_neg (Bool.eq_false_iff.mp own)
        refine ⟨_, (step_instr rfl ran).2, ?_⟩
        exact .settled ⟨inner, shut.taken, shut.saves.2, shut.flag.trans before.symm⟩

private theorem Phase.run {es : List (Event Lock)} (phase : Phase outside m) (run : Run Steps m es t) :
    Phase outside t := by
  refine run.invariant phase fun m e t phase step => ?_
  obtain ⟨t', ran, phase'⟩ := phase.step step.1
  rwa [Except.ok.inj (step.2.symm.trans ran)]

/-- In every run of well-nested calls no instruction panics, the interrupt flag is clear while a lock is taken, the
locks taken between two calls are those that are held, and whenever none is held again the flag is what it was the
last time that none was held, which is before the outermost acquire. -/
theorem nested_locks {s : Machine Lock} {es : List (Event Lock)} (started : Started s) (run : Run Steps s es t) :
    (∀ e, Enabled t e → ∃ u, exec t e = .ok u) ∧
    (∀ lock, (t.cpu.locks lock).value = true → t.cpu.flag = false) ∧
    (t.code = [] → (∀ lock, (t.cpu.locks lock).value = true ↔ lock ∈ t.held) ∧
      (t.held ≠ [] → t.cpu.flag = false)) ∧
    ∀ m fs gs, Run Steps s fs m → Idle m → Run Steps m gs t → Idle t → t.cpu.flag = m.cpu.flag := by
  have phase := started.phase.run run
  refine ⟨fun e enabled => ?_, fun lock => phase.flag_of_taken, fun between => ?_, fun m fs gs first idle _ idle' => ?_⟩
  · obtain ⟨u, ran, _⟩ := phase.step enabled
    exact ⟨u, ran⟩
  · have settled := phase.settled_of_idle between
    refine ⟨settled.taken, fun some => ?_⟩
    obtain ⟨lock, held, same⟩ := List.exists_cons_of_ne_nil some
    rw [settled.flag, same]
    rfl
  · have before := (started.phase.run first).settled_of_idle idle.code
    have after := phase.settled_of_idle idle'.code
    rw [before.flag, after.flag, idle.held, idle'.held]

end Machines

/-- One lock is acquired and released with interrupts on. -/
theorem nested_locks_once : ∃ m t : Machine Bool, m.held = [false] ∧ m.cpu.flag = false ∧
    Idle t ∧ t.cpu.flag = true := by
  let s : Machine Bool := ⟨⟨true, false, fun _ => intrlockInit⟩, [], []⟩
  have started : Started s := ⟨⟨rfl, rfl⟩, fun _ => rfl⟩
  have called : Run Steps s [.call (.acquire false)] _ := .single (step_acquire rfl List.not_mem_nil)
  have inside := ((called.snoc (step_instr rfl rfl)).snoc (step_instr rfl rfl)).snoc (step_instr rfl rfl)
  have ended := ((inside.snoc (step_release rfl rfl)).snoc (step_instr rfl rfl)).snoc (step_instr rfl rfl)
  have held := (nested_locks started inside).2.2.1 rfl
  have back := (nested_locks started ended).2.2.2 s [] _ .nil started.idle ended ⟨rfl, rfl⟩
  exact ⟨_, _, rfl, held.2 (List.cons_ne_nil _ _), ⟨rfl, rfl⟩, back⟩

end RubberOS.Soundness.NestedLocks
