import RubberOS.Model.Panic

/-! # When a panic is reported

Only the terminal window takes a lock while it reports: its `write` invalidates at least once, and its
`flush` repaints. Both release the window manager's lock again. So a panic is reported unless that lock was
held when it was raised and a terminal window is registered; then the report raises a panic of its own.
-/

namespace RubberOS.Soundness.PanicReports

open Model Model.Gui Model.Spinlock Model.Kmain

/-! ## The lock of the window manager -/

/-- No one holds the lock of the window manager. -/
def WinmanFree (s : Console) : Prop := (s.cpu.locks .winman).value = false

section Locks

variable {font : ℕ → BitVec 8} {fi : FbInfo} {s : Console} {device : TtyDevice} {devices : List TtyDevice} {w : ℕ}
  {rt : Option Rect} {buf : List (BitVec 8)} {place : ℕ}

private theorem runInstrs_cons {instr : Instr Lock} {rest : List (Instr Lock)} {cpu : Cpu Lock}
    (first : instr.exec s.cpu = .ok cpu) : runInstrs s (instr :: rest) = runInstrs { s with cpu } rest := by
  rw [runInstrs, List.foldlM_cons, first]
  rfl

/-- The processor after the flag of the lock is saved and interrupts are off. -/
def beforeTest (cpu : Cpu Lock) : Cpu Lock :=
  (cpu.setLock .winman { cpu.locks .winman with intrFlag := cpu.flag }).interruptDisable

private theorem acquire_eq (s : Console) : runInstrs s (intrlockAcquire .winman) =
    runInstrs { s with cpu := beforeTest s.cpu } [.testAndSet .winman] := by
  rw [intrlockAcquire, runInstrs_cons rfl, runInstrs_cons rfl]
  rfl

private theorem setLock_locks (cpu : Cpu Lock) (lock : Lock) (value : Intrlock) :
    (cpu.setLock lock value).locks lock = value :=
  Function.update_self ..

private theorem beforeTest_value (cpu : Cpu Lock) :
    ((beforeTest cpu).locks .winman).value = (cpu.locks .winman).value :=
  (congrArg Intrlock.value (setLock_locks cpu .winman { cpu.locks .winman with intrFlag := cpu.flag })).trans rfl

private theorem acquire_free (free : WinmanFree s) :
    ∃ cpu, runInstrs s (intrlockAcquire .winman) = .ok { s with cpu } := by
  have untaken := (beforeTest_value s.cpu).trans free
  refine ⟨(beforeTest s.cpu).setLock .winman { (beforeTest s.cpu).locks .winman with value := true }, ?_⟩
  rw [acquire_eq, runInstrs_cons (by rw [Instr.exec, if_neg (Bool.eq_false_iff.mp untaken)]; rfl)]
  rfl

/-- A held lock stops the acquisition with a new panic. -/
private theorem acquire_held (held : ¬ WinmanFree s) :
    runInstrs s (intrlockAcquire .winman) = .error (.panic "panic : spinlock_acquire(): deadlock detected") := by
  have taken : ((beforeTest s.cpu).locks .winman).value = true := by
    rw [beforeTest_value]
    exact Bool.not_eq_false _ ▸ held
  rw [acquire_eq, runInstrs, List.foldlM_cons, Instr.exec, if_pos taken]
  rfl

private theorem release_free (s : Console) :
    ∃ cpu, runInstrs s (intrlockRelease .winman) = .ok { s with cpu } ∧ WinmanFree { s with cpu } := by
  obtain ⟨cleared, untaken, same⟩ : ∃ cpu, (cpu.locks .winman).value = false ∧
      (s.cpu.setLock .winman { s.cpu.locks .winman with value := false }) = cpu :=
    ⟨_, by rw [setLock_locks], rfl⟩
  have first : (Instr.clear Lock.winman).exec s.cpu = .ok cleared := by
    rw [Instr.exec, same]
    rfl
  rw [intrlockRelease, runInstrs_cons first]
  cases flag : (cleared.locks .winman).intrFlag with
  | true =>
    exact ⟨cleared.interruptEnable,
      by rw [runInstrs_cons (by rw [Instr.exec, if_pos flag]; rfl)]; rfl, untaken⟩
  | false =>
    refine ⟨{ cleared with shadow := false }, ?_, untaken⟩
    rw [runInstrs_cons (by rw [Instr.exec, if_neg (Bool.eq_false_iff.mp flag)]; rfl)]
    rfl

/-- A section under the lock, on a free lock. -/
private theorem lockedInvalidate_free (free : WinmanFree s) (w : ℕ) (rt : Option Rect) :
    ∃ s', lockedInvalidate s w rt = .ok s' ∧ WinmanFree s' := by
  obtain ⟨cpu, acquired⟩ := acquire_free free
  obtain ⟨cpu', released, free'⟩ := release_free { s with cpu, desktop := invalidateClient s.desktop w rt }
  exact ⟨_, Except.bind_ok_iff.mpr ⟨_, acquired, released⟩, free'⟩

private theorem lockedInvalidate_held (held : ¬ WinmanFree s) (w : ℕ) (rt : Option Rect) (s' : Console) :
    lockedInvalidate s w rt ≠ .ok s' := by
  rw [lockedInvalidate, acquire_held held]
  rintro ⟨⟩

private theorem windowRedraw_free (font : ℕ → BitVec 8) (fi : FbInfo) (free : WinmanFree s) (w : ℕ)
    (rt : Option Rect) :
    ∃ s', windowRedraw font fi s w rt = .ok s' ∧ WinmanFree s' := by
  obtain ⟨cpu, acquired⟩ := acquire_free free
  rw [windowRedraw, acquired]
  obtain ⟨cpu', released, free'⟩ := release_free _
  exact ⟨_, released, free'⟩

/-! ## Devices -/

/-- The calls of `window_invalidate` that a write makes. -/
private theorem invalidations_free (free : WinmanFree s) (w : ℕ) (calls : Invalidations) :
    ∃ s', calls.foldlM (fun s rt => lockedInvalidate s w rt) s = .ok s' ∧ WinmanFree s' := by
  induction calls generalizing s with
  | nil => exact ⟨s, rfl, free⟩
  | cons rt rest ih =>
    obtain ⟨s₁, invalidated, free₁⟩ := lockedInvalidate_free free w rt
    obtain ⟨s₂, more, free₂⟩ := ih free₁
    exact ⟨s₂, by rw [List.foldlM_cons]; exact Except.bind_ok_iff.mpr ⟨_, invalidated, more⟩, free₂⟩

private theorem write_free (free : WinmanFree s) (device : TtyDevice) (buf : List (BitVec 8)) :
    ∃ s' device', device.write s buf = .ok (s', device') ∧ WinmanFree s' := by
  cases device with
  | serial => exact ⟨_, _, rfl, free⟩
  | ttyWindow device =>
    obtain ⟨tw', calls, rt, written, _⟩ := ttyWrite_inside device.inside buf
    obtain ⟨s', invalidated, free'⟩ := invalidations_free free device.window (calls ++ [rt])
    rw [TtyDevice.write]
    split
    · rename_i fault failed
      cases written.symm.trans failed
    · rename_i tw calls' ran
      cases written.symm.trans ran
      exact ⟨s', _, Except.bind_ok_iff.mpr ⟨_, invalidated, rfl⟩, free'⟩

private theorem write_held (held : ¬ WinmanFree s) (device : TtyWindowDevice) (buf : List (BitVec 8))
    (result : Console × TtyDevice) :
    (TtyDevice.ttyWindow device).write s buf ≠ .ok result := by
  obtain ⟨tw', calls, rt, written, _⟩ := ttyWrite_inside device.inside buf
  rw [TtyDevice.write]
  split
  · rintro ⟨⟩
  · rename_i tw calls' ran
    cases written.symm.trans ran
    intro returned
    obtain ⟨s', invalidated, _⟩ := Except.bind_ok_iff.mp returned
    cases calls with
    | nil =>
      obtain ⟨s₁, first, _⟩ := Except.bind_ok_iff.mp invalidated
      exact lockedInvalidate_held held _ _ _ first
    | cons rt' rest =>
      obtain ⟨s₁, first, _⟩ := Except.bind_ok_iff.mp invalidated
      exact lockedInvalidate_held held _ _ _ first

/-- The calls of `write` that hand a text to every device from this place on. -/
def allWrites (buf : List (BitVec 8)) (place : ℕ) (devices : List TtyDevice) : List DeviceCall :=
  (devices.zipIdx place).map fun device => .write device.2 buf

/-- Whether a device has a `flush`. -/
def hasFlush : TtyDevice → Bool
  | .serial => false
  | .ttyWindow _ => true

/-- The calls of every `flush` there is from this place on. -/
def allFlushes (place : ℕ) (devices : List TtyDevice) : List DeviceCall :=
  ((devices.map hasFlush).zipIdx place).filterMap fun device => if device.1 then some (.flush device.2) else none

private theorem write_hasFlush {s' : Console} {device' : TtyDevice} (ran : device.write s buf = .ok (s', device')) :
    hasFlush device' = hasFlush device := by
  cases device with
  | serial =>
    cases ran
    rfl
  | ttyWindow device =>
    rw [TtyDevice.write] at ran
    split at ran
    · cases ran
    · obtain ⟨_, _, same⟩ := Except.bind_ok_iff.mp ran
      cases same
      rfl

private theorem puts_free (free : WinmanFree s) (buf : List (BitVec 8)) (place : ℕ) (devices : List TtyDevice) :
    ∃ s' devices', ttyPutsNolock s buf place devices =
      .ok (s', devices', allWrites buf place devices) ∧ WinmanFree s' ∧
      devices'.map hasFlush = devices.map hasFlush := by
  induction devices generalizing s place with
  | nil => exact ⟨s, [], rfl, free, rfl⟩
  | cons device rest ih =>
    obtain ⟨s₁, device', written, free₁⟩ := write_free free device buf
    obtain ⟨s₂, rest', more, free₂, kinds⟩ := ih free₁ (place + 1)
    refine ⟨s₂, device' :: rest', ?_, free₂, ?_⟩
    · exact Except.bind_ok_iff.mpr ⟨_, written, Except.bind_ok_iff.mpr ⟨_, more, rfl⟩⟩
    · rw [List.map_cons, List.map_cons, write_hasFlush written, kinds]

private theorem flushes_free (font : ℕ → BitVec 8) (fi : FbInfo) (free : WinmanFree s) (place : ℕ)
    (devices : List TtyDevice) :
    ∃ s', flushDevices font fi s place devices = .ok (s', allFlushes place devices) ∧ WinmanFree s' := by
  induction devices generalizing s place with
  | nil => exact ⟨s, rfl, free⟩
  | cons device rest ih =>
    cases device with
    | serial => exact ih free (place + 1)
    | ttyWindow device =>
      obtain ⟨s₁, drawn, free₁⟩ := windowRedraw_free font fi free device.window none
      obtain ⟨s₂, more, free₂⟩ := ih free₁ (place + 1)
      exact ⟨s₂, Except.bind_ok_iff.mpr ⟨_, drawn, Except.bind_ok_iff.mpr ⟨_, more, rfl⟩⟩, free₂⟩

/-! ## Reports -/

/-- `panic_impl` hands its text to every device, flushes every device once and reaches its wait loop. -/
def Reports (font : ℕ → BitVec 8) (fi : FbInfo) (s : Console) (devices : List TtyDevice) (buf : List (BitVec 8)) : Prop :=
  ∃ s', panicImpl font fi s devices buf = .ok (s', allWrites buf 0 devices ++ allFlushes 0 devices)

private theorem reports_free (font : ℕ → BitVec 8) (fi : FbInfo) (free : WinmanFree s) (devices : List TtyDevice)
    (buf : List (BitVec 8)) : Reports font fi s devices buf := by
  have start : WinmanFree { s with cpu := s.cpu.interruptDisable } := free
  obtain ⟨s₁, devices', written, free₁, kinds⟩ := puts_free start buf 0 devices
  obtain ⟨s₂, flushed, _⟩ := flushes_free font fi free₁ 0 devices'
  rw [allFlushes, kinds] at flushed
  exact ⟨s₂, Except.bind_ok_iff.mpr ⟨_, written, Except.bind_ok_iff.mpr ⟨_, flushed, rfl⟩⟩⟩

/-- The serial port takes no lock. -/
private theorem puts_serial (serial : ∀ device, .ttyWindow device ∉ devices) (s : Console)
    (buf : List (BitVec 8)) (place : ℕ) :
    ∃ s', ttyPutsNolock s buf place devices = .ok (s', devices, allWrites buf place devices) := by
  induction devices generalizing s place with
  | nil => exact ⟨s, rfl⟩
  | cons device rest ih =>
    cases device with
    | serial =>
      obtain ⟨s₁, more⟩ := ih (fun device inside => serial device (List.mem_cons_of_mem _ inside))
        { s with sent := s.sent ++ buf.takeWhile (· ≠ 0) } (place + 1)
      exact ⟨s₁, Except.bind_ok_iff.mpr ⟨_, rfl, Except.bind_ok_iff.mpr ⟨_, more, rfl⟩⟩⟩
    | ttyWindow device => exact absurd List.mem_cons_self (serial device)

private theorem flushes_serial (font : ℕ → BitVec 8) (fi : FbInfo)
    (serial : ∀ device, .ttyWindow device ∉ devices) (s : Console)
    (place : ℕ) : flushDevices font fi s place devices = .ok (s, allFlushes place devices) := by
  induction devices generalizing place with
  | nil => rfl
  | cons device rest ih =>
    cases device with
    | serial => exact ih (fun device inside => serial device (List.mem_cons_of_mem _ inside)) (place + 1)
    | ttyWindow device => exact absurd List.mem_cons_self (serial device)

private theorem reports_serial (font : ℕ → BitVec 8) (fi : FbInfo) (serial : ∀ device, .ttyWindow device ∉ devices)
    (buf : List (BitVec 8)) : Reports font fi s devices buf := by
  obtain ⟨s₁, written⟩ := puts_serial serial { s with cpu := s.cpu.interruptDisable } buf 0
  exact ⟨s₁, Except.bind_ok_iff.mpr
    ⟨_, written, Except.bind_ok_iff.mpr ⟨_, flushes_serial font fi serial s₁ 0, rfl⟩⟩⟩

/-- With the lock held, the first terminal window raises a panic. -/
private theorem puts_held (held : ¬ WinmanFree s) (buf : List (BitVec 8)) (device : TtyWindowDevice)
    (registered : .ttyWindow device ∈ devices) (place : ℕ)
    (result : Console × List TtyDevice × List DeviceCall) :
    ttyPutsNolock s buf place devices ≠ .ok result := by
  induction devices generalizing s place result with
  | nil => cases registered
  | cons first rest ih =>
    intro returned
    obtain ⟨⟨s₁, first'⟩, written, returned⟩ := Except.bind_ok_iff.mp returned
    obtain ⟨result₁, more, _⟩ := Except.bind_ok_iff.mp returned
    cases first with
    | serial =>
      cases written
      rcases List.mem_cons.mp registered with same | later
      · cases same
      · have start : ¬ WinmanFree { s with sent := s.sent ++ buf.takeWhile (· ≠ 0) } := held
        exact ih start later (place + 1) _ more
    | ttyWindow first => exact write_held held first buf _ written

/-- A panic is reported to all devices exactly if the lock of the window manager was free when it was raised,
or no terminal window is registered. -/
theorem panic_reports_iff (font : ℕ → BitVec 8) (fi : FbInfo) (s : Console) (devices : List TtyDevice)
    (buf : List (BitVec 8)) :
    Reports font fi s devices buf ↔ WinmanFree s ∨ ∀ device, .ttyWindow device ∉ devices := by
  constructor
  · rintro ⟨s', reported⟩
    by_contra broken
    rw [not_or, not_forall] at broken
    obtain ⟨held, device, registered⟩ := broken
    obtain ⟨_, written, _⟩ := Except.bind_ok_iff.mp reported
    have start : ¬ WinmanFree { s with cpu := s.cpu.interruptDisable } := held
    exact puts_held start buf device (not_not.mp registered) 0 _ written
  · rintro (free | serial)
    · exact reports_free font fi free devices buf
    · exact reports_serial font fi serial buf

/-- A terminal window with its cursor in the first cell. -/
def emptyTerminal : TtyWindowDevice := ⟨⟨fun _ => 32, 0, 0⟩, 1, ⟨Nat.zero_lt_succ 79, Nat.zero_lt_succ 24⟩⟩

/-- In `window_new`, which holds the lock, with the window of the terminal in the list. -/
def inWindowNew : Console where
  cpu := ⟨false, false, fun lock => ⟨lock = .winman, false⟩⟩
  desktop :=
    { painting := false, sizingRect := ⟨0, 0, 0, 0⟩, sizingPt := ⟨0, 0⟩, sizing := false, windowList := [1],
      focused := some 1, mouseCapturing := none, scrSize := ⟨800, 600⟩, mousePos := ⟨400, 300⟩,
      globalInvalidated := ⟨0, 0, 0, 0⟩,
      window := fun _ => ⟨⟨[], ⟨120, 120, 646, 426⟩, 0xffffff, ⟨0, 0, 0, 0⟩, some (ttyPaint emptyTerminal.tw ⟨-10, -10⟩)⟩,
        false⟩ }
  sent := []
  drawn := []

/-- An assertion that fails in `window_new` is not reported. -/
theorem panic_under_lock :
    ¬ Reports (fun _ => 0) ⟨3200, 800, 600⟩ inWindowNew [.serial, .ttyWindow emptyTerminal] [112, 97, 110, 105, 99, 10] := by
  rintro ⟨s', reported⟩
  obtain ⟨_, written, _⟩ := Except.bind_ok_iff.mp reported
  have held : ¬ WinmanFree { inWindowNew with cpu := inWindowNew.cpu.interruptDisable } := by
    rw [WinmanFree]
    decide
  exact puts_held held _ emptyTerminal (List.mem_cons_of_mem _ (List.mem_singleton_self _)) 0 _ written

end Locks

end RubberOS.Soundness.PanicReports
