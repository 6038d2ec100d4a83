import Mathlib.Data.Set.Insert
import RubberOS.Proofs.Ps2Keyboard
import RubberOS.ToMathlib.LabelledRuns

/-! # The modifier flags follow the keys held

A run presses and releases physical keys, each of which sends its complete code. The Shift and Alt
flags say which of their keys are held. The decoder reports both Ctrl keys under one key code, so the
Ctrl flag is lost when one of them is released while the other is held, and only then.
-/

namespace RubberOS.Soundness.KeyboardModifiers

open Model Model.Ps2 LabelledRuns

/-- The keyboard with the keys held down. -/
structure State where
  keyboard : Ps2Keyboard
  held : Set PhysicalKey

inductive Event where
  | press (key : PhysicalKey)
  | release (key : PhysicalKey)

def initial : State := ⟨ps2KeyboardInit, ∅⟩

/-- Only a held key is released; a held key may repeat its make code. -/
def Enabled (s : State) : Event → Prop
  | .press _ => True
  | .release key => key ∈ s.held

/-- One press or release, with all bytes of its code handled. -/
def exec (s : State) : Event → Result State
  | .press key => do
    let keyboard ← feed s.keyboard key.makeCode
    return ⟨keyboard, insert key s.held⟩
  | .release key => do
    let keyboard ← feed s.keyboard key.breakCode
    return ⟨keyboard, s.held \ {key}⟩

def lshift : PhysicalKey := .plain 0x2a (by decide)
def rshift : PhysicalKey := .plain 0x36 (by decide)
def lctrl : PhysicalKey := .plain 0x1d (by decide)
def rctrl : PhysicalKey := .extended 0x1d (by decide)
def lalt : PhysicalKey := .plain 0x38 (by decide)
def ralt : PhysicalKey := .extended 0x38 (by decide)

/-- A Ctrl key is released only while the other one is not held. -/
def CtrlApart (s : State) : Event → Prop
  | .press _ => True
  | .release key => (key = lctrl → rctrl ∉ s.held) ∧ (key = rctrl → lctrl ∉ s.held)

def ShiftRight (s : State) : Prop :=
  (s.keyboard.lshift || s.keyboard.rshift) = true ↔ lshift ∈ s.held ∨ rshift ∈ s.held

def AltRight (s : State) : Prop :=
  (s.keyboard.lalt || s.keyboard.ralt) = true ↔ lalt ∈ s.held ∨ ralt ∈ s.held

def CtrlRight (s : State) : Prop :=
  (s.keyboard.lctrl || s.keyboard.rctrl) = true ↔ lctrl ∈ s.held ∨ rctrl ∈ s.held

/-! ## Keys and their key codes -/

private theorem modifier_codes : ∀ code : BitVec 8,
    (keycodeNormal code = .keyLshift ↔ code = 0x2a) ∧ (keycodeNormal code = .keyRshift ↔ code = 0x36) ∧
    (keycodeNormal code = .keyLctrl ↔ code = 0x1d) ∧ keycodeNormal code ≠ .keyRctrl ∧
    (keycodeNormal code = .keyLalt ↔ code = 0x38) ∧ keycodeNormal code ≠ .keyRalt ∧
    keycodeExtended code ≠ .keyLshift ∧ keycodeExtended code ≠ .keyRshift ∧
    (keycodeExtended code = .keyLctrl ↔ code = 0x1d) ∧ keycodeExtended code ≠ .keyRctrl ∧
    keycodeExtended code ≠ .keyLalt ∧ (keycodeExtended code = .keyRalt ↔ code = 0x38) := by
  decide +kernel

/-- The key code belongs to one key. -/
def Sole (m : Keycode) (own : PhysicalKey) : Prop := ∀ key : PhysicalKey, key.keycode = m ↔ key = own

private theorem sole_lshift : Sole .keyLshift lshift := by
  intro key
  cases key <;> simp [PhysicalKey.keycode, lshift, modifier_codes]

private theorem sole_rshift : Sole .keyRshift rshift := by
  intro key
  cases key <;> simp [PhysicalKey.keycode, rshift, modifier_codes]

private theorem sole_lalt : Sole .keyLalt lalt := by
  intro key
  cases key <;> simp [PhysicalKey.keycode, lalt, modifier_codes]

private theorem sole_ralt : Sole .keyRalt ralt := by
  intro key
  cases key <;> simp [PhysicalKey.keycode, ralt, modifier_codes]

/-- Both Ctrl keys are reported as the left one. -/
private theorem keycode_lctrl (key : PhysicalKey) : key.keycode = .keyLctrl ↔ key = lctrl ∨ key = rctrl := by
  cases key <;> simp [PhysicalKey.keycode, lctrl, rctrl, modifier_codes]

private theorem keycode_ne_rctrl (key : PhysicalKey) : key.keycode ≠ .keyRctrl := by
  cases key <;> simp [PhysicalKey.keycode, modifier_codes]

/-! ## Runs -/

/-- The flags between complete codes, apart from the Ctrl flag that the keys share. -/
structure Tracks (s : State) : Prop where
  start : s.keyboard.state = .start
  sole : ∀ m ∈ modifiers, ∀ own, Sole m own → (s.keyboard.modifier m = true ↔ own ∈ s.held)
  unused : s.keyboard.modifier .keyRctrl = false

section Runs

variable {s t : State} {e : Event}

private theorem initial_tracks : Tracks initial where
  start := rfl
  sole m member own _ := by
    simp only [modifiers, List.mem_cons, List.not_mem_nil, or_false] at member
    rcases member with rfl | rfl | rfl | rfl | rfl | rfl <;>
      simp [initial, ps2KeyboardInit, Ps2Keyboard.modifier]
  unused := rfl

/-- What one event does to the keyboard and to the held keys. -/
private theorem exec_cases (tracks : Tracks s) (e : Event) : ∃ t, exec s e = .ok t ∧ match e with
    | .press key => Sets key true s.keyboard t.keyboard ∧ t.held = insert key s.held
    | .release key => Sets key false s.keyboard t.keyboard ∧ t.held = s.held \ {key} := by
  cases e with
  | press key =>
    obtain ⟨keyboard, ran, sets⟩ := feed_makeCode tracks.start key
    refine ⟨⟨keyboard, insert key s.held⟩, ?_, sets, rfl⟩
    rw [exec, ran]
    rfl
  | release key =>
    obtain ⟨keyboard, ran, sets⟩ := feed_breakCode tracks.start key
    refine ⟨⟨keyboard, s.held \ {key}⟩, ?_, sets, rfl⟩
    rw [exec, ran]
    rfl

private theorem Tracks.step (tracks : Tracks s) (ran : exec s e = .ok t) : Tracks t := by
  obtain ⟨reached, found, effect⟩ := exec_cases tracks e
  obtain rfl := Except.ok.inj (found.symm.trans ran)
  cases e with
  | press key =>
    obtain ⟨⟨start, sets⟩, held⟩ := effect
    refine ⟨start, fun m member own sole => ?_, ?_⟩
    · rw [sets m member, held, Set.mem_insert_iff, eq_comm (a := own), ← sole key]
      split_ifs with same
      · simp [same]
      · simp [same, tracks.sole m member own sole]
    · rw [sets _ (by decide), if_neg (keycode_ne_rctrl key)]
      exact tracks.unused
  | release key =>
    obtain ⟨⟨start, sets⟩, held⟩ := effect
    refine ⟨start, fun m member own sole => ?_, ?_⟩
    · rw [sets m member, held, Set.mem_sdiff, Set.mem_singleton_iff, eq_comm (a := own), ← sole key]
      split_ifs with same
      · simp [same]
      · simp [same, tracks.sole m member own sole]
    · rw [sets _ (by decide), if_neg (keycode_ne_rctrl key)]
      exact tracks.unused

/-- A step keeps the Ctrl flags right exactly when it releases no Ctrl key under the other. -/
private theorem Tracks.ctrl_step (tracks : Tracks s) (right : CtrlRight s) (step : Guarded Enabled exec s e t) :
    CtrlRight t ↔ CtrlApart s e := by
  obtain ⟨enabled, ran⟩ := step
  have after := (tracks.step ran).unused
  have before := tracks.unused
  obtain ⟨reached, found, effect⟩ := exec_cases tracks e
  obtain rfl := Except.ok.inj (found.symm.trans ran)
  have distinct : lctrl ≠ rctrl := by decide
  simp only [Ps2Keyboard.modifier] at after before
  rw [CtrlRight, before, Bool.or_false] at right
  rw [CtrlRight, after, Bool.or_false]
  cases e with
  | press key =>
    obtain ⟨⟨_, sets⟩, held⟩ := effect
    have flag := sets .keyLctrl (by decide)
    simp only [Ps2Keyboard.modifier, keycode_lctrl] at flag
    rw [flag, held]
    refine iff_of_true ?_ trivial
    split_ifs with own
    · rcases own with rfl | rfl <;> simp
    · rw [not_or] at own
      simp [Set.mem_insert_iff, Ne.symm own.1, Ne.symm own.2, right]
  | release key =>
    obtain ⟨⟨_, sets⟩, held⟩ := effect
    have flag := sets .keyLctrl (by decide)
    simp only [Ps2Keyboard.modifier, keycode_lctrl] at flag
    rw [flag, held, CtrlApart]
    split_ifs with own
    · rcases own with rfl | rfl
      · simp [distinct, distinct.symm]
      · simp [distinct, distinct.symm]
    · rw [not_or] at own
      simp [own.1, own.2, Ne.symm own.1, Ne.symm own.2, right]

variable {es : List Event}

/-- Every further press or release is handled, and after every run the Shift and Alt flags are right.
The Ctrl flags are right after every run that releases no Ctrl key under the other, and any further
step keeps them right exactly when it does not either. -/
theorem modifiers_follow_keys (run : Run (Guarded Enabled exec) initial es s) :
    (∀ e, ∃ t, exec s e = .ok t) ∧ ShiftRight s ∧ AltRight s ∧
    (Run (Guarded (fun s e => Enabled s e ∧ CtrlApart s e) exec) initial es s →
      CtrlRight s ∧ ∀ e t, Guarded Enabled exec s e t → (CtrlRight t ↔ CtrlApart s e)) := by
  have tracks : Tracks s := run.invariant initial_tracks fun _ _ _ tracks step => tracks.step step.2
  refine ⟨fun e => ?_, ?_, ?_, fun apart => ?_⟩
  · obtain ⟨t, ran, _⟩ := exec_cases tracks e
    exact ⟨t, ran⟩
  · rw [ShiftRight, Bool.or_eq_true]
    exact or_congr (tracks.sole .keyLshift (by decide) lshift sole_lshift)
      (tracks.sole .keyRshift (by decide) rshift sole_rshift)
  · rw [AltRight, Bool.or_eq_true]
    exact or_congr (tracks.sole .keyLalt (by decide) lalt sole_lalt)
      (tracks.sole .keyRalt (by decide) ralt sole_ralt)
  · have fresh : Tracks initial ∧ CtrlRight initial :=
      ⟨initial_tracks, iff_of_false (by decide) (by simp [initial])⟩
    have right : Tracks s ∧ CtrlRight s := by
      refine apart.invariant (I := fun s => Tracks s ∧ CtrlRight s) fresh fun t e u both step => ?_
      obtain ⟨⟨enabled, between⟩, ran⟩ := step
      exact ⟨both.1.step ran, (both.1.ctrl_step both.2 ⟨enabled, ran⟩).mpr between⟩
    exact ⟨right.2, fun e t step => right.1.ctrl_step right.2 step⟩

private theorem press_both_ctrl : exec initial (.press lctrl) = .ok ⟨{ ps2KeyboardInit with lctrl := true },
    {lctrl}⟩ ∧
    exec ⟨{ ps2KeyboardInit with lctrl := true }, {lctrl}⟩ (.press rctrl) =
      .ok ⟨{ ps2KeyboardInit with lctrl := true }, {rctrl, lctrl}⟩ := by
  have first : feed ps2KeyboardInit lctrl.makeCode =
      .ok { ps2KeyboardInit with lctrl := true } := by decide +kernel
  have second : feed { ps2KeyboardInit with lctrl := true } rctrl.makeCode =
      .ok { ps2KeyboardInit with lctrl := true } := by decide +kernel
  constructor
  · rw [exec, initial, first, Except.ok_bind, ← insert_empty_eq]
    rfl
  · rw [exec, second]
    rfl

theorem modifiers_follow_keys_two : ∃ s, Run (Guarded Enabled exec) initial [.press lctrl, .press rctrl] s ∧
    CtrlRight s ∧ ShiftRight s := by
  obtain ⟨first, second⟩ := press_both_ctrl
  have run : Run (Guarded Enabled exec) initial ([] ++ [.press lctrl] ++ [.press rctrl]) _ :=
    .snoc (.snoc .nil ⟨trivial, first⟩) ⟨trivial, second⟩
  have apart : Run (Guarded (fun s e => Enabled s e ∧ CtrlApart s e) exec) initial
      ([] ++ [.press lctrl] ++ [.press rctrl]) _ :=
    .snoc (.snoc .nil ⟨⟨trivial, trivial⟩, first⟩) ⟨⟨trivial, trivial⟩, second⟩
  obtain ⟨_, shift, _, ctrl⟩ := modifiers_follow_keys run
  exact ⟨_, run, (ctrl apart).1, shift⟩

/-- Releasing the right Ctrl key clears the flag of the left one, which is still held. -/
theorem right_ctrl_clears_left : ∃ s,
    Run (Guarded Enabled exec) initial [.press lctrl, .press rctrl, .release rctrl] s ∧ ¬ CtrlRight s := by
  obtain ⟨first, second⟩ := press_both_ctrl
  have cleared : feed { ps2KeyboardInit with lctrl := true } rctrl.breakCode =
      .ok ps2KeyboardInit := by decide +kernel
  have third : exec ⟨{ ps2KeyboardInit with lctrl := true }, {rctrl, lctrl}⟩ (.release rctrl) =
      .ok ⟨ps2KeyboardInit, {rctrl, lctrl} \ {rctrl}⟩ := by
    rw [exec, cleared]
    rfl
  have run : Run (Guarded Enabled exec) initial
      ([] ++ [.press lctrl] ++ [.press rctrl] ++ [.release rctrl]) _ :=
    .snoc (.snoc (.snoc .nil ⟨trivial, first⟩) ⟨trivial, second⟩) ⟨.inl rfl, third⟩
  refine ⟨_, run, fun right => ?_⟩
  have held : lctrl ∈ ({rctrl, lctrl} \ {rctrl} : Set PhysicalKey) := by
    simp [show lctrl ≠ rctrl by decide]
  exact absurd (right.mpr (.inl held)) (by decide)

end Runs

end RubberOS.Soundness.KeyboardModifiers
