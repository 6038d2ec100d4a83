import Mathlib.Tactic.SplitIfs
import RubberOS.Model.Desktop

/-! # The mouse pointer

A packet moves the pointer by its 9-bit displacements, and `gui_mouse_move` keeps it on the screen at the left and at
the upper border. At the right and at the lower one it lets the pointer go one pixel too far.
-/

namespace RubberOS.Soundness.MousePointer

open Model Model.Gui Model.Ps2

/-- The three bytes that the mouse sends together. -/
structure Packet where
  flags : BitVec 8
  second : BitVec 8
  third : BitVec 8

/-- A byte with its sign among the flags, as a 9-bit integer. -/
def signed (byte : BitVec 8) (negative : Prop) [Decidable negative] : ℤ := byte.toNat - if negative then 256 else 0

def Packet.dx (p : Packet) : ℤ := signed p.second (p.flags &&& 0x10 ≠ 0)

/-- Upwards, as the mouse counts. -/
def Packet.dy (p : Packet) : ℤ := signed p.third (p.flags &&& 0x20 ≠ 0)

/-- A byte is decoded, and an event goes to `gui_on_mouse`. -/
def putByte (ms : Ps2Mouse) (s : MouseState) (byte : BitVec 8) : Result (Ps2Mouse × MouseState) := do
  match ← ps2MousePutByte ms byte with
  | (some evt, ms) => return (ms, (guiOnMouse s evt).1)
  | (none, ms) => return (ms, s)

def putPacket (ms : Ps2Mouse) (s : MouseState) (p : Packet) : Result (Ps2Mouse × MouseState) := do
  let (ms, s) ← putByte ms s p.flags
  let (ms, s) ← putByte ms s p.second
  putByte ms s p.third

/-- The pointer is on a pixel of the screen. -/
def Visible (d : Desktop) : Prop :=
  (0 ≤ d.mousePos.x ∧ d.mousePos.x < d.scrSize.width) ∧ 0 ≤ d.mousePos.y ∧ d.mousePos.y < d.scrSize.height

/-- What a packet has to do: the pointer goes to the sum of its place and the displacement, clamped to the screen, and
the damage covers its glyph at both places. -/
structure Moves (s : MouseState) (p : Packet) (s' : MouseState) : Prop where
  visible : Visible s'.desktop
  x : s'.desktop.mousePos.x = max 0 (min (s.desktop.mousePos.x + p.dx) (s.desktop.scrSize.width - 1))
  y : s'.desktop.mousePos.y = max 0 (min (s.desktop.mousePos.y - p.dy) (s.desktop.scrSize.height - 1))
  old : ∀ x y, rectContains (cursorRect s.desktop.mousePos) x y = true → rectContains s'.desktop.globalInvalidated x y = true
  new : ∀ x y, rectContains (cursorRect s'.desktop.mousePos) x y = true → rectContains s'.desktop.globalInvalidated x y = true

/-- A packet does not push the pointer beyond the right or the lower border. -/
def StaysInside (s : MouseState) (p : Packet) : Prop :=
  s.desktop.mousePos.x + p.dx < s.desktop.scrSize.width ∧ s.desktop.mousePos.y - p.dy < s.desktop.scrSize.height

/-- The packets are handled one after the other, and this holds of every step. -/
def Along (R : MouseState → Packet → MouseState → Prop) (ms : Ps2Mouse) (s : MouseState) : List Packet → Prop
  | [] => True
  | p :: rest => ∃ ms' s', putPacket ms s p = .ok (ms', s') ∧ R s p s' ∧ Along R ms' s' rest

/-! ## Decoding -/

section Decoding

variable {ms : Ps2Mouse}

/-- The sign bit is extended to `int16_t`. -/
private theorem displacement_eq (byte : BitVec 8) (negative : Prop) [Decidable negative] :
    displacement byte (decide negative) = signed byte negative := by
  rw [displacement, signed]
  have small := byte.isLt
  have low : (byte.zeroExtend 16).toNat = byte.toNat := by
    rw [BitVec.zeroExtend, BitVec.toNat_setWidth, Nat.mod_eq_of_lt (by omega)]
  by_cases sign : negative
  · have high : (byte.zeroExtend 16 ||| 0xff00).toNat = 255 * 2 ^ 8 + byte.toNat := by
      rw [BitVec.toNat_or, low, Nat.or_comm, ← Nat.shiftLeft_eq, Nat.shiftLeft_add_eq_or_of_lt small]
      rfl
    rw [if_pos (decide_eq_true sign), if_pos sign, BitVec.toInt_eq_toNat_cond, high]
    split
    · omega
    · omega
  · have none : byte.zeroExtend 16 ||| 0 = byte.zeroExtend 16 := BitVec.or_zero
    rw [if_neg (by rwa [decide_eq_true_eq]), if_neg sign, none, BitVec.toInt_eq_toNat_cond, low]
    split
    · omega
    · omega

/-- A decoder between two packets makes one event of the next one. -/
private theorem putPacket_eq (framed : ms.packetIndex = 0) (s : MouseState) (p : Packet) : ∃ packet,
    putPacket ms s p = .ok (⟨0, packet⟩, (guiOnMouse s (packetEvent p.flags p.second p.third)).1) := by
  obtain ⟨index, packet⟩ := ms
  cases framed
  exact ⟨_, rfl⟩

end Decoding

/-! ## One step -/

/-- The pointer and the screen stay as they are, and damage is not lost. -/
structure Keeps (d d' : Desktop) : Prop where
  mousePos : d'.mousePos = d.mousePos
  scrSize : d'.scrSize = d.scrSize
  damage : ∀ x y, rectContains d.globalInvalidated x y = true → rectContains d'.globalInvalidated x y = true

section Step

variable {d d' d'' : Desktop} {s s' : MouseState} {p : Packet} {w : ℕ} {evt : GuiMouseEvent}

private theorem Keeps.trans (first : Keeps d d') (second : Keeps d' d'') : Keeps d d'' :=
  ⟨second.mousePos.trans first.mousePos, second.scrSize.trans first.scrSize,
    fun x y inside => second.damage x y (first.damage x y inside)⟩

private theorem onNcMouse_keeps (d : Desktop) (w : ℕ) (evt : GuiMouseEvent) : Keeps d (onNcMouse d w evt) := by
  rw [onNcMouse]
  split
  · exact ⟨rfl, rfl, fun _ _ => rectContains_union_left _⟩
  · exact ⟨rfl, rfl, fun _ _ => id⟩

private theorem onMoving_keeps (d : Desktop) (w : ℕ) (evt : GuiMouseEvent) : Keeps d (onMoving d w evt) := by
  rw [onMoving]
  split
  · exact ⟨rfl, rfl, fun _ _ => rectContains_union_left _⟩
  · exact ⟨rfl, rfl, fun _ _ => rectContains_union_left _⟩

private theorem moveToFront_keeps (d : Desktop) (w : ℕ) : Keeps d (moveToFront d w) := ⟨rfl, rfl, fun _ _ => id⟩

/-- A message to a window does not move the pointer. -/
private theorem windowSendmsgMouse_keeps (d : Desktop) (x y : ℤ) (evt : GuiMouseEvent) :
    Keeps d (windowSendmsgMouse d x y evt).1 := by
  rw [windowSendmsgMouse]
  cases mouseTarget d x y with
  | none => exact ⟨rfl, rfl, fun _ _ => id⟩
  | some w =>
    dsimp only
    split
    · exact onMoving_keeps d w evt
    have front : Keeps d (if guiMouseEventDown evt.left evt.prevLeft || guiMouseEventDown evt.right evt.prevRight ||
        guiMouseEventDown evt.middle evt.prevMiddle then moveToFront d w else d) := by
      split
      · exact moveToFront_keeps d w
      · exact ⟨rfl, rfl, fun _ _ => id⟩
    generalize (if guiMouseEventDown evt.left evt.prevLeft || guiMouseEventDown evt.right evt.prevRight ||
        guiMouseEventDown evt.middle evt.prevMiddle then moveToFront d w else d) = d' at front ⊢
    split
    · exact front
    · exact front.trans (onNcMouse_keeps d' w _)

private theorem clampCursor_cases {size : ℤ} (pos : ℤ) (some_ : 0 < size) : 0 ≤ clampCursor pos size ∧
    (clampCursor pos size < size ↔ pos < size) ∧
      (pos < size → clampCursor pos size = max 0 (min pos (size - 1))) := by
  rw [clampCursor]
  split_ifs
  · omega
  · omega
  · omega

/-- The pointer goes to the clamped place, one pixel beyond the border included, and both glyphs are invalidated. -/
private theorem guiOnMouse_spec (s : MouseState) (p : Packet) :
    let d := s.desktop
    let d' := (guiOnMouse s (packetEvent p.flags p.second p.third)).1.desktop
    d'.mousePos = ⟨clampCursor (d.mousePos.x + p.dx) d.scrSize.width,
      clampCursor (d.mousePos.y - p.dy) d.scrSize.height⟩ ∧
      d'.scrSize = d.scrSize ∧
      (∀ x y, rectContains (cursorRect d.mousePos) x y = true → rectContains d'.globalInvalidated x y = true) ∧
      ∀ x y, rectContains (cursorRect d'.mousePos) x y = true → rectContains d'.globalInvalidated x y = true := by
  dsimp only
  have event : (packetEvent p.flags p.second p.third).dx = p.dx ∧ (packetEvent p.flags p.second p.third).dy = p.dy :=
    ⟨displacement_eq _ _, displacement_eq _ _⟩
  generalize packetEvent p.flags p.second p.third = evt at event ⊢
  obtain ⟨dx, dy⟩ := event
  have kept := windowSendmsgMouse_keeps (guiMouseMove s.desktop evt.dx (-evt.dy)).1
    (guiMouseMove s.desktop evt.dx (-evt.dy)).2.x (guiMouseMove s.desktop evt.dx (-evt.dy)).2.y
    (mouseEvent s (guiMouseMove s.desktop evt.dx (-evt.dy)).2 evt)
  obtain ⟨place, screen, damage⟩ := kept
  rw [← dx, ← dy]
  refine ⟨place, screen, fun x y inside => ?_, fun x y inside => ?_⟩
  · exact damage x y (rectContains_union_right _ (rectContains_union_left _ inside))
  · have pointer : (guiOnMouse s evt).1.desktop.mousePos = _ := place
    rw [pointer] at inside
    exact damage x y (rectContains_union_right _ (rectContains_union_right _ inside))

/-- A packet moves the pointer as it has to exactly if it does not push it beyond the two borders. -/
private theorem guiOnMouse_moves_iff (wide : 0 < s.desktop.scrSize.width) (high : 0 < s.desktop.scrSize.height) :
    Moves s p (guiOnMouse s (packetEvent p.flags p.second p.third)).1 ↔ StaysInside s p := by
  obtain ⟨place, screen, old, new⟩ := guiOnMouse_spec s p
  generalize (guiOnMouse s (packetEvent p.flags p.second p.third)).1 = s' at *
  obtain ⟨left, xInside, xClamped⟩ := clampCursor_cases (s.desktop.mousePos.x + p.dx) wide
  obtain ⟨top, yInside, yClamped⟩ := clampCursor_cases (s.desktop.mousePos.y - p.dy) high
  have x : s'.desktop.mousePos.x = clampCursor (s.desktop.mousePos.x + p.dx) s.desktop.scrSize.width := by rw [place]
  have y : s'.desktop.mousePos.y = clampCursor (s.desktop.mousePos.y - p.dy) s.desktop.scrSize.height := by rw [place]
  constructor
  · intro moves
    obtain ⟨⟨_, right⟩, _, bottom⟩ := moves.visible
    rw [screen] at right bottom
    rw [x] at right
    rw [y] at bottom
    exact ⟨xInside.mp right, yInside.mp bottom⟩
  · rintro ⟨right, bottom⟩
    refine ⟨?_, x.trans (xClamped right), y.trans (yClamped bottom), old, new⟩
    rw [Visible, screen, x, y]
    exact ⟨⟨left, xInside.mpr right⟩, top, yInside.mpr bottom⟩

end Step

/-! ## Runs -/

section Runs

variable {ms ms' : Ps2Mouse} {s s' : MouseState} {p : Packet} {packets : List Packet}

private theorem along_cons {R : MouseState → Packet → MouseState → Prop} (ran : putPacket ms s p = .ok (ms', s')) :
    Along R ms s (p :: packets) ↔ R s p s' ∧ Along R ms' s' packets := by
  constructor
  · rintro ⟨_, _, again, step, rest⟩
    cases again.symm.trans ran
    exact ⟨step, rest⟩
  · rintro ⟨step, rest⟩
    exact ⟨_, _, ran, step, rest⟩

/-- In a run of packets, the pointer moves as it has to all the time exactly if no packet pushes it beyond the
right or the lower border. -/
theorem pointer_moves_iff (framed : ms.packetIndex = 0) (visible : Visible s.desktop) :
    Along Moves ms s packets ↔ Along (fun s p _ => StaysInside s p) ms s packets := by
  have wide : 0 < s.desktop.scrSize.width := by have := visible.1; omega
  have high : 0 < s.desktop.scrSize.height := by have := visible.2; omega
  clear visible
  induction packets generalizing ms s with
  | nil => exact Iff.rfl
  | cons p rest ih =>
    obtain ⟨packet, ran⟩ := putPacket_eq framed s p
    rw [along_cons ran, along_cons ran, guiOnMouse_moves_iff wide high]
    obtain ⟨_, screen, _⟩ := guiOnMouse_spec s p
    rw [← screen] at wide high
    exact and_congr_right' (ih rfl wide high)

/-- `gui_init` puts the pointer on a pixel. -/
theorem init_visible {fi : FbInfo} {allocated : Bool} {wm : Winman} (window : ℕ → ManagedWindow) (wide : 0 < fi.width)
    (high : 0 < fi.height) (made : guiInit fi allocated = .ok wm) : Visible (desktopInit wm window) := by
  obtain ⟨backbuffer, _, made⟩ := Except.bind_ok_iff.mp made
  cases made
  simp only [Visible, desktopInit]
  omega

/-- The pointer at a place of a screen without windows. -/
def screenMouse (x y : ℤ) : MouseState where
  desktop :=
    { painting := false, sizingRect := ⟨0, 0, 0, 0⟩, sizingPt := ⟨0, 0⟩, sizing := false, windowList := [],
      focused := none, mouseCapturing := none, scrSize := ⟨1024, 768⟩, mousePos := ⟨x, y⟩,
      globalInvalidated := ⟨0, 0, 0, 0⟩, window := fun _ => ⟨⟨[], ⟨0, 0, 0, 0⟩, 0, ⟨0, 0, 0, 0⟩, none⟩, false⟩ }
  prevLeft := false
  prevRight := false
  prevMiddle := false

theorem pointer_moves_iff_left : Along Moves ps2MouseInit (screenMouse 512 384) [⟨0x18, 0x80, 0⟩] ↔
    Along (fun s p _ => StaysInside s p) ps2MouseInit (screenMouse 512 384) [⟨0x18, 0x80, 0⟩] :=
  pointer_moves_iff rfl (by simp only [Visible, screenMouse]; decide)

/-- From the last column, a packet to the right moves the pointer off the screen. -/
theorem pointer_leaves_screen : Visible (screenMouse 1023 384).desktop ∧
    ¬Along Moves ps2MouseInit (screenMouse 1023 384) [⟨0x08, 1, 0⟩] := by
  refine ⟨by simp only [Visible, screenMouse]; decide, ?_⟩
  rintro ⟨ms', s', ran, moves, _⟩
  cases ran
  exact absurd moves.visible.1.2 (by decide)

end Runs

end RubberOS.Soundness.MousePointer
