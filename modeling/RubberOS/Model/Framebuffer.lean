import RubberOS.Model.Window

/-! # The two framebuffers

A cell of a framebuffer holds a colour. `gui_init` makes the backbuffer as large as the screen; the frontbuffer is the
mapped framebuffer of the machine.
-/

namespace RubberOS.Model.Gui

/-- The colour in a cell after a write to it. -/
def Paint.apply : Paint → Color → Color
  | .set color, _ => color
  | .xor color, old => old ^^^ color

/-- `graphic_create_memory`, told whether `dynmem_alloc` finds the memory. -/
def graphicCreateMemory (fi : FbInfo) (allocated : Bool) : Result Graphic := do
  assert allocated "mem.ptr"
  return { pitch := fi.width, width := fi.width, height := fi.height,
           offset := ⟨0, 0, fi.width, fi.height⟩, clipping := ⟨0, 0, fi.width, fi.height⟩ }

/-- `gui_init`. -/
def guiInit (fi : FbInfo) (allocated : Bool) : Result Winman := do
  let backbuffer ← graphicCreateMemory fi allocated
  return { backbuffer,
           painting := false,
           sizingRect := ⟨0, 0, 0, 0⟩,
           sizing := false,
           windowList := [],
           scrSize := ⟨fi.width, fi.height⟩,
           mousePos := ⟨fi.width / 2, fi.height / 2⟩,
           globalInvalidated := ⟨0, 0, fi.width, fi.height⟩,
           bgColor := 0x001f00 }

end RubberOS.Model.Gui
