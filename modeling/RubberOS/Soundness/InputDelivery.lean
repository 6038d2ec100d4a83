import RubberOS.Proofs.Screen
import RubberOS.Soundness.TerminalRuns
import RubberOS.Soundness.WakeUps

/-! # From the interrupts to the windows

Interrupts arrive between any two instructions, the main loop handles their messages one by one, and now and
then it draws. Whatever the order, the windows are where handling the accepted messages in the order of their
arrival takes them, and the kernel sleeps only when it has handled them all. Nothing but a full queue loses a
message, and no step of the handling fails.
-/

namespace RubberOS.Soundness.InputDelivery

open Model Model.Collections Model.Interrupt Model.Ps2 Model.Spinlock Model.Gui Model.Kmain LabelledRuns WakeUps

/-- The messages, handled one after the other with nothing in between. -/
def dispatchAll (s : Input) : List IntrMsg → Result (Input × Sent)
  | [] => return (s, [])
  | msg :: rest => do
    let (s, sent) ← dispatchIntrMsg s msg
    let (s, more) ← dispatchAll s rest
    return (s, sent ++ more)

/-- A session with the messages that the queue has accepted and those that the windows have got. -/
structure Watched where
  session : Session
  accepted : List IntrMsg
  sent : Sent

/-- The kernel after `interrupt_init`, with what its setup makes. -/
def boot (msgBuffer : ℕ → IntrMsg) (setup : Nested Lock) (input : Input) : Watched :=
  ⟨⟨initial msgBuffer setup, input⟩, [], []⟩

/-- A message is accepted when the queue is not full. -/
def Watched.exec (s : Watched) (e : Event) : Result Watched := do
  let (session, sent) ← s.session.exec e
  let accepted := match e with
    | .interrupt msg => if ringbufferIsFull s.session.kernel.queue then s.accepted else s.accepted ++ [msg]
    | .next _ => s.accepted
  return ⟨session, accepted, s.sent ++ sent⟩

def Arrives (s : Watched) (e : Event) : Prop := Kmain.Arrives s.session.kernel e

abbrev Steps : Watched → Event → Watched → Prop := Guarded Arrives Watched.exec

/-- The message that `kmain` has taken from the queue and has not handled yet. -/
def inHand : Kmain.Point → List IntrMsg
  | .interruptEnable msg => [msg]
  | _ => []

/-- `kmain` has left its inner loop, and no interrupt has woken it since. -/
def Resting : Kmain.Point → Prop
  | .guiDrawAll _ | .interruptEnableAndWait | .waitForIntr | .halted => True
  | _ => False

section Dispatching

variable {s t u : Input} {msgs : List IntrMsg} {msg : IntrMsg} {sent more : Sent}

private theorem dispatchAll_snoc (before : dispatchAll s msgs = .ok (t, sent))
    (last : dispatchIntrMsg t msg = .ok (u, more)) :
    dispatchAll s (msgs ++ [msg]) = .ok (u, sent ++ more) := by
  induction msgs generalizing s sent with
  | nil =>
    cases before
    rw [List.nil_append, dispatchAll, last]
    simp only [dispatchAll, Except.ok_bind, pure, Except.pure, List.append_nil, List.nil_append]
  | cons first rest ih =>
    obtain ⟨⟨s₁, sent₁⟩, ran, before⟩ := Except.bind_ok_iff.mp before
    obtain ⟨⟨s₂, sent₂⟩, ran₂, same⟩ := Except.bind_ok_iff.mp before
    cases same
    rw [List.cons_append, dispatchAll, ran, Except.ok_bind]
    dsimp only
    rw [ih ran₂, Except.ok_bind, List.append_assoc]
    rfl

private theorem hearAll_append (pages : ℕ → Page) (sent more : Sent) :
    hearAll pages (sent ++ more) = hearAll (hearAll pages sent) more := List.foldl_append ..

theorem dispatchAll_ready {pages : ℕ → Page} (ready : s.Ready pages) (msgs : List IntrMsg) :
    ∃ t sent, dispatchAll s msgs = .ok (t, sent) ∧ t.Ready (hearAll pages sent) := by
  induction msgs generalizing s pages with
  | nil => exact ⟨s, [], rfl, ready⟩
  | cons msg rest ih =>
    obtain ⟨s₁, sent₁, ran₁, ready₁⟩ := dispatch_ready ready msg
    obtain ⟨t, sent₂, ran₂, ready₂⟩ := ih ready₁
    refine ⟨t, sent₁ ++ sent₂, Except.bind_ok_iff.mpr ⟨_, ran₁, Except.bind_ok_iff.mpr ⟨_, ran₂, rfl⟩⟩, ?_⟩
    rw [hearAll_append]
    exact ready₂

/-- Drawing leaves the input as it was, but for the damage. -/
private theorem drawn_ready {pages : ℕ → Page} (ready : s.Ready pages) :
    ∃ t, s.drawn = .ok t ∧ s.Alike t ∧ t.Ready pages := by
  obtain ⟨d, ran, alike⟩ := drawn_alike ready.painting
  refine ⟨{ s with screen.desktop := d }, Except.bind_ok_iff.mpr ⟨d, ran, rfl⟩, ⟨_, rfl, d, rfl, alike⟩, ready.packet,
    alike.painting.symm.trans ready.painting, ready.listed.alike alike, fun w member terminal => ?_⟩
  dsimp only at member
  rw [← alike.windowList] at member
  exact ready.showing w member ((alike.window w).proc.trans terminal)

end Dispatching

/-! ## Runs -/

/-- How far the input is: these messages are handled, and these wait in the queue. -/
structure Delivering (pages : ℕ → Page) (input : Input) (s : Watched) (done waiting : List IntrMsg) : Prop where
  accepted : s.accepted = done ++ (inHand s.session.kernel.point ++ waiting)
  holding : Holding s.session.kernel.queue waiting
  dispatched : ∃ reached, dispatchAll input done = .ok (reached, s.sent) ∧ reached.Alike s.session.input
  ready : s.session.input.Ready (hearAll pages s.sent)
  awake : Awake s.session.kernel

section Runs

variable {pages : ℕ → Page} {input : Input} {s t : Watched} {e : Event} {done waiting : List IntrMsg}
  {es : List Event} {msgBuffer : ℕ → IntrMsg} {setup : Nested Lock}

private theorem boot_delivering (ready : input.Ready pages) : Delivering pages input (boot msgBuffer setup input) []
    [] where
  accepted := rfl
  holding := holding_init msgBuffer
  dispatched := ⟨input, rfl, .refl input⟩
  ready := ready
  awake := initial_awake msgBuffer setup

private theorem inHand_wake (point : Kmain.Point) : inHand point.wake = inHand point := by
  cases point <;> rfl

/-- The work of an instruction is done whatever the state. -/
private theorem Delivering.work (delivering : Delivering pages input s done waiting) : ∃ t sent,
    s.session.work = .ok (t, sent) := by
  obtain ⟨drawn, ran, _, _⟩ := drawn_ready delivering.ready
  have redrawn : (do return (← s.session.input.drawn, []) : Result (Input × Sent)) = .ok (drawn, []) := by
    rw [ran]
    rfl
  rw [Session.work]
  split
  · rename_i msg _
    obtain ⟨t, sent, handled, _⟩ := dispatch_ready delivering.ready msg
    exact ⟨t, sent, handled⟩
  · exact ⟨_, _, redrawn⟩
  · split
    · exact ⟨_, _, redrawn⟩
    · exact ⟨_, _, rfl⟩
  · exact ⟨_, _, rfl⟩

/-- A step happens when the kernel's own step does: no handling and no drawing fails. -/
private theorem Delivering.progress (delivering : Delivering pages input s done waiting) {kernel : State}
    (ran : Kmain.exec s.session.kernel e = .ok kernel) : ∃ t, s.exec e = .ok t := by
  have worked : ∃ input sent, s.session.exec e = .ok (⟨kernel, input⟩, sent) := by
    cases e with
    | interrupt msg =>
      exact ⟨s.session.input, [], Except.bind_ok_iff.mpr ⟨_, rfl, Except.bind_ok_iff.mpr ⟨_, ran, rfl⟩⟩⟩
    | next callee =>
      obtain ⟨input, sent, worked⟩ := delivering.work
      exact ⟨input, sent, Except.bind_ok_iff.mpr ⟨_, worked, Except.bind_ok_iff.mpr ⟨_, ran, rfl⟩⟩⟩
  obtain ⟨input, sent, worked⟩ := worked
  exact ⟨_, Except.bind_ok_iff.mpr ⟨_, worked, rfl⟩⟩

/-- A handler puts its message at the end of the queue, unless the queue is full. -/
private theorem isr_cases {queue queue' : Ringbuffer IntrMsg} {msg : IntrMsg} (holding : Holding queue waiting)
    (ran : isr queue msg = .ok queue') :
    ringbufferIsFull queue = true ∧ Holding queue' waiting ∨
      ringbufferIsFull queue = false ∧ Holding queue' (waiting ++ [msg]) := by
  have pushed : ∃ fits, intrQueuePush queue msg = .ok (fits, queue') := by
    obtain ⟨type, data⟩ := msg
    cases type <;>
    · obtain ⟨⟨fits, queue⟩, pushed, same⟩ := Except.bind_ok_iff.mp ran
      cases same
      exact ⟨fits, pushed⟩
  obtain ⟨fits, pushed⟩ := pushed
  have full := holding.1.isFull_iff
  rw [holding.2] at full
  rcases holding.push msg with ⟨length, refused⟩ | ⟨length, queue'', taken, after⟩
  · cases refused.symm.trans pushed
    exact .inl ⟨full.mpr length, holding⟩
  · cases taken.symm.trans pushed
    exact .inr ⟨Bool.eq_false_iff.mpr fun isFull => Nat.ne_of_lt length (full.mp isFull), after⟩

private theorem Delivering.interrupt {msg : IntrMsg} (delivering : Delivering pages input s done waiting)
    (step : Steps s (.interrupt msg) t) : ∃ done' waiting', Delivering pages input t done' waiting' := by
  obtain ⟨arrives, ran⟩ := step
  obtain ⟨⟨session, sent⟩, stepped, same⟩ := Except.bind_ok_iff.mp ran
  cases same
  obtain ⟨worked, same, rest⟩ := Except.bind_ok_iff.mp stepped
  cases same
  obtain ⟨kernel, moved, same⟩ := Except.bind_ok_iff.mp rest
  cases same
  have awake := delivering.awake.step ⟨arrives, moved⟩
  obtain ⟨queue, pushed, same⟩ := Except.bind_ok_iff.mp moved
  cases same
  have dispatched := delivering.dispatched
  have ready := delivering.ready
  rw [← List.append_nil s.sent] at dispatched ready
  rcases isr_cases delivering.holding pushed with ⟨full, holding⟩ | ⟨room, holding⟩
  · refine ⟨done, waiting, ⟨?_, holding, dispatched, ready, awake⟩⟩
    dsimp only
    rw [if_pos full, inHand_wake]
    exact delivering.accepted
  · refine ⟨done, waiting ++ [msg], ⟨?_, holding, dispatched, ready, awake⟩⟩
    dsimp only
    rw [if_neg (by rw [room]; exact Bool.false_ne_true), inHand_wake, delivering.accepted]
    simp only [List.append_assoc]

/-- Instructions that neither take a message, nor handle one, nor draw. -/
private theorem Delivering.idle {session : Session} (delivering : Delivering pages input s done waiting)
    (queue : session.kernel.queue = s.session.kernel.queue) (same : s.session.input.Alike session.input)
    (ready : session.input.Ready (hearAll pages s.sent))
    (hand : inHand s.session.kernel.point = inHand session.kernel.point) (awake : Awake session.kernel) : Delivering pages input ⟨session, s.accepted, s.sent ++ []⟩ done waiting := by
  obtain ⟨reached, ran, alike⟩ := delivering.dispatched
  rw [List.append_nil]
  refine ⟨?_, ?_, ⟨reached, ran, alike.trans same⟩, ready, awake⟩
  · dsimp only
    rw [← hand]
    exact delivering.accepted
  · dsimp only
    rw [queue]
    exact delivering.holding

/-- The next instruction of `kmain`. -/
private theorem Delivering.next {callee : Nested Lock} (delivering : Delivering pages input s done waiting)
    (step : Steps s (.next callee) t) : ∃ done' waiting', Delivering pages input t done' waiting' := by
  obtain ⟨arrives, ran⟩ := step
  obtain ⟨⟨session, sent⟩, stepped, same⟩ := Except.bind_ok_iff.mp ran
  cases same
  obtain ⟨⟨after, sent'⟩, worked, going⟩ := Except.bind_ok_iff.mp stepped
  obtain ⟨kernel, moved, same⟩ := Except.bind_ok_iff.mp going
  cases same
  clear going stepped ran
  have awake := delivering.awake.step ⟨arrives, moved⟩
  rw [Session.work] at worked
  rw [Kmain.exec] at moved
  have redraws (drew : (do return (← s.session.input.drawn, []) : Result (Input × Sent)) = .ok (after, sent)) :
      sent = [] ∧ s.session.input.Alike after ∧ after.Ready (hearAll pages s.sent) := by
    obtain ⟨drawn, ran, alike, ready⟩ := drawn_ready delivering.ready
    rw [ran, Except.ok_bind] at drew
    cases drew
    exact ⟨rfl, alike, ready⟩
  have accepted := delivering.accepted
  have kept := Input.Alike.refl s.session.input
  have ready := delivering.ready
  generalize point : s.session.kernel.point = here at worked moved accepted
  cases here with
  | setup rest =>
    cases rest with
    | nil =>
      cases moved
      obtain ⟨rfl, alike, ready⟩ := redraws worked
      exact ⟨done, waiting, delivering.idle rfl alike ready (by rw [point]; rfl) awake⟩
    | cons instr rest =>
      cases worked
      obtain ⟨cpu, _, same⟩ := Except.bind_ok_iff.mp moved
      cases same
      exact ⟨done, waiting, delivering.idle rfl kept ready (by rw [point]; rfl) awake⟩
  | guiDrawAll rest =>
    cases worked
    cases rest with
    | nil =>
      cases moved
      exact ⟨done, waiting, delivering.idle rfl kept ready (by rw [point]; rfl) awake⟩
    | cons instr rest =>
      obtain ⟨cpu, _, same⟩ := Except.bind_ok_iff.mp moved
      cases same
      exact ⟨done, waiting, delivering.idle rfl kept ready (by rw [point]; rfl) awake⟩
  | interruptEnableAndWait =>
    cases worked
    cases moved
    exact ⟨done, waiting, delivering.idle rfl kept ready (by rw [point]; rfl) awake⟩
  | waitForIntr =>
    cases worked
    cases moved
    exact ⟨done, waiting, delivering.idle rfl kept ready (by rw [point]; rfl) awake⟩
  | halted =>
    cases worked
    cases moved
    exact ⟨done, waiting, delivering.idle rfl kept ready rfl awake⟩
  | interruptDisable =>
    cases worked
    cases moved
    exact ⟨done, waiting, delivering.idle rfl kept ready (by rw [point]; rfl) awake⟩
  | intrQueueTryPop =>
    have holding := delivering.holding
    cases waiting with
    | nil =>
      dsimp only at worked moved
      rw [if_pos (holding.1.isEmpty_iff.mpr rfl)] at worked
      rw [holding.pop_empty] at moved
      cases moved
      obtain ⟨rfl, alike, ready⟩ := redraws worked
      exact ⟨done, [], delivering.idle rfl alike ready (by rw [point]; rfl) awake⟩
    | cons msg rest =>
      obtain ⟨queue, popped, after⟩ := holding.pop
      dsimp only at worked moved
      rw [if_neg fun empty => List.cons_ne_nil _ _ (holding.1.isEmpty_iff.mp empty)] at worked
      rw [popped] at moved
      cases worked
      cases moved
      obtain ⟨reached, ran, alike⟩ := delivering.dispatched
      refine ⟨done, rest, ⟨accepted, after, ⟨reached, ?_, alike⟩, ?_, awake⟩⟩
      · rw [List.append_nil]
        exact ran
      · rw [List.append_nil]
        exact ready
  | interruptEnable msg =>
    cases moved
    obtain ⟨reached, ran, alike⟩ := delivering.dispatched
    obtain ⟨u, handled, ready⟩ : ∃ u, dispatchIntrMsg s.session.input msg = .ok (after, sent) ∧
        after.Ready (hearAll (hearAll pages s.sent) sent) ∧ u = after := by
      obtain ⟨u, sent', handled, ready⟩ := dispatch_ready ready msg
      cases handled.symm.trans worked
      exact ⟨_, handled, ready, rfl⟩
    obtain ⟨⟨reached', sent'⟩, handled', alike', rfl⟩ := (related_dispatchIntrMsg msg alike.symm).of_ok handled
    refine ⟨done ++ [msg], waiting, ⟨?_, delivering.holding, ⟨reached', dispatchAll_snoc ran handled', alike'.symm⟩,
      ?_, awake⟩⟩
    · dsimp only
      rw [accepted, inHand]
      simp only [inHand, List.append_assoc, List.nil_append]
    · rw [hearAll_append]
      exact ready.1
  | dispatchIntrMsg rest =>
    cases worked
    cases rest with
    | nil =>
      cases moved
      exact ⟨done, waiting, delivering.idle rfl kept ready (by rw [point]; rfl) awake⟩
    | cons instr rest =>
      obtain ⟨cpu, _, same⟩ := Except.bind_ok_iff.mp moved
      cases same
      exact ⟨done, waiting, delivering.idle rfl kept ready (by rw [point]; rfl) awake⟩

private theorem Delivering.step (delivering : Delivering pages input s done waiting) (step : Steps s e t) :
    ∃ done' waiting', Delivering pages input t done' waiting' := by
  cases e with
  | interrupt msg => exact delivering.interrupt step
  | next callee => exact delivering.next step

private theorem delivering_run (ready : input.Ready pages) (run : Run Steps (boot msgBuffer setup input) es t) :
    ∃ done waiting, Delivering pages input t done waiting := by
  have start : ∃ done waiting, Delivering pages input (boot msgBuffer setup input) done waiting :=
    ⟨[], [], boot_delivering ready⟩
  refine run.invariant (I := fun s => ∃ done waiting, Delivering pages input s done waiting) start ?_
  rintro s e t ⟨done, waiting, delivering⟩ step
  exact delivering.step step

/-- Where `kmain` rests, no message waits. -/
private theorem Delivering.rested (delivering : Delivering pages input s done waiting)
    (resting : Resting s.session.kernel.point) : waiting = [] ∧ inHand s.session.kernel.point = [] := by
  obtain ⟨items, holding, here⟩ := delivering.awake
  have count := delivering.holding.1.count.symm.trans holding.1.count
  have empty : items = [] ∧ inHand s.session.kernel.point = [] := by
    generalize s.session.kernel.point = point at here resting ⊢
    cases point with
    | guiDrawAll rest => exact ⟨here.2.1, rfl⟩
    | interruptEnableAndWait => exact ⟨here.2, rfl⟩
    | waitForIntr => exact ⟨here.2, rfl⟩
    | halted => exact ⟨here, rfl⟩
    | setup | interruptDisable | intrQueueTryPop | interruptEnable | dispatchIntrMsg => cases resting
  rw [empty.1, List.length_nil] at count
  exact ⟨List.eq_nil_of_length_eq_zero count, empty.2⟩

/-- Whenever interrupts arrive and whenever the kernel draws: the windows have got the messages that handling the
accepted messages in the order of their arrival sends, and but for the damage the input is where that leads; a message
is refused only while the queue is full of messages that wait; where the kernel rests none waits; and a step of the
kernel is never stopped by what it works on. -/
theorem input_delivered (ready : input.Ready pages) (run : Run Steps (boot msgBuffer setup input) es t) :
    ∃ done waiting,
      t.accepted = done ++ (inHand t.session.kernel.point ++ waiting) ∧
      (∃ reached, dispatchAll input done = .ok (reached, t.sent) ∧ reached.Alike t.session.input) ∧
      (ringbufferIsFull t.session.kernel.queue = true ↔ waiting.length = INTR_QUEUE_SIZE) ∧
      (Resting t.session.kernel.point → done = t.accepted) ∧
      ∀ e kernel, Kmain.exec t.session.kernel e = .ok kernel → ∃ u, t.exec e = .ok u := by
  obtain ⟨done, waiting, delivering⟩ := delivering_run ready run
  refine ⟨done, waiting, delivering.accepted, delivering.dispatched, ?_, fun resting => ?_, fun e kernel ran => ?_⟩
  · rw [delivering.holding.1.isFull_iff, delivering.holding.2]
  · obtain ⟨none, free⟩ := delivering.rested resting
    rw [delivering.accepted, none, free, List.append_nil, List.append_nil]
  · exact delivering.progress ran

/-- The character that a message brings to a window. -/
def typed (w : ℕ) : ℕ × WindowMessage → Option (BitVec 8)
  | (v, .char c) => if v = w then some (charByte c.ch) else none
  | (_, .mouse _) | (_, .key _) => none

/-- The characters that were sent to a window. -/
def typedInto (w : ℕ) (sent : Sent) : List (BitVec 8) := sent.filterMap (typed w)

private theorem hearAll_apply (pages : ℕ → Page) (sent : Sent) (w : ℕ) :
    hearAll pages sent w = (typedInto w sent).foldl Page.put (pages w) := by
  induction sent generalizing pages with
  | nil => rfl
  | cons message rest ih =>
    obtain ⟨v, message⟩ := message
    have next := ih (Function.update pages v ((pages v).hear message))
    rw [hearAll] at next ⊢
    rw [List.foldl_cons, next, typedInto, typedInto]
    rcases eq_or_ne v w with rfl | apart
    · rw [Function.update_self]
      cases message with
      | char c =>
        rw [List.filterMap_cons_some (show typed v (v, .char c) = some _ from if_pos rfl)]
        rfl
      | mouse evt => rfl
      | key evt => rfl
    · rw [Function.update_of_ne apart.symm]
      cases message with
      | char c => rw [List.filterMap_cons_none (show typed w (v, .char c) = none from if_neg apart)]
      | mouse evt => rfl
      | key evt => rfl

/-- In every state of every run each terminal window shows the page that it showed at the start with the characters
that were sent to it since, in their order. -/
theorem terminals_show_typed (ready : input.Ready pages) (run : Run Steps (boot msgBuffer setup input) es t) :
    ∀ w ∈ t.session.input.screen.desktop.windowList,
      (t.session.input.screen.desktop.window w).proc.isSome = true →
      ((typedInto w t.sent).foldl Page.put (pages w)).Shows (t.session.input.screen.terminal w) := by
  intro w member terminal
  obtain ⟨done, waiting, delivering⟩ := delivering_run ready run
  obtain ⟨shown, _⟩ := delivering.ready.showing w member terminal
  rw [hearAll_apply] at shown
  exact shown

end Runs

/-! ## The windows of the kernel -/

section Start

variable {d : Desktop} {s : Screen} {terminal : ℕ → TtyWindow} {tw : ℕ}

private theorem newWindowAt_proc (d : Desktop) (w v : ℕ) (scrRect : Rect) :
    ((newWindowAt d w scrRect).window v).proc = if v = w then none else (d.window v).proc := by
  rw [newWindowAt, windowNew]
  split_ifs with same
  · rw [same, setWindow_self]
    dsimp only
    rw [setWindow_self]
  · rw [setWindow_of_ne _ _ same]
    dsimp only
    rw [setWindow_of_ne _ _ same]

/-- A new window takes neither the focus nor the mouse. -/
private theorem newWindowAt_fields (d : Desktop) (w : ℕ) (scrRect : Rect) :
    (newWindowAt d w scrRect).painting = d.painting ∧ (newWindowAt d w scrRect).windowList = d.windowList ++ [w] ∧
      (newWindowAt d w scrRect).focused = d.focused ∧ (newWindowAt d w scrRect).mouseCapturing = d.mouseCapturing :=
  ⟨rfl, rfl, rfl, rfl⟩

/-- A blank terminal window has the focus. -/
structure BlankTerminal (s : Screen) (tw : ℕ) : Prop where
  painting : s.desktop.painting = false
  windowList : s.desktop.windowList = [tw]
  focused : s.desktop.focused = some tw
  capturing : s.desktop.mouseCapturing = none
  blank : TerminalRuns.Blank (s.terminal tw)

private theorem newTtyWindow_blank (painting : s.desktop.painting = false) (windows : s.desktop.windowList = [])
    (capturing : s.desktop.mouseCapturing = none) {object : TtyWindow} (cursorX : object.cursorX = 0)
    (cursorY : object.cursorY = 0) (w : ℕ) : ∃ t, newTtyWindow s w object = .ok t ∧ BlankTerminal t w := by
  have filled : ttyWindowInit object = .ok { object with buffer := memset object.buffer 0 32 2000 } := rfl
  refine ⟨_, Except.bind_ok_iff.mpr ⟨_, filled, rfl⟩, painting, ?_, rfl, capturing, ?_⟩
  · change s.desktop.windowList ++ [w] = [w]
    rw [windows, List.nil_append]
  · dsimp only
    rw [Function.update_self]
    refine ⟨cursorX, cursorY, fun address inside => ?_⟩
    dsimp only
    rw [memset_apply, if_pos ⟨Nat.zero_le _, by omega⟩]

/-- The windows of `kmain` are ready for input when the cursor of its terminal starts in the first cell. -/
theorem kmain_ready (painting : d.painting = false) (windows : d.windowList = []) (capturing : d.mouseCapturing = none)
    (cursorX : (terminal tw).cursorX = 0) (cursorY : (terminal tw).cursorY = 0) (w1 w2 : ℕ) : ∃ s,
      kmainWindows d terminal tw w1 w2 = .ok s ∧
      Input.Ready (fun _ => Page.blank) ⟨ps2KeyboardInit, ps2MouseInit, s⟩ := by
  obtain ⟨t, made, terminal⟩ := newTtyWindow_blank (s := ⟨⟨d, false, false, false⟩, terminal, ⟨-10, -10⟩⟩) painting
    windows capturing cursorX cursorY tw
  obtain ⟨painting₁, windows₁, focused₁, capturing₁⟩ := newWindowAt_fields t.desktop w1 ⟨50, 50, 400, 300⟩
  have proc₁ (v : ℕ) := newWindowAt_proc t.desktop w1 v ⟨50, 50, 400, 300⟩
  rw [terminal.painting] at painting₁
  rw [terminal.windowList] at windows₁
  rw [terminal.focused] at focused₁
  rw [terminal.capturing] at capturing₁
  refine ⟨_, Except.bind_ok_iff.mpr ⟨t, made, rfl⟩, ?_⟩
  generalize newWindowAt t.desktop w1 ⟨50, 50, 400, 300⟩ = d₁ at painting₁ windows₁ focused₁ capturing₁ proc₁ ⊢
  obtain ⟨painting₂, windows₂, focused₂, capturing₂⟩ := newWindowAt_fields d₁ w2 ⟨75, 75, 400, 300⟩
  have proc₂ (v : ℕ) := newWindowAt_proc d₁ w2 v ⟨75, 75, 400, 300⟩
  rw [painting₁] at painting₂
  rw [windows₁] at windows₂
  rw [focused₁] at focused₂
  rw [capturing₁] at capturing₂
  generalize newWindowAt d₁ w2 ⟨75, 75, 400, 300⟩ = d₂ at painting₂ windows₂ focused₂ capturing₂ proc₂ ⊢
  refine ⟨Nat.zero_lt_succ 2, painting₂, ⟨fun w focused => ?_, fun w captured => ?_⟩, fun w member proc => ?_⟩
  · cases focused₂.symm.trans focused
    dsimp only
    rw [windows₂]
    exact List.mem_cons_self
  · cases capturing₂.symm.trans captured
  · dsimp only at member proc ⊢
    rw [windows₂] at member
    rw [proc₂, proc₁] at proc
    split_ifs at proc with second first
    · cases proc
    · cases proc
    · simp only [List.cons_append, List.nil_append, List.mem_cons, first, second, List.not_mem_nil, or_false] at member
      rw [member]
      exact ⟨terminal.blank.shows, TerminalRuns.blank_neat⟩

end Start

/-! ## A key is typed -/

/-- A desktop before the first window. -/
def emptyDesktop : Desktop where
  painting := false
  sizingRect := ⟨0, 0, 0, 0⟩
  sizingPt := ⟨0, 0⟩
  sizing := false
  windowList := []
  focused := none
  mouseCapturing := none
  scrSize := ⟨1024, 768⟩
  mousePos := ⟨512, 384⟩
  globalInvalidated := ⟨0, 0, 1024, 768⟩
  window := fun _ => ⟨⟨[], ⟨0, 0, 0, 0⟩, 0, ⟨0, 0, 0, 0⟩, none⟩, false⟩

/-- The kernel runs for some events. -/
def proceed (s : Watched) : List Event → Result Watched
  | [] => .ok s
  | e :: rest => do proceed (← s.exec e) rest

private theorem proceed_run {s t u : Watched} {es fs : List Event} (before : Run Steps s es t)
    (quiet : ∀ e ∈ fs, ∃ callee, e = .next callee) (ran : proceed t fs = .ok u) : Run Steps s (es ++ fs) u := by
  induction fs generalizing t es with
  | nil =>
    cases ran
    rw [List.append_nil]
    exact before
  | cons e rest ih =>
    obtain ⟨middle, stepped, rested⟩ := Except.bind_ok_iff.mp ran
    obtain ⟨callee, rfl⟩ := quiet e List.mem_cons_self
    have arrives : Arrives t (.next callee) := True.intro
    have next := ih (before.snoc ⟨arrives, stepped⟩) (fun e member => quiet e (List.mem_cons_of_mem _ member)) rested
    rw [List.append_assoc] at next
    exact next

/-- An interrupt finds the kernel asleep, and the key goes to the terminal. -/
private theorem typing_run : ∃ screen es t, kmainWindows emptyDesktop (fun _ => ⟨fun _ => 0, 0, 0⟩) 1 2 3 = .ok screen ∧
    Run Steps (boot (fun _ => ⟨.keyboard, 0⟩) .done ⟨ps2KeyboardInit, ps2MouseInit, screen⟩) es t ∧
      t.accepted = [⟨.keyboard, 0x1e⟩] ∧ typedInto 1 t.sent = [97] ∧
      (t.session.input.screen.desktop.windowList, (t.session.input.screen.desktop.window 1).proc.isSome) =
        ([1, 2, 3], true) := by
  have computed : (do
      let screen ← kmainWindows emptyDesktop (fun _ => ⟨fun _ => 0, 0, 0⟩) 1 2 3
      let asleep ← proceed (boot (fun _ => ⟨.keyboard, 0⟩) .done ⟨ps2KeyboardInit, ps2MouseInit, screen⟩)
        (List.replicate 14 (.next .done))
      let woken ← asleep.exec (.interrupt ⟨.keyboard, 0x1e⟩)
      let typed ← proceed woken (List.replicate 3 (.next .done))
      return (asleep.session.kernel.cpu.interruptible, typed.accepted, typedInto 1 typed.sent,
        typed.session.input.screen.desktop.windowList, (typed.session.input.screen.desktop.window 1).proc.isSome) :
        Result _) = .ok (true, [⟨.keyboard, 0x1e⟩], [97], [1, 2, 3], true) := rfl
  simp only [Except.bind_ok_iff, Except.pure_ok_iff, Prod.mk.injEq] at computed
  obtain ⟨screen, made, asleep, slept, woken, interrupted, t, ran, enabled, accepted, sent, windows, proc⟩ := computed
  have quiet (n : ℕ) : ∀ e ∈ List.replicate n (Event.next (.done : Nested Lock)), ∃ callee, e = .next callee :=
    fun e member => ⟨.done, List.eq_of_mem_replicate member⟩
  have run := proceed_run ((proceed_run .nil (quiet 14) slept).snoc (e := Event.interrupt ⟨.keyboard, 0x1e⟩)
    ⟨enabled, interrupted⟩) (quiet 3) ran
  exact ⟨screen, _, t, made, run, accepted, sent, by rw [windows, proc]⟩

/-- The message of the key has been handled. -/
theorem input_delivered_typed : ∃ input es t,
    Run Steps (boot (fun _ => ⟨.keyboard, 0⟩) .done input) es t ∧ t.accepted = [⟨.keyboard, 0x1e⟩] ∧
      ∃ done waiting reached, t.accepted = done ++ (inHand t.session.kernel.point ++ waiting) ∧
        dispatchAll input done = .ok (reached, t.sent) := by
  obtain ⟨screen, es, t, made, run, accepted, _, _⟩ := typing_run
  obtain ⟨screen', made', ready⟩ := @kmain_ready emptyDesktop (fun _ => ⟨fun _ => 0, 0, 0⟩) 1 rfl rfl rfl rfl rfl 2 3
  cases made.symm.trans made'
  obtain ⟨done, waiting, split, ⟨reached, ran, _⟩, _⟩ := input_delivered ready run
  exact ⟨_, es, t, run, accepted, done, waiting, reached, split, ran⟩

/-- The terminal of `kmain` shows the letter of the key. -/
theorem terminals_show_typed_letter : ∃ input es t,
    Run Steps (boot (fun _ => ⟨.keyboard, 0⟩) .done input) es t ∧
      (t.session.input.screen.terminal 1).cursorX = 1 ∧ (t.session.input.screen.terminal 1).buffer 0 = 97 := by
  obtain ⟨screen, es, t, made, run, _, sent, windows⟩ := typing_run
  rw [Prod.mk.injEq] at windows
  obtain ⟨windows, proc⟩ := windows
  obtain ⟨screen', made', ready⟩ := @kmain_ready emptyDesktop (fun _ => ⟨fun _ => 0, 0, 0⟩) 1 rfl rfl rfl rfl rfl 2 3
  cases made.symm.trans made'
  have shown := terminals_show_typed ready run 1 (by rw [windows]; decide) proc
  rw [sent] at shown
  exact ⟨_, es, t, run, shown.cursorX, shown.cells 0 (by decide) 0 (by decide)⟩

end RubberOS.Soundness.InputDelivery
